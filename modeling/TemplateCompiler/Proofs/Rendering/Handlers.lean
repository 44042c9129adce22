import TemplateCompiler.Proofs.Handling.Kinds
import TemplateCompiler.Proofs.Transcript.Diagnosed

/-!
# Handlers that only write

Handlers may do all kinds of things to a session. Those of a library that only writes
(`Library.OnlyWrites`) write text to the destinations, add warnings and hand out parameter slots, and
so does every directive that is dispatched to them, whatever they do by way of other handlers.
-/
namespace TemplateCompiler

variable {σ α β : Type}

/-! ## Sessions -/

/-- The session has had text written to it and warnings added, and nothing else but that slots may
have been handed out. -/
def Session.Wrote (session session' : Session) : Prop :=
  ∃ (pieces : List Bytes) (warnings : List Warning) (slots : Nat),
    session' = { pieces.foldl write session with
      warnings := session.warnings ++ warnings
      slots }

namespace Session

theorem foldl_write_with (pieces : List Bytes) (session : Session) (warnings : List Warning)
    (slots : Nat) :
    pieces.foldl write { session with warnings, slots } =
      { pieces.foldl write session with warnings, slots } := by
  induction pieces generalizing session with
  | nil => rfl
  | cons piece pieces ih => exact ih (session.write piece)

theorem wrote_pieces (session : Session) (pieces : List Bytes) :
    session.Wrote (pieces.foldl write session) := by
  refine ⟨pieces, [], session.slots, ?_⟩
  rw [List.append_nil, ← foldl_write_with]

theorem wrote_write (session : Session) (piece : Bytes) : session.Wrote (session.write piece) :=
  session.wrote_pieces [piece]

theorem wrote_warnings (session : Session) (warnings : List Warning) :
    session.Wrote { session with warnings := session.warnings ++ warnings } :=
  ⟨[], warnings, session.slots, rfl⟩

theorem Wrote.trans {first second third : Session} (h : first.Wrote second)
    (h' : second.Wrote third) : first.Wrote third := by
  obtain ⟨pieces, warnings, slots, rfl⟩ := h
  obtain ⟨more, others, last, rfl⟩ := h'
  refine ⟨pieces ++ more, warnings ++ others, last, ?_⟩
  rw [foldl_write_with, List.foldl_append, List.append_assoc]

end Session

/-! ## Actions -/

/-- An action that, where it succeeds, does no more than to write. -/
def Action.OnlyWrites (action : Action σ α) : Prop :=
  ∀ run a run', action run = .ok a run' →
    run'.source = run.source ∧ run.session.Wrote run'.session

namespace Action

theorem onlyWrites_pure (a : α) : OnlyWrites (pure a : Action σ α) := by
  intro run b run' hok
  obtain ⟨-, rfl⟩ := pure_eq_ok.1 hok
  exact ⟨rfl, run'.session.wrote_pieces []⟩

theorem onlyWrites_throw (error : CompileError) : OnlyWrites (throw error : Action σ α) :=
  fun _ _ _ hok => absurd hok throw_ne_ok

theorem OnlyWrites.bind {action : Action σ α} {f : α → Action σ β} (h : OnlyWrites action)
    (hf : ∀ a, OnlyWrites (f a)) : OnlyWrites (action >>= f) := by
  intro run b run' hok
  obtain ⟨a, middle, hfirst, hsecond⟩ := bind_eq_ok.1 hok
  obtain ⟨hsource, hwrote⟩ := h _ _ _ hfirst
  obtain ⟨hsource', hwrote'⟩ := hf a _ _ _ hsecond
  exact ⟨hsource'.trans hsource, hwrote.trans hwrote'⟩

theorem onlyWrites_get : OnlyWrites (get : Action σ (Run σ)) := by
  intro run a run' hok
  obtain ⟨-, rfl⟩ := EStateM.Result.ok.inj hok
  exact ⟨rfl, run.session.wrote_pieces []⟩

theorem onlyWrites_updateSession {f : Session → Session}
    (h : ∀ session : Session, session.Wrote (f session)) :
    OnlyWrites (updateSession f : Action σ PUnit) := by
  intro run a run' hok
  obtain ⟨-, rfl⟩ := EStateM.Result.ok.inj hok
  exact ⟨rfl, h run.session⟩

theorem onlyWrites_write (text : String) : OnlyWrites (write text : Action σ PUnit) :=
  onlyWrites_updateSession fun session => session.wrote_write _

theorem onlyWrites_location : OnlyWrites (location : Action σ Location) :=
  (onlyWrites_get.bind fun _ => onlyWrites_pure _).bind fun _ => onlyWrites_pure _

theorem onlyWrites_nextSlot : OnlyWrites (nextSlot : Action σ Nat) := by
  intro run a run' hok
  obtain ⟨-, rfl⟩ := EStateM.Result.ok.inj hok
  exact ⟨rfl, [], [], run.session.slots + 1, by rw [List.append_nil]; rfl⟩

theorem onlyWrites_reading {read : Scene → Diagnosed α} (h : ∀ scene, (read scene).Appends) :
    OnlyWrites (reading read : Action σ α) := by
  intro run a run' hok
  unfold reading at hok
  split at hok
  · next b warnings hread =>
    obtain ⟨-, rfl⟩ := EStateM.Result.ok.inj hok
    obtain ⟨-, more, hmore⟩ := (h _).value hread
    refine ⟨rfl, [], more, run.session.slots, ?_⟩
    rw [hmore]
    rfl
  · cases hok

end Action

/-! ## Libraries -/

/-- Every handler only writes. -/
structure Dispatch.OnlyWrites (dispatch : Dispatch σ) : Prop where
  tags : ∀ name handler, dispatch.tag? name = some handler → ∀ tag, (handler tag).OnlyWrites
  filters : ∀ name handler, dispatch.filter? name = some handler →
    ∀ call position, (handler call position).OnlyWrites

/-- Every handler only writes, as long as those do that it calls. -/
structure Library.OnlyWrites (library : Library σ) : Prop where
  tags : ∀ entry ∈ library.tags, ∀ dispatch : Dispatch σ, dispatch.OnlyWrites →
    ∀ tag, (entry.2 dispatch tag).OnlyWrites
  filters : ∀ entry ∈ library.filters, ∀ dispatch : Dispatch σ, dispatch.OnlyWrites →
    ∀ call position, (entry.2 dispatch call position).OnlyWrites

/-- However deep they nest, the handlers of a library that only writes only write. -/
theorem Library.OnlyWrites.dispatch {library : Library σ} (h : library.OnlyWrites) (depth : Nat) :
    (library.dispatch depth).OnlyWrites := by
  have hhandlers : library.HandlersAre fun (α : Type) (action : Action σ α) => action.OnlyWrites :=
    ⟨fun entry hentry dispatch htags hfilters => h.tags entry hentry dispatch ⟨htags, hfilters⟩,
      fun entry hentry dispatch htags hfilters => h.filters entry hentry dispatch ⟨htags, hfilters⟩⟩
  obtain ⟨htags, hfilters⟩ := hhandlers.dispatch (Action.onlyWrites_throw _) depth
  exact ⟨htags, hfilters⟩

/-! ## Directives -/

open Action

/-- The actions by which variables and tags are written only write. -/
theorem composes_onlyWrites : Composes fun (α : Type) (action : Action σ α) => action.OnlyWrites where
  pure := onlyWrites_pure
  bind := OnlyWrites.bind
  unknownTag _ := onlyWrites_location.bind fun _ => onlyWrites_throw _
  unknownFilter _ := onlyWrites_location.bind fun _ => onlyWrites_throw _
  write := onlyWrites_write
  nextSlot := onlyWrites_nextSlot
  readVariable _ _ := onlyWrites_reading fun _ => Variable.appends_read _ _ _

/-- **Dispatching a directive** only writes, and marks the source as being at that directive. -/
theorem handle_onlyWrites {dispatch : Dispatch σ} (h : dispatch.OnlyWrites) {d : Markup.Directive}
    {run run' : Run σ} {u : PUnit} (hok : handle dispatch d run = .ok u run') :
    run.session.Wrote run'.session ∧
      ∃ tag tagsSeen, run'.source = { run.source with currentTag := tag, tagsSeen } := by
  unfold handle at hok
  cases hkind : d.kind with
  | tag =>
    rw [hkind] at hok
    have hrest : OnlyWrites (do
        let tag ← reading fun scene => Tag.read scene d.name d.params
        tag.write dispatch : Action σ PUnit) :=
      (onlyWrites_reading fun _ => Tag.appends_read _ _ _).bind fun tag =>
        composes_onlyWrites.writeTag h.filters h.tags tag
    obtain ⟨hsource, hwrote⟩ := hrest _ _ _ hok
    exact ⟨hwrote, _, _, hsource⟩
  | «variable» =>
    rw [hkind] at hok
    have hrest : OnlyWrites (do
        let v ← reading fun scene => Variable.interpolation scene d.content
        v.write dispatch : Action σ PUnit) :=
      (onlyWrites_reading fun _ => Variable.appends_read _ _ _).bind fun v =>
        composes_onlyWrites.writeVariable h.filters v
    obtain ⟨hsource, hwrote⟩ := hrest _ _ _ hok
    exact ⟨hwrote, _, _, hsource⟩

end TemplateCompiler
