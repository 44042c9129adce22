import TemplateCompiler.Proofs.Handling.Offers
import TemplateCompiler.Proofs.Handling.Uses

/-!
# Libraries whose handlers use what they are given

A library is one of uses if every handler only uses the operations that it is given, as long as those do
that it calls (`Library.OnlyUses`). Whatever scripts are added to the standard library, it is one
(`Library.OnlyUses.scripted`): what scripts do is of a kind if what they may call is
(`Action.Answers.onTag`).
-/
namespace TemplateCompiler

variable {σ : Type}

/-! ## Libraries -/

/-- Every handler only uses what it is given. -/
structure Dispatch.OnlyUses (dispatch : Dispatch σ) : Prop where
  tags : dispatch.TagsAre fun (α : Type) (action : Action σ α) => action.OnlyUses
  filters : dispatch.FiltersAre fun (α : Type) (action : Action σ α) => action.OnlyUses

/-- Every handler only uses what it is given, as long as those do that it calls. -/
structure Library.OnlyUses (library : Library σ) : Prop where
  tags : ∀ entry ∈ library.tags, ∀ dispatch : Dispatch σ, dispatch.OnlyUses →
    ∀ tag, (entry.2 dispatch tag).OnlyUses
  filters : ∀ entry ∈ library.filters, ∀ dispatch : Dispatch σ, dispatch.OnlyUses →
    ∀ call position, (entry.2 dispatch call position).OnlyUses

theorem Library.onlyUses_iff {library : Library σ} : library.OnlyUses ↔
    library.HandlersAre fun (α : Type) (action : Action σ α) => action.OnlyUses := by
  constructor
  · intro h
    exact ⟨fun entry hentry dispatch htags hfilters => h.tags entry hentry dispatch ⟨htags, hfilters⟩,
      fun entry hentry dispatch htags hfilters => h.filters entry hentry dispatch ⟨htags, hfilters⟩⟩
  · intro h
    exact ⟨fun entry hentry dispatch hdispatch =>
        h.tags entry hentry dispatch hdispatch.tags hdispatch.filters,
      fun entry hentry dispatch hdispatch =>
        h.filters entry hentry dispatch hdispatch.tags hdispatch.filters⟩

theorem Library.OnlyUses.dispatch {library : Library σ} (h : library.OnlyUses) (depth : Nat) :
    (library.dispatch depth).OnlyUses := by
  obtain ⟨htags, hfilters⟩ := (onlyUses_iff.1 h).dispatch (Action.onlyUses_throw _) depth
  exact ⟨htags, hfilters⟩

namespace Action

theorem onlyUses_write (text : String) : OnlyUses (write text : Action σ PUnit) :=
  (@moves_write σ True text).onlyUses

theorem onlyUses_warn (message : String) : OnlyUses (warn message : Action σ PUnit) :=
  (@moves_warn σ True message).onlyUses

theorem onlyUses_nextSlot : OnlyUses (nextSlot : Action σ Nat) :=
  (@moves_nextSlot σ True).onlyUses

/-- The actions by which directives are met are uses. -/
theorem meets_onlyUses : Meets fun (α : Type) (action : Action σ α) => action.OnlyUses where
  pure := onlyUses_pure
  bind := OnlyUses.bind
  unknownTag _ := onlyUses_location.bind fun _ => onlyUses_throw _
  unknownFilter _ := onlyUses_location.bind fun _ => onlyUses_throw _
  write := onlyUses_write
  nextSlot := onlyUses_nextSlot
  readVariable _ _ := onlyUses_reading _
  readTag _ _ := onlyUses_reading _
  mark f hf := onlyUses_updateSource fun source => by
    obtain ⟨_, _, _, heq⟩ := hf source
    rw [heq]
    exact ⟨rfl, rfl, rfl⟩
  warn := onlyUses_warn
  pass text := fun run => ⟨_, .single (.write run text)⟩

end Action

/-! ## Standard handlers -/

theorem Library.onlyUses_standard : (Library.standard : Library σ).OnlyUses where
  tags entry hentry dispatch _ tag := (@Standard.moves_tags σ True entry hentry dispatch tag).onlyUses
  filters entry hentry dispatch _ call position :=
    (@Standard.moves_filters σ True entry hentry dispatch call position).onlyUses

/-! ## Scripts -/

/-- The kind has all that scripts may call. -/
structure Action.Answers (kind : ∀ α : Type, Action Journal α → Prop) : Prop extends Meets kind where
  throw : ∀ {α : Type} error, kind α (throw error)
  /-- Whatever is asked of the run. -/
  look : ∀ {α : Type} (f : Run Journal → α), kind α fun run => .ok (f run) run
  reading : ∀ {α : Type} (read : Scene → Diagnosed α), kind α (reading read)
  remember : ∀ f : Run Journal → Journal, kind PUnit (modify fun run => { run with memory := f run })
  update : ∀ f : Source → Source, (∀ source : Source, (f source).toOrigin = source.toOrigin ∧
    (f source).id = source.id ∧ (f source).line = source.line) → kind PUnit (updateSource f)
  addSource : ∀ requested skipped child, kind _ (addSource requested skipped child)
  insertFile : ∀ requested, kind PUnit (ofSession (Session.insertFile requested))
  insertArtifact : ∀ path, kind PUnit (ofSession (Session.insertArtifact path))
  addDestination : ∀ name temporary, kind Bool (ofSession (Session.addDestination name temporary))
  removeDestination : ∀ name, kind Bool fun run =>
    .ok (run.session.removeDestination name).1
      { run with session := (run.session.removeDestination name).2 }
  setMainPaused : ∀ paused, kind PUnit (updateSession (·.setMainPaused paused))
  pauseAll : kind PauseState pauseAll
  restore : ∀ state, kind PUnit (updateSession (·.restore state))
  /-- Whether the call of a step succeeds or fails, its outcome is entered. -/
  perform : ∀ dispatch step, kind Reply (Script.answer dispatch step.call) →
    kind PUnit (Script.perform dispatch step)

namespace Action.Answers

open Script

variable {kind : ∀ α : Type, Action Journal α → Prop} (h : Answers kind)
include h

theorem map {α β : Type} {action : Action Journal α} (haction : kind α action) (f : α → β) :
    kind β (f <$> action) := by
  rw [map_eq_pure_bind]
  exact h.bind haction fun _ => h.pure _

theorem attends : Attends kind where
  toMeets := h.toMeets
  throw := h.throw
  look := h.look
  update := h.update

variable {dispatch : Dispatch Journal} (htags : dispatch.TagsAre kind)
  (hfilters : dispatch.FiltersAre kind)
include htags hfilters

/-- **Calls** are of the kind. -/
theorem answer (call : Call) : kind Reply (answer dispatch call) := by
  have hanswer {α : Type} {action : Action Journal α} (haction : kind α action) (reply : Reply) :
      kind Reply (do
        let _ ← action
        pure reply) := h.bind haction fun _ => h.pure _
  have hmark {f : Source → Source} (hf : ∀ source : Source, (f source).toOrigin = source.toOrigin ∧
      (f source).id = source.id ∧ (f source).line = source.line) :
      kind Reply (do
        updateSource f
        pure .nothing) := hanswer (h.update f hf) _
  cases call with
  | resolve text escape => exact h.map (h.reading _) _
  | «variable» text asParameter prepare write =>
    refine h.bind (h.reading _) fun v => ?_
    have hwritten : kind Reply (do
        if write then v.write dispatch
        pure (.variable v)) := by
      dsimp only
      split
      · exact hanswer (h.writeVariable hfilters v) _
      · exact h.pure _
    dsimp only at hwritten ⊢
    split
    · exact h.bind (h.prepareVariable hfilters v) fun _ => hwritten
    · exact hwritten
  | tag name text write =>
    refine h.bind (h.reading _) fun tag => ?_
    dsimp only
    split
    · exact hanswer (h.writeTag hfilters htags tag) _
    · exact h.pure _
  | write text => exact hanswer (h.write _) _
  | error message => exact h.attends.misuse message
  | warning message => exact h.bind (h.warn _) fun _ => h.bind (h.look _) fun _ => h.pure _
  | slot => exact h.bind h.nextSlot fun _ => h.pure _
  | location => exact h.bind (h.look _) fun _ => h.pure _
  | push tag data => exact hanswer (h.attends.push tag data) _
  | pop tag shape => exact h.map (h.attends.pop tag shape.view) _
  | peek tag shape => exact h.map (h.attends.peek tag shape.view) _
  | frames => exact h.bind (h.look _) fun _ => h.pure _
  | source => exact h.bind (h.look _) fun _ => h.bind (h.look _) fun _ => h.pure _
  | setSourcePaused paused => exact hmark fun _ => ⟨rfl, rfl, rfl⟩
  | setReading reading => exact hmark fun _ => ⟨rfl, rfl, rfl⟩
  | setExtended template => exact hmark fun _ => ⟨rfl, rfl, rfl⟩
  | addSource requested skipped asChild =>
    exact h.bind (h.look _) fun _ => h.bind (h.addSource _ _ _) fun _ => h.pure _
  | pending => exact h.bind (h.look _) fun _ => h.pure _
  | template => exact h.bind (h.look _) fun _ => h.pure _
  | find requested skipped => exact h.map (h.attends.find requested skipped) _
  | insertFile requested => exact hanswer (h.insertFile requested) _
  | insertArtifact path => exact hanswer (h.insertArtifact path) _
  | addDestination name temporary => exact h.map (h.addDestination name temporary) _
  | removeDestination name => exact h.map (h.removeDestination name) _
  | destination name => exact h.bind (h.look _) fun _ => h.pure _
  | main => exact h.bind (h.look _) fun _ => h.pure _
  | setMainPaused paused => exact hanswer (h.setMainPaused paused) _
  | pauseAll =>
    exact h.bind h.pauseAll fun state => h.bind (h.remember _) fun _ =>
      h.bind (h.look _) fun _ => h.pure _
  | restore =>
    refine h.bind (h.look _) fun run => ?_
    split
    · exact h.pure _
    · exact h.bind (h.remember _) fun _ => hanswer (h.restore _) _

theorem performAll (script : Script) : kind PUnit (performAll dispatch script) := by
  induction script with
  | nil => exact h.pure _
  | cons step script ih =>
    exact h.bind (h.perform dispatch step (h.answer htags hfilters step.call)) fun _ => ih

/-- **Scripts** are of the kind. -/
theorem onTag (script : Script) (tag : Tag) : kind PUnit (onTag script dispatch tag) :=
  h.bind (h.remember _) fun _ => h.performAll htags hfilters script

theorem onFilter (script : Script) (call : FilterCall) (position : Nat) :
    kind PUnit (onFilter script dispatch call position) :=
  h.bind (h.remember _) fun _ => h.performAll htags hfilters script

end Action.Answers

namespace Action

/-- All that scripts may call is of a kind that has what handlers are offered, and what scripts do to their
journal. -/
theorem Offers.answers {kind : ∀ α : Type, Action Journal α → Prop} (h : Offers kind)
    (hremember : ∀ f : Run Journal → Journal,
      kind PUnit (modify fun run => { run with memory := f run }))
    (hperform : ∀ dispatch step, kind Reply (Script.answer dispatch step.call) →
      kind PUnit (Script.perform dispatch step)) : Answers kind where
  toMeets := h.toMeets
  throw := h.throw
  look := h.look
  reading := h.reading
  remember := hremember
  update := h.update
  addSource := h.addSource
  insertFile := h.insertFile
  insertArtifact := h.insertArtifact
  addDestination := h.addDestination
  removeDestination := h.removeDestination
  setMainPaused := h.setMainPaused
  pauseAll := h.pauseAll
  restore := h.restore
  perform := hperform

/-- A step of a script does what its call does, and enters the outcome. -/
theorem exists_after_perform (dispatch : Dispatch Journal) (step : ScriptStep) (run : Run Journal) :
    ∃ entry, Run.after (Script.perform dispatch step run) =
      Script.note (Run.after (Script.answer dispatch step.call run)) entry := by
  unfold Script.perform EStateM.run
  cases Script.answer dispatch step.call run with
  | ok reply run' => exact ⟨_, rfl⟩
  | error error run' =>
    dsimp only
    split <;> exact ⟨_, rfl⟩

/-- All that scripts may call is uses. -/
theorem answers_onlyUses : Answers fun (α : Type) (action : Action Journal α) => action.OnlyUses where
  toMeets := meets_onlyUses
  throw := onlyUses_throw
  look _ := fun run => ⟨_, .refl run⟩
  reading := onlyUses_reading
  remember _ := fun run => ⟨_, .single (.remember run _)⟩
  update _ := onlyUses_updateSource
  addSource := onlyUses_addSource
  insertFile requested := (@moves_insertFile Journal True requested).onlyUses
  insertArtifact path := (@moves_insertArtifact Journal True path).onlyUses
  addDestination := onlyUses_addDestination
  removeDestination name := fun run => ⟨_, .single (.close run name)⟩
  setMainPaused paused := fun run => (run.move_setMainPaused paused).uses
  pauseAll := (@moves_pauseAll Journal True).onlyUses
  restore state := (@moves_restore Journal True state).onlyUses
  perform dispatch step hanswer := by
    intro run
    obtain ⟨log, hlog⟩ := hanswer run
    obtain ⟨entry, hentered⟩ := exists_after_perform dispatch step run
    rw [hentered]
    exact ⟨_, hlog.tail (.remember _ _)⟩

end Action

namespace Library

/-- The library with scripts for tags and filters. -/
def scripted (library : Library Journal) (tags filters : List (String × Script)) : Library Journal :=
  let tagged := tags.foldl (fun library (name, script) => library.withTag name (Script.onTag script))
    library
  filters.foldl (fun library (name, script) => library.withFilter name (Script.onFilter script)) tagged

/-- **Scripts** added to a library of a kind leave it one. -/
theorem HandlersAre.scripted {kind : ∀ α : Type, Action Journal α → Prop} {library : Library Journal}
    (h : library.HandlersAre kind) (hanswers : Action.Answers kind)
    (tags filters : List (String × Script)) : (library.scripted tags filters).HandlersAre kind := by
  unfold Library.scripted
  have htags : (tags.foldl (fun library (name, script) =>
      library.withTag name (Script.onTag script)) library).HandlersAre kind := by
    induction tags generalizing library with
    | nil => exact h
    | cons tag tags ih =>
      exact ih ⟨List.forall_mem_cons.2
        ⟨fun _ htags hfilters => hanswers.onTag htags hfilters tag.2, h.tags⟩, h.filters⟩
  dsimp only
  generalize tags.foldl _ library = tagged at htags ⊢
  induction filters generalizing tagged with
  | nil => exact htags
  | cons filter filters ih =>
    exact ih _ ⟨htags.tags, List.forall_mem_cons.2
      ⟨fun _ htags hfilters => hanswers.onFilter htags hfilters filter.2, htags.filters⟩⟩

/-- **Scripts** added to a library of uses leave it one. -/
theorem OnlyUses.scripted {library : Library Journal} (h : library.OnlyUses)
    (tags filters : List (String × Script)) : (library.scripted tags filters).OnlyUses :=
  onlyUses_iff.2 ((onlyUses_iff.1 h).scripted Action.answers_onlyUses tags filters)

end Library

end TemplateCompiler
