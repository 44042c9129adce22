import TemplateCompiler.Proofs.Handling.Libraries
import TemplateCompiler.Proofs.Handling.Standard
import TemplateCompiler.Proofs.Nesting.Handlers
import TemplateCompiler.Proofs.Session.Blocks

/-!
# Complaints about the current place

Whatever is done about a directive complains of the place where the source is being read, leaves the
source there, and takes no parameter slot back (`Action.ComplainsHere`). It is so for everything that the
standard library does (`Action.serves_complainsHere`).
-/
namespace TemplateCompiler

variable {σ α β : Type}

/-- What was noted is about this place. -/
def Warning.NotedAt (location : Location) (before after : List Warning) : Prop :=
  ∃ noted, after = before ++ noted ∧ ∀ warning ∈ noted, warning.location = location

namespace Warning.NotedAt

variable {location : Location} {a b c : List Warning}

theorem refl (warnings : List Warning) : NotedAt location warnings warnings :=
  ⟨[], (List.append_nil _).symm, nofun⟩

theorem trans (h : NotedAt location a b) (h' : NotedAt location b c) : NotedAt location a c := by
  obtain ⟨noted, rfl, hnoted⟩ := h
  obtain ⟨more, rfl, hmore⟩ := h'
  exact ⟨noted ++ more, List.append_assoc _ _ _, List.forall_mem_append.2 ⟨hnoted, hmore⟩⟩

theorem single {warning : Warning} (h : warning.location = location) (before : List Warning) :
    NotedAt location before (before ++ [warning]) :=
  ⟨[warning], rfl, List.forall_mem_singleton.2 h⟩

end Warning.NotedAt

/-- The error is about this place, if it is about a place at all, and it is not about raw code. -/
structure CompileError.IsAbout (error : CompileError) (location : Location) : Prop where
  location : ∀ place, error.location? = some place → place = location
  ne_forbidden : ∀ place, error ≠ .forbiddenMarker place

theorem CompileError.IsAbout.of_none {error : CompileError} (h : error.location? = none)
    (location : Location) : error.IsAbout location where
  location place hplace := nomatch h.symm.trans hplace
  ne_forbidden place heq := by
    rw [heq] at h
    cases h

/-! ## Readings -/

/-- A reading that complains of this place only. -/
def Diagnosed.ComplainsAt (location : Location) (read : Diagnosed α) : Prop :=
  ∀ before, match read before with
    | .ok _ after => Warning.NotedAt location before after
    | .error error after => error.IsAbout location ∧ Warning.NotedAt location before after

namespace Diagnosed

variable {location : Location}

theorem complainsAt_pure (a : α) : ComplainsAt location (pure a : Diagnosed α) :=
  fun before => .refl before

theorem complainsAt_throw {error : CompileError} (h : error.IsAbout location) :
    ComplainsAt location (throw error : Diagnosed α) :=
  fun before => ⟨h, .refl before⟩

theorem complainsAt_warn (message : String) : ComplainsAt location (warn ⟨message, location⟩) :=
  Warning.NotedAt.single rfl

theorem ComplainsAt.bind {read : Diagnosed α} {f : α → Diagnosed β} (h : ComplainsAt location read)
    (hf : ∀ a, ComplainsAt location (f a)) : ComplainsAt location (read >>= f) := by
  intro before
  have hread := h before
  change match EStateM.bind read f before with
    | .ok _ after => Warning.NotedAt location before after
    | .error error after => error.IsAbout location ∧ Warning.NotedAt location before after
  unfold EStateM.bind
  cases hresult : read before with
  | error error after =>
    rw [hresult] at hread
    exact hread
  | ok a middle =>
    rw [hresult] at hread
    have hlast := hf a middle
    dsimp only at hread hlast ⊢
    cases hrest : f a middle with
    | ok b after =>
      rw [hrest] at hlast
      exact hread.trans hlast
    | error error after =>
      rw [hrest] at hlast
      exact ⟨hlast.1, hread.trans hlast.2⟩

end Diagnosed

open Diagnosed

theorem Scene.complainsAt_resolve (scene : Scene) (text : String) (escape : Bool) :
    ComplainsAt scene.location (scene.resolve text escape) := by
  unfold Scene.resolve
  split
  · exact complainsAt_pure _
  · exact complainsAt_pure _
  · split
    · exact complainsAt_pure _
    · exact complainsAt_pure _
  · exact (complainsAt_warn _).bind fun _ => complainsAt_pure _
  · exact complainsAt_throw ⟨fun _ hplace => (Option.some.inj hplace).symm, nofun⟩

theorem Variable.complainsAt_read (scene : Scene) (raw : String) (escape : Bool) :
    ComplainsAt scene.location (read scene raw escape) := by
  have hfilters (filters : List Markup.FilterText) :
      ComplainsAt scene.location (readFilters scene filters) := by
    induction filters with
    | nil => exact complainsAt_pure _
    | cons filter rest ih =>
      have harg : ComplainsAt scene.location (filter.argument.mapM (scene.resolve · false)) := by
        cases filter.argument with
        | none => exact complainsAt_pure _
        | some text => exact (scene.complainsAt_resolve text false).bind fun _ => complainsAt_pure _
      exact harg.bind fun _ => ih.bind fun _ => complainsAt_pure _
  have hescape (base : String) (escape : Bool) :
      ComplainsAt scene.location (readEscape scene base escape) := by
    unfold readEscape
    split
    · split
      · exact complainsAt_throw ⟨fun _ hplace => (Option.some.inj hplace).symm, nofun⟩
      · exact (complainsAt_warn _).bind fun _ => complainsAt_pure _
    · exact complainsAt_pure _
  exact (hfilters _).bind fun _ => (hescape _ _).bind fun _ =>
    (scene.complainsAt_resolve _ _).bind fun _ => complainsAt_pure _

theorem Tag.complainsAt_read (scene : Scene) (name text : String) :
    ComplainsAt scene.location (read scene name text) := by
  have hskipped (skipped : List Char) : ComplainsAt scene.location (warnSkipped scene name skipped) := by
    induction skipped with
    | nil => exact complainsAt_pure _
    | cons c rest ih => exact (complainsAt_warn _).bind fun _ => ih
  have hparams (params : List String) : ComplainsAt scene.location (readParams scene params) := by
    induction params with
    | nil => exact complainsAt_pure _
    | cons text rest ih =>
      exact (Variable.complainsAt_read scene text false).bind fun _ => ih.bind fun _ =>
        complainsAt_pure _
  exact (hskipped _).bind fun _ => (hparams _).bind fun _ => complainsAt_pure _

/-! ## Actions -/

/-- The source stays where it is, what has been noted is about that place, and no slot has been taken
back. -/
structure Run.StaysHere (run run' : Run σ) : Prop where
  location : run'.source.location = run.source.location
  noted : Warning.NotedAt run.source.location run.session.warnings run'.session.warnings
  slots : run.session.slots ≤ run'.session.slots

namespace Run.StaysHere

variable {a b c : Run σ}

theorem refl (run : Run σ) : run.StaysHere run :=
  ⟨rfl, .refl _, Nat.le_refl _⟩

theorem trans (h : a.StaysHere b) (h' : b.StaysHere c) : a.StaysHere c :=
  ⟨h'.location.trans h.location, h.noted.trans (h.location ▸ h'.noted), h.slots.trans h'.slots⟩

/-- Where the session says nothing. -/
theorem of_keeps (hlocation : b.source.location = a.source.location)
    (h : a.session.Keeps b.session) : a.StaysHere b where
  location := hlocation
  noted := by
    rw [h.2]
    exact .refl _
  slots := h.1.ge

end Run.StaysHere

/-- An action that complains of nothing but the place where the source is being read, and leaves it
there. -/
def Action.ComplainsHere (action : Action σ α) : Prop :=
  ∀ run : Run σ, match action run with
    | .ok _ run' => run.StaysHere run'
    | .error error run' => error.IsAbout run.source.location ∧ run.StaysHere run'

namespace Action

theorem complainsHere_pure (a : α) : ComplainsHere (pure a : Action σ α) :=
  fun run => .refl run

theorem complainsHere_throw {error : CompileError} (h : error.location? = none) :
    ComplainsHere (throw error : Action σ α) :=
  fun run => ⟨.of_none h _, .refl run⟩

theorem ComplainsHere.bind {action : Action σ α} {f : α → Action σ β} (h : ComplainsHere action)
    (hf : ∀ a, ComplainsHere (f a)) : ComplainsHere (action >>= f) := by
  intro run
  have hfirst := h run
  cases haction : action run with
  | error error middle =>
    rw [haction] at hfirst
    rw [bind_of_error haction]
    exact hfirst
  | ok a middle =>
    rw [haction] at hfirst
    rw [bind_of_ok haction]
    have hlast := hf a middle
    dsimp only at hfirst
    cases hrest : f a middle with
    | ok b last =>
      rw [hrest] at hlast
      exact hfirst.trans hlast
    | error error last =>
      rw [hrest] at hlast
      exact ⟨hfirst.location ▸ hlast.1, hfirst.trans hlast.2⟩

/-- An error at the place where the source is being read. -/
theorem complainsHere_error {error : Location → CompileError}
    (h : ∀ location, (error location).IsAbout location) :
    ComplainsHere (do throw (error (← location)) : Action σ α) :=
  fun run => ⟨h run.source.location, .refl run⟩

theorem complainsHere_misuse (message : String) : ComplainsHere (misuse message : Action σ α) :=
  complainsHere_error fun _ => ⟨fun _ hplace => (Option.some.inj hplace).symm, nofun⟩

theorem complainsHere_session : ComplainsHere (session : Action σ Session) :=
  fun run => .refl run

theorem complainsHere_updateSession {f : Session → Session}
    (h : ∀ session : Session, session.Keeps (f session)) :
    ComplainsHere (updateSession f : Action σ PUnit) :=
  fun run => .of_keeps rfl (h run.session)

theorem complainsHere_updateSource {f : Source → Source}
    (h : ∀ source, (f source).location = source.location) :
    ComplainsHere (updateSource f : Action σ PUnit) :=
  fun run => .of_keeps (h run.source) ⟨rfl, rfl⟩

theorem complainsHere_write (text : String) : ComplainsHere (write text : Action σ PUnit) :=
  complainsHere_updateSession fun _ => ⟨rfl, rfl⟩

theorem complainsHere_nextSlot : ComplainsHere (nextSlot : Action σ Nat) :=
  fun _ => ⟨rfl, .refl _, Nat.le_succ _⟩

theorem complainsHere_warn (message : String) : ComplainsHere (warn message : Action σ PUnit) :=
  fun _ => ⟨rfl, .single rfl _, Nat.le_refl _⟩

theorem complainsHere_reading {read : Scene → Diagnosed α}
    (h : ∀ scene, (read scene).ComplainsAt scene.location) :
    ComplainsHere (reading read : Action σ α) := by
  intro run
  have hread := h (run.source.scene run.session.workspace.options) run.session.warnings
  unfold reading EStateM.run
  cases hresult : read (run.source.scene run.session.workspace.options) run.session.warnings with
  | ok a warnings =>
    rw [hresult] at hread
    exact ⟨rfl, hread, Nat.le_refl _⟩
  | error error warnings =>
    rw [hresult] at hread
    exact ⟨hread.1, rfl, hread.2, Nat.le_refl _⟩

theorem complainsHere_ofSession {operation : SessionM α}
    (h : ∀ session, match operation session with
      | .ok _ session' => session.Keeps session'
      | .error error session' => error.location? = none ∧ session.Keeps session') :
    ComplainsHere (ofSession operation : Action σ α) := by
  intro run
  have hrun := h run.session
  cases hresult : operation run.session with
  | ok a session =>
    rw [hresult] at hrun
    rw [ofSession_of_ok hresult]
    exact .of_keeps rfl hrun
  | error error session =>
    rw [hresult] at hrun
    rw [ofSession_of_error hresult]
    exact ⟨.of_none hrun.1 _, .of_keeps rfl hrun.2⟩

theorem complainsHere_ofExcept {result : Except CompileError α}
    (h : ∀ error, result = .error error → error.location? = none) :
    ComplainsHere (MonadExcept.ofExcept result : Action σ α) := by
  cases result with
  | error error => exact complainsHere_throw (h error rfl)
  | ok a => exact complainsHere_pure a

/-! ### Open tags -/

theorem complainsHere_expect (tag : String) (view : FrameData → Option α) (data : FrameData) :
    ComplainsHere (expect tag view data : Action σ α) := by
  unfold expect
  split
  · exact complainsHere_pure _
  · exact complainsHere_misuse _

theorem isAbout_closingError (source : Source) (tag : String) (refusal : Hierarchy.Refusal) :
    (closingError source tag refusal).IsAbout source.location := by
  cases refusal <;> exact ⟨fun _ hplace => (Option.some.inj hplace).symm, nofun⟩

theorem isAbout_nestingError (source : Source) (tag : String) :
    (nestingError source tag).IsAbout source.location :=
  ⟨fun _ hplace => (Option.some.inj hplace).symm, nofun⟩

theorem complainsHere_pop (tag : String) (view : FrameData → Option α) :
    ComplainsHere (pop tag view : Action σ α) := by
  intro run
  rw [pop_eq]
  cases run.source.hierarchy.pop tag with
  | error refusal => exact ⟨isAbout_closingError _ _ _, .refl run⟩
  | ok popped =>
    obtain ⟨data, hierarchy⟩ := popped
    have hbelow : run.StaysHere { run with source := { run.source with hierarchy } } :=
      .of_keeps rfl ⟨rfl, rfl⟩
    have hview := complainsHere_expect tag view data { run with source := { run.source with hierarchy } }
    dsimp only
    split
    · next heq =>
      rw [heq] at hview
      exact hbelow.trans hview
    · next heq =>
      rw [heq] at hview
      exact ⟨hview.1, hbelow.trans hview.2⟩

theorem complainsHere_peek (tag : String) (view : FrameData → Option α) :
    ComplainsHere (peek tag view : Action σ α) := by
  intro run
  rw [peek_eq]
  cases run.source.hierarchy.peek tag with
  | error refusal => exact ⟨isAbout_nestingError _ _, .refl run⟩
  | ok data => exact complainsHere_expect tag view data run

theorem complainsHere_replace (tag : String) (data : FrameData) :
    ComplainsHere (replace tag data : Action σ PUnit) := by
  intro run
  rw [replace_eq]
  cases run.source.hierarchy.replace tag data with
  | error refusal => exact ⟨isAbout_nestingError _ _, .refl run⟩
  | ok hierarchy => exact .of_keeps rfl ⟨rfl, rfl⟩

/-! ### Operations of the session -/

theorem location?_artifactPath {session : Session} {name : String} {temporary : Bool}
    {error : CompileError} (h : session.artifactPath name temporary = .error error) :
    error.location? = none := by
  obtain ⟨refusal, rfl⟩ := artifactPath_error h
  rfl

theorem complainsHere_addDestination (name : String) (temporary : Bool) :
    ComplainsHere (ofSession (Session.addDestination name temporary) : Action σ Bool) := by
  refine complainsHere_ofSession fun session => ?_
  rw [Session.addDestination_eq]
  cases hpath : session.artifactPath name temporary with
  | error error => exact ⟨location?_artifactPath hpath, rfl, rfl⟩
  | ok path =>
    have hkeeps := session.keeps_removeDestination name
    dsimp only
    cases hopen : Destination.open? (session.removeDestination name).2.disk name path temporary with
    | error error =>
      obtain rfl := open?_error hopen
      exact ⟨rfl, hkeeps⟩
    | ok opened => exact hkeeps

theorem complainsHere_insertArtifact (path : Path) :
    ComplainsHere (ofSession (Session.insertArtifact path) : Action σ PUnit) := by
  refine complainsHere_ofSession fun session => ?_
  rw [Session.insertArtifact_eq]
  cases session.disk.read? path with
  | none => exact ⟨rfl, rfl, rfl⟩
  | some text => exact Depicts.keeps_copy (session.register _).2 text

theorem location?_find {session : Session} {requested : String} {skipped : Option String}
    {error : CompileError} (h : session.find requested skipped = .error error) :
    error.location? = none := by
  obtain ⟨refusal, rfl⟩ := Session.find_error h
  rfl

theorem complainsHere_insertFile (requested : String) :
    ComplainsHere (ofSession (Session.insertFile requested) : Action σ PUnit) := by
  refine complainsHere_ofSession fun session => ?_
  rw [Session.insertFile_eq]
  cases hfind : session.find (Text.trimSlashes requested) none with
  | error error => exact ⟨location?_find hfind, rfl, rfl⟩
  | ok result =>
    cases result with
    | none => exact ⟨rfl, rfl, rfl⟩
    | some found => exact Depicts.keeps_copy (session.register _).2 _

/-- `extends` complains of its own place, or of what is not found. -/
theorem complainsHere_onExtends (dispatch : Dispatch σ) (tag : Tag) :
    ComplainsHere (Standard.onExtends dispatch tag) := by
  intro run
  rcases @Standard.quotedPath_cases σ tag with ⟨path, -, hpath⟩ | ⟨-, message, hmisuse⟩
  · have heq := Standard.onExtends_eq hpath dispatch run
    split at heq
    · rw [heq]
      exact ⟨⟨fun _ hplace => (Option.some.inj hplace).symm, nofun⟩, .refl run⟩
    · split at heq
      · next hfind =>
        rw [heq]
        exact ⟨.of_none (location?_find hfind) _, .refl run⟩
      · rw [heq]
        exact ⟨.of_none rfl _, .refl run⟩
      · split at heq
        · rw [heq]
          exact ⟨⟨fun _ hplace => (Option.some.inj hplace).symm, nofun⟩, .refl run⟩
        · rw [heq]
          refine .of_keeps rfl ?_
          unfold Run.extend
          dsimp only
          split <;> exact ⟨rfl, rfl⟩
  · unfold Standard.onExtends
    rw [hmisuse]
    exact ⟨⟨fun _ hplace => (Option.some.inj hplace).symm, nofun⟩, .refl run⟩

/-! ## The standard library -/

/-- The actions by which directives are met complain of the current place. -/
theorem meets_complainsHere :
    Meets fun (α : Type) (action : Action σ α) => action.ComplainsHere where
  pure := complainsHere_pure
  bind := ComplainsHere.bind
  unknownTag _ := complainsHere_error fun _ => ⟨fun _ hplace => (Option.some.inj hplace).symm, nofun⟩
  unknownFilter _ :=
    complainsHere_error fun _ => ⟨fun _ hplace => (Option.some.inj hplace).symm, nofun⟩
  write := complainsHere_write
  nextSlot := complainsHere_nextSlot
  readVariable _ _ := complainsHere_reading fun _ => Variable.complainsAt_read _ _ _
  readTag _ _ := complainsHere_reading fun _ => Tag.complainsAt_read _ _ _
  mark f hf := complainsHere_updateSource fun source => by
    obtain ⟨_, _, _, heq⟩ := hf source
    rw [heq]
    rfl
  warn := complainsHere_warn
  pass _ := complainsHere_updateSession fun _ => ⟨rfl, rfl⟩

/-- The actions by which the standard tags are handled complain of the current place. -/
theorem serves_complainsHere :
    Serves fun (α : Type) (action : Action σ α) => action.ComplainsHere where
  toMeets := meets_complainsHere
  unfinished := complainsHere_throw rfl
  misuse := complainsHere_misuse
  push _ _ := complainsHere_updateSource fun _ => rfl
  pop := complainsHere_pop
  peek := complainsHere_peek
  replace := complainsHere_replace
  setReading _ := complainsHere_updateSource fun _ => rfl
  pauseAll := fun _ => .of_keeps rfl ⟨rfl, rfl⟩
  restore _ := complainsHere_updateSession fun _ => ⟨rfl, rfl⟩
  removeDestination name := complainsHere_updateSession fun session =>
    session.keeps_removeDestination name
  insertFile := complainsHere_insertFile
  block := meets_complainsHere.onBlock complainsHere_misuse complainsHere_session
    (complainsHere_addDestination · true) (fun _ _ => complainsHere_ofExcept fun _ => location?_artifactPath)
    complainsHere_insertArtifact (fun _ => .of_keeps rfl ⟨rfl, rfl⟩)
    fun _ _ => complainsHere_updateSource fun _ => rfl
  extend := complainsHere_onExtends

end Action

end TemplateCompiler
