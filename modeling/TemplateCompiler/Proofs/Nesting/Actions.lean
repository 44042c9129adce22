import TemplateCompiler.Feed
import TemplateCompiler.Proofs.Cache.Twins
import TemplateCompiler.Proofs.Nesting.Brackets

/-!
# What actions do to the tags that are open

An action opens and closes tags and sets how its source is read on, or it fails (`Run.Nests`). The parts
that handlers are made of are shown here to do so in the way that they say, and to complain of open tags
in no warning.
-/
namespace TemplateCompiler

variable {σ α β : Type}

/-! ## Tags that are open -/

/-- The kinds of the tags that are open, the innermost first. -/
def Source.openTags (source : Source) : List String :=
  source.hierarchy.frames.map (·.tag)

/-- The error is about how tags are nested. -/
def CompileError.IsNesting : CompileError → Prop
  | hierarchyMismatch .. | unopenedTag .. | notNested .. => True
  | _ => False

/-- The error that a tag of this name fails with. -/
def Bracket.Fault.error (name : String) (location : Location) : Fault → CompileError
  | mismatch innermost => .hierarchyMismatch innermost name location
  | unopened => .unopenedTag name location
  | notNested kind => .notNested name kind location

theorem Bracket.Fault.isNesting_error (name : String) (location : Location) (fault : Fault) :
    (fault.error name location).IsNesting := by
  cases fault <;> trivial

/-- The warning is that a tag of this kind was left open. -/
def Warning.Names (warning : Warning) (kind : String) : Prop :=
  warning.message = kind ++ " tag was never closed"

/-- The warning is that some paired tag was left open. -/
def Warning.NamesPair (warning : Warning) : Prop :=
  ∃ kind ∈ Bracket.kinds, warning.Names kind

/-- How the text is read on after a tag. -/
def Reading.afterTag (reading : Reading) (name : String) : Reading :=
  if name = "literal" then .verbatim (some "endliteral")
  else if name = "comment" then .verbatim (some "endcomment")
  else if name = "endliteral" ∨ name = "endcomment" then .directives
  else reading

/-- A message that begins unlike every warning of an open tag. -/
theorem Warning.not_namesPair {warning : Warning} (start : String)
    (hmessage : ∃ rest, warning.message = start ++ rest) (hlong : 3 ≤ start.toList.length)
    (hstart : ∀ kind ∈ Bracket.kinds,
      (kind.toList ++ " tag".toList).take 3 ≠ start.toList.take 3) : ¬ warning.NamesPair := by
  rintro ⟨kind, hkind, hnames⟩
  obtain ⟨rest, hmessage⟩ := hmessage
  have hlists : kind.toList ++ " tag".toList ++ " was never closed".toList =
      start.toList ++ rest.toList := by
    rw [← String.toList_append, ← String.toList_append, ← String.toList_append, ← hmessage, hnames,
      String.append_assoc]
    rfl
  have htake := congrArg (List.take 3) hlists
  rw [List.take_append_of_le_length hlong, List.take_append_of_le_length (by simp)] at htake
  exact hstart kind hkind htake

/-! ## Readings -/

/-- What was noted is no complaint of a paired tag that was left open. -/
def Warning.Noted (before after : List Warning) : Prop :=
  ∃ noted, after = before ++ noted ∧ ∀ warning ∈ noted, ¬ warning.NamesPair

theorem Warning.Noted.refl (warnings : List Warning) : Warning.Noted warnings warnings :=
  ⟨[], (List.append_nil _).symm, nofun⟩

theorem Warning.Noted.trans {a b c : List Warning} (h : Warning.Noted a b) (h' : Warning.Noted b c) :
    Warning.Noted a c := by
  obtain ⟨noted, rfl, hnoted⟩ := h
  obtain ⟨more, rfl, hmore⟩ := h'
  refine ⟨noted ++ more, List.append_assoc _ _ _, fun warning hwarning => ?_⟩
  rcases List.mem_append.1 hwarning with hwarning | hwarning
  · exact hnoted warning hwarning
  · exact hmore warning hwarning

theorem Warning.noted_singleton {warning : Warning} (h : ¬ warning.NamesPair)
    (before : List Warning) : Warning.Noted before (before ++ [warning]) :=
  ⟨[warning], rfl, fun _ hmem => List.mem_singleton.1 hmem ▸ h⟩

/-- A reading that has nothing to say about nesting. -/
def Diagnosed.Mild (read : Diagnosed α) : Prop :=
  ∀ before, match read before with
    | .ok _ after => Warning.Noted before after
    | .error error after => ¬ error.IsNesting ∧ Warning.Noted before after

namespace Diagnosed

theorem mild_pure (a : α) : Mild (pure a : Diagnosed α) :=
  fun before => .refl before

theorem mild_throw {error : CompileError} (h : ¬ error.IsNesting) :
    Mild (throw error : Diagnosed α) :=
  fun before => ⟨h, .refl before⟩

theorem mild_warn {warning : Warning} (h : ¬ warning.NamesPair) : Mild (warn warning) :=
  Warning.noted_singleton h

theorem Mild.bind {read : Diagnosed α} {f : α → Diagnosed β} (h : Mild read)
    (hf : ∀ a, Mild (f a)) : Mild (read >>= f) := by
  intro before
  have hread := h before
  change match EStateM.bind read f before with
    | .ok _ after => Warning.Noted before after
    | .error error after => ¬ error.IsNesting ∧ Warning.Noted before after
  unfold EStateM.bind
  cases hresult : read before with
  | error error after =>
    rw [hresult] at hread
    exact hread
  | ok a middle =>
    rw [hresult] at hread
    have hlast := hf a middle
    dsimp only at hread hlast ⊢
    cases hrest : f a middle with
    | ok b after =>
      rw [hrest] at hlast
      exact hread.trans hlast
    | error error after =>
      rw [hrest] at hlast
      exact ⟨hlast.1, hread.trans hlast.2⟩

end Diagnosed

open Diagnosed

theorem Scene.mild_resolve (scene : Scene) (text : String) (escape : Bool) :
    Mild (scene.resolve text escape) := by
  unfold Scene.resolve
  split
  · exact mild_pure _
  · exact mild_pure _
  · split
    · exact mild_pure _
    · exact mild_pure _
  · refine (mild_warn ?_).bind fun _ => mild_pure _
    exact Warning.not_namesPair "operator \x60"
      ⟨_, by rw [String.append_assoc, String.append_assoc]⟩ (by decide) (by decide)
  · exact mild_throw id

theorem Variable.mild_read (scene : Scene) (raw : String) (escape : Bool) :
    Mild (read scene raw escape) := by
  have hfilters (filters : List Markup.FilterText) : Mild (readFilters scene filters) := by
    induction filters with
    | nil => exact mild_pure _
    | cons filter rest ih =>
      have harg : Mild (filter.argument.mapM (scene.resolve · false)) := by
        cases filter.argument with
        | none => exact mild_pure _
        | some text => exact (scene.mild_resolve text false).bind fun _ => mild_pure _
      exact harg.bind fun _ => ih.bind fun _ => mild_pure _
  have hescape (base : String) (escape : Bool) : Mild (readEscape scene base escape) := by
    unfold readEscape
    split
    · split
      · exact mild_throw id
      · refine (mild_warn ?_).bind fun _ => mild_pure _
        exact Warning.not_namesPair "deprecated: \x7b\x7b" ⟨_, String.append_assoc⟩ (by decide)
          (by decide)
    · exact mild_pure _
  exact (hfilters _).bind fun _ => (hescape _ _).bind fun _ =>
    (scene.mild_resolve _ _).bind fun _ => mild_pure _

theorem Tag.mild_read (scene : Scene) (name text : String) : Mild (read scene name text) := by
  have hskipped (skipped : List Char) : Mild (warnSkipped scene name skipped) := by
    induction skipped with
    | nil => exact mild_pure _
    | cons c rest ih =>
      refine (mild_warn ?_).bind fun _ => ih
      exact Warning.not_namesPair "unexpected character \x60"
        ⟨_, by rw [String.append_assoc, String.append_assoc, String.append_assoc]⟩ (by decide)
        (by decide)
  have hparams (params : List String) : Mild (readParams scene params) := by
    induction params with
    | nil => exact mild_pure _
    | cons text rest ih =>
      exact (Variable.mild_read scene text false).bind fun _ => ih.bind fun _ => mild_pure _
  exact (hskipped _).bind fun _ => (hparams _).bind fun _ => mild_pure _

/-! ## Actions -/

/-- The source is where it was, but for the tags that are open and for how it is read on. -/
structure Run.StaysAt (run run' : Run σ) : Prop where
  source : ∃ tagsSeen extended atEnd hierarchy reading,
    run'.source = { run.source with tagsSeen, extended, atEnd, hierarchy, reading }
  warnings : Warning.Noted run.session.warnings run'.session.warnings

/-- An action that succeeds leaves these tags open and the text to be read on like this; one that fails
does not complain of nesting. -/
inductive Run.Nests (run : Run σ) (opened : List String) (reading : Reading) :
    EStateM.Result CompileError (Run σ) α → Prop
  | ok {a : α} {run' : Run σ} (hstays : run.StaysAt run') (hopened : run'.source.openTags = opened)
    (hreading : run'.source.reading = reading) : Nests run opened reading (.ok a run')
  | error {error : CompileError} {run' : Run σ} (h : ¬ error.IsNesting) :
    Nests run opened reading (.error error run')

namespace Run

theorem StaysAt.refl (run : Run σ) : run.StaysAt run :=
  ⟨⟨_, _, _, _, _, rfl⟩, .refl _⟩

theorem StaysAt.trans {a b c : Run σ} (h : a.StaysAt b) (h' : b.StaysAt c) : a.StaysAt c := by
  obtain ⟨⟨_, _, _, _, _, hab⟩, hnoted⟩ := h
  obtain ⟨⟨_, _, _, _, _, hbc⟩, hnoted'⟩ := h'
  exact ⟨⟨_, _, _, _, _, by rw [hbc, hab]⟩, hnoted.trans hnoted'⟩

/-- What has been done before does not count. -/
theorem StaysAt.nests {run run' : Run σ} {opened : List String} {reading : Reading}
    {result : EStateM.Result CompileError (Run σ) α} (h : run.StaysAt run')
    (hrest : run'.Nests opened reading result) : run.Nests opened reading result := by
  cases hrest with
  | ok hstays hopened hreading => exact .ok (h.trans hstays) hopened hreading
  | error hother => exact .error hother

theorem Nests.ne_nesting {run run' : Run σ} {opened : List String} {reading : Reading}
    {error : CompileError} (h : run.Nests (α := α) opened reading (.error error run')) :
    ¬ error.IsNesting := by
  cases h
  assumption

end Run

/-- An action that changes the tags that are open, and how the text is read on, in the given way. -/
def Action.Shifts (opening : List String → List String) (turning : Reading → Reading)
    (action : Action σ α) : Prop :=
  ∀ run : Run σ, run.Nests (opening run.source.openTags) (turning run.source.reading) (action run)

/-- An action that leaves open what is open, and the text to be read on as before. -/
def Action.Calm (action : Action σ α) : Prop :=
  action.Shifts id id

namespace Action

theorem nests_bind {run : Run σ} {opened opened' : List String} {reading reading' : Reading}
    {action : Action σ α} {f : α → Action σ β} (h : run.Nests opened reading (action run))
    (hf : ∀ (a : α) (run' : Run σ), run'.source.openTags = opened →
      run'.source.reading = reading → run'.Nests opened' reading' (f a run')) : run.Nests opened' reading' ((action >>= f) run) := by
  cases haction : action run with
  | error error run' =>
    rw [bind_of_error haction]
    rw [haction] at h
    exact .error h.ne_nesting
  | ok a run' =>
    rw [bind_of_ok haction]
    rw [haction] at h
    cases h with
    | ok hstays hopened hreading => exact hstays.nests (hf a run' hopened hreading)

theorem Calm.bind {action : Action σ α} {f : α → Action σ β} {opening : List String → List String}
    {turning : Reading → Reading} (h : Calm action) (hf : ∀ a, Shifts opening turning (f a)) :
    Shifts opening turning (action >>= f) := by
  intro run
  refine nests_bind (h run) fun a run' hopened hreading => ?_
  have hlast := hf a run'
  rwa [hopened, hreading] at hlast

theorem Shifts.bind_calm {action : Action σ α} {f : α → Action σ β}
    {opening : List String → List String} {turning : Reading → Reading}
    (h : Shifts opening turning action) (hf : ∀ a, Calm (f a)) :
    Shifts opening turning (action >>= f) := by
  intro run
  refine nests_bind (h run) fun a run' hopened hreading => ?_
  have hlast := hf a run'
  rwa [hopened, hreading] at hlast

theorem calm_pure (a : α) : Calm (pure a : Action σ α) :=
  fun run => .ok (.refl run) rfl rfl

theorem shifts_throw {opening : List String → List String} {turning : Reading → Reading}
    {error : CompileError} (h : ¬ error.IsNesting) :
    Shifts opening turning (throw error : Action σ α) :=
  fun _ => .error h

theorem shifts_misuse {opening : List String → List String} {turning : Reading → Reading}
    (message : String) : Shifts opening turning (misuse message : Action σ α) :=
  fun _ => .error id

theorem calm_session : Calm (session : Action σ Session) :=
  fun run => .ok (.refl run) rfl rfl

theorem calm_location : Calm (location : Action σ Location) :=
  fun run => .ok (.refl run) rfl rfl

theorem calm_updateSession {f : Session → Session}
    (h : ∀ session : Session, (f session).warnings = session.warnings) :
    Calm (updateSession f : Action σ PUnit) :=
  fun run => .ok ⟨⟨_, _, _, _, _, rfl⟩, by
    show Warning.Noted _ (f run.session).warnings
    rw [h]
    exact .refl _⟩ rfl rfl

theorem calm_write (text : String) : Calm (write text : Action σ PUnit) :=
  calm_updateSession fun _ => rfl

theorem calm_emit (statement : Code.Statement) : Calm (emit statement : Action σ PUnit) :=
  calm_write _

theorem calm_nextSlot : Calm (nextSlot : Action σ Nat) :=
  fun _ => .ok ⟨⟨_, _, _, _, _, rfl⟩, .refl _⟩ rfl rfl

theorem calm_pauseAll : Calm (pauseAll : Action σ PauseState) :=
  fun _ => .ok ⟨⟨_, _, _, _, _, rfl⟩, .refl _⟩ rfl rfl

theorem calm_reading {read : Scene → Diagnosed α} (h : ∀ scene, (read scene).Mild) :
    Calm (reading read : Action σ α) := by
  intro run
  have hread := h (run.source.scene run.session.workspace.options) run.session.warnings
  unfold reading EStateM.run
  cases hresult : read (run.source.scene run.session.workspace.options) run.session.warnings with
  | ok a warnings =>
    rw [hresult] at hread
    exact .ok ⟨⟨_, _, _, _, _, rfl⟩, hread⟩ rfl rfl
  | error error warnings =>
    rw [hresult] at hread
    exact .error hread.1

theorem calm_ofExcept {result : Except CompileError α}
    (h : ∀ error, result = .error error → ¬ error.IsNesting) :
    Calm (MonadExcept.ofExcept result : Action σ α) := by
  cases result with
  | error error => exact shifts_throw (h error rfl)
  | ok a => exact calm_pure a

theorem calm_ofSession {operation : SessionM α}
    (hok : ∀ session a session', operation session = .ok a session' →
      session'.warnings = session.warnings)
    (herror : ∀ session error session', operation session = .error error session' →
      ¬ error.IsNesting) : Calm (ofSession operation : Action σ α) := by
  intro run
  cases hresult : operation run.session with
  | ok a session =>
    rw [ofSession_of_ok hresult]
    refine .ok ⟨⟨_, _, _, _, _, rfl⟩, ?_⟩ rfl rfl
    show Warning.Noted run.session.warnings session.warnings
    rw [hok _ _ _ hresult]
    exact .refl _
  | error error session =>
    rw [ofSession_of_error hresult]
    exact .error (herror _ _ _ hresult)

theorem shifts_push (kind : String) (data : FrameData) :
    Shifts (kind :: ·) id (push kind data : Action σ PUnit) :=
  fun _ => .ok ⟨⟨_, _, _, _, _, rfl⟩, .refl _⟩ rfl rfl

theorem Shifts.bind_push {action : Action σ α} {turning : Reading → Reading}
    (h : Shifts id turning action) (kind : String) (data : FrameData) :
    Shifts (kind :: ·) turning (action >>= fun _ => push kind data) := by
  intro run
  refine nests_bind (h run) fun a run' hopened hreading => ?_
  have hlast := shifts_push kind data run'
  rwa [hopened, hreading] at hlast

theorem shifts_setReading (reading : Reading) :
    Shifts id (fun _ => reading) (Standard.setReading reading : Action σ PUnit) :=
  fun _ => .ok ⟨⟨_, _, _, _, _, rfl⟩, .refl _⟩ rfl rfl

theorem calm_expect (tag : String) (view : FrameData → Option α) (data : FrameData) :
    Calm (expect tag view data : Action σ α) := by
  unfold expect
  split
  · exact calm_pure _
  · exact shifts_misuse _

/-! ### Operations of the session -/

theorem calm_addDestination (name : String) (temporary : Bool) :
    Calm (ofSession (Session.addDestination name temporary) : Action σ Bool) := by
  refine calm_ofSession (fun session a session' hok => ?_) fun session error session' herror => ?_
  · cases hpath : session.artifactPath name temporary with
    | error error =>
      rw [Session.addDestination_eq, hpath] at hok
      cases hok
    | ok path =>
      rcases Session.addDestination_cases hpath with ⟨_, hadd⟩ | ⟨_, _, hadd, hrewrites⟩
      · rw [hadd] at hok
        cases hok
      · rw [hadd] at hok
        obtain ⟨-, rfl⟩ := EStateM.Result.ok.inj hok
        obtain ⟨_, _, _, _, rfl⟩ := hrewrites
        rfl
  · cases hpath : session.artifactPath name temporary with
    | error other =>
      rw [Session.addDestination_eq, hpath] at herror
      obtain ⟨rfl, -⟩ := EStateM.Result.error.inj herror
      obtain ⟨refusal, rfl⟩ := artifactPath_error hpath
      exact id
    | ok path =>
      rcases Session.addDestination_cases hpath with ⟨_, hadd⟩ | ⟨_, _, hadd, -⟩
      · rw [hadd] at herror
        obtain ⟨rfl, -⟩ := EStateM.Result.error.inj herror
        exact id
      · rw [hadd] at herror
        cases herror

theorem warnings_copy (session : Session) (text : Bytes) :
    (session.copy text).warnings = session.warnings := by
  obtain ⟨_, _, _, _, heq⟩ := session.rewrites_copy text
  rw [heq]

theorem calm_insertArtifact (path : Path) :
    Calm (ofSession (Session.insertArtifact path) : Action σ PUnit) := by
  refine calm_ofSession (fun session a session' hok => ?_) fun session error session' herror => ?_
  · rw [Session.insertArtifact_eq] at hok
    split at hok
    · cases hok
    · obtain ⟨-, rfl⟩ := EStateM.Result.ok.inj hok
      exact warnings_copy _ _
  · rw [Session.insertArtifact_eq] at herror
    split at herror
    · obtain ⟨rfl, -⟩ := EStateM.Result.error.inj herror
      exact id
    · cases herror

theorem calm_insertFile (requested : String) :
    Calm (ofSession (Session.insertFile requested) : Action σ PUnit) := by
  refine calm_ofSession (fun session a session' hok => ?_) fun session error session' herror => ?_
  · rw [Session.insertFile_eq] at hok
    split at hok
    · cases hok
    · cases hok
    · obtain ⟨-, rfl⟩ := EStateM.Result.ok.inj hok
      exact warnings_copy _ _
  · rw [Session.insertFile_eq] at herror
    split at herror
    · next hfind =>
      obtain ⟨rfl, -⟩ := EStateM.Result.error.inj herror
      obtain ⟨refusal, rfl⟩ := Session.find_error hfind
      exact id
    · obtain ⟨rfl, -⟩ := EStateM.Result.error.inj herror
      exact id
    · cases herror

end Action

end TemplateCompiler
