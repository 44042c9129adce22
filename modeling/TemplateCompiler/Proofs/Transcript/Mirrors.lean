import TemplateCompiler.Drain
import TemplateCompiler.Proofs.Session.Blocks
import TemplateCompiler.Proofs.Transcript.Diagnosed

/-!
# Runs and readers

A run mirrors a reader and a desk: its source has been read as far, its open tags are those of the
reader, and its session depicts the desk, all of whose sheets are paused while a comment is read.
This module says what the parts that handlers are made of do to it.
-/
namespace TemplateCompiler

variable {σ α : Type}

/-! ## Open tags -/

/-- The frames remember the open tags, and for each block the flags that the desk has for its
end. -/
inductive Frames (job : Job) :
    List OpenTag → List (String × Option PauseState) → List (Frame FrameData) → Prop
  | nil : Frames job [] [] []
  | condition {opened ends frames} (h : Frames job opened ends frames) :
    Frames job (.condition :: opened) ends (⟨"if", .nothing⟩ :: frames)
  | loop {opened ends frames} (hasNone : Bool) (h : Frames job opened ends frames) :
    Frames job (.loop hasNone :: opened) ends (⟨"for", .loop hasNone⟩ :: frames)
  | naming {opened ends frames} (h : Frames job opened ends frames) :
    Frames job (.naming :: opened) ends (⟨"with", .nothing⟩ :: frames)
  | block {opened ends frames} (name : String) (saved : Option PauseState)
    (h : Frames job opened ends frames) :
    Frames job (.block name :: opened) ((name, saved) :: ends)
      (⟨"block", .block name (job.blockName name) (saved.map job.flags)⟩ :: frames)

/-- What the open tags and the mode of a reader look like in a source. -/
def Frames.InMode (job : Job) (mode : Mode) (opened : List OpenTag) (desk : Desk UInt8)
    (frames : List (Frame FrameData)) : Prop :=
  match mode with
  | .directives => Frames job opened desk.ends frames
  | .literal => ∃ rest, frames = ⟨"literal", .nothing⟩ :: rest ∧ Frames job opened desk.ends rest
  | .comment => ∃ rest, frames = ⟨"comment", .pauses (job.flags desk.flags)⟩ :: rest ∧
      Frames job opened desk.ends rest

/-- The desk as a session has it in a mode. -/
def Desk.inMode {ι : Type} (desk : Desk ι) : Mode → Desk ι
  | .comment => desk.hush
  | _ => desk

/-! ## Mirroring -/

/-- The source has been read as far as the reader says. -/
structure Source.Follows (source : Source) (reader : Reader) : Prop where
  requested : source.requested = reader.requested
  path : source.path = reader.path
  line : source.line = reader.line
  reading : source.reading = reader.mode.reading
  running : source.paused = false
  tag : source.currentTag = reader.tag
  tagsSeen : source.tagsSeen = reader.tagsSeen

/-- The run is where the reader is, and its session has done what was done on the desk. The
warnings that there were `before` are still there. -/
structure Mirrors (job : Job) (before : List Warning) (run : Run σ) (reader : Reader)
    (desk : Desk UInt8) : Prop where
  depicts : Depicts job run.session (desk.inMode reader.mode)
  frames : Frames.InMode job reader.mode reader.opened desk run.source.hierarchy.frames
  follows : run.source.Follows reader
  options : reader.options = job.workspace.options
  slots : run.session.slots = reader.slots
  warned : before <+: run.session.warnings

variable {job : Job} {before : List Warning} {run run' : Run σ} {reader : Reader}
  {desk : Desk UInt8}

namespace Mirrors

theorem scene (h : Mirrors job before run reader desk) :
    run.source.scene run.session.workspace.options = reader.scene := by
  unfold Source.scene Source.location Reader.scene
  rw [h.depicts.workspace, ← h.options, h.follows.tag, h.follows.requested, h.follows.path,
    h.follows.line]

/-- Outside of comments, a session does what is done on the desk. -/
theorem session (h : Mirrors job before run reader desk) {session' : Session} {desk' : Desk UInt8}
    (hmode : reader.mode = .directives) (hkeeps : run.session.Keeps session')
    (hdepicts : Depicts job session' desk') (hends : desk'.ends = desk.ends) :
    Mirrors job before { run with session := session' } reader desk' where
  depicts := by
    rw [hmode]
    exact hdepicts
  frames := by
    have hframes := h.frames
    rw [hmode] at hframes ⊢
    show Frames job reader.opened desk'.ends _
    rw [hends]
    exact hframes
  follows := h.follows
  options := h.options
  slots := hkeeps.1.trans h.slots
  warned := by
    rw [hkeeps.2]
    exact h.warned

theorem depicts_directives (h : Mirrors job before run reader desk)
    (hmode : reader.mode = .directives) : Depicts job run.session desk := by
  have hdepicts := h.depicts
  rw [hmode] at hdepicts
  exact hdepicts

theorem frames_directives (h : Mirrors job before run reader desk)
    (hmode : reader.mode = .directives) :
    Frames job reader.opened desk.ends run.source.hierarchy.frames := by
  have hframes := h.frames
  rw [hmode] at hframes
  exact hframes

/-- Another session and another hierarchy, for another desk and other open tags. -/
theorem moved (h : Mirrors job before run reader desk) {session' : Session} {desk' : Desk UInt8}
    {opened : List OpenTag} {frames : List (Frame FrameData)} (hmode : reader.mode = .directives)
    (hkeeps : run.session.Keeps session') (hdepicts : Depicts job session' desk')
    (hframes : Frames job opened desk'.ends frames) :
    Mirrors job before
      { run with session := session', source := { run.source with hierarchy := ⟨frames⟩ } }
      { reader with opened } desk' where
  depicts := by
    rw [hmode]
    exact hdepicts
  frames := by
    rw [hmode]
    exact hframes
  follows := { h.follows with }
  options := h.options
  slots := hkeeps.1.trans h.slots
  warned := by
    rw [hkeeps.2]
    exact h.warned

/-- Another hierarchy, for other open tags. -/
theorem opened (h : Mirrors job before run reader desk) {opened : List OpenTag}
    {frames : List (Frame FrameData)} (hmode : reader.mode = .directives)
    (hframes : Frames job opened desk.ends frames) :
    Mirrors job before { run with source := { run.source with hierarchy := ⟨frames⟩ } }
      { reader with opened } desk :=
  h.moved hmode ⟨rfl, rfl⟩ (h.depicts_directives hmode) hframes

end Mirrors

/-! ## Parts of handlers -/

namespace Action

/-- A reading that succeeds changes the session only in its warnings. -/
theorem reading_ok {read : Scene → Diagnosed α} {a : α} (h : Mirrors job before run reader desk)
    (hread : (read reader.scene).Appends) (hok : reading read run = .ok a run') :
    (read reader.scene).value? = some a ∧ Mirrors job before run' reader desk := by
  unfold reading at hok
  rw [h.scene] at hok
  split at hok
  · next b warnings heq =>
    obtain ⟨rfl, rfl⟩ := EStateM.Result.ok.inj hok
    obtain ⟨hvalue, hprefix⟩ := hread.value heq
    exact ⟨hvalue, {
      depicts := { h.depicts with }
      frames := h.frames
      follows := h.follows
      options := h.options
      slots := h.slots
      warned := h.warned.trans hprefix }⟩
  · cases hok

/-- What is written is put on the desk. -/
theorem write_ok {text : String} {u : PUnit} (hjob : job.Finishes)
    (h : Mirrors job before run reader desk) (hmode : reader.mode = .directives)
    (hok : write text run = .ok u run') :
    Mirrors job before run' reader (desk.put (Utf8.encode text)) := by
  obtain ⟨-, rfl⟩ := EStateM.Result.ok.inj hok
  exact h.session hmode ⟨rfl, rfl⟩ ((h.depicts_directives hmode).write hjob _) rfl

theorem misuse_ne_ok {message : String} {a : α} : misuse message run ≠ .ok a run' :=
  fun h => nomatch h

/-- A slot that is handed out is the next one of the reader. -/
theorem nextSlot_ok {slot : Nat} (h : Mirrors job before run reader desk)
    (hok : nextSlot run = .ok slot run') :
    slot = reader.slots ∧
      Mirrors job before run' { reader with slots := reader.slots + 1 } desk := by
  obtain ⟨rfl, rfl⟩ := EStateM.Result.ok.inj hok
  exact ⟨h.slots, {
    depicts := { h.depicts with }
    frames := h.frames
    follows := { h.follows with }
    options := h.options
    slots := congrArg (· + 1) h.slots
    warned := h.warned }⟩

end Action

end TemplateCompiler
