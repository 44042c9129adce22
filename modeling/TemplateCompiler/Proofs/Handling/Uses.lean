import TemplateCompiler.Proofs.Moment.Moves
import TemplateCompiler.Proofs.Session.Changes
import TemplateCompiler.Script

/-!
# What handlers can do

Whatever a handler does, it does with the operations that it is given (`Run.Use`): it writes, pauses,
opens and closes destinations, marks its own source, enters origins in the catalog and queues sources.
A log tells which artifacts have been opened, and whether each was a temporary one. The operations are
shown here one by one to be uses, whether they succeed or fail.
-/
namespace TemplateCompiler

variable {σ α β : Type}

/-- The artifacts that have been opened, and whether each of them is temporary. -/
abbrev OpenLog := List (Path × Bool)

/-- The session with a source from this origin after those that wait. -/
def Session.enqueue (session : Session) (origin : Origin) : Session :=
  let added := session.register origin
  { added.2 with waiting := session.waiting ++ [added.1] }

namespace Run

/-- One thing that a handler does, and what it opens. -/
inductive Use : Run σ → OpenLog → Run σ → Prop
  | write (run : Run σ) (piece : Bytes) :
    Use run [] { run with session := run.session.write piece }
  | writeMain (run : Run σ) (piece : Bytes) :
    Use run [] { run with session := run.session.writeMain piece }
  /-- Warnings are given, or slots are handed out. -/
  | note (run : Run σ) (warnings : List Warning) (slots : Nat) :
    Use run [] { run with session := { run.session with warnings, slots } }
  /-- The source is told anything but where it comes from and which line is being read. -/
  | mark (run : Run σ) (source : Source) (horigin : source.toOrigin = run.source.toOrigin)
    (hid : source.id = run.source.id) (hline : source.line = run.source.line) :
    Use run [] { run with source }
  | remember (run : Run σ) (memory : σ) : Use run [] { run with memory }
  | flag (run : Run σ) (main : Bool) (others : Destination → Bool) :
    Use run [] { run with session := { run.session with
      main := run.session.main.setPaused main
      others := run.session.others.map fun d => d.setPaused (others d) } }
  | close (run : Run σ) (name : String) :
    Use run [] { run with session := (run.session.removeDestination name).2 }
  | opening (run : Run σ) {name : String} {temporary : Bool} {path : Path} {d : Destination}
    {disk : Disk} (hpath : run.session.artifactPath name temporary = .ok path)
    (hopen : Destination.open? run.session.disk name path temporary = .ok (d, disk)) :
    Use run [(path, temporary)] { run with session := { run.session with
      others := run.session.others ++ [d]
      disk } }
  /-- What is copied is entered in the catalog. -/
  | register (run : Run σ) (origin : Origin) :
    Use run [] { run with session := (run.session.register origin).2 }
  | queue (run : Run σ) (origin : Origin) :
    Use run [] { run with session := run.session.enqueue origin }

/-- What a handler does, and what it opens. -/
inductive Uses : Run σ → OpenLog → Run σ → Prop
  | refl (run : Run σ) : Uses run [] run
  | tail {run run' last : Run σ} {log more : OpenLog} (h : Uses run log run')
    (huse : Use run' more last) : Uses run (log ++ more) last

namespace Uses

variable {run run' last : Run σ} {log more : OpenLog}

theorem single (h : run.Use log run') : run.Uses log run' :=
  .tail (.refl run) h

theorem trans (h : run.Uses log run') (h' : run'.Uses more last) : run.Uses (log ++ more) last := by
  induction h' with
  | refl =>
    rw [List.append_nil]
    exact h
  | tail _ huse ih =>
    rw [← List.append_assoc]
    exact .tail ih huse

/-- A relation that every use keeps is kept by all of them. -/
theorem of {R : Run σ → Run σ → Prop} (hrefl : ∀ run, R run run)
    (htrans : ∀ {a b c}, R a b → R b c → R a c) (hstep : ∀ {a b log}, Use a log b → R a b)
    (h : run.Uses log run') : R run run' := by
  induction h with
  | refl => exact hrefl _
  | tail _ huse ih => exact htrans ih (hstep huse)

end Uses

/-- Moves are uses. -/
theorem Move.uses {run run' : Run σ} (h : run.Move run') : ∃ log, run.Uses log run' := by
  cases h with
  | write piece => exact ⟨_, .single (.write run piece)⟩
  | note warnings slots => exact ⟨_, .single (.note run warnings slots)⟩
  | mark => exact ⟨_, .single (.mark run _ rfl rfl rfl)⟩
  | flag main others => exact ⟨_, .single (.flag run main others)⟩
  | close name => exact ⟨_, .single (.close run name)⟩
  | opening hpath hopen => exact ⟨_, .single (.opening run hpath hopen)⟩
  | register origin => exact ⟨_, .single (.register run origin)⟩
  | extend _ _ _ added hadded =>
    subst hadded
    exact ⟨_, (Uses.single (.queue run _)).tail (.mark _ _ rfl rfl rfl)⟩
  | extendAgain => exact ⟨_, .single (.mark run _ rfl rfl rfl)⟩

theorem Moves.uses {run run' : Run σ} (h : run.Moves run') : ∃ log, run.Uses log run' := by
  induction h with
  | refl => exact ⟨_, .refl _⟩
  | tail _ hmove ih =>
    obtain ⟨log, hlog⟩ := ih
    obtain ⟨more, hmore⟩ := hmove.uses
    exact ⟨_, hlog.trans hmore⟩

/-- The run after an action, whether it succeeded or failed. -/
def after : EStateM.Result CompileError (Run σ) α → Run σ
  | .ok _ run => run
  | .error _ run => run

/-- A sequence relates two runs by what its parts do, one after the other; only the first one does
anything if it fails. -/
theorem after_bind {R : Run σ → Run σ → Prop} {action : Action σ α} {f : α → Action σ β} {run : Run σ}
    (htrans : ∀ a b c, R a b → R b c → R a c) (h : R run (after (action run)))
    (hf : ∀ a run, R run (after (f a run))) : R run (after ((action >>= f) run)) := by
  cases haction : action run with
  | error error middle =>
    rw [haction] at h
    rw [bind_of_error haction]
    exact h
  | ok a middle =>
    rw [haction] at h
    rw [bind_of_ok haction]
    exact htrans run middle _ h (hf a middle)

end Run

/-- An action that does nothing that a handler cannot do. -/
def Action.OnlyUses (action : Action σ α) : Prop :=
  ∀ run : Run σ, ∃ log, run.Uses log (Run.after (action run))

namespace Action

/-- An action that does nothing but moves. -/
theorem Moves.onlyUses {limited : Prop} {action : Action σ α} (h : Moves limited action) :
    OnlyUses action := by
  intro run
  have hcomes := h run
  cases hresult : action run <;> rw [hresult] at hcomes
  · cases hcomes with
    | ok hmoves => exact hmoves.uses
  · cases hcomes with
    | error hmoves => exact hmoves.uses

theorem onlyUses_pure (a : α) : OnlyUses (pure a : Action σ α) :=
  fun run => ⟨_, .refl run⟩

theorem onlyUses_throw (error : CompileError) : OnlyUses (throw error : Action σ α) :=
  fun run => ⟨_, .refl run⟩

theorem OnlyUses.bind {action : Action σ α} {f : α → Action σ β} (h : OnlyUses action)
    (hf : ∀ a, OnlyUses (f a)) : OnlyUses (action >>= f) := by
  refine fun run => Run.after_bind (R := fun run run' => ∃ log, run.Uses log run') ?_ (h run) hf
  rintro a b c ⟨log, hlog⟩ ⟨more, hmore⟩
  exact ⟨_, hlog.trans hmore⟩

theorem onlyUses_source : OnlyUses (source : Action σ Source) :=
  fun run => ⟨_, .refl run⟩

theorem onlyUses_location : OnlyUses (location : Action σ Location) :=
  fun run => ⟨_, .refl run⟩

/-- The source may be changed but for where it comes from and which line is being read. -/
theorem onlyUses_updateSource {f : Source → Source}
    (h : ∀ source : Source, (f source).toOrigin = source.toOrigin ∧ (f source).id = source.id ∧
      (f source).line = source.line) : OnlyUses (updateSource f : Action σ PUnit) :=
  fun run => ⟨_, .single (.mark run _ (h _).1 (h _).2.1 (h _).2.2)⟩

theorem onlyUses_reading (read : Scene → Diagnosed α) : OnlyUses (reading read : Action σ α) := by
  intro run
  unfold reading
  split
  · exact ⟨_, .single (.note run _ run.session.slots)⟩
  · exact ⟨_, .single (.note run _ run.session.slots)⟩

/-! ## Operations of the session -/

/-- Opening a destination closes one of its name first. -/
theorem onlyUses_addDestination (name : String) (temporary : Bool) :
    OnlyUses (ofSession (Session.addDestination name temporary) : Action σ Bool) := by
  intro run
  have hadd := Session.addDestination_eq name temporary run.session
  cases hpath : run.session.artifactPath name temporary with
  | error error =>
    rw [hpath] at hadd
    rw [ofSession_of_error hadd]
    exact ⟨_, .refl run⟩
  | ok path =>
    rw [hpath] at hadd
    dsimp only at hadd
    have hclose := Run.Uses.single (.close run name)
    cases hopen : Destination.open? (run.session.removeDestination name).2.disk name path temporary with
    | error error =>
      rw [hopen] at hadd
      rw [ofSession_of_error hadd]
      exact ⟨_, hclose⟩
    | ok opened =>
      rw [hopen] at hadd
      rw [ofSession_of_ok hadd]
      rw [← Session.artifactPath_removeDestination run.session name] at hpath
      exact ⟨_, hclose.tail (.opening _ hpath hopen)⟩

theorem onlyUses_addSource (requested : String) (skipped : Option String)
    (child : Option SourceId) :
    OnlyUses (addSource requested skipped child : Action σ (Option SourceId)) := by
  refine onlyUses_source.bind fun source run => ?_
  have hadd := Session.addSource_eq (some source.toOrigin) requested skipped child run.session
  split at hadd
  · rw [ofSession_of_ok hadd]
    exact ⟨_, .refl run⟩
  · split at hadd
    · rw [ofSession_of_error hadd]
      exact ⟨_, .refl run⟩
    · rw [ofSession_of_error hadd]
      exact ⟨_, .refl run⟩
    · rw [ofSession_of_ok hadd]
      exact ⟨_, .single (.queue run _)⟩

end Action

end TemplateCompiler
