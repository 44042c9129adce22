import TemplateCompiler.Proofs.Handling.Standard

/-!
# What handlers are offered

The actions from which every handler is put together, whatever it remembers. With some of them it attends
to its own source (`Action.Attends`): it looks at it, marks it, and complains of it. With the others it asks
the session for something. If all of them are of some kind (`Action.Offers`), besides those by which
directives are met, then so are the standard handlers.
-/
namespace TemplateCompiler

variable {σ α : Type}

namespace Action

/-- The kind has what handlers do about their own source. -/
structure Attends (kind : ∀ α : Type, Action σ α → Prop) : Prop extends Meets kind where
  throw : ∀ {α : Type} error, kind α (throw error)
  /-- Whatever is asked of the run. -/
  look : ∀ {α : Type} (f : Run σ → α), kind α fun run => .ok (f run) run
  update : ∀ f : Source → Source, (∀ source : Source, (f source).toOrigin = source.toOrigin ∧
    (f source).id = source.id ∧ (f source).line = source.line) → kind PUnit (updateSource f)

/-- The kind has what handlers are offered. -/
structure Offers (kind : ∀ α : Type, Action σ α → Prop) : Prop extends Attends kind where
  reading : ∀ {α : Type} (read : Scene → Diagnosed α), kind α (reading read)
  addSource : ∀ requested skipped child, kind _ (addSource requested skipped child)
  insertFile : ∀ requested, kind PUnit (ofSession (Session.insertFile requested))
  insertArtifact : ∀ path, kind PUnit (ofSession (Session.insertArtifact path))
  addDestination : ∀ name temporary, kind Bool (ofSession (Session.addDestination name temporary))
  removeDestination : ∀ name, kind Bool fun run =>
    .ok (run.session.removeDestination name).1
      { run with session := (run.session.removeDestination name).2 }
  setMainPaused : ∀ paused, kind PUnit (updateSession (·.setMainPaused paused))
  pauseAll : kind PauseState pauseAll
  restore : ∀ state, kind PUnit (updateSession (·.restore state))

variable {kind : ∀ α : Type, Action σ α → Prop}

namespace Attends

variable (h : Attends kind)
include h

theorem misuse (message : String) : kind α (Action.misuse message) :=
  h.bind (h.look _) fun _ => h.throw _

theorem ofExcept (result : Except CompileError α) : kind α (MonadExcept.ofExcept result) := by
  cases result with
  | error error => exact h.throw error
  | ok a => exact h.pure a

theorem find (requested : String) (skipped : Option String) :
    kind _ (Action.find requested skipped) :=
  h.bind (h.look _) fun _ => h.ofExcept _

/-! ## Open tags -/

theorem push (tag : String) (data : FrameData) : kind PUnit (Action.push tag data) :=
  h.update _ fun _ => ⟨rfl, rfl, rfl⟩

theorem expect (tag : String) (view : FrameData → Option α) (data : FrameData) :
    kind α (Action.expect tag view data) := by
  unfold Action.expect
  split
  · exact h.pure _
  · exact h.misuse _

theorem pop (tag : String) (view : FrameData → Option α) : kind α (Action.pop tag view) := by
  refine h.bind (h.look _) fun source => ?_
  split
  · exact h.throw _
  · exact h.bind (h.update _ fun _ => ⟨rfl, rfl, rfl⟩) fun _ => h.expect _ _ _

theorem peek (tag : String) (view : FrameData → Option α) : kind α (Action.peek tag view) := by
  refine h.bind (h.look _) fun source => ?_
  split
  · exact h.throw _
  · exact h.expect _ _ _

theorem replace (tag : String) (data : FrameData) : kind PUnit (Action.replace tag data) := by
  refine h.bind (h.look _) fun source => ?_
  split
  · exact h.throw _
  · exact h.update _ fun _ => ⟨rfl, rfl, rfl⟩

/-- A kind that has the actions by which a template is extended has the handler. -/
theorem onExtends (hpause : kind PUnit (updateSession (·.setMainPaused true)))
    (hadd : ∀ requested skipped child, kind _ (addSource requested skipped child))
    (dispatch : Dispatch σ) (tag : Tag) : kind PUnit (Standard.onExtends dispatch tag) := by
  refine h.bind (h.toMeets.quotedPath h.misuse tag) fun path => h.bind (h.look _) fun source => ?_
  dsimp only
  split
  · exact h.misuse _
  · refine h.bind (h.find _ _) fun result => ?_
    split
    · exact h.throw _
    · refine h.bind (h.look _) fun session => ?_
      split
      · exact h.throw _
      · exact h.bind hpause fun _ => h.bind (hadd _ _ _) fun _ => h.update _ fun _ => ⟨rfl, rfl, rfl⟩

end Attends

end Action

end TemplateCompiler
