import TemplateCompiler.Script
import TemplateCompiler.Proofs.Nesting.Handlers
import TemplateCompiler.Proofs.Session.Confined
import TemplateCompiler.Proofs.Transcript.Tags

/-!
# What a refused operation leaves of the open tags

A handler that closes or looks at the innermost open tag can be refused for three reasons: no tag is
open, another one is the innermost, or its frame holds something else than what is expected. A look
changes nothing for any of them. A closing keeps the frames for the first two reasons only: the frame
is taken off before its data are seen, so a frame with other data is lost with the error.
-/
namespace TemplateCompiler

variable {σ α β : Type}

namespace Hierarchy

/-- What the innermost frame is to a tag that asks for it and expects data that a view sees. -/
inductive Innermost (β α : Type) where
  /-- No tag is open. -/
  | missing
  /-- Another tag is the innermost one. -/
  | other (tag : String)
  /-- The frame is the tag's, but its data are not what is expected; behind it stand `rest`. -/
  | unexpected (rest : List (Frame β))
  | expected (a : α) (rest : List (Frame β))

/-- The frames that are left if the innermost one is taken off where it is as expected. -/
def Innermost.left (frames : List (Frame β)) : Innermost β α → List (Frame β)
  | .expected _ rest => rest
  | _ => frames

/-- What `tag` finds when it asks for the innermost frame. -/
def innermost (h : Hierarchy β) (tag : String) (view : β → Option α) : Innermost β α :=
  match h.frames with
  | [] => .missing
  | frame :: rest =>
    if frame.tag = tag then
      match view frame.data with
      | none => .unexpected rest
      | some a => .expected a rest
    else .other frame.tag

variable {h : Hierarchy β} {tag : String} {view : β → Option α}

theorem innermost_eq_unexpected {rest : List (Frame β)} :
    h.innermost tag view = .unexpected rest ↔
      ∃ data, h.frames = ⟨tag, data⟩ :: rest ∧ view data = none := by
  constructor
  · intro hfound
    unfold innermost at hfound
    split at hfound
    · cases hfound
    next frame others hframes =>
      split at hfound
      next htag =>
        split at hfound
        next hview =>
          cases hfound
          exact ⟨frame.data, by rw [hframes, ← htag], hview⟩
        next => cases hfound
      next => cases hfound
  · rintro ⟨data, hframes, hview⟩
    unfold innermost
    rw [hframes]
    dsimp only
    rw [if_pos rfl, hview]

end Hierarchy

/-- The innermost open tag is the one asked for, but it remembers something else than expected. -/
def Source.Misreads (source : Source) (tag : String) (view : FrameData → Option α) : Prop :=
  ∃ data rest, source.hierarchy.frames = ⟨tag, data⟩ :: rest ∧ view data = none

theorem Source.misreads_iff {source : Source} {tag : String} {view : FrameData → Option α} :
    source.Misreads tag view ↔ ∃ rest, source.hierarchy.innermost tag view = .unexpected rest := by
  constructor
  · rintro ⟨data, rest, hframes, hview⟩
    exact ⟨rest, Hierarchy.innermost_eq_unexpected.2 ⟨data, hframes, hview⟩⟩
  · rintro ⟨rest, hfound⟩
    obtain ⟨data, hframes, hview⟩ := Hierarchy.innermost_eq_unexpected.1 hfound
    exact ⟨data, rest, hframes, hview⟩

namespace Action

variable {tag : String} {view : FrameData → Option α} {run run' : Run σ} {error : CompileError}

/-- What is wrong when a frame holds something else than what `tag` expects. -/
def misreadError (source : Source) (tag : String) : CompileError :=
  .misuse (tag ++ " frame holds unexpected data") source.location

theorem expect_eq (tag : String) (view : FrameData → Option α) (data : FrameData) (run : Run σ) :
    expect tag view data run =
      match view data with
      | none => .error (misreadError run.source tag) run
      | some a => .ok a run := by
  unfold expect
  cases view data <;> rfl

/-- **Closing**, by what the innermost frame is. It is taken off in the last two cases. -/
theorem pop_innermost (tag : String) (view : FrameData → Option α) (run : Run σ) :
    pop tag view run =
      match run.source.hierarchy.innermost tag view with
      | .missing => .error (closingError run.source tag .empty) run
      | .other innermost => .error (closingError run.source tag (.mismatch innermost)) run
      | .unexpected rest => .error (misreadError run.source tag) (withFrames run rest)
      | .expected a rest => .ok a (withFrames run rest) := by
  rw [pop_eq]
  unfold Hierarchy.pop Hierarchy.innermost
  cases run.source.hierarchy.frames with
  | nil => rfl
  | cons frame rest =>
    by_cases htag : frame.tag = tag
    · dsimp only
      rw [if_pos htag, if_pos htag]
      dsimp only
      rw [expect_eq]
      cases view frame.data <;> rfl
    · dsimp only
      rw [if_neg htag, if_neg htag]

/-- **Looking**, by what the innermost frame is. -/
theorem peek_innermost (tag : String) (view : FrameData → Option α) (run : Run σ) :
    peek tag view run =
      match run.source.hierarchy.innermost tag view with
      | .missing => .error (nestingError run.source tag) run
      | .other _ => .error (nestingError run.source tag) run
      | .unexpected _ => .error (misreadError run.source tag) run
      | .expected a _ => .ok a run := by
  rw [peek_eq]
  unfold Hierarchy.peek Hierarchy.pop Hierarchy.innermost
  cases run.source.hierarchy.frames with
  | nil => rfl
  | cons frame rest =>
    by_cases htag : frame.tag = tag
    · dsimp only
      rw [if_pos htag, if_pos htag]
      dsimp only [Except.map]
      rw [expect_eq]
      cases view frame.data <;> rfl
    · dsimp only
      rw [if_neg htag, if_neg htag]
      rfl

/-- A look in vain changes nothing, whatever the reason. -/
theorem eq_of_peek_error (h : peek tag view run = .error error run') : run' = run := by
  rw [peek_innermost] at h
  split at h
  all_goals cases h
  all_goals rfl

/-- A closing in vain changes nothing, or it has taken off the frame that it could not read. -/
theorem pop_error_cases (h : pop tag view run = .error error run') :
    (¬ run.source.Misreads tag view ∧ run' = run) ∨
    ∃ data rest, run.source.hierarchy.frames = ⟨tag, data⟩ :: rest ∧ view data = none ∧
      run' = withFrames run rest := by
  rw [pop_innermost] at h
  rw [Source.misreads_iff]
  cases hfound : run.source.hierarchy.innermost tag view with
  | missing =>
    rw [hfound] at h
    cases h
    exact .inl ⟨(fun hmisread => nomatch hmisread), rfl⟩
  | other innermost =>
    rw [hfound] at h
    cases h
    exact .inl ⟨(fun hmisread => nomatch hmisread), rfl⟩
  | unexpected rest =>
    rw [hfound] at h
    cases h
    obtain ⟨data, hframes, hview⟩ := Hierarchy.innermost_eq_unexpected.1 hfound
    exact .inr ⟨data, rest, hframes, hview, rfl⟩
  | expected a rest =>
    rw [hfound] at h
    cases h

/-- Taking a frame off is seen. -/
theorem withFrames_ne {frame : Frame FrameData} {rest : List (Frame FrameData)}
    (hframes : run.source.hierarchy.frames = frame :: rest) : withFrames run rest ≠ run := by
  intro heq
  have hrest : rest = frame :: rest :=
    (congrArg (fun run => run.source.hierarchy.frames) heq).trans hframes
  exact List.cons_ne_self frame rest hrest.symm

/-- **Refusals.** A handler that looks at the innermost open tag in vain finds everything as it was,
and one that closes it takes off exactly its frame. After a closing in vain everything is as it was
too, exactly if it was not the tag's own frame that held something else than expected; this frame is
gone then, and nothing else is changed. -/
theorem intact_iff (run : Run σ) (tag : String) (view : FrameData → Option α) :
    (∀ error run', peek tag view run = .error error run' → run' = run) ∧
    (∀ a run', pop tag view run = .ok a run' →
      ∃ data rest, run.source.hierarchy.frames = ⟨tag, data⟩ :: rest ∧ view data = some a ∧
        run' = withFrames run rest) ∧
    (∀ error run', pop tag view run = .error error run' →
      (run' = run ↔ ¬ run.source.Misreads tag view) ∧
      (run.source.Misreads tag view →
        ∃ frame rest, run.source.hierarchy.frames = frame :: rest ∧ run' = withFrames run rest)) := by
  refine ⟨fun _ _ => eq_of_peek_error, fun _ _ => pop_ok, fun error run' h => ?_⟩
  rcases pop_error_cases h with ⟨hread, rfl⟩ | ⟨data, rest, hframes, hview, rfl⟩
  · exact ⟨iff_of_true rfl hread, fun hmisread => absurd hmisread hread⟩
  · have hmisread : run.source.Misreads tag view := ⟨data, rest, hframes, hview⟩
    exact ⟨iff_of_false (withFrames_ne hframes) (fun hread => hread hmisread),
      fun _ => ⟨_, rest, hframes, rfl⟩⟩

/-- A source in which a tag is open that remembers a text. -/
def remembering : Source where
  requested := "page.html"
  path := ⟨"/site/app/view/page.html"⟩
  level := "local"
  skipped := none
  child := none
  id := 0
  line := 1
  hierarchy := ⟨[⟨"t", .text "x"⟩]⟩
  currentTag := some "t"

/-- Text was remembered and a flag is expected: the closing fails, and the tag is no longer open,
though a look that fails with the same error leaves it open. -/
theorem exists_not_intact :
    ∃ (session : Session) (disk : Disk) (run run' : Run PUnit) (error : CompileError),
      Session.start Workspace.single "s" "page.html" "page.html" .empty = .ok session disk ∧
      run.session = session ∧
      pop "t" Shape.flag.view run = .error error run' ∧
      peek "t" Shape.flag.view run = .error error run ∧
      run.source.hierarchy.frames = [⟨"t", .text "x"⟩] ∧
      run'.source.hierarchy.frames = [] := by
  have hstart : succeeds (fun _ => true)
      (Session.start Workspace.single "s" "page.html" "page.html" .empty) = true := by
    decide +kernel
  obtain ⟨session, disk, hok, -⟩ := exists_of_succeeds hstart
  exact ⟨session, disk, ⟨session, remembering, ⟨⟩⟩, _, _, hok, rfl, rfl, rfl, rfl, rfl⟩

end Action

/-! ## Scripts that go on -/

/-- What a call makes of the open tags if a refusal changes nothing; `none` if the call is about
something else. -/
def Call.next? (frames : List (Frame FrameData)) : Call → Option (List (Frame FrameData))
  | .push name data => some (⟨name, data⟩ :: frames)
  | .pop name shape => some ((Hierarchy.innermost ⟨frames⟩ name shape.view).left frames)
  | .peek .. => some frames
  | _ => none

/-- The call closes a tag with a frame that it cannot read. -/
def Call.Misreads (frames : List (Frame FrameData)) : Call → Prop
  | .pop name shape => ∃ rest, Hierarchy.innermost ⟨frames⟩ name shape.view = .unexpected rest
  | _ => False

namespace Script

open Action

variable {dispatch : Dispatch Journal} {frames between left : List (Frame FrameData)} {call : Call}
  {script : Script}

/-- The script attempts calls about the open tags only, none of which misreads its frame; `left` is
what they make of the open tags. -/
inductive Reads : List (Frame FrameData) → Script → List (Frame FrameData) → Prop
  | done (frames : List (Frame FrameData)) : Reads frames [] frames
  | step {frames between left : List (Frame FrameData)} {call : Call} {script : Script}
      (hnext : call.next? frames = some between) (hreads : ¬ call.Misreads frames)
      (hrest : Reads between script left) : Reads frames (⟨call, true⟩ :: script) left

theorem perform_of_ok {run run' : Run Journal} {reply : Reply}
    (h : answer dispatch call run = .ok reply run') :
    perform dispatch ⟨call, true⟩ run = .ok ⟨⟩ (note run' (.answered call reply)) := by
  unfold perform
  rw [show (answer dispatch call).run run = .ok reply run' from h]

theorem perform_of_error {run run' : Run Journal} {error : CompileError}
    (h : answer dispatch call run = .error error run') :
    perform dispatch ⟨call, true⟩ run = .ok ⟨⟩ (note run' (.failed call error)) := by
  unfold perform
  rw [show (answer dispatch call).run run = .error error run' from h]
  rfl

/-- A call that is attempted does what it should. -/
theorem perform_attempt {run : Run Journal}
    (hnext : call.next? run.source.hierarchy.frames = some between)
    (hreads : ¬ call.Misreads run.source.hierarchy.frames) :
    ∃ entry, perform dispatch ⟨call, true⟩ run = .ok ⟨⟩ (note (withFrames run between) entry) := by
  cases call with
  | push tag data =>
    cases hnext
    exact ⟨_, rfl⟩
  | pop tag shape =>
    have hpop := pop_innermost tag shape.view run
    obtain rfl : (run.source.hierarchy.innermost tag shape.view).left _ = between :=
      Option.some.inj hnext
    cases hfound : run.source.hierarchy.innermost tag shape.view with
    | missing =>
      rw [hfound] at hpop
      exact ⟨_, perform_of_error (bind_of_error hpop)⟩
    | other innermost =>
      rw [hfound] at hpop
      exact ⟨_, perform_of_error (bind_of_error hpop)⟩
    | unexpected rest => exact absurd ⟨rest, hfound⟩ hreads
    | expected a rest =>
      rw [hfound] at hpop
      exact ⟨_, perform_of_ok (bind_of_ok hpop)⟩
  | peek tag shape =>
    cases hnext
    cases hpeek : Action.peek tag shape.view run with
    | ok a run' =>
      obtain ⟨-, -, -, -, rfl⟩ := peek_ok hpeek
      exact ⟨_, perform_of_ok (bind_of_ok hpeek)⟩
    | error error run' =>
      cases eq_of_peek_error hpeek
      exact ⟨_, perform_of_error (bind_of_error hpeek)⟩
  | _ => cases hnext

/-- **Going on.** A handler that catches every error is left with what the calls that were not
refused make of the open tags, and has changed nothing but these and its journal. -/
theorem performAll_attempts {run : Run Journal} (h : Reads run.source.hierarchy.frames script left) :
    ∃ memory, performAll dispatch script run = .ok ⟨⟩ { withFrames run left with memory } := by
  generalize hframes : run.source.hierarchy.frames = frames at h
  induction h generalizing run with
  | done frames =>
    subst hframes
    exact ⟨run.memory, rfl⟩
  | step hnext hreads hrest ih =>
    subst hframes
    obtain ⟨entry, hfirst⟩ := @perform_attempt dispatch _ _ _ hnext hreads
    obtain ⟨memory, hall⟩ := @ih (note (withFrames run _) entry) rfl
    exact ⟨memory, (bind_of_ok hfirst).trans hall⟩

end Script

end TemplateCompiler
