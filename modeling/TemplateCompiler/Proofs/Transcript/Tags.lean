import TemplateCompiler.Proofs.Transcript.Filters

/-!
# Tags

The handler of a tag does to the artifacts what the tag means to a reader (`Handles`). Here this is
shown of control structure; the tags that reach beyond the current text follow in a module of their
own.
-/
namespace TemplateCompiler

variable {σ α : Type} {job : Job} {before : List Warning} {run run' : Run σ} {reader : Reader}
  {desk : Desk UInt8}

/-! ## The hierarchy -/

namespace Frames

variable {opened : List OpenTag} {ends : List (String × Option PauseState)}
  {frame : Frame FrameData} {rest : List (Frame FrameData)}

/-- What the innermost frame can be. -/
theorem cons_inv (h : Frames job opened ends (frame :: rest)) :
    (frame = ⟨"if", .nothing⟩ ∧ ∃ more, opened = .condition :: more ∧ Frames job more ends rest) ∨
    (∃ hasNone, frame = ⟨"for", .loop hasNone⟩ ∧
      ∃ more, opened = .loop hasNone :: more ∧ Frames job more ends rest) ∨
    (frame = ⟨"with", .nothing⟩ ∧ ∃ more, opened = .naming :: more ∧ Frames job more ends rest) ∨
    (∃ name saved, frame = ⟨"block", .block name (job.blockName name) (saved.map job.flags)⟩ ∧
      ∃ more others, opened = .block name :: more ∧ ends = (name, saved) :: others ∧
        Frames job more others rest) := by
  cases h with
  | condition h => exact .inl ⟨rfl, _, rfl, h⟩
  | loop hasNone h => exact .inr (.inl ⟨hasNone, rfl, _, rfl, h⟩)
  | naming h => exact .inr (.inr (.inl ⟨rfl, _, rfl, h⟩))
  | block name saved h => exact .inr (.inr (.inr ⟨name, saved, rfl, _, _, rfl, rfl, h⟩))

theorem condition_inv {data : FrameData} (h : Frames job opened ends (⟨"if", data⟩ :: rest)) :
    ∃ more, opened = .condition :: more ∧ Frames job more ends rest := by
  rcases h.cons_inv with ⟨-, h⟩ | ⟨_, hframe, -⟩ | ⟨hframe, -⟩ | ⟨_, _, hframe, -⟩
  · exact h
  · simp at hframe
  · simp at hframe
  · simp at hframe

theorem loop_inv {hasNone : Bool} (h : Frames job opened ends (⟨"for", .loop hasNone⟩ :: rest)) :
    ∃ more, opened = .loop hasNone :: more ∧ Frames job more ends rest := by
  rcases h.cons_inv with ⟨hframe, -⟩ | ⟨_, hframe, h⟩ | ⟨hframe, -⟩ | ⟨_, _, hframe, -⟩
  · simp at hframe
  · cases hframe
    exact h
  · simp at hframe
  · simp at hframe

theorem naming_inv {data : FrameData} (h : Frames job opened ends (⟨"with", data⟩ :: rest)) :
    ∃ more, opened = .naming :: more ∧ Frames job more ends rest := by
  rcases h.cons_inv with ⟨hframe, -⟩ | ⟨_, hframe, -⟩ | ⟨-, h⟩ | ⟨_, _, hframe, -⟩
  · simp at hframe
  · simp at hframe
  · exact h
  · simp at hframe

theorem block_inv {data : FrameData} (h : Frames job opened ends (⟨"block", data⟩ :: rest)) :
    ∃ name saved more others, data = .block name (job.blockName name) (saved.map job.flags) ∧
      opened = .block name :: more ∧ ends = (name, saved) :: others ∧
        Frames job more others rest := by
  rcases h.cons_inv with ⟨hframe, -⟩ | ⟨_, hframe, -⟩ | ⟨hframe, -⟩ | ⟨name, saved, hframe, more, h⟩
  · simp at hframe
  · simp at hframe
  · simp at hframe
  · obtain ⟨others, hopened, hends, h⟩ := h
    exact ⟨name, saved, more, others, (Frame.mk.inj hframe).2, hopened, hends, h⟩

/-- Literals and comments are no open tags of a reader. -/
theorem tag_mem (h : Frames job opened ends (frame :: rest)) :
    frame.tag = "if" ∨ frame.tag = "for" ∨ frame.tag = "with" ∨ frame.tag = "block" := by
  rcases h.cons_inv with ⟨rfl, -⟩ | ⟨_, rfl, -⟩ | ⟨rfl, -⟩ | ⟨_, _, rfl, -⟩ <;> simp

end Frames

theorem Hierarchy.pop_eq_ok {h rest : Hierarchy α} {tag : String} {data : α}
    (hpop : h.pop tag = .ok (data, rest)) : h.frames = ⟨tag, data⟩ :: rest.frames := by
  unfold Hierarchy.pop at hpop
  split at hpop
  · cases hpop
  · next frame frames hframes =>
    split at hpop
    · next htag =>
      obtain ⟨rfl, rfl⟩ := Prod.mk.inj (Except.ok.inj hpop)
      rw [hframes, ← htag]
    · cases hpop

namespace Action

/-- The run with another hierarchy of open tags. -/
def withFrames (run : Run σ) (frames : List (Frame FrameData)) : Run σ :=
  { run with source := { run.source with hierarchy := ⟨frames⟩ } }

theorem expect_ok {tag : String} {view : FrameData → Option α} {data : FrameData} {a : α}
    (hok : expect tag view data run = .ok a run') : view data = some a ∧ run' = run := by
  unfold expect at hok
  cases hview : view data with
  | none =>
    rw [hview] at hok
    exact absurd hok misuse_ne_ok
  | some b =>
    rw [hview] at hok
    obtain ⟨rfl, rfl⟩ := pure_eq_ok.1 hok
    exact ⟨rfl, rfl⟩

theorem pop_ok {tag : String} {view : FrameData → Option α} {a : α}
    (hok : pop tag view run = .ok a run') :
    ∃ data rest, run.source.hierarchy.frames = ⟨tag, data⟩ :: rest ∧ view data = some a ∧
      run' = withFrames run rest := by
  obtain ⟨_, _, hsource, hok⟩ := bind_eq_ok.1 hok
  obtain ⟨rfl, rfl⟩ := EStateM.Result.ok.inj hsource
  cases hpop : run.source.hierarchy.pop tag with
  | error refusal =>
    rw [hpop] at hok
    cases hok
  | ok popped =>
    obtain ⟨data, rest⟩ := popped
    rw [hpop] at hok
    have hexpect : expect tag view data (withFrames run rest.frames) = .ok a run' := hok
    obtain ⟨hview, rfl⟩ := expect_ok hexpect
    exact ⟨data, rest.frames, Hierarchy.pop_eq_ok hpop, hview, rfl⟩

theorem peek_ok {tag : String} {view : FrameData → Option α} {a : α}
    (hok : peek tag view run = .ok a run') :
    ∃ data rest, run.source.hierarchy.frames = ⟨tag, data⟩ :: rest ∧ view data = some a ∧
      run' = run := by
  obtain ⟨_, _, hsource, hok⟩ := bind_eq_ok.1 hok
  obtain ⟨rfl, rfl⟩ := EStateM.Result.ok.inj hsource
  unfold Hierarchy.peek at hok
  cases hpop : run.source.hierarchy.pop tag with
  | error refusal =>
    rw [hpop] at hok
    cases hok
  | ok popped =>
    obtain ⟨data, rest⟩ := popped
    rw [hpop] at hok
    obtain ⟨hview, rfl⟩ := expect_ok hok
    exact ⟨data, rest.frames, Hierarchy.pop_eq_ok hpop, hview, rfl⟩

theorem replace_ok {tag : String} {data : FrameData} {u : PUnit}
    (hok : replace tag data run = .ok u run') :
    ∃ old rest, run.source.hierarchy.frames = ⟨tag, old⟩ :: rest ∧
      run' = withFrames run (⟨tag, data⟩ :: rest) := by
  obtain ⟨_, _, hsource, hok⟩ := bind_eq_ok.1 hok
  obtain ⟨rfl, rfl⟩ := EStateM.Result.ok.inj hsource
  unfold Hierarchy.replace at hok
  cases hpop : run.source.hierarchy.pop tag with
  | error refusal =>
    rw [hpop] at hok
    cases hok
  | ok popped =>
    obtain ⟨old, rest⟩ := popped
    rw [hpop] at hok
    exact ⟨old, rest.frames, Hierarchy.pop_eq_ok hpop, (EStateM.Result.ok.inj hok).2.symm⟩

end Action

/-! ## Tags -/

/-- The contents that a template may have when it is copied: what a session finds on some disk that
its own disk has grown to. -/
def Job.Inserted (job : Job) (requested : String) (content : Bytes) : Prop :=
  ∃ disk found, Disk.Grown job.Owns job.disk disk ∧
    job.workspace.find disk (Text.trimSlashes requested) none = .ok (some found) ∧
      content = (job.workspace.shelf.read? disk found.path).getD []

/-- The desk after an effect: its statement is written, and then the acts take place. -/
def Reader.Effect.apply (effect : Reader.Effect) (desk : Desk UInt8)
    (acts : List (Desk.Act Passage)) : Desk UInt8 :=
  (desk.put (Utf8.encode (Passage.stating effect.statement?))).play
    (acts.map (Desk.Act.flatten Passage.bytes))

/-- The handler of a tag does what the tag means. -/
def Handles (job : Job) (handler : TagHandler σ) (meaning : Reader.Meaning) : Prop :=
  ∀ before run run' reader desk (tag : Tag), reader.mode = .directives →
    Mirrors job before run reader desk → handler tag run = .ok ⟨⟩ run' →
      ∃ effect reader' acts, meaning tag reader = some (effect, reader') ∧
        List.Forall₂ (Event.Enacts job.Inserted) effect.events acts ∧
          Mirrors job before run' reader' (effect.apply desk acts)

variable {dispatch : Dispatch σ}

/-! ### Conditions -/

theorem condition_ok {tag : Tag} {condition : Code.Condition}
    (statement : Code.Condition → Code.Statement)
    (hok : Standard.condition tag run = .ok condition run') :
    Reader.onCondition statement tag = some (.emit (statement condition)) ∧ run' = run := by
  unfold Standard.condition at hok
  unfold Reader.onCondition
  split at hok
  · exact absurd hok Action.misuse_ne_ok
  · next hparams =>
    obtain ⟨rfl, rfl⟩ := pure_eq_ok.1 hok
    rw [if_neg hparams]
    exact ⟨rfl, rfl⟩

/-- A statement that is emitted is the whole effect of a tag. -/
theorem Mirrors.emitted (hjob : job.Finishes) (h : Mirrors job before run reader desk)
    (hmode : reader.mode = .directives) {statement : Code.Statement} {u : PUnit}
    (hok : Action.emit statement run = .ok u run') :
    Mirrors job before run' reader ((Reader.Effect.emit statement).apply desk []) :=
  Action.write_ok hjob h hmode hok

theorem handles_if (dispatch : Dispatch σ) (hjob : job.Finishes) :
    Handles job (Standard.onIf dispatch) Reader.onIf := by
  intro before run run' reader desk tag hmode h hok
  obtain ⟨condition, mid, hcondition, hok'⟩ := bind_eq_ok.1 hok
  obtain ⟨⟨⟩, last, hemit, hpush⟩ := bind_eq_ok.1 hok'
  obtain ⟨heffect, rfl⟩ := condition_ok .ifThen hcondition
  have hemitted := h.emitted hjob hmode hemit
  obtain ⟨-, rfl⟩ := EStateM.Result.ok.inj hpush
  refine ⟨_, _, [], ?_, .nil, hemitted.opened hmode (.condition (hemitted.frames_directives hmode))⟩
  rw [Reader.onIf, heffect]
  rfl

theorem handles_elseIf (dispatch : Dispatch σ) (hjob : job.Finishes) :
    Handles job (Standard.onElseIf dispatch) Reader.onElseIf := by
  intro before run run' reader desk tag hmode h hok
  obtain ⟨⟨⟩, first, hpeek, hok'⟩ := bind_eq_ok.1 hok
  obtain ⟨condition, mid, hcondition, hemit⟩ := bind_eq_ok.1 hok'
  obtain ⟨data, rest, hframes, -, rfl⟩ := Action.peek_ok hpeek
  obtain ⟨heffect, rfl⟩ := condition_ok .elseIf hcondition
  have hinner := h.frames_directives hmode
  rw [hframes] at hinner
  obtain ⟨more, hopened, -⟩ := hinner.condition_inv
  refine ⟨_, _, [], ?_, .nil, h.emitted hjob hmode hemit⟩
  rw [Reader.onElseIf, hopened, heffect]
  rfl

theorem handles_else (dispatch : Dispatch σ) (hjob : job.Finishes) :
    Handles job (Standard.onElse dispatch) Reader.onElse := by
  intro before run run' reader desk tag hmode h hok
  obtain ⟨⟨⟩, first, hpeek, hemit⟩ := bind_eq_ok.1 hok
  obtain ⟨data, rest, hframes, -, rfl⟩ := Action.peek_ok hpeek
  have hinner := h.frames_directives hmode
  rw [hframes] at hinner
  obtain ⟨more, hopened, -⟩ := hinner.condition_inv
  refine ⟨_, _, [], ?_, .nil, h.emitted hjob hmode hemit⟩
  rw [Reader.onElse, hopened]

theorem handles_endIf (dispatch : Dispatch σ) (hjob : job.Finishes) :
    Handles job (Standard.onEndIf dispatch) Reader.onEndIf := by
  intro before run run' reader desk tag hmode h hok
  obtain ⟨⟨⟩, first, hpop, hemit⟩ := bind_eq_ok.1 hok
  obtain ⟨data, rest, hframes, -, rfl⟩ := Action.pop_ok hpop
  have hinner := h.frames_directives hmode
  rw [hframes] at hinner
  obtain ⟨more, hopened, hrest⟩ := hinner.condition_inv
  refine ⟨_, _, [], ?_, .nil, (h.opened hmode hrest).emitted hjob hmode hemit⟩
  rw [Reader.onEndIf, hopened]

/-! ### Loops and names -/

theorem asLoop_eq_some {data : FrameData} {hasNone : Bool}
    (h : Standard.asLoop data = some hasNone) : data = .loop hasNone := by
  unfold Standard.asLoop at h
  split at h
  · obtain rfl := Option.some.inj h
    rfl
  · cases h

theorem handles_for (dispatch : Dispatch σ) (hjob : job.Finishes) :
    Handles job (Standard.onFor dispatch) Reader.onFor := by
  intro before run run' reader desk tag hmode h hok
  unfold Standard.onFor at hok
  match hparams : tag.params with
  | [item, keyword, list] =>
    rw [hparams] at hok
    dsimp only at hok
    split at hok
    · next hnames =>
      obtain ⟨⟨⟩, mid, hemit, hpush⟩ := bind_eq_ok.1 hok
      have hemitted := h.emitted hjob hmode hemit
      obtain ⟨-, rfl⟩ := EStateM.Result.ok.inj hpush
      refine ⟨_, _, [], ?_, .nil,
        hemitted.opened hmode (.loop false (hemitted.frames_directives hmode))⟩
      rw [Reader.onFor, hparams]
      dsimp only
      rw [if_pos hnames]
      rfl
    · exact absurd hok Action.misuse_ne_ok
  | [] | [_] | [_, _] | _ :: _ :: _ :: _ :: _ =>
    rw [hparams] at hok
    exact absurd hok Action.misuse_ne_ok

theorem handles_empty (dispatch : Dispatch σ) (hjob : job.Finishes) :
    Handles job (Standard.onEmpty dispatch) Reader.onEmpty := by
  intro before run run' reader desk tag hmode h hok
  obtain ⟨hasNone, first, hpeek, hok'⟩ := bind_eq_ok.1 hok
  obtain ⟨data, rest, hframes, hview, rfl⟩ := Action.peek_ok hpeek
  obtain rfl := asLoop_eq_some hview
  have hinner := h.frames_directives hmode
  rw [hframes] at hinner
  obtain ⟨more, hopened, hrest⟩ := hinner.loop_inv
  cases hasNone with
  | true => exact absurd hok' Action.misuse_ne_ok
  | false =>
    obtain ⟨⟨⟩, mid, hreplace, hemit⟩ := bind_eq_ok.1 hok'
    obtain ⟨old, rest', hframes', rfl⟩ := Action.replace_ok hreplace
    rw [hframes] at hframes'
    obtain ⟨-, rfl⟩ := List.cons.inj hframes'
    refine ⟨_, _, [], ?_, .nil, (h.opened hmode (.loop true hrest)).emitted hjob hmode hemit⟩
    rw [Reader.onEmpty, hopened]

theorem handles_endFor (dispatch : Dispatch σ) (hjob : job.Finishes) :
    Handles job (Standard.onEndFor dispatch) Reader.onEndFor := by
  intro before run run' reader desk tag hmode h hok
  obtain ⟨hasNone, first, hpop, hemit⟩ := bind_eq_ok.1 hok
  obtain ⟨data, rest, hframes, hview, rfl⟩ := Action.pop_ok hpop
  obtain rfl := asLoop_eq_some hview
  have hinner := h.frames_directives hmode
  rw [hframes] at hinner
  obtain ⟨more, hopened, hrest⟩ := hinner.loop_inv
  refine ⟨_, _, [], ?_, .nil, (h.opened hmode hrest).emitted hjob hmode hemit⟩
  rw [Reader.onEndFor, hopened]

theorem handles_with (dispatch : Dispatch σ) (hjob : job.Finishes) :
    Handles job (Standard.onWith dispatch) Reader.onWith := by
  intro before run run' reader desk tag hmode h hok
  unfold Standard.onWith at hok
  match hparams : tag.params with
  | [value, keyword, name] =>
    rw [hparams] at hok
    dsimp only at hok
    split at hok
    · next hnames =>
      obtain ⟨⟨⟩, mid, hemit, hpush⟩ := bind_eq_ok.1 hok
      have hemitted := h.emitted hjob hmode hemit
      obtain ⟨-, rfl⟩ := EStateM.Result.ok.inj hpush
      refine ⟨_, _, [], ?_, .nil, hemitted.opened hmode (.naming (hemitted.frames_directives hmode))⟩
      rw [Reader.onWith, hparams]
      dsimp only
      rw [if_pos hnames]
      rfl
    · exact absurd hok Action.misuse_ne_ok
  | [] | [_] | [_, _] | _ :: _ :: _ :: _ :: _ =>
    rw [hparams] at hok
    exact absurd hok Action.misuse_ne_ok

/-- A tag without an effect leaves the desk as it is. -/
theorem apply_none (desk : Desk UInt8) : Reader.Effect.none.apply desk [] = desk :=
  Desk.put_nil desk

theorem handles_endWith (dispatch : Dispatch σ) :
    Handles job (Standard.onEndWith dispatch) Reader.onEndWith := by
  intro before run run' reader desk tag hmode h hok
  obtain ⟨data, rest, hframes, -, rfl⟩ := Action.pop_ok hok
  have hinner := h.frames_directives hmode
  rw [hframes] at hinner
  obtain ⟨more, hopened, hrest⟩ := hinner.naming_inv
  refine ⟨.none, { reader with opened := more }, [], ?_, .nil, ?_⟩
  · rw [Reader.onEndWith, hopened]
  · rw [apply_none]
    exact h.opened hmode hrest

end TemplateCompiler
