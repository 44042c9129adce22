import TemplateCompiler.Proofs.Cache.Handlers
import TemplateCompiler.Proofs.Transcript.Draining

/-!
# Two compiles, moment by moment

Twins go through the same moments (`Moment.next_agree`), and what comes of one of them comes of the other
(`Moment.outcome_agree`).
-/
namespace TemplateCompiler

variable {σ : Type} {job job' : Job} {dispatch : Dispatch σ}

/-! ## Moments of twins -/

/-- Two moments of twins, with as much left to read. -/
inductive Moment.Twins (job job' : Job) : Moment σ → Moment σ → Prop
  | between {a b : Session} {memory memory' : σ} (h : a.Twins job job' b) :
    Twins job job' (.between a memory) (.between b memory')
  | draining {run run' : Run σ} (h : run.Twins job job' run') (feed : Feed) :
    Twins job job' (.draining run feed) (.draining run' feed)

/-- What the tag asks for that is called at the moment is no artifact. -/
def Moment.AsksOutside (dispatch : Dispatch σ) (m : Moment σ) : Prop :=
  ∀ tag called, m.Calls dispatch tag called → called.AsksOutside tag

/-- What comes next for twins: another moment of twins, or the end of both, or one failure, unless one
of them cannot open a file. -/
inductive Moment.Next.Agree (job job' : Job) : Next σ → Next σ → Prop
  | goesOn {m m' : Moment σ} (h : m.Twins job job' m') : Agree job job' (.goesOn m) (.goesOn m')
  | ends : Agree job job' .ends .ends
  | fails {error : CompileError} {a b : Session} {memory memory' : σ} :
    Agree job job' (.fails error a memory) (.fails error b memory')
  | unopened {path : Path} {a : Session} {memory : σ} {next : Next σ} :
    Agree job job' (.fails (.destinationOpen path) a memory) next
  | unopened' {path : Path} {b : Session} {memory : σ} {next : Next σ} :
    Agree job job' next (.fails (.destinationOpen path) b memory)

theorem Source.IsNew.twins {source : Source} (h : source.IsNew) : source.Twins job job' source where
  same := rfl
  hierarchy := by
    rw [h]
    exact .nil
  running := by rw [h]

/-- The innermost open tag has one name in both. -/
theorem Hierarchy.Twins.top?_eq {hierarchy hierarchy' : Hierarchy FrameData}
    (h : hierarchy.Twins job job' hierarchy') : hierarchy'.top? = hierarchy.top? := by
  obtain ⟨frames⟩ := hierarchy
  obtain ⟨frames'⟩ := hierarchy'
  cases h with
  | nil => rfl
  | cons hframe _ => exact congrArg some hframe.1

/-- Both sessions warn of a tag that was never closed, or neither does. -/
theorem Session.Twins.warnOpen {session session' : Session} (h : session.Twins job job' session')
    (tag : Option String) (location : Location) :
    (match tag with
      | some tag => session.warn ⟨tag ++ " tag was never closed", location⟩
      | none => session).Twins job job'
      (match tag with
      | some tag => session'.warn ⟨tag ++ " tag was never closed", location⟩
      | none => session') := by
  cases tag with
  | none => exact h
  | some tag => exact h.note (congrArg (· ++ _) h.warnings) h.slots

namespace Run.Twins

variable {run run' : Run σ}

/-- Both sources have been read to their end, and are put away. -/
theorem settle (h : run.Twins job job' run') {feed : Feed} (hend : feed.atEnd = true) :
    (run.session.settle run.source feed).Twins job job'
      (run'.session.settle run'.source feed) := by
  have hwarned := h.session.warnOpen run.source.hierarchy.top? run.source.location
  unfold Session.settle
  rw [if_pos hend, if_pos hend, h.source.hierarchy.top?_eq, h.source.location_eq]
  obtain ⟨desk, hdesk, hdesk'⟩ := hwarned.desk
  exact { hwarned with
    desk := ⟨desk, { hdesk with }, { hdesk' with }⟩
    drained := congrArg (· + 1) hwarned.drained }

theorem nextLine (h : run.Twins job job' run') : run.nextLine.Twins job job' run'.nextLine :=
  ⟨h.session, ⟨by unfold Run.nextLine; rw [h.source.same], h.source.hierarchy, h.source.running⟩⟩

end Run.Twins

/-- A source that waits in both sessions begins its turn. -/
theorem Session.Twins.beginTurn {a b : Session} (h : a.Twins job job' b) {source : Source}
    {waiting : List Source} (hwaiting : a.waiting = source :: waiting) (memory memory' : σ) :
    (a.beginTurn source waiting memory).Twins job job' (b.beginTurn source waiting memory') := by
  obtain ⟨desk, ha, hb⟩ := h.desk
  have hkept {session : Session} {job : Job} (hdesk : Depicts job session desk)
      (hwaiting : session.waiting = source :: waiting) :
      Depicts job { session with waiting } desk :=
    { hdesk with waiting := fun s hs => hdesk.waiting s (hwaiting ▸ List.mem_cons_of_mem _ hs) }
  have hturn : { a with waiting }.Twins job job' { b with waiting } :=
    { h with
      desk := ⟨desk, hkept ha hwaiting, hkept hb (h.waiting.trans hwaiting)⟩
      waiting := rfl
      published := fun s hs => h.published s (hwaiting ▸ List.mem_cons_of_mem _ hs) }
  exact ⟨hturn.setMainPaused false,
    (ha.waiting source (hwaiting ▸ List.mem_cons_self)).twins⟩

namespace Moment

variable (hjobs : job.Twins job') (hdispatch : dispatch.Twins job job')
include hjobs hdispatch

/-- **Steps of twins**: twins do the same next. -/
theorem next_agree {m m' : Moment σ} (h : m.Twins job job' m') (hout : m.AsksOutside dispatch)
    (hout' : m'.AsksOutside dispatch) :
    Next.Agree job job' (m.next dispatch) (m'.next dispatch) := by
  cases h with
  | @between a b memory memory' h =>
    rw [next, next, h.waiting]
    cases hwaiting : a.waiting with
    | nil =>
      dsimp only
      rw [h.halted, h.halted']
      exact .ends
    | cons source waiting =>
      have hpublished := h.published source (hwaiting ▸ List.mem_cons_self)
      dsimp only
      rw [← h.textOf_eq hjobs hpublished]
      exact .goesOn (.draining (h.beginTurn hwaiting memory memory') _)
  | @draining run run' h feed =>
    have hrunning := h.source.running
    have hrunning' : run'.source.paused = false := by
      rw [h.source.same]
      exact hrunning
    have hreading : run'.source.reading = run.source.reading := by rw [h.source.same]
    rw [next, next, hrunning, hrunning', hreading, if_neg Bool.false_ne_true, if_neg Bool.false_ne_true]
    cases hstep : feed.step run.source.reading with
    | done => exact .goesOn (.between (h.settle (atEnd_of_step hstep)))
    | newLine after => exact .goesOn (.draining h.nextLine after)
    | checked after => exact .goesOn (.draining h after)
    | forbidden =>
      dsimp only
      rw [h.source.location_eq]
      exact .fails
    | text content after =>
      have hwritten : Run.Twins job job' { run with session := run.session.write content }
          { run' with session := run'.session.write content } :=
        ⟨h.session.write hjobs content, h.source⟩
      exact .goesOn (.draining hwritten after)
    | directive before d after =>
      have hmeet := agree_meet hjobs hdispatch h before d after.atEnd
        (fun handler tag called hkind hprepare => hout tag called
          ⟨run, feed, before, d, after, handler, rfl, hrunning, hstep, hkind, hprepare⟩)
        (fun handler tag called hkind hprepare => hout' tag called
          ⟨run', feed, before, d, after, handler, rfl, hrunning', by rw [hreading, hstep], hkind,
            hprepare⟩)
      dsimp only
      cases hmet : meet dispatch before d after.atEnd run <;>
        cases hmet' : meet dispatch before d after.atEnd run' <;> rw [hmet, hmet'] at hmeet
      · cases hmeet with
        | ok _ hrun => exact .goesOn (.draining hrun after)
      · cases hmeet with
        | unopened' => exact .unopened'
      · cases hmeet with
        | unopened => exact .unopened
      · cases hmeet with
        | error => exact .fails
        | unopened => exact .unopened
        | unopened' => exact .unopened'

/-- What comes of a moment for twins. -/
inductive Agree (job job' : Job) : EStateM.Result CompileError (Session × σ) PUnit →
    EStateM.Result CompileError (Session × σ) PUnit → Prop
  | ok {a b : Session} {memory memory' : σ} (h : a.Twins job job' b) :
    Agree job job' (.ok ⟨⟩ (a, memory)) (.ok ⟨⟩ (b, memory'))
  | error {error : CompileError} {state state' : Session × σ} :
    Agree job job' (.error error state) (.error error state')
  | unopened {path : Path} {state : Session × σ}
    {result : EStateM.Result CompileError (Session × σ) PUnit} :
    Agree job job' (.error (.destinationOpen path) state) result
  | unopened' {path : Path} {state : Session × σ}
    {result : EStateM.Result CompileError (Session × σ) PUnit} :
    Agree job job' result (.error (.destinationOpen path) state)

/-- **Outcomes of twins**: what comes of the one comes of the other. -/
theorem outcome_agree (turns : Nat) (m : Moment σ) : ∀ m', m.Twins job job' m' →
    (∀ last, Reached dispatch m last → last.AsksOutside dispatch) →
    (∀ last, Reached dispatch m' last → last.AsksOutside dispatch) →
      Agree job job' (outcome dispatch turns m) (outcome dispatch turns m') := by
  induction turns, m using induction dispatch with
  | zero session memory =>
    intro m' h _ _
    cases h with
    | between => exact .error
  | succ turns session memory ih =>
    intro m' h hout hout'
    have hnext := next_agree hjobs hdispatch h (hout _ .refl) (hout' _ .refl)
    cases h with
    | @between _ b _ memory' htwins =>
      rw [outcome_between, outcome_between]
      generalize hm : next dispatch (between session memory) = n at hnext
      generalize hm' : next dispatch (between b memory') = n' at hnext
      cases hnext with
      | goesOn hstep =>
        exact ih _ hm _ hstep (fun last hlast => hout last (.head hm hlast))
          fun last hlast => hout' last (.head hm' hlast)
      | ends => exact .ok htwins
      | fails => exact .error
      | unopened => exact .unopened
      | unopened' => exact .unopened'
  | draining turns run feed ih =>
    intro m' h hout hout'
    have hnext := next_agree hjobs hdispatch h (hout _ .refl) (hout' _ .refl)
    cases h with
    | @draining _ run' htwins _ =>
      rw [outcome_draining, outcome_draining]
      generalize hm : next dispatch (draining run feed) = n at hnext
      generalize hm' : next dispatch (draining run' feed) = n' at hnext
      cases hnext with
      | goesOn hstep =>
        exact ih _ hm _ hstep (fun last hlast => hout last (.head hm hlast))
          fun last hlast => hout' last (.head hm' hlast)
      | ends => exact absurd hm (next_draining_ne_ends run feed)
      | fails => exact .error
      | unopened => exact .unopened
      | unopened' => exact .unopened'

end Moment

end TemplateCompiler
