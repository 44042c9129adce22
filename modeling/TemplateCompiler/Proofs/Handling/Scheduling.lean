import TemplateCompiler.Proofs.Handling.Queue
import TemplateCompiler.Proofs.Moment.Trail
import TemplateCompiler.Proofs.Rendering.Artifact

/-!
# Scheduling

Whatever handlers pause and queue, a compile that raises no error lets every source take one turn, in the
order in which they were queued (`Compiler.schedules`). It is stalled exactly if some of them stopped
before their end, after all the others have come to theirs. A queue that is rotated, in which the sources
are counted that are skipped in a row, comes to the same (`Session.rotate_eq`).
-/
namespace TemplateCompiler

variable {σ : Type}

namespace Session

/-! ## Taking all turns -/

/-- How the turns that may be taken come out after the last of them that ended. -/
inductive Finishes (dispatch : Dispatch σ) (last : Session × σ) :
    EStateM.Result CompileError (Session × σ) PUnit → Prop
  | ends (hwaiting : last.1.waiting = []) (hhalted : last.1.halted = []) :
    Finishes dispatch last (.ok ⟨⟩ last)
  | stalls (hwaiting : last.1.waiting = []) (hhalted : last.1.halted ≠ []) :
    Finishes dispatch last (.error (.stalled last.1.halted.length) last)
  | fails {source : Source} {waiting : List Source} {error : CompileError} {run : Run σ}
    (hwaiting : last.1.waiting = source :: waiting)
    (hturn : last.1.turn dispatch source waiting last.2 = .error error run) :
    Finishes dispatch last (.error error (run.session, run.memory))
  | unfinished : Finishes dispatch last (.error .unfinished last)

theorem exists_takes (dispatch : Dispatch σ) (turns : Nat) (state : Session × σ) :
    ∃ taken last, Takes dispatch state taken last ∧
      Finishes dispatch last (takeTurns dispatch turns state) := by
  induction turns generalizing state with
  | zero => exact ⟨[], state, .nil state, .unfinished⟩
  | succ turns ih =>
    obtain ⟨session, memory⟩ := state
    rw [takeTurns_succ]
    cases hwaiting : session.waiting with
    | nil =>
      refine ⟨[], (session, memory), .nil _, ?_⟩
      dsimp only
      split
      · next hempty => exact .ends hwaiting (List.isEmpty_iff.1 hempty)
      · next hhalted => exact .stalls hwaiting fun heq => hhalted (List.isEmpty_iff.2 heq)
    | cons source waiting =>
      dsimp only
      cases hturn : session.turn dispatch source waiting memory with
      | error error run => exact ⟨[], (session, memory), .nil _, .fails hwaiting hturn⟩
      | ok rest run =>
        obtain ⟨taken, last, htakes, hfinishes⟩ :=
          ih (run.session.settle run.source rest, run.memory)
        exact ⟨_ :: taken, last, .cons hwaiting hturn htakes, hfinishes⟩

/-! ## Rotating the queue -/

/-- The sources of a queue that have not had their turn. -/
def fresh (queue : List Source) : List Source :=
  queue.filter fun source => !source.paused

/-- Lets the first source of the queue take its turn, and puts it back at the end if it stopped. One that
has stopped is put back without a turn, and if there are as many in a row as the queue is long, nothing
can go on. -/
def rotate (dispatch : Dispatch σ) :
    Nat → List Source → Nat → Session × σ → EStateM.Result CompileError (Session × σ) PUnit
  | 0, _, _, state => .error .unfinished state
  | _ + 1, [], _, state => .ok ⟨⟩ state
  | turns + 1, source :: queue, skipped, (session, memory) =>
    if source.paused then
      if queue.length + 1 ≤ skipped + 1 then
        .error (.stalled (queue.length + 1)) (session, memory)
      else rotate dispatch (turns + 1) (queue ++ [source]) (skipped + 1) (session, memory)
    else
      match session.turn dispatch source (fresh queue) memory with
      | .error error run => .error error (run.session, run.memory)
      | .ok rest run =>
        let after := run.session.settle run.source rest
        let queued := after.waiting.drop (fresh queue).length
        let stopped := after.halted.drop session.halted.length
        rotate dispatch turns (queue ++ queued ++ stopped) 0 (after, run.memory)
termination_by turns queue skipped => (turns, queue.length - skipped)
decreasing_by
  · refine Prod.Lex.right _ ?_
    rw [List.length_append, List.length_singleton, List.length_cons]
    omega
  · exact Prod.Lex.left _ _ (Nat.lt_succ_self turns)

/-- The queue holds what waits and what has stopped, and so many at its end have been put back in a
row. -/
structure Rotates (session : Session) (queue : List Source) (skipped : Nat) : Prop where
  fresh : fresh queue = session.waiting
  length : queue.length = session.waiting.length + session.halted.length
  skipped : ∃ front back, queue = front ++ back ∧ back.length = skipped ∧
    ∀ source ∈ back, source.paused = true

section

variable {session : Session} {source : Source} {queue : List Source} {skipped : Nat}

theorem fresh_eq_nil {queue : List Source} (h : ∀ source ∈ queue, source.paused = true) :
    fresh queue = [] :=
  List.filter_eq_nil_iff.2 fun source hsource => by simp [h source hsource]

theorem fresh_eq_self {queue : List Source} (h : ∀ source ∈ queue, source.paused = false) :
    fresh queue = queue :=
  List.filter_eq_self.2 fun source hsource => by simp [h source hsource]

theorem fresh_append (queue more : List Source) : fresh (queue ++ more) = fresh queue ++ fresh more :=
  List.filter_append queue more

/-- **Stalling**: the count comes to the length of the queue only if all of it has stopped. -/
theorem Rotates.stalled (h : session.Rotates (source :: queue) skipped)
    (hpaused : source.paused = true) (hcount : queue.length + 1 ≤ skipped + 1) :
    session.waiting = [] ∧ session.halted.length = queue.length + 1 := by
  obtain ⟨front, back, hqueue, hlength, hback⟩ := h.skipped
  have hall : ∀ s ∈ source :: queue, s.paused = true := by
    -- all of the queue is counted but for its first source at most, and that has stopped
    cases front with
    | nil => exact hqueue ▸ hback
    | cons first front =>
      obtain ⟨rfl, hrest⟩ : source = first ∧ queue = front ++ back := List.cons.inj hqueue
      have hsum : queue.length = front.length + back.length := by rw [hrest, List.length_append]
      obtain rfl := List.length_eq_zero_iff.1 (show front.length = 0 by omega)
      rw [hrest]
      exact List.forall_mem_cons.2 ⟨hpaused, hback⟩
  have hwaiting : session.waiting = [] := h.fresh ▸ fresh_eq_nil hall
  refine ⟨hwaiting, ?_⟩
  have hlength := h.length
  rw [hwaiting, List.length_nil, List.length_cons] at hlength
  omega

/-- A source that has stopped is put back. -/
theorem Rotates.skip (h : session.Rotates (source :: queue) skipped)
    (hpaused : source.paused = true) (hcount : ¬ queue.length + 1 ≤ skipped + 1) :
    session.Rotates (queue ++ [source]) (skipped + 1) := by
  obtain ⟨front, back, hqueue, hlength, hback⟩ := h.skipped
  have hone : ∀ s ∈ [source], s.paused = true := fun s hs => List.mem_singleton.1 hs ▸ hpaused
  refine ⟨?_, ?_, ?_⟩
  · rw [← h.fresh, fresh_append, fresh_eq_nil hone, List.append_nil, Session.fresh,
      Session.fresh, List.filter_cons_of_neg (by simp [hpaused])]
  · rw [← h.length, List.length_append, List.length_singleton, List.length_cons]
  · cases front with
    | nil =>
      -- if all of the queue were counted, the count would have come to its length
      have := congrArg List.length hqueue
      rw [List.nil_append, List.length_cons] at this
      omega
    | cons first front =>
      obtain ⟨rfl, rfl⟩ : source = first ∧ queue = front ++ back := List.cons.inj hqueue
      refine ⟨front, back ++ [source], by rw [List.append_assoc], ?_, fun s hs => ?_⟩
      · rw [List.length_append, List.length_singleton, hlength]
      · exact (List.mem_append.1 hs).elim (hback s) (hone s)

theorem Rotates.waiting (h : session.Rotates (source :: queue) skipped)
    (hpaused : source.paused = false) : session.waiting = source :: Session.fresh queue := by
  rw [← h.fresh, Session.fresh, List.filter_cons_of_pos (by simp [hpaused])]
  rfl

/-- After a turn the queue holds what has been queued meanwhile, and its source if it has stopped. -/
theorem Rotates.turn (h : session.Rotates (source :: queue) skipped)
    (hpaused : source.paused = false) {after : Session} {more stopped : List Source}
    (hwaiting : after.waiting = Session.fresh queue ++ more)
    (hhalted : after.halted = session.halted ++ stopped) (hmore : ∀ s ∈ more, s.paused = false)
    (hstopped : ∀ s ∈ stopped, s.paused = true) :
    after.Rotates (queue ++ after.waiting.drop (Session.fresh queue).length ++
      after.halted.drop session.halted.length) 0 := by
  have hlength := h.length
  rw [h.waiting hpaused, List.length_cons, List.length_cons] at hlength
  rw [hwaiting, hhalted, List.drop_left, List.drop_left]
  refine ⟨?_, ?_, _, [], (List.append_nil _).symm, rfl, List.forall_mem_nil _⟩
  · rw [fresh_append, fresh_append, fresh_eq_nil hstopped, fresh_eq_self hmore, List.append_nil,
      hwaiting]
  · rw [hwaiting, hhalted]
    simp only [List.length_append]
    omega

/-- **A rotated queue** comes to the same as turns that are taken in order. -/
theorem rotate_eq {dispatch : Dispatch σ} (hdispatch : dispatch.OnlyUses) (turns : Nat)
    {session : Session} {queue : List Source} {skipped : Nat}
    (h : session.Rotates queue skipped) (memory : σ) :
    rotate dispatch turns queue skipped (session, memory) =
      takeTurns dispatch turns (session, memory) := by
  induction turns generalizing session queue skipped memory with
  | zero =>
    rw [rotate]
    rfl
  | succ turns ih =>
    -- the queue is rotated until the count has come to its length
    induction hsize : queue.length - skipped using Nat.strong_induction_on
      generalizing queue skipped with
    | h size ihsize =>
    rw [takeTurns_succ]
    cases queue with
    | nil =>
      have hlength : 0 = session.waiting.length + session.halted.length := h.length
      have hhalted : session.halted = [] := List.length_eq_zero_iff.1 (by omega)
      rw [rotate, ← h.fresh, hhalted]
      rfl
    | cons source queue =>
      rw [rotate]
      by_cases hpaused : source.paused = true
      · rw [if_pos hpaused]
        by_cases hcount : queue.length + 1 ≤ skipped + 1
        · obtain ⟨hwaiting, hhalted⟩ := h.stalled hpaused hcount
          rw [if_pos hcount, hwaiting, ← hhalted]
          dsimp only
          rw [if_neg fun hempty => by
            rw [List.isEmpty_iff.1 hempty] at hhalted
            cases hhalted]
        · rw [if_neg hcount, ihsize _ ?_ (h.skip hpaused hcount) rfl, takeTurns_succ]
          rw [List.length_append, List.length_singleton, ← hsize, List.length_cons]
          omega
      · have hrunning := Bool.eq_false_iff.2 hpaused
        rw [if_neg hpaused, h.waiting hrunning]
        dsimp only
        cases hturn : session.turn dispatch source (Session.fresh queue) memory with
        | error error run => rfl
        | ok rest run =>
          dsimp only
          generalize hafter : run.session.settle run.source rest = after
          obtain ⟨hended, -, ⟨more, hwaiting, hnumbered⟩, hhalted, -⟩ :=
            turn_queues hdispatch hturn hafter.symm
          refine ih (h.turn hrunning hwaiting hhalted (fun s hs => ?_)
            (paused_of_mem_aside hended)) run.memory
          rw [hnumbered.isNew s hs]

end

/-! ## What is passed -/

section

variable {dispatch : Dispatch σ} {state last : Session × σ} {turns : List (Turn σ)}

theorem leads_turn {session : Session} {memory : σ} {source : Source} {waiting : List Source}
    (hwaiting : session.waiting = source :: waiting) :
    Moment.Leads dispatch (.between session memory)
      (.draining (session.beginTurn source waiting memory) (Feed.ofText (session.textOf source))) := by
  unfold Moment.Leads
  rw [Moment.next, hwaiting]

/-- Turns that have ended lead to the moment at which the last of their sources has been put away. -/
theorem Takes.reached (h : Takes dispatch state turns last) :
    Moment.Reached dispatch (.between state.1 state.2) (.between last.1 last.2) := by
  induction h with
  | nil => exact .refl
  | @cons session memory source waiting rest run turns last hwaiting hturn _ ih =>
    have hdrains := Moment.drains_drain dispatch (session.beginTurn source waiting memory)
      (Feed.ofText (session.textOf source))
    exact .head (leads_turn hwaiting)
      ((hdrains.comes hturn).trans (.head (hdrains.ended hturn).2 ih))

end

end Session

/-- The numbers of the sources that are queued at a moment, that of the active one first. -/
def Moment.queue : Moment σ → List SourceId
  | between session _ => session.waiting.map (·.id)
  | draining run _ => run.source.id :: run.session.waiting.map (·.id)

/-- The numbers of the sources whose turns these are. -/
def Turn.ids (turns : List (Turn σ)) : List SourceId :=
  turns.map (·.source.id)

namespace Session

variable {dispatch : Dispatch σ} {state last : Session × σ} {turns : List (Turn σ)}

/-- Until nothing waits, what waits takes the turns that come next. -/
theorem Takes.comesNext (hdispatch : dispatch.OnlyUses) (h : Takes dispatch state turns last)
    (hend : last.1.waiting = []) : state.1.waiting.map (·.id) <+: Turn.ids turns := by
  obtain ⟨more, hmore, -⟩ := (h.queued hdispatch).waiting
  rw [hend, List.append_nil] at hmore
  refine ⟨more.map (·.id), ?_⟩
  rw [← List.map_append, hmore, List.map_map]
  rfl

/-- **Order**: what is queued at any moment takes its turns one after another. -/
theorem Takes.stretch (hdispatch : dispatch.OnlyUses) (h : Takes dispatch state turns last)
    (hend : last.1.waiting = []) {m : Moment σ}
    (hreached : Moment.Reached dispatch (.between state.1 state.2) m) :
    m.queue <:+: Turn.ids turns := by
  induction h with
  | nil state =>
    have hnone : ∀ m, ¬ Moment.Leads dispatch (.between state.1 state.2) m := by
      intro m hleads
      obtain ⟨source, waiting, hwaiting, -⟩ := Moment.leads_between hleads
      rw [hend] at hwaiting
      cases hwaiting
    rcases hreached.cases_head with rfl | ⟨m', hleads, -⟩
    · rw [Moment.queue, hend]
      exact List.infix_rfl
    · exact absurd hleads (hnone m')
  | @cons session memory source waiting rest run turns last hwaiting hturn htakes ih =>
    have hdrains := Moment.drains_drain dispatch (session.beginTurn source waiting memory)
      (Feed.ofText (session.textOf source))
    rcases hreached.cases_head with rfl | ⟨m', hleads, hrest⟩
    · exact ((Takes.cons hwaiting hturn htakes).comesNext hdispatch hend).isInfix
    · obtain rfl := (leads_turn hwaiting).unique hleads
      rcases hdrains.reached Run.Queues.refl .trans (Moment.Piece.queues hdispatch) hturn hrest with
        ⟨run', feed', rfl, hbefore, hafter⟩ | hafter
      · -- what waits in the midst of a turn still waits at its end
        obtain ⟨more, hmore, -⟩ := hafter.waiting
        have hfront := htakes.comesNext hdispatch hend
        rw [(settle_eq run.session run.source rest).1, hmore, List.map_append] at hfront
        have hid : run'.source.id = source.id := hbefore.id
        rw [Moment.queue, Turn.ids, List.map_cons, hid]
        exact (List.cons_prefix_cons.2 ⟨rfl, (List.prefix_append _ _).trans hfront⟩).isInfix
      · exact List.infix_cons (ih hend hafter)

/-- Whatever takes a turn has been queued. -/
theorem Takes.mem_queue (h : Takes dispatch state turns last) {n : SourceId}
    (hn : n ∈ Turn.ids turns) :
    ∃ m, Moment.Reached dispatch (.between state.1 state.2) m ∧ n ∈ m.queue := by
  induction h with
  | nil => cases hn
  | @cons session memory source waiting rest run turns last hwaiting hturn htakes ih =>
    rcases List.mem_cons.1 hn with rfl | hn
    · refine ⟨_, .refl, ?_⟩
      rw [Moment.queue, hwaiting]
      exact List.mem_cons_self
    · obtain ⟨m, hreached, hm⟩ := ih hn
      exact ⟨m, (Takes.cons hwaiting hturn (.nil _)).reached.trans hreached, hm⟩

end Session

/-! ## Schedules -/

namespace Compiler

variable {compiler : Compiler σ} {id template destination : String} {world : World σ}

/-- No source that is read raises an error. -/
def RaisesNothing (compiler : Compiler σ) (id template destination : String) (world : World σ) :
    Prop :=
  ∀ run feed error session memory,
    compiler.Passes id template destination world (.draining run feed) →
      Moment.next (compiler.library.dispatch compiler.limits.depth) (.draining run feed) ≠
        .fails error session memory

/-- The turns that the sources of a compile take. -/
structure Schedule (compiler : Compiler σ) (id template destination : String) (world : World σ)
    (session : Session) (turns : List (Turn σ)) (last : Session) (memory : σ) : Prop where
  takes : Session.Takes (compiler.library.dispatch compiler.limits.depth) (session, world.memory) turns
    (last, memory)
  /-- Turns are taken as long as anything waits. -/
  ends : last.waiting = []
  /-- Every source takes one turn, in the order of the numbers. -/
  order : (Turn.ids turns).Pairwise (· < ·)
  /-- Those that take turns are those that have ever been queued. -/
  queued : ∀ n, n ∈ Turn.ids turns ↔
    ∃ m, compiler.Passes id template destination world m ∧ n ∈ m.queue
  /-- What is queued at a moment takes its turns one after another. -/
  stretch : ∀ m, compiler.Passes id template destination world m → m.queue <:+: Turn.ids turns
  /-- A source that stopped before its end is paused. -/
  paused : ∀ turn ∈ turns, turn.stopped = true → turn.run.source.paused = true

section

variable {session last : Session} {disk : Disk} {turns : List (Turn σ)} {memory : σ}
  (hlibrary : compiler.library.OnlyUses)
  (hstart : Session.start compiler.workspace id template destination world.disk = .ok session disk)
include hlibrary hstart

theorem schedule_of_takes
    (htakes : Session.Takes (compiler.library.dispatch compiler.limits.depth) (session, world.memory)
      turns (last, memory)) (hends : last.waiting = []) :
    compiler.Schedule id template destination world session turns last memory := by
  have hdispatch := hlibrary.dispatch compiler.limits.depth
  have hstretch (m : Moment σ) (hm : compiler.Passes id template destination world m) :
      m.queue <:+: Turn.ids turns := htakes.stretch hdispatch hends (hm.reached hstart)
  refine ⟨htakes, hends, ?_, fun n => ⟨fun hn => ?_, fun ⟨m, hm, hn⟩ => (hstretch m hm).subset hn⟩,
    hstretch, (htakes.queued hdispatch).ended⟩
  · obtain ⟨more, hmore, hnumbered⟩ := (htakes.queued hdispatch).waiting
    obtain ⟨path, main, found, -, -, -, rfl⟩ := Session.start_cases hstart
    rw [hends, List.append_nil] at hmore
    have hfirst : Source.Numbered 0 1
        (Session.begun compiler.workspace id template main disk found).waiting :=
      ⟨fun source hsource => List.mem_singleton.1 hsource ▸ rfl,
        fun source hsource => List.mem_singleton.1 hsource ▸ ⟨le_rfl, Nat.one_pos⟩,
        List.pairwise_singleton _ _⟩
    have horder := (hfirst.append hnumbered (Nat.zero_le _)
      (htakes.queued hdispatch).catalog).order
    rw [show _ ++ more = _ from hmore] at horder
    rw [Turn.ids, List.pairwise_map]
    rwa [List.pairwise_map] at horder
  · obtain ⟨m, hreached, hm⟩ := htakes.mem_queue hn
    exact ⟨m, ⟨session, disk, hstart, hreached⟩, hm⟩

/-- **Schedules**: a compile that comes to an end and in which no source raises an error lets each source
that is ever queued take one turn. If some of them stop before their end it is stalled, and says how many
they are; if none does, it succeeds and counts them all. It does not matter whether those that have
stopped are put aside or wait with the others. -/
theorem schedules (hquiet : compiler.RaisesNothing id template destination world)
    (hends : ∀ world',
      compiler.compileTo id template destination world ≠ .error .unfinished world') :
    ∃ turns last memory,
      compiler.Schedule id template destination world session turns last memory ∧
      (compiler.compileTo id template destination world =
        if turns.any Turn.stopped then
          .error (.stalled (turns.countP Turn.stopped)) ⟨last.abandon, memory⟩
        else .ok last.report ⟨last.finish, memory⟩) ∧
      (turns.any Turn.stopped = false → last.report.sources = turns.length) ∧
      Session.rotate (compiler.library.dispatch compiler.limits.depth) compiler.limits.turns
          session.waiting 0 (session, world.memory) =
        Session.takeTurns (compiler.library.dispatch compiler.limits.depth) compiler.limits.turns
          (session, world.memory) := by
  have hdispatch := hlibrary.dispatch compiler.limits.depth
  have hcompile := compileTo_eq hstart
  obtain ⟨turns, ⟨last, memory⟩, htakes, hfinishes⟩ := Session.exists_takes
    (compiler.library.dispatch compiler.limits.depth) compiler.limits.turns (session, world.memory)
  obtain ⟨-, -, hhalted, hdrained, -⟩ := htakes.queued hdispatch
  -- a session begins with nothing put aside and nothing counted
  obtain ⟨hnone, hzero, hrotates⟩ : session.halted = [] ∧ session.drained = 0 ∧
      session.Rotates session.waiting 0 := by
    obtain ⟨path, main, found, -, -, -, rfl⟩ := Session.start_cases hstart
    exact ⟨rfl, rfl, rfl, rfl, _, [], (List.append_nil _).symm, rfl, List.forall_mem_nil _⟩
  have hstopped : last.halted.length = turns.countP Turn.stopped := by
    rw [hhalted, hnone, List.nil_append, List.length_map, List.countP_eq_length_filter]
  have hsources (hall : turns.any Turn.stopped = false) : last.report.sources = turns.length := by
    have hkept : turns.filter (fun turn => !turn.stopped) = turns :=
      List.filter_eq_self.2 fun turn hturn => by
        rw [Bool.eq_false_iff.2 (List.any_eq_false.1 hall turn hturn)]
        rfl
    have hcount : last.drained = session.drained + _ := hdrained
    rw [hkept, hzero, Nat.zero_add] at hcount
    exact hcount
  have hrotate := Session.rotate_eq hdispatch compiler.limits.turns hrotates world.memory
  generalize Session.takeTurns _ _ _ = result at hfinishes hcompile hrotate ⊢
  cases hfinishes with
  | ends hwaiting hhalted =>
    have hall : turns.any Turn.stopped = false := by
      rw [hhalted, List.length_nil] at hstopped
      exact List.any_eq_false.2 (List.countP_eq_zero.1 hstopped.symm)
    refine ⟨turns, last, memory, schedule_of_takes hlibrary hstart htakes hwaiting, ?_, hsources,
      hrotate⟩
    rw [hcompile, hall]
    rfl
  | stalls hwaiting hhalted =>
    have hsome : turns.any Turn.stopped = true := by
      by_contra hnone
      rw [Bool.not_eq_true, List.any_eq_false] at hnone
      rw [List.countP_eq_zero.2 hnone] at hstopped
      exact hhalted (List.length_eq_zero_iff.1 hstopped)
    refine ⟨turns, last, memory, schedule_of_takes hlibrary hstart htakes hwaiting, ?_, hsources,
      hrotate⟩
    rw [hcompile, hsome, if_pos rfl, ← hstopped]
  | @fails source waiting error run hwaiting hturn =>
    -- a turn that fails comes to a moment at which its source does
    have hdrains := Moment.drains_drain (compiler.library.dispatch compiler.limits.depth)
      (last.beginTurn source waiting memory) (Feed.ofText (last.textOf source))
    obtain ⟨run', feed', hreached, hfails⟩ := hdrains.failed hturn
    refine absurd hfails (hquiet run' feed' _ _ _ ⟨session, disk, hstart, ?_⟩)
    exact htakes.reached.trans (.head (Session.leads_turn hwaiting) hreached)
  | unfinished => exact absurd hcompile (hends _)

end

/-- Two tags by scripts: one stops its source, and the other queues another template. -/
def held : Compiler Journal where
  workspace := (ofTexts [("a", "\x7b% more %\x7d\x7b% hold %\x7d rest"), ("b", "all")]).workspace
  library := Library.standard.scripted
    [("hold", [⟨.setSourcePaused true, false⟩]), ("more", [⟨.addSource "b" none false, false⟩])] []

/-- Whether a source that is read raises no error. -/
def goesOn (dispatch : Dispatch σ) : Moment σ → Bool
  | .between .. => true
  | .draining run feed =>
    match Moment.next dispatch (.draining run feed) with
    | .fails .. => false
    | _ => true

/-- The one that stopped is told from the one that was queued by it and read to its end. -/
theorem schedules_held : ∃ session disk turns last memory,
    Session.start held.workspace "s" "a" "a" .empty = .ok session disk ∧
    held.RaisesNothing "s" "a" "a" ⟨.empty, {}⟩ ∧
    held.Schedule "s" "a" "a" ⟨.empty, {}⟩ session turns last memory ∧
    turns.countP Turn.stopped = 1 ∧
    held.compileTo "s" "a" "a" ⟨.empty, {}⟩ = .error (.stalled 1) ⟨last.abandon, memory⟩ := by
  have hlibrary : held.library.OnlyUses := Library.onlyUses_standard.scripted _ _
  have hgoes : (held.trail 20 "s" "a" "a" ⟨.empty, {}⟩).any
      (·.all (goesOn (held.library.dispatch held.limits.depth))) = true := by
    decide +kernel
  have hquiet : held.RaisesNothing "s" "a" "a" ⟨.empty, {}⟩ := by
    intro run feed error session memory hpasses hfails
    have hgo := forall_passes _ hgoes hpasses
    unfold goesOn at hgo
    dsimp only at hgo
    rw [hfails] at hgo
    cases hgo
  have hcheck : (held.compileInSteps 20 "s" "a" "a" ⟨.empty, {}⟩).any
      (failsWith fun error => error = .stalled 1) = true := by
    decide +kernel
  obtain ⟨result, hresult, hfails⟩ := (Option.any_eq_true _ _).1 hcheck
  obtain ⟨error, stopped, rfl, hstalled⟩ := exists_of_failsWith hfails
  obtain rfl := of_decide_eq_true hstalled
  have hcompile := compileTo_of_inSteps hresult
  obtain ⟨_, ⟨session, disk, hstart, -⟩, -⟩ := exists_passes (fun _ => true)
    (show (held.trail 20 "s" "a" "a" ⟨.empty, {}⟩).any (·.any fun _ => true) = true by
      decide +kernel)
  have hends (world' : World Journal) :
      held.compileTo "s" "a" "a" ⟨.empty, {}⟩ ≠ .error .unfinished world' := by
    rw [hcompile]
    intro heq
    cases heq
  obtain ⟨turns, last, memory, hschedule, hcomes, -⟩ := schedules hlibrary hstart hquiet hends
  have hresults := hcomes.symm.trans hcompile
  by_cases hany : turns.any Turn.stopped = true
  · rw [if_pos hany] at hcomes hresults
    have hcount := CompileError.stalled.inj (EStateM.Result.error.inj hresults).1
    rw [hcount] at hcomes
    exact ⟨session, disk, turns, last, memory, hstart, hquiet, hschedule, hcount, hcomes⟩
  · rw [if_neg hany] at hresults
    cases hresults

end Compiler

end TemplateCompiler
