import Mathlib.Logic.Relation
import TemplateCompiler.Compiler
import TemplateCompiler.Proofs.Rendering.Draining

/-!
# Moments of a compile

A compile goes through moments: between two turns, or with so much of a source left to read. What it
does next is one step (`Moment.next`), and a whole compile is the steps one after another, until one
ends it or fails. A property of every moment that is reached is proved of one step at a time.
-/
namespace TemplateCompiler

variable {σ : Type}

/-- Where a compile is between two pieces of work. -/
inductive Moment (σ : Type) where
  /-- No source is being read. -/
  | between (session : Session) (memory : σ)
  /-- A source is being read, and the feed is what is left of it. -/
  | draining (run : Run σ) (feed : Feed)

/-- The run in which a source begins its turn, the others going on to wait. -/
def Session.beginTurn (session : Session) (source : Source) (waiting : List Source) (memory : σ) :
    Run σ :=
  ⟨{ session with waiting }.setMainPaused false, source, memory⟩

/-- What comes of the turn of a source, before it is put away. -/
def Session.turn (dispatch : Dispatch σ) (session : Session) (source : Source)
    (waiting : List Source) (memory : σ) : EStateM.Result CompileError (Run σ) Feed :=
  drain dispatch (Feed.ofText (session.textOf source)) (session.beginTurn source waiting memory)

/-- **One turn** of those that may be taken. -/
theorem Session.takeTurns_succ (dispatch : Dispatch σ) (turns : Nat) (session : Session)
    (memory : σ) :
    Session.takeTurns dispatch (turns + 1) (session, memory) =
      match session.waiting with
      | [] =>
        if session.halted.isEmpty then .ok ⟨⟩ (session, memory)
        else .error (.stalled session.halted.length) (session, memory)
      | source :: waiting =>
        match session.turn dispatch source waiting memory with
        | .ok feed run =>
          Session.takeTurns dispatch turns (run.session.settle run.source feed, run.memory)
        | .error error run => .error error (run.session, run.memory) := by
  rw [Session.takeTurns, get_bind]
  dsimp only
  cases session.waiting with
  | nil =>
    dsimp only
    cases session.halted.isEmpty <;> rfl
  | cons source waiting =>
    dsimp only
    rw [set_bind]
    show EStateM.bind _ _ _ = _
    unfold EStateM.bind
    have hturn : Session.takeTurn dispatch source ({ session with waiting }, memory) =
        match session.turn dispatch source waiting memory with
        | .ok feed run => .ok ⟨⟩ (run.session.settle run.source feed, run.memory)
        | .error error run => .error error (run.session, run.memory) := rfl
    rw [hturn]
    cases session.turn dispatch source waiting memory <;> rfl

namespace Moment

/-- The session at a moment. -/
def session : Moment σ → Session
  | between session _ => session
  | draining run _ => run.session

/-- The moment after a source has been put away. -/
def putAway (run : Run σ) (feed : Feed) : Moment σ :=
  between (run.session.settle run.source feed) run.memory

/-- What comes after a moment. -/
inductive Next (σ : Type) where
  | goesOn (m : Moment σ)
  | ends
  | fails (error : CompileError) (session : Session) (memory : σ)

/-- What a compile does next. -/
def next (dispatch : Dispatch σ) : Moment σ → Next σ
  | between session memory =>
    match session.waiting with
    | [] =>
      if session.halted.isEmpty then .ends
      else .fails (.stalled session.halted.length) session memory
    | source :: waiting =>
      .goesOn (draining (session.beginTurn source waiting memory)
        (Feed.ofText (session.textOf source)))
  | draining run feed =>
    if run.source.paused then .goesOn (putAway run feed)
    else
      match feed.step run.source.reading with
      | .done => .goesOn (putAway run feed)
      | .newLine after => .goesOn (draining run.nextLine after)
      | .checked after => .goesOn (draining run after)
      | .forbidden => .fails (.forbiddenMarker run.source.location) run.session run.memory
      | .text content after =>
        .goesOn (draining { run with session := run.session.write content } after)
      | .directive before d after =>
        match meet dispatch before d after.atEnd run with
        | .ok _ run => .goesOn (draining run after)
        | .error error run => .fails error run.session run.memory

variable {dispatch : Dispatch σ}

/-- One moment leads to another. -/
def Leads (dispatch : Dispatch σ) (m m' : Moment σ) : Prop :=
  m.next dispatch = .goesOn m'

/-- What comes after a moment is determined. -/
theorem Leads.unique {m m' m'' : Moment σ} (h : Leads dispatch m m') (h' : Leads dispatch m m'') :
    m' = m'' :=
  Next.goesOn.inj (h.symm.trans h')

/-- A compile that is at the first moment comes to the second. -/
def Reached (dispatch : Dispatch σ) : Moment σ → Moment σ → Prop :=
  Relation.ReflTransGen (Leads dispatch)

/-! ## Steps -/

/-- Every step of a source that goes on is a piece of its feed. -/
inductive Piece (dispatch : Dispatch σ) (run : Run σ) (feed : Feed) : Run σ → Feed → Prop
  | newLine {after : Feed} (hstep : feed.step run.source.reading = .newLine after) :
    Piece dispatch run feed run.nextLine after
  | checked {after : Feed} (hstep : feed.step run.source.reading = .checked after) :
    Piece dispatch run feed run after
  | text {content : Bytes} {after : Feed}
    (hstep : feed.step run.source.reading = .text content after) :
    Piece dispatch run feed { run with session := run.session.write content } after
  | directive {before : Bytes} {d : Markup.Directive} {after : Feed} {u : PUnit} {run' : Run σ}
    (hstep : feed.step run.source.reading = .directive before d after)
    (hmeet : meet dispatch before d after.atEnd run = .ok u run') :
    Piece dispatch run feed run' after

theorem Piece.size_lt {run run' : Run σ} {feed after : Feed}
    (h : Piece dispatch run feed run' after) :
    Prod.Lex (· < ·) (Prod.Lex (· < ·) (· < ·)) after.size feed.size := by
  cases h with
  | newLine hstep => exact Feed.size_lt_of_step (by rw [hstep]; rfl)
  | checked hstep => exact Feed.size_lt_of_step (by rw [hstep]; rfl)
  | text hstep => exact Feed.size_lt_of_step (by rw [hstep]; rfl)
  | directive hstep => exact Feed.size_lt_of_step (by rw [hstep]; rfl)

/-- A source that is not paused is drained piece by piece. -/
theorem Piece.drain_eq {run run' : Run σ} {feed after : Feed}
    (hrunning : run.source.paused = false) (h : Piece dispatch run feed run' after) :
    drain dispatch feed run = drain dispatch after run' := by
  rw [drain_running hrunning]
  cases h with
  | newLine hstep | checked hstep | text hstep => rw [hstep]
  | directive hstep hmeet =>
    rw [hstep]
    dsimp only
    rw [hmeet]

/-- What is next for a source that is not paused. -/
theorem next_running {run : Run σ} (hrunning : run.source.paused = false) (feed : Feed) :
    next dispatch (draining run feed) =
      match feed.step run.source.reading with
      | .done => .goesOn (putAway run feed)
      | .newLine after => .goesOn (draining run.nextLine after)
      | .checked after => .goesOn (draining run after)
      | .forbidden => .fails (.forbiddenMarker run.source.location) run.session run.memory
      | .text content after =>
        .goesOn (draining { run with session := run.session.write content } after)
      | .directive before d after =>
        match meet dispatch before d after.atEnd run with
        | .ok _ run => .goesOn (draining run after)
        | .error error run => .fails error run.session run.memory := by
  rw [next, hrunning, if_neg Bool.false_ne_true]

/-- **Steps of a source**: it is put away, or it takes a piece of its feed. -/
theorem leads_draining {run : Run σ} {feed : Feed} {m : Moment σ}
    (h : Leads dispatch (draining run feed) m) :
    (m = putAway run feed ∧ (run.source.paused = true ∨ feed.step run.source.reading = .done)) ∨
      ∃ run' after, run.source.paused = false ∧ Piece dispatch run feed run' after ∧
        m = draining run' after := by
  unfold Leads at h
  rw [next] at h
  split at h
  · next hpaused =>
    obtain rfl := Next.goesOn.inj h
    exact .inl ⟨rfl, .inl hpaused⟩
  · next hrunning =>
    have hrunning := Bool.eq_false_iff.2 hrunning
    split at h
    · next hstep =>
      obtain rfl := Next.goesOn.inj h
      exact .inl ⟨rfl, .inr hstep⟩
    · next after hstep =>
      obtain rfl := Next.goesOn.inj h
      exact .inr ⟨_, _, hrunning, .newLine hstep, rfl⟩
    · next after hstep =>
      obtain rfl := Next.goesOn.inj h
      exact .inr ⟨_, _, hrunning, .checked hstep, rfl⟩
    · cases h
    · next content after hstep =>
      obtain rfl := Next.goesOn.inj h
      exact .inr ⟨_, _, hrunning, .text hstep, rfl⟩
    · next before d after hstep =>
      split at h
      · next run' hmeet =>
        obtain rfl := Next.goesOn.inj h
        exact .inr ⟨_, _, hrunning, .directive hstep hmeet, rfl⟩
      · cases h

/-- **Steps between turns**: the source that waited longest begins its turn. -/
theorem leads_between {session : Session} {memory : σ} {m : Moment σ}
    (h : Leads dispatch (between session memory) m) :
    ∃ source waiting, session.waiting = source :: waiting ∧
      m = draining (session.beginTurn source waiting memory)
        (Feed.ofText (session.textOf source)) := by
  unfold Leads at h
  rw [next] at h
  split at h
  · split at h <;> cases h
  · next source waiting hwaiting =>
    exact ⟨source, waiting, hwaiting, (Next.goesOn.inj h).symm⟩

/-! ## Whole compiles -/

/-- What comes of a moment if so many sources may still take their turns. -/
def outcome (dispatch : Dispatch σ) (turns : Nat) :
    Moment σ → EStateM.Result CompileError (Session × σ) PUnit
  | between session memory => Session.takeTurns dispatch turns (session, memory)
  | draining run feed =>
    match drain dispatch feed run with
    | .ok feed run =>
      Session.takeTurns dispatch turns (run.session.settle run.source feed, run.memory)
    | .error error run => .error error (run.session, run.memory)

/-- What comes of a moment, given what comes after it. -/
def Next.result (follow : Moment σ → EStateM.Result CompileError (Session × σ) PUnit)
    (state : Session × σ) : Next σ → EStateM.Result CompileError (Session × σ) PUnit
  | goesOn m => follow m
  | ends => .ok ⟨⟩ state
  | fails error session memory => .error error (session, memory)

theorem outcome_between (turns : Nat) (session : Session) (memory : σ) :
    outcome dispatch (turns + 1) (between session memory) =
      (next dispatch (between session memory)).result (outcome dispatch turns)
        (session, memory) := by
  rw [outcome, next, Session.takeTurns_succ]
  cases session.waiting with
  | nil =>
    dsimp only
    cases session.halted.isEmpty <;> rfl
  | cons source waiting => rfl

theorem outcome_draining (turns : Nat) (run : Run σ) (feed : Feed) :
    outcome dispatch turns (draining run feed) =
      (next dispatch (draining run feed)).result (outcome dispatch turns)
        (run.session, run.memory) := by
  have hget (f : Source → Action σ Feed) : (Action.source >>= f) run = f run.source run := rfl
  rw [outcome, drain_eq, hget, next]
  by_cases hpaused : run.source.paused = true
  · rw [if_pos hpaused, if_pos hpaused]
    rfl
  · rw [if_neg hpaused, if_neg hpaused]
    cases feed.step run.source.reading with
    | done | newLine | checked | forbidden | text => rfl
    | directive before d after =>
      dsimp only
      have hbind : (do
          meet dispatch before d after.atEnd
          drain dispatch after : Action σ Feed) run =
          match meet dispatch before d after.atEnd run with
          | .ok _ run => drain dispatch after run
          | .error error run => .error error run := by
        show EStateM.bind _ _ _ = _
        unfold EStateM.bind
        cases meet dispatch before d after.atEnd run <;> rfl
      rw [hbind]
      cases meet dispatch before d after.atEnd run <;> rfl

/-- A property of a moment and of the turns that are left, proved from that of what comes next. -/
theorem induction {motive : Nat → Moment σ → Prop} (dispatch : Dispatch σ)
    (zero : ∀ session memory, motive 0 (between session memory))
    (succ : ∀ turns session memory,
      (∀ m, Leads dispatch (between session memory) m → motive turns m) →
        motive (turns + 1) (between session memory))
    (draining : ∀ turns run feed,
      (∀ m, Leads dispatch (draining run feed) m → motive turns m) →
        motive turns (draining run feed)) (turns : Nat) (m : Moment σ) : motive turns m := by
  have hdraining {turns : Nat} (hbetween : ∀ session memory, motive turns (between session memory))
      (feed : Feed) : ∀ run, motive turns (Moment.draining run feed) := by
    have hwf : WellFounded fun a b : Feed =>
        Prod.Lex (· < ·) (Prod.Lex (· < ·) (· < ·)) a.size b.size :=
      InvImage.wf Feed.size (Prod.lex ⟨_, Nat.lt_wfRel.wf⟩
        (Prod.lex ⟨_, Nat.lt_wfRel.wf⟩ ⟨_, Nat.lt_wfRel.wf⟩)).wf
    induction feed using hwf.induction with
    | h feed ih =>
      intro run
      refine draining turns run feed fun m hm => ?_
      rcases leads_draining hm with ⟨rfl, -⟩ | ⟨run', after, -, hpiece, rfl⟩
      · exact hbetween _ _
      · exact ih after hpiece.size_lt run'
  have hbetween : ∀ session memory, motive turns (between session memory) := by
    induction turns with
    | zero => exact zero
    | succ turns ih =>
      intro session memory
      refine succ turns session memory fun m hm => ?_
      obtain ⟨source, waiting, -, rfl⟩ := leads_between hm
      exact hdraining ih _ _
  cases m with
  | between session memory => exact hbetween session memory
  | draining run feed => exact hdraining hbetween feed run

theorem next_draining_ne_ends (run : Run σ) (feed : Feed) :
    next dispatch (draining run feed) ≠ .ends := by
  intro h
  rw [next] at h
  split at h
  · cases h
  · split at h
    case h_6 => split at h <;> cases h
    all_goals cases h

/-- A compile that is at the first moment comes to the second once so many turns have begun. -/
inductive InTurns (dispatch : Dispatch σ) : Nat → Moment σ → Moment σ → Prop
  | refl (m : Moment σ) : InTurns dispatch 0 m m
  | turn {turns : Nat} {session : Session} {memory : σ} {m m' : Moment σ}
    (hleads : Leads dispatch (between session memory) m) (h : InTurns dispatch turns m m') :
    InTurns dispatch (turns + 1) (between session memory) m'
  | piece {turns : Nat} {run : Run σ} {feed : Feed} {m m' : Moment σ}
    (hleads : Leads dispatch (draining run feed) m) (h : InTurns dispatch turns m m') :
    InTurns dispatch turns (draining run feed) m'

theorem InTurns.reached {turns : Nat} {m m' : Moment σ} (h : InTurns dispatch turns m m') :
    Reached dispatch m m' := by
  induction h with
  | refl m => exact .refl
  | turn hleads _ ih => exact .head hleads ih
  | piece hleads _ ih => exact .head hleads ih

/-- How a compile may come out that is at a moment and may begin so many turns. -/
inductive ComesOut (dispatch : Dispatch σ) (turns : Nat) (m : Moment σ) :
    EStateM.Result CompileError (Session × σ) PUnit → Prop
  | ends {session : Session} {memory : σ} (hreached : Reached dispatch m (between session memory))
    (hnext : next dispatch (between session memory) = .ends) :
    ComesOut dispatch turns m (.ok ⟨⟩ (session, memory))
  | fails {last : Moment σ} {error : CompileError} {session : Session} {memory : σ}
    (hreached : Reached dispatch m last) (hnext : next dispatch last = .fails error session memory) :
    ComesOut dispatch turns m (.error error (session, memory))
  | unfinished {session : Session} {memory : σ}
    (hreached : InTurns dispatch turns m (between session memory)) :
    ComesOut dispatch turns m (.error .unfinished (session, memory))

theorem ComesOut.head {turns turns' : Nat} {m m' : Moment σ}
    {result : EStateM.Result CompileError (Session × σ) PUnit} (hleads : Leads dispatch m m')
    (hturns : ∀ last, InTurns dispatch turns m' last → InTurns dispatch turns' m last)
    (h : ComesOut dispatch turns m' result) : ComesOut dispatch turns' m result := by
  cases h with
  | ends hreached hnext => exact .ends (.head hleads hreached) hnext
  | fails hreached hnext => exact .fails (.head hleads hreached) hnext
  | unfinished hreached => exact .unfinished (hturns _ hreached)

/-- **Moments of a compile**: a compile that succeeds comes to a moment at which it ends, and one that
fails comes to the moment at which it fails, or has used its turns up. -/
theorem comesOut (turns : Nat) (m : Moment σ) :
    ComesOut dispatch turns m (outcome dispatch turns m) := by
  induction turns, m using induction dispatch with
  | zero session memory => exact .unfinished (.refl _)
  | succ turns session memory ih =>
    rw [outcome_between]
    cases hnext : next dispatch (between session memory) with
    | goesOn m => exact (ih m hnext).head hnext fun _ h => .turn hnext h
    | ends => exact .ends .refl hnext
    | fails error session' memory' => exact .fails .refl hnext
  | draining turns run feed ih =>
    rw [outcome_draining]
    cases hnext : next dispatch (draining run feed) with
    | goesOn m => exact (ih m hnext).head hnext fun _ h => .piece hnext h
    | ends => exact absurd hnext (next_draining_ne_ends run feed)
    | fails error session' memory' => exact .fails .refl hnext

/-! ## What steps keep -/

/-- The session has the property after the step too, whether the compile goes on or fails. -/
def Next.Keeps (property : Session → Prop) : Next σ → Prop
  | goesOn m => property m.session
  | ends => True
  | fails _ session _ => property session

section

variable {property : Session → Prop}
  (hnext : ∀ m, property m.session → (next dispatch m).Keeps property)
include hnext

/-- What every step keeps is kept by all of them. -/
theorem keeps_reached {m last : Moment σ} (h : property m.session) (hreached : Reached dispatch m last) :
    property last.session := by
  induction hreached with
  | refl => exact h
  | @tail middle after _ hleads ih =>
    have hkeeps := hnext middle ih
    rw [show next dispatch middle = .goesOn after from hleads] at hkeeps
    exact hkeeps

/-- So it is by whole compiles, whichever way they come out. -/
theorem keeps_outcome (turns : Nat) {m : Moment σ} (h : property m.session) :
    match outcome dispatch turns m with
    | .ok _ (session, _) => property session
    | .error _ (session, _) => property session := by
  have hcomes := @comesOut σ dispatch turns m
  cases hresult : outcome dispatch turns m <;> rw [hresult] at hcomes
  · cases hcomes with
    | ends hreached => exact keeps_reached hnext h hreached
  · cases hcomes with
    | @fails last _ _ _ hreached hfails =>
      have hlast := hnext last (keeps_reached hnext h hreached)
      rw [hfails] at hlast
      exact hlast
    | unfinished hreached => exact keeps_reached hnext h hreached.reached

end

/-- A compile that comes out before its turns are used up does not depend on how many there are. -/
theorem outcome_add (turns more : Nat) (m : Moment σ)
    (h : ∀ session memory, ¬ InTurns dispatch turns m (between session memory)) :
    outcome dispatch (turns + more) m = outcome dispatch turns m := by
  induction turns, m using induction dispatch with
  | zero session memory => exact absurd (.refl _) (h session memory)
  | succ turns session memory ih =>
    rw [Nat.succ_add, outcome_between, outcome_between]
    cases hnext : next dispatch (between session memory) with
    | goesOn m => exact ih m hnext fun session' memory' h' => h session' memory' (.turn hnext h')
    | ends => rfl
    | fails error session' memory' => rfl
  | draining turns run feed ih =>
    rw [outcome_draining, outcome_draining]
    cases hnext : next dispatch (draining run feed) with
    | goesOn m => exact ih m hnext fun session' memory' h' => h session' memory' (.piece hnext h')
    | ends => rfl
    | fails error session' memory' => rfl

/-! ## Calls of tags -/

end Moment

/-- Finds the handler of a tag, and evaluates the parameters that have filters. -/
def Tag.prepare (dispatch : Dispatch σ) (tag : Tag) : Action σ (TagHandler σ × Tag) := do
  match dispatch.tag? tag.name with
  | none => throw (.unknownTag tag.name (← Action.location))
  | some handler =>
    let params ← fillSlots dispatch tag.params
    pure (handler, { tag with params })

theorem Tag.write_eq (dispatch : Dispatch σ) (tag : Tag) :
    tag.write dispatch = (do
      let (handler, tag) ← tag.prepare dispatch
      handler tag) := by
  unfold Tag.write Tag.prepare
  cases dispatch.tag? tag.name with
  | none => rfl
  | some handler => simp only [bind_assoc, pure_bind]

/-- Reads a tag that has been met, up to the call of its handler. -/
def Markup.Directive.prepare (dispatch : Dispatch σ) (d : Markup.Directive) :
    Action σ (TagHandler σ × Tag) := do
  Action.updateSource fun source =>
    { source with currentTag := some d.name, tagsSeen := source.tagsSeen + 1 }
  let tag ← Action.reading fun scene => Tag.read scene d.name d.params
  tag.prepare dispatch

theorem handle_tag {d : Markup.Directive} (hkind : d.kind = .tag) (dispatch : Dispatch σ) :
    handle dispatch d = (do
      let (handler, tag) ← d.prepare dispatch
      handler tag) := by
  unfold handle Markup.Directive.prepare
  rw [hkind]
  simp only [bind_assoc, Tag.write_eq]

namespace Moment

/-- At the moment a tag is handled next, and this is how its handler is called. -/
def Calls (dispatch : Dispatch σ) (m : Moment σ) (tag : Tag) (called : Run σ) : Prop :=
  ∃ run feed before d after handler, m = draining run feed ∧ run.source.paused = false ∧
    feed.step run.source.reading = .directive before d after ∧ d.kind = .tag ∧
    d.prepare dispatch (run.approach before d after.atEnd) = .ok (handler, tag) called

/-- What comes of a moment at which a handler is called is what comes of the call. -/
theorem Calls.next_eq {m : Moment σ} {tag : Tag} {called : Run σ} (h : Calls dispatch m tag called) :
    ∃ handler after, dispatch.tag? tag.name = some handler ∧
      m.next dispatch =
        match handler tag called with
        | .ok _ run => .goesOn (draining run after)
        | .error error run => .fails error run.session run.memory := by
  obtain ⟨run, feed, before, d, after, handler, rfl, hrunning, hstep, hkind, hprepare⟩ := h
  have hhandler : dispatch.tag? tag.name = some handler := by
    obtain ⟨_, _, -, hrest⟩ := bind_eq_ok.1 hprepare
    obtain ⟨read, _, -, hfill⟩ := bind_eq_ok.1 hrest
    unfold Tag.prepare at hfill
    cases hfound : dispatch.tag? read.name with
    | none =>
      rw [hfound] at hfill
      exact nomatch hfill
    | some found =>
      rw [hfound] at hfill
      obtain ⟨params, _, -, hpure⟩ := bind_eq_ok.1 hfill
      obtain ⟨heq, -⟩ := pure_eq_ok.1 hpure
      obtain ⟨rfl, rfl⟩ := Prod.mk.inj heq
      exact hfound
  refine ⟨handler, after, hhandler, ?_⟩
  have hmeet : meet dispatch before d after.atEnd run = handler tag called := by
    rw [meet_eq, handle_tag hkind]
    show EStateM.bind (d.prepare dispatch) _ _ = _
    unfold EStateM.bind
    rw [hprepare]
  rw [next, hrunning, if_neg Bool.false_ne_true, hstep]
  dsimp only
  rw [hmeet]

end Moment

/-- A moment that the compile of a template passes. -/
def Compiler.Passes (compiler : Compiler σ) (id template destination : String) (world : Compiler.World σ)
    (m : Moment σ) : Prop :=
  ∃ session disk,
    Session.start compiler.workspace id template destination world.disk = .ok session disk ∧
    Moment.Reached (compiler.library.dispatch compiler.limits.depth)
      (.between session world.memory) m

theorem Compiler.Passes.reached {compiler : Compiler σ} {id template destination : String}
    {world : Compiler.World σ} {m : Moment σ} {session : Session} {disk : Disk}
    (hstart : Session.start compiler.workspace id template destination world.disk = .ok session disk)
    (h : compiler.Passes id template destination world m) :
    Moment.Reached (compiler.library.dispatch compiler.limits.depth)
      (.between session world.memory) m := by
  obtain ⟨session', disk', hstart', hreached⟩ := h
  obtain ⟨rfl, -⟩ := EStateM.Result.ok.inj (hstart.symm.trans hstart')
  exact hreached

end TemplateCompiler
