import TemplateCompiler.Proofs.Handling.Libraries
import TemplateCompiler.Proofs.Moment.Draining
import TemplateCompiler.Proofs.Session.Depicts

/-!
# The queue of sources

Sources are numbered as they are queued, and a handler can only queue more of them after those that wait
(`Run.Queues`). So the sources take their turns in the order of their numbers, each of them once
(`Session.Takes.queued`), and what stopped before its end is put aside, in that order too.
-/
namespace TemplateCompiler

variable {σ : Type}

/-! ## Numbers -/

/-- New sources in the order of their numbers, which are in the given range. -/
structure Source.Numbered (first next : Nat) (sources : List Source) : Prop where
  isNew : ∀ source ∈ sources, source.IsNew
  range : ∀ source ∈ sources, first ≤ source.id ∧ source.id < next
  order : sources.Pairwise (·.id < ·.id)

namespace Source.Numbered

variable {first middle next : Nat} {sources more : List Source}

theorem nil : Numbered first next [] :=
  ⟨List.forall_mem_nil _, List.forall_mem_nil _, .nil⟩

theorem append (h : Numbered first middle sources) (h' : Numbered middle next more)
    (hfirst : first ≤ middle) (hnext : middle ≤ next) : Numbered first next (sources ++ more) where
  isNew source hsource := (List.mem_append.1 hsource).elim (h.isNew source) (h'.isNew source)
  range source hsource := by
    rcases List.mem_append.1 hsource with hsource | hsource
    · exact ⟨(h.range source hsource).1, (h.range source hsource).2.trans_le hnext⟩
    · exact ⟨hfirst.trans (h'.range source hsource).1, (h'.range source hsource).2⟩
  order := List.pairwise_append.2 ⟨h.order, h'.order, fun s hs t ht =>
    (h.range s hs).2.trans_le (h'.range t ht).1⟩

end Source.Numbered

/-! ## What handlers do to the queue -/

/-- The source is the same, and more sources have been queued, numbered from where the catalog ended. -/
structure Run.Queues (run run' : Run σ) : Prop where
  id : run'.source.id = run.source.id
  halted : run'.session.halted = run.session.halted
  drained : run'.session.drained = run.session.drained
  catalog : run.session.catalog.length ≤ run'.session.catalog.length
  waiting : ∃ more, run'.session.waiting = run.session.waiting ++ more ∧
    Source.Numbered run.session.catalog.length run'.session.catalog.length more

namespace Run.Queues

variable {run run' last : Run σ} {log : OpenLog}

theorem refl (run : Run σ) : run.Queues run :=
  ⟨rfl, rfl, rfl, le_rfl, [], (List.append_nil _).symm, .nil⟩

theorem trans (h : run.Queues run') (h' : run'.Queues last) : run.Queues last := by
  obtain ⟨more, hmore, hnumbered⟩ := h.waiting
  obtain ⟨rest, hrest, hnumbered'⟩ := h'.waiting
  refine ⟨h'.id.trans h.id, h'.halted.trans h.halted, h'.drained.trans h.drained,
    h.catalog.trans h'.catalog, more ++ rest, ?_,
    hnumbered.append hnumbered' h.catalog h'.catalog⟩
  rw [hrest, hmore, List.append_assoc]

/-- What leaves the queue alone. -/
theorem of_eq (hid : run'.source.id = run.source.id)
    (hhalted : run'.session.halted = run.session.halted)
    (hdrained : run'.session.drained = run.session.drained)
    (hcatalog : run'.session.catalog = run.session.catalog)
    (hwaiting : run'.session.waiting = run.session.waiting) : run.Queues run' :=
  ⟨hid, hhalted, hdrained, hcatalog ▸ le_rfl, [], by rw [hwaiting, List.append_nil], .nil⟩

theorem of_rewrites {session : Session} (h : run.session.Rewrites session) :
    run.Queues { run with session } := by
  obtain ⟨_, _, _, _, rfl⟩ := h
  exact .of_eq rfl rfl rfl rfl rfl

/-- **Uses** queue more sources at the most. -/
theorem of_use (h : run.Use log run') : run.Queues run' := by
  cases h with
  | write piece => exact of_rewrites (run.session.rewrites_write piece)
  | writeMain piece => exact of_rewrites (run.session.rewrites_perform (.writeMain piece))
  | close name => exact of_rewrites (run.session.rewrites_removeDestination name)
  | flag | opening => exact of_rewrites ⟨_, _, _, run.session.leftovers, rfl⟩
  | note | remember => exact .of_eq rfl rfl rfl rfl rfl
  | mark source _ hid => exact .of_eq hid rfl rfl rfl rfl
  | register origin =>
    exact ⟨rfl, rfl, rfl, by simp [Session.register], [], (List.append_nil _).symm, .nil⟩
  | queue origin =>
    refine ⟨rfl, rfl, rfl, by simp [Session.enqueue, Session.register], _, rfl, ?_, ?_,
      List.pairwise_singleton _ _⟩
    · exact fun source hsource => List.mem_singleton.1 hsource ▸ rfl
    · intro source hsource
      rw [List.mem_singleton.1 hsource]
      simp [Session.enqueue, Session.register]

theorem of_uses (h : run.Uses log run') : run.Queues run' :=
  h.of refl trans of_use

end Run.Queues

namespace Moment

/-- What a source does to the queue while a piece of its feed is read. -/
theorem Piece.queues {dispatch : Dispatch σ} (hdispatch : dispatch.OnlyUses) {run run' : Run σ}
    {feed after : Feed} (h : Piece dispatch run feed run' after) : run.Queues run' := by
  cases h with
  | newLine => exact .of_eq rfl rfl rfl rfl rfl
  | checked => exact .refl _
  | text => exact .of_rewrites (run.session.rewrites_write _)
  | @directive before d after u _ hstep hmeet =>
    obtain ⟨log, hlog⟩ := Action.meets_onlyUses.meet hdispatch.tags hdispatch.filters before d
      after.atEnd run
    rw [hmeet] at hlog
    exact .of_uses hlog

end Moment

/-! ## Turns -/

/-- A turn that has ended: whose it was, what was left to read, and the run then. -/
structure Turn (σ : Type) where
  source : Source
  rest : Feed
  run : Run σ

/-- The source stopped before its end. -/
def Turn.stopped (turn : Turn σ) : Bool :=
  !turn.rest.atEnd

namespace Session

/-- Turns are taken one after another. -/
inductive Takes (dispatch : Dispatch σ) : Session × σ → List (Turn σ) → Session × σ → Prop
  | nil (state : Session × σ) : Takes dispatch state [] state
  | cons {session : Session} {memory : σ} {source : Source} {waiting : List Source} {rest : Feed}
    {run : Run σ} {turns : List (Turn σ)} {state : Session × σ}
    (hwaiting : session.waiting = source :: waiting)
    (hturn : session.turn dispatch source waiting memory = .ok rest run)
    (h : Takes dispatch (run.session.settle run.source rest, run.memory) turns state) :
    Takes dispatch (session, memory) (⟨source, rest, run⟩ :: turns) state

theorem settle_eq (session : Session) (source : Source) (feed : Feed) :
    (session.settle source feed).waiting = session.waiting ∧
      (session.settle source feed).catalog = session.catalog ∧
      (session.settle source feed).halted =
        session.halted ++ (if feed.atEnd then [] else [source]) ∧
      (session.settle source feed).drained = session.drained + (if feed.atEnd then 1 else 0) := by
  unfold settle
  cases feed.atEnd with
  | true =>
    dsimp only
    rw [if_pos rfl, if_pos rfl, if_pos rfl, List.append_nil]
    split <;> exact ⟨rfl, rfl, rfl, rfl⟩
  | false => exact ⟨rfl, rfl, rfl, rfl⟩

variable {dispatch : Dispatch σ} {session : Session} {memory : σ} {source : Source}
  {waiting : List Source} {rest : Feed} {run : Run σ} {turns : List (Turn σ)}
  {state last : Session × σ}

/-- Only a source that has stopped is put aside. -/
theorem paused_of_mem_aside {feed : Feed} {stopped : Source}
    (hended : feed.atEnd = true ∨ stopped.paused = true) :
    ∀ s ∈ if feed.atEnd then [] else [stopped], s.paused = true := by
  intro s hs
  split at hs
  · cases hs
  · next hend =>
    rw [List.mem_singleton.1 hs]
    exact hended.resolve_left hend

/-- **One turn**: its source has come to its end or has stopped and is put aside, and more sources wait
after those that waited. -/
theorem turn_queues (hdispatch : dispatch.OnlyUses)
    (hturn : session.turn dispatch source waiting memory = .ok rest run)
    {after : Session} (hafter : after = run.session.settle run.source rest) :
    (rest.atEnd = true ∨ run.source.paused = true) ∧
    session.catalog.length ≤ after.catalog.length ∧
    (∃ more, after.waiting = waiting ++ more ∧
      Source.Numbered session.catalog.length after.catalog.length more) ∧
    after.halted = session.halted ++ (if rest.atEnd then [] else [run.source]) ∧
    after.drained = session.drained + (if rest.atEnd then 1 else 0) := by
  have hdrains := Moment.drains_drain dispatch (session.beginTurn source waiting memory)
    (Feed.ofText (session.textOf source))
  have hqueues := hdrains.of Run.Queues.refl .trans (Moment.Piece.queues hdispatch) hturn
  have hhalted : run.session.halted = session.halted := hqueues.halted
  have hdrained : run.session.drained = session.drained := hqueues.drained
  obtain ⟨hsettled, hcatalog, hput, hcount⟩ := settle_eq run.session run.source rest
  rw [hafter, hsettled, hcatalog, hput, hcount, hhalted, hdrained]
  exact ⟨(hdrains.ended hturn).1, hqueues.catalog, hqueues.waiting, rfl, rfl⟩

/-- **Turns**: what waited and what was queued meanwhile has had its turn or waits still, in the order of
the numbers. Sources that stopped are put aside in this order, and the others are counted. -/
structure Queued (state : Session × σ) (turns : List (Turn σ)) (last : Session × σ) : Prop where
  waiting : ∃ more, state.1.waiting ++ more = turns.map (·.source) ++ last.1.waiting ∧
    Source.Numbered state.1.catalog.length last.1.catalog.length more
  catalog : state.1.catalog.length ≤ last.1.catalog.length
  halted : last.1.halted = state.1.halted ++ (turns.filter Turn.stopped).map (·.run.source)
  drained : last.1.drained = state.1.drained + (turns.filter fun turn => !turn.stopped).length
  ended : ∀ turn ∈ turns, turn.stopped = true → turn.run.source.paused = true

theorem Takes.queued (hdispatch : dispatch.OnlyUses) (h : Takes dispatch state turns last) :
    Queued state turns last := by
  induction h with
  | nil state =>
    exact ⟨⟨[], List.append_nil _, .nil⟩, le_rfl, (List.append_nil _).symm, rfl,
      List.forall_mem_nil _⟩
  | @cons session memory source waiting rest run turns last hwaiting hturn _ ih =>
    generalize hafter : run.session.settle run.source rest = after at ih
    obtain ⟨hended, hgrows, ⟨added, hadded, hnumbered⟩, hhalted, hdrained⟩ :=
      turn_queues hdispatch hturn hafter.symm
    obtain ⟨⟨more, hmore, hnumbered'⟩, hgrows', hstopped, hcount, hpaused⟩ := ih
    -- what this turn queues has lower numbers than what the later ones do
    refine ⟨⟨added ++ more, ?_, hnumbered.append hnumbered' hgrows hgrows'⟩, hgrows.trans hgrows',
      ?_, ?_, ?_⟩
    · rw [hadded] at hmore
      rw [hwaiting, List.map_cons, List.cons_append, List.cons_append, ← List.append_assoc]
      exact congrArg (source :: ·) hmore
    · rw [hstopped, hhalted, List.append_assoc]
      congr 1
      cases hend : rest.atEnd <;> simp [Turn.stopped, hend]
    · rw [hcount, hdrained]
      cases hend : rest.atEnd <;> simp [Turn.stopped, hend, Nat.add_assoc, Nat.add_comm]
    · refine List.forall_mem_cons.2 ⟨fun hstop => hended.resolve_left ?_, hpaused⟩
      simpa [Turn.stopped] using hstop

end Session

end TemplateCompiler
