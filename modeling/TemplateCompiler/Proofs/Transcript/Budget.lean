import TemplateCompiler.Proofs.Transcript.Compiling

/-!
# Compiles with a budget

Draining recurses on what is left of a feed, and the evaluation of a term does not get far with
that. Here the steps are counted down instead, so that a compile of given files can be evaluated.
What comes out within a budget is what comes out without one.
-/
namespace TemplateCompiler

variable {σ : Type} {dispatch : Dispatch σ} {steps : Nat}

/-! ## Draining -/

/-- Drains a feed in at most so many steps. -/
def drainWithin (dispatch : Dispatch σ) : Nat → Feed → Action σ Feed
  | 0, _ => throw .unfinished
  | steps + 1, feed => do
    let source ← Action.source
    if source.paused then pure feed
    else
      match feed.step source.reading with
      | .done => pure feed
      | .newLine after =>
        Action.updateSource fun source => { source with line := source.line + 1 }
        drainWithin dispatch steps after
      | .checked after => drainWithin dispatch steps after
      | .forbidden => throw (.forbiddenMarker source.location)
      | .text content after =>
        Action.updateSession (·.write content)
        drainWithin dispatch steps after
      | .directive before d after =>
        meet dispatch before d after.atEnd
        drainWithin dispatch steps after

theorem drain_of_within {feed rest : Feed} {run run' : Run σ}
    (h : drainWithin dispatch steps feed run = .ok rest run') :
    drain dispatch feed run = .ok rest run' := by
  induction steps generalizing feed run with
  | zero => exact nomatch h
  | succ steps ih =>
    unfold drainWithin at h
    rw [drain_eq]
    obtain ⟨source, first, hsource, hrest⟩ := bind_eq_ok.1 h
    refine bind_eq_ok.2 ⟨source, first, hsource, ?_⟩
    by_cases hpaused : source.paused = true
    · rw [if_pos hpaused] at hrest ⊢
      exact hrest
    · rw [if_neg hpaused] at hrest ⊢
      cases hstep : feed.step source.reading with
      | done => rwa [hstep] at hrest
      | forbidden => rwa [hstep] at hrest
      | checked after =>
        rw [hstep] at hrest
        exact ih hrest
      | newLine after | text content after | directive before d after =>
        rw [hstep] at hrest
        obtain ⟨u, second, hfirst, hdrain⟩ := bind_eq_ok.1 hrest
        exact bind_eq_ok.2 ⟨u, second, hfirst, ih hdrain⟩

/-- Reads a feed in at most so many steps. -/
def Reader.readWithin : Nat → Reader → Feed → Option (List Event × Reader)
  | 0, _, _ => none
  | steps + 1, reader, feed =>
    match feed.step reader.mode.reading with
    | .done => some ([], reader)
    | .newLine after => readWithin steps { reader with line := reader.line + 1 } after
    | .checked after => readWithin steps reader after
    | .forbidden => none
    | .text content after => do
      let (events, last) ← readWithin steps reader after
      some (reader.chunk content ++ events, last)
    | .directive before d after => do
      let (events, next) ← reader.meet d
      let (more, last) ← readWithin steps next after
      some (reader.chunk before ++ events ++ more, last)

theorem Reader.read_of_within {reader last : Reader} {feed : Feed} {events : List Event}
    (h : readWithin steps reader feed = some (events, last)) :
    reader.read feed = some (events, last) := by
  induction steps generalizing reader feed events last with
  | zero => exact nomatch h
  | succ steps ih =>
    unfold readWithin at h
    rw [read_eq]
    cases hstep : feed.step reader.mode.reading with
    | done => rwa [hstep] at h
    | forbidden => rwa [hstep] at h
    | newLine after =>
      rw [hstep] at h
      exact ih h
    | checked after =>
      rw [hstep] at h
      exact ih h
    | text content after =>
      rw [hstep] at h
      obtain ⟨⟨more, last'⟩, hread, heq⟩ := Option.bind_eq_some_iff.1 h
      exact Option.bind_eq_some_iff.2 ⟨(more, last'), ih hread, heq⟩
    | directive before d after =>
      rw [hstep] at h
      obtain ⟨⟨first, next⟩, hmeet, hrest⟩ := Option.bind_eq_some_iff.1 h
      obtain ⟨⟨more, last'⟩, hread, heq⟩ := Option.bind_eq_some_iff.1 hrest
      exact Option.bind_eq_some_iff.2 ⟨(first, next), hmeet,
        Option.bind_eq_some_iff.2 ⟨(more, last'), ih hread, heq⟩⟩

/-! ## Turns -/

namespace Session

/-- One turn in at most so many steps. -/
def takeTurnWithin (dispatch : Dispatch σ) (steps : Nat) (source : Source) : Course σ PUnit :=
  fun (session, memory) =>
    let feed := Feed.ofText (session.textOf source)
    match drainWithin dispatch steps feed ⟨session.setMainPaused false, source, memory⟩ with
    | .ok feed run => .ok ⟨⟩ (run.session.settle run.source feed, run.memory)
    | .error error run => .error error (run.session, run.memory)

theorem takeTurn_of_within {source : Source} {state state' : Session × σ} {u : PUnit}
    (h : takeTurnWithin dispatch steps source state = .ok u state') :
    takeTurn dispatch source state = .ok u state' := by
  unfold takeTurnWithin at h
  dsimp only at h
  split at h
  · next feed run hdrain =>
    unfold takeTurn
    dsimp only
    rw [show (drain dispatch _).run _ = .ok feed run from drain_of_within hdrain]
    exact h
  · cases h

/-- The turns of a session, each in at most so many steps, with the texts of the sources. -/
def takeTurnsWithin (dispatch : Dispatch σ) (steps : Nat) : Nat → Course σ (List (Source × Bytes))
  | 0 => throw .unfinished
  | turns + 1 => do
    let (session, memory) ← get
    match session.waiting with
    | [] => if session.halted.isEmpty then pure [] else throw (.stalled session.halted.length)
    | source :: waiting =>
      set ({ session with waiting }, memory)
      takeTurnWithin dispatch steps source
      let more ← takeTurnsWithin dispatch steps turns
      pure ((source, session.textOf source) :: more)

theorem takeTurns_of_within {turns : Nat} {state state' : Session × σ}
    {taken : List (Source × Bytes)}
    (h : takeTurnsWithin dispatch steps turns state = .ok taken state') :
    takeTurns dispatch turns state = .ok ⟨⟩ state' ∧ turnsTaken dispatch turns state = taken := by
  induction turns generalizing state taken with
  | zero => exact nomatch h
  | succ turns ih =>
    obtain ⟨session, memory⟩ := state
    unfold takeTurnsWithin at h
    unfold takeTurns turnsTaken
    rw [get_bind] at h ⊢
    dsimp only at h ⊢
    cases hwaiting : session.waiting with
    | nil =>
      rw [hwaiting] at h
      dsimp only at h ⊢
      split at h
      · next hempty =>
        obtain ⟨rfl, rfl⟩ := pure_eq_ok.1 h
        rw [if_pos hempty]
        exact ⟨rfl, rfl⟩
      · exact absurd h throw_ne_ok
    | cons source waiting =>
      rw [hwaiting] at h
      dsimp only at h ⊢
      rw [set_bind] at h ⊢
      obtain ⟨u, mid, hturn, hrest⟩ := bind_eq_ok.1 h
      obtain ⟨more, last, hmore, hlast⟩ := bind_eq_ok.1 hrest
      obtain ⟨rfl, rfl⟩ := pure_eq_ok.1 hlast
      have hturn' := takeTurn_of_within hturn
      obtain ⟨hturns, htaken⟩ := ih hmore
      refine ⟨bind_eq_ok.2 ⟨u, mid, hturn', hturns⟩, ?_⟩
      rw [hturn']
      exact congrArg ((source, session.textOf source) :: ·) htaken

end Session

/-! ## Whole compiles -/

/-- Reads pages, each in at most so many steps. -/
def readPagesWithin (options : Options) (steps : Nat) :
    Nat → List (Source × Bytes) → Option (List Page)
  | _, [] => some []
  | slots, (source, text) :: turns => do
    let (body, last) ← (source.reader options slots).readWithin steps (Feed.ofText text)
    let more ← readPagesWithin options steps last.slots turns
    some (⟨body, last⟩ :: more)

theorem readPages_of_within {options : Options} {slots : Nat} {turns : List (Source × Bytes)}
    {pages : List Page} (h : readPagesWithin options steps slots turns = some pages) :
    readPages options slots turns = some pages := by
  induction turns generalizing slots pages with
  | nil => exact h
  | cons turn turns ih =>
    obtain ⟨source, text⟩ := turn
    obtain ⟨⟨body, last⟩, hread, hrest⟩ := Option.bind_eq_some_iff.1 h
    obtain ⟨more, hmore, heq⟩ := Option.bind_eq_some_iff.1 hrest
    have hpage : source.page options slots text = some ⟨body, last⟩ := by
      unfold Source.page
      rw [Reader.read_of_within hread]
      rfl
    exact Option.bind_eq_some_iff.2 ⟨_, hpage, Option.bind_eq_some_iff.2 ⟨more, ih hmore, heq⟩⟩

namespace Compiler

/-- What a compile gives that succeeds, every source taking at most so many steps: its report, its
pages and what it leaves. -/
def compileWithin (compiler : Compiler σ) (steps : Nat) (id template destination : String)
    (world : World σ) : Option (Report × List Page × World σ) :=
  match Session.start compiler.workspace id template destination world.disk with
  | .error .. => none
  | .ok session _ =>
    match Session.takeTurnsWithin (compiler.library.dispatch compiler.limits.depth) steps
      compiler.limits.turns (session, world.memory) with
    | .error .. => none
    | .ok taken (last, memory) => do
      let pages ← readPagesWithin compiler.workspace.options steps 0 taken
      some (last.report, pages, ⟨last.finish, memory⟩)

theorem compileTo_of_within {compiler : Compiler σ} {id template destination : String}
    {world world' : World σ} {report : Report} {pages : List Page}
    (h : compiler.compileWithin steps id template destination world =
      some (report, pages, world')) :
    compiler.compileTo id template destination world = .ok report world' ∧
      compiler.pages id template destination world = some pages := by
  unfold compileWithin at h
  unfold compileTo Compiler.pages turns
  dsimp only
  split at h
  · cases h
  · next session disk hstart =>
    rw [show (Session.start compiler.workspace id template destination).run world.disk =
      .ok session disk from hstart, hstart]
    split at h
    · cases h
    · next taken last memory hturns =>
      obtain ⟨hdone, htaken⟩ := Session.takeTurns_of_within hturns
      obtain ⟨read, hread, hsome⟩ := Option.bind_eq_some_iff.1 h
      obtain ⟨rfl, hpair⟩ := Prod.mk.inj (Option.some.inj hsome)
      obtain ⟨rfl, rfl⟩ := Prod.mk.inj hpair
      dsimp only
      rw [show (Session.takeTurns _ _).run _ = .ok ⟨⟩ (last, memory) from hdone, htaken]
      exact ⟨rfl, readPages_of_within hread⟩

/-- A compiler with the standard library, whose templates have the given texts. -/
def ofTexts (texts : List (String × String)) : Compiler Unit where
  workspace :=
    { options := .default
      shelf := .inMemory (texts.map fun (name, text) => (⟨"view/" ++ name⟩, Utf8.encode text))
      searchPath := [⟨"local", ⟨"view"⟩⟩]
      cache := ⟨⟨"cache"⟩⟩ }
  library := .standard

/-- A compile of given texts on an empty disk, whose outcome, found within a budget, has a
property. -/
theorem exists_compiles (texts : List (String × String))
    (property : Report → List Page → Disk → Bool)
    (h : ((ofTexts texts).compileWithin 200 "s" "a" "a" ⟨.empty, ⟨⟩⟩).any
      (fun outcome => property outcome.1 outcome.2.1 outcome.2.2.disk) = true) :
    ∃ report pages world', property report pages world'.disk = true ∧
      (ofTexts texts).pages "s" "a" "a" ⟨.empty, ⟨⟩⟩ = some pages ∧
      (ofTexts texts).Compiles "s" "a" "a" ⟨.empty, ⟨⟩⟩ report world'
        ((ofTexts texts).workspace.job "s" "a" report.artifact .empty) := by
  cases houtcome : (ofTexts texts).compileWithin 200 "s" "a" "a" ⟨.empty, ⟨⟩⟩ with
  | none =>
    rw [houtcome] at h
    cases h
  | some outcome =>
    rw [houtcome] at h
    obtain ⟨report, pages, world'⟩ := outcome
    obtain ⟨hok, hpages⟩ := compileTo_of_within houtcome
    exact ⟨report, pages, world', h, hpages, rfl, by decide, rfl, hok⟩

end Compiler

theorem Disk.contentAt?_empty (place : Place) : Disk.empty.contentAt? place = none := by
  unfold Disk.contentAt? Disk.get?
  by_cases h : place = []
  · rw [if_pos h]
  · rw [if_neg h]
    rfl

/-- Nothing is stored on an empty disk. -/
theorem Job.stored_empty {job : Job} (h : job.disk = .empty) : job.Stored fun _ => none := by
  intro name path _ _
  rw [h]
  exact Disk.contentAt?_empty _

theorem Disk.isTree_empty : Disk.empty.IsTree := by
  intro place content h
  rw [contentAt?_empty] at h
  cases h

end TemplateCompiler
