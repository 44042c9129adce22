import TemplateCompiler.Proofs.Inheritance.Lineage
import TemplateCompiler.Proofs.Moment.Moves
import TemplateCompiler.Proofs.Rendering.Artifact

/-!
# Descent

At every moment of a compile the sources that were read are the line of the one that is being read,
and at most one more is queued, which the source being read has extended. No path is twice in a line,
so that a compile reads no more sources than there are files to be read, and comes to an end.
-/
namespace TemplateCompiler

open Relation

variable {σ : Type}

/-! ## Lines of sources -/

/-- No two of the paths are the same. -/
def Path.Distinct (paths : List Path) : Prop :=
  paths.Pairwise fun p q => p.same q = false

/-- Some look-up of a template leads to the path. -/
def Workspace.Resolves (workspace : Workspace) (path : Path) : Prop :=
  ∃ disk requested skipped found,
    workspace.find disk requested skipped = .ok (some found) ∧ found.path = path

/-- The source waits in the session, under its number in the catalog. -/
structure Session.Queues (session : Session) (source : Source) : Prop where
  waiting : session.waiting = [source]
  isNew : source.IsNew
  entered : session.catalog[source.id]? = some source.toOrigin
  resolved : session.workspace.Resolves source.path

/-- Between two turns, the sources that were read are the line of the one that waits, if one does;
`read` holds of the paths that were read. -/
structure Session.InLine (workspace : Workspace) (read : Path → Prop) (session : Session) : Prop where
  workspace : session.workspace = workspace
  catalogued : Catalogued session.catalog
  halted : session.halted = []
  line : ∃ paths, paths.length = session.drained ∧ (∀ path ∈ paths, read path) ∧
    Path.Distinct paths ∧ (session.waiting = [] ∨
      ∃ source, session.Queues source ∧ Lineage session.catalog source.child paths)

/-- The sources that were read are the line of the one that is being read. Another one waits only if
this one has extended it. -/
structure Run.InLine (workspace : Workspace) (read : Path → Prop) (run : Run σ) : Prop where
  workspace : run.session.workspace = workspace
  catalogued : Catalogued run.session.catalog
  halted : run.session.halted = []
  running : run.source.paused = false
  entered : run.session.catalog[run.source.id]? = some run.source.toOrigin
  resolved : run.session.workspace.Resolves run.source.path
  line : ∃ paths, Lineage run.session.catalog run.source.child paths ∧
    paths.length = run.session.drained ∧ ∀ path ∈ paths, read path
  queue : run.session.waiting = [] ∨ run.source.extended ≠ none ∧
    ∃ source, run.session.Queues source ∧ source.child = some run.source.id

/-- The sources are in line at the moment. -/
def Moment.InLine (workspace : Workspace) (read : Path → Prop) : Moment σ → Prop
  | between session _ => session.InLine workspace read
  | draining run _ => run.InLine workspace read

/-- Sources and catalog are as they were. -/
structure Run.SameLine (run run' : Run σ) : Prop where
  workspace : run'.session.workspace = run.session.workspace
  catalog : run'.session.catalog = run.session.catalog
  waiting : run'.session.waiting = run.session.waiting
  halted : run'.session.halted = run.session.halted
  drained : run'.session.drained = run.session.drained
  origin : run'.source.toOrigin = run.source.toOrigin
  id : run'.source.id = run.source.id
  paused : run'.source.paused = run.source.paused
  extended : run'.source.extended = run.source.extended

theorem Session.register_getElem? {session : Session} {origin other : Origin} {id : SourceId}
    (h : session.catalog[id]? = some other) :
    (session.register origin).2.catalog[id]? = some other := by
  show (session.catalog ++ [origin])[id]? = some other
  rw [List.getElem?_append_left (List.getElem?_eq_some_iff.1 h).1]
  exact h

theorem Run.Move.drained_eq {run run' : Run σ} (h : run.Move run') :
    run'.session.drained = run.session.drained := by
  cases h with
  | close name =>
    unfold Session.removeDestination
    split <;> rfl
  | extend hfirst hfind hfresh added hadded =>
    subst hadded
    rfl
  | _ => rfl

namespace Run.InLine

variable {workspace : Workspace} {read : Path → Prop} {run run' : Run σ}

theorem same (h : run.InLine workspace read) (hsame : run.SameLine run') : run'.InLine workspace read := by
  have hpath : run'.source.path = run.source.path := congrArg Origin.path hsame.origin
  have hchild : run'.source.child = run.source.child := congrArg Origin.child hsame.origin
  refine ⟨hsame.workspace.trans h.workspace, ?_, ?_, ?_, ?_, ?_, ?_, ?_⟩
  · rw [hsame.catalog]
    exact h.catalogued
  · rw [hsame.halted]
    exact h.halted
  · rw [hsame.paused]
    exact h.running
  · rw [hsame.catalog, hsame.id, hsame.origin]
    exact h.entered
  · rw [hsame.workspace, hpath]
    exact h.resolved
  · rw [hsame.catalog, hsame.drained, hchild]
    exact h.line
  · rcases h.queue with hnone | ⟨hextended, source, hqueues, hlink⟩
    · exact .inl (hsame.waiting.trans hnone)
    · refine .inr ⟨hsame.extended ▸ hextended, source, ⟨?_, hqueues.isNew, ?_, ?_⟩, ?_⟩
      · exact hsame.waiting.trans hqueues.waiting
      · rw [hsame.catalog]
        exact hqueues.entered
      · rw [hsame.workspace]
        exact hqueues.resolved
      · rw [hsame.id]
        exact hlink

/-- What is copied is entered in the catalog and stands outside of all lines. -/
theorem register (h : run.InLine workspace read) {origin : Origin} (horigin : origin.child = none) :
    Run.InLine workspace read { run with session := (run.session.register origin).2 } where
  workspace := h.workspace
  catalogued := by
    refine h.catalogued.append origin fun child hchild => ?_
    rw [horigin] at hchild
    cases hchild
  halted := h.halted
  running := h.running
  entered := Session.register_getElem? h.entered
  resolved := h.resolved
  line := by
    obtain ⟨paths, hline, hrest⟩ := h.line
    exact ⟨paths, hline.append _, hrest⟩
  queue := by
    refine h.queue.imp_right fun ⟨hextended, source, hqueues, hlink⟩ => ⟨hextended, source, ?_, hlink⟩
    exact ⟨hqueues.waiting, hqueues.isNew, Session.register_getElem? hqueues.entered,
      hqueues.resolved⟩

theorem waiting_of_first (h : run.InLine workspace read) (hfirst : run.source.extended = none) :
    run.session.waiting = [] :=
  h.queue.resolve_right fun hqueue => hqueue.1 hfirst

/-- What is extended is queued as the next of the line. -/
theorem extend (h : run.InLine workspace read) {parent : String} {skipped : Option String} {found : Found}
    (hfirst : run.source.extended = none) (hfind : run.session.find parent skipped = .ok (some found))
    (hfresh : Standard.chainHas run.session.catalog found.path run.session.catalog.length
      (some run.source.id) = false) {added : Source × Session} (hadded : added = run.session.register
      ⟨parent, found.path, found.level, skipped, some run.source.id⟩) :
    Run.InLine workspace read { run with
      session := { added.2 with waiting := run.session.waiting ++ [added.1] }
      source := { run.source with extended := some parent } } := by
  subst hadded
  have hid := (List.getElem?_eq_some_iff.1 h.entered).1
  exact {
    workspace := h.workspace
    catalogued := by
      refine h.catalogued.append _ fun child hchild => ?_
      obtain rfl := Option.some.inj hchild
      exact ⟨hid, hfresh⟩
    halted := h.halted
    running := h.running
    entered := Session.register_getElem? h.entered
    resolved := h.resolved
    line := by
      obtain ⟨paths, hline, hrest⟩ := h.line
      exact ⟨paths, hline.append _, hrest⟩
    queue := by
      refine .inr ⟨nofun, (run.session.register
        ⟨parent, found.path, found.level, skipped, some run.source.id⟩).1, ⟨?_, rfl, ?_, ?_⟩, rfl⟩
      · show run.session.waiting ++ [_] = [_]
        rw [h.waiting_of_first hfirst]
        rfl
      · exact List.getElem?_concat_length
      · exact ⟨run.session.disk, parent, skipped, found, hfind, rfl⟩ }

/-- **A move** leaves the sources in line. -/
theorem move (h : run.InLine workspace read) (hmove : run.Move run') : run'.InLine workspace read := by
  cases hmove with
  | write | note | mark | flag | opening => exact h.same ⟨rfl, rfl, rfl, rfl, rfl, rfl, rfl, rfl, rfl⟩
  | close name =>
    have hsame : run.SameLine { run with session := (run.session.removeDestination name).2 } := by
      unfold Session.removeDestination
      split <;> exact ⟨rfl, rfl, rfl, rfl, rfl, rfl, rfl, rfl, rfl⟩
    exact h.same hsame
  | register origin horigin => exact h.register horigin
  | extend hfirst hfind hfresh added hadded => exact h.extend hfirst hfind hfresh hadded
  | extendAgain parent hfirst =>
    exact { h with queue := .inl (h.waiting_of_first hfirst) }

/-- The line that ends in the source being read. -/
theorem lineage (h : run.InLine workspace read) : ∃ paths,
    Lineage run.session.catalog (some run.source.id) (run.source.path :: paths) ∧
      Path.Distinct (run.source.path :: paths) ∧ paths.length = run.session.drained ∧
      ∀ path ∈ paths, read path := by
  obtain ⟨paths, hline, hlength, hread⟩ := h.line
  have hfull : Lineage run.session.catalog (some run.source.id) (run.source.path :: paths) :=
    .link h.entered hline
  obtain ⟨others, hothers, hdistinct⟩ :=
    h.catalogued.lines run.source.id (List.getElem?_eq_some_iff.1 h.entered).1
  obtain rfl := hfull.unique hothers
  exact ⟨paths, hfull, hdistinct, hlength, hread⟩

end Run.InLine

theorem Session.settle_drained {session : Session} {source : Source} {feed : Feed}
    (hend : feed.atEnd = true) : (session.settle source feed).drained = session.drained + 1 := by
  unfold Session.settle
  rw [if_pos hend]
  cases source.hierarchy.top? <;> rfl

namespace Run.InLine

variable {workspace : Workspace} {read : Path → Prop} {run : Run σ}

/-- A source that has been read to its end joins the line. -/
theorem settle (h : run.InLine workspace read) (hread : read run.source.path) {feed : Feed}
    (hend : feed.atEnd = true) : (run.session.settle run.source feed).InLine workspace read := by
  obtain ⟨paths, hline, hdistinct, hlength, hpaths⟩ := h.lineage
  have hpaths' : ∀ path ∈ run.source.path :: paths, read path := List.forall_mem_cons.2 ⟨hread, hpaths⟩
  have hlength' : (run.source.path :: paths).length = run.session.drained + 1 := congrArg (· + 1) hlength
  have hqueue : run.session.waiting = [] ∨ ∃ source, run.session.Queues source ∧
      Lineage run.session.catalog source.child (run.source.path :: paths) := by
    refine h.queue.imp_right fun ⟨_, source, hqueues, hlink⟩ => ⟨source, hqueues, ?_⟩
    rw [hlink]
    exact hline
  unfold Session.settle
  rw [if_pos hend]
  dsimp only
  split
  · refine ⟨h.workspace, h.catalogued, h.halted, _, hlength', hpaths', hdistinct, ?_⟩
    exact hqueue.imp_right fun ⟨source, hqueues, hrest⟩ =>
      ⟨source, ⟨hqueues.waiting, hqueues.isNew, hqueues.entered, hqueues.resolved⟩, hrest⟩
  · refine ⟨h.workspace, h.catalogued, h.halted, _, hlength', hpaths', hdistinct, ?_⟩
    exact hqueue.imp_right fun ⟨source, hqueues, hrest⟩ =>
      ⟨source, ⟨hqueues.waiting, hqueues.isNew, hqueues.entered, hqueues.resolved⟩, hrest⟩

end Run.InLine

section

variable {workspace : Workspace} {read : Path → Prop} {session : Session} {source : Source}
  {waiting : List Source}

/-- The source that waits is the only one, and what was read is its line. -/
theorem Session.InLine.queues (h : session.InLine workspace read)
    (hwaiting : session.waiting = source :: waiting) :
    session.Queues source ∧ ∃ paths, Lineage session.catalog source.child paths ∧
      paths.length = session.drained ∧ ∀ path ∈ paths, read path := by
  obtain ⟨paths, hlength, hread, -, hqueue⟩ := h.line
  obtain ⟨first, hqueues, hline⟩ := hqueue.resolve_left fun hnone => by
    rw [hnone] at hwaiting
    cases hwaiting
  obtain ⟨rfl, rfl⟩ := List.cons.inj (hwaiting.symm.trans hqueues.waiting)
  exact ⟨hqueues, paths, hline, hlength, hread⟩

/-- The source that waits begins its turn. -/
theorem Session.InLine.beginTurn (h : session.InLine workspace read)
    (hwaiting : session.waiting = source :: waiting) (memory : σ) :
    (session.beginTurn source waiting memory).InLine workspace read := by
  obtain ⟨hqueues, hline⟩ := h.queues hwaiting
  obtain ⟨-, rfl⟩ := List.cons.inj (hwaiting.symm.trans hqueues.waiting)
  have hnew := hqueues.isNew
  exact {
    workspace := h.workspace
    catalogued := h.catalogued
    halted := h.halted
    running := by
      show source.paused = false
      rw [hnew]
    entered := hqueues.entered
    resolved := hqueues.resolved
    line := hline
    queue := .inl rfl }

end

/-- A session begins with its template as the first of the line. -/
theorem Session.start_inLine {workspace : Workspace} {id template destination : String}
    {disk disk' : Disk} {session : Session} (read : Path → Prop)
    (hok : Session.start workspace id template destination disk = .ok session disk') :
    session.InLine workspace read := by
  obtain ⟨path, main, found, -, -, hfind, rfl⟩ := Session.start_cases hok
  refine ⟨rfl, Catalogued.nil.append _ nofun, rfl, [], rfl, nofun, List.Pairwise.nil,
    .inr ⟨_, ⟨rfl, ?_, rfl, ?_⟩, .ended⟩⟩
  · rfl
  · exact ⟨_, _, none, found, hfind, rfl⟩

/-! ## Moments -/

namespace Moment

variable {dispatch : Dispatch σ} {limited : Prop} {workspace : Workspace} {read : Path → Prop}

theorem InLine.catalogued {m : Moment σ} (h : m.InLine workspace read) : Catalogued m.session.catalog := by
  cases m with
  | between session memory => exact Session.InLine.catalogued h
  | draining run feed => exact Run.InLine.catalogued h

/-- A piece of a feed leaves the sources in line. -/
theorem Piece.inLine (hdispatch : dispatch.Moves limited) {run run' : Run σ} {feed after : Feed}
    (hpiece : Piece dispatch run feed run' after) (h : run.InLine workspace read) : run'.InLine workspace read := by
  cases hpiece with
  | newLine | checked | text => exact h.same ⟨rfl, rfl, rfl, rfl, rfl, rfl, rfl, rfl, rfl⟩
  | @directive before d _ u _ hstep hmeet =>
    have hcomes := moves_meet hdispatch before d after.atEnd run
    rw [hmeet] at hcomes
    cases hcomes with
    | ok hmoves => exact hmoves.of (fun run => run.InLine workspace read) (fun _ _ hmove h => h.move hmove) h

theorem Piece.drained_eq (hdispatch : dispatch.Moves limited) {run run' : Run σ} {feed after : Feed}
    (hpiece : Piece dispatch run feed run' after) :
    run'.session.drained = run.session.drained := by
  cases hpiece with
  | newLine | checked | text => rfl
  | @directive before d _ u _ hstep hmeet =>
    have hcomes := moves_meet hdispatch before d after.atEnd run
    rw [hmeet] at hcomes
    cases hcomes with
    | ok hmoves =>
      exact hmoves.of (fun last => last.session.drained = run.session.drained)
        (fun _ _ hmove h => hmove.drained_eq.trans h) rfl

/-- **One step** leaves the sources in line, and a source that is put away has been read. -/
theorem Leads.inLine (hdispatch : dispatch.Moves limited) {m m' : Moment σ}
    (hleads : Leads dispatch m m') (h : m.InLine workspace read)
    (hread : ∀ run feed, m = draining run feed → read run.source.path) : m'.InLine workspace read := by
  cases m with
  | between session memory =>
    obtain ⟨source, waiting, hwaiting, rfl⟩ := leads_between hleads
    exact Session.InLine.beginTurn h hwaiting memory
  | draining run feed =>
    have hrun : run.InLine workspace read := h
    rcases leads_draining hleads with ⟨rfl, hended⟩ | ⟨run', after, -, hpiece, rfl⟩
    · refine hrun.settle (hread run feed rfl) (atEnd_of_step (hended.resolve_left ?_))
      rw [hrun.running]
      exact Bool.false_ne_true
    · exact hpiece.inLine hdispatch hrun

/-- **Every moment** that is reached has its sources in line. -/
theorem Reached.inLine (hdispatch : dispatch.Moves limited) {start m : Moment σ}
    (hreached : Reached dispatch start m) (h : start.InLine workspace read)
    (hread : ∀ run feed, Reached dispatch start (draining run feed) → read run.source.path) :
    m.InLine workspace read := by
  induction hreached with
  | refl => exact h
  | tail hbefore hleads ih =>
    refine hleads.inLine hdispatch ih fun run feed heq => ?_
    subst heq
    exact hread run feed hbefore

/-- How many sources have begun their turns. -/
def begun : Moment σ → Nat
  | between session _ => session.drained
  | draining run _ => run.session.drained + 1

/-- Every turn that begins counts one source more. -/
theorem InTurns.begun_le (hdispatch : dispatch.Moves limited) {turns : Nat} {m m' : Moment σ}
    (hturns : InTurns dispatch turns m m') (h : m.InLine workspace fun _ => True) :
    m.begun + turns ≤ m'.begun := by
  induction hturns with
  | refl m => exact le_rfl
  | @turn turns session memory m m' hleads _ ih =>
    have hnext := ih (hleads.inLine hdispatch h fun _ _ _ => trivial)
    obtain ⟨source, waiting, hwaiting, rfl⟩ := leads_between hleads
    have hbegun : (draining (session.beginTurn source waiting memory)
      (Feed.ofText (session.textOf source))).begun = session.drained + 1 := rfl
    rw [hbegun] at hnext
    show session.drained + (turns + 1) ≤ _
    omega
  | @piece turns run feed m m' hleads _ ih =>
    have hnext := ih (hleads.inLine hdispatch h fun _ _ _ => trivial)
    refine le_trans (Nat.add_le_add_right ?_ turns) hnext
    have hrun : run.InLine workspace fun _ => True := h
    rcases leads_draining hleads with ⟨rfl, hended⟩ | ⟨run', after, -, hpiece, rfl⟩
    · have hend := atEnd_of_step (hended.resolve_left (by
        rw [hrun.running]
        exact Bool.false_ne_true))
      exact Nat.le_of_eq (Session.settle_drained hend).symm
    · exact Nat.succ_le_succ (Nat.le_of_eq (hpiece.drained_eq hdispatch).symm)

end Moment

end TemplateCompiler
