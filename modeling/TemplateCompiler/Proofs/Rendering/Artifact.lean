import TemplateCompiler.Proofs.Rendering.Draining
import TemplateCompiler.Proofs.Transcript.Budget

/-!
# Rendered artifacts

With a library whose handlers only write, a compile renders its template: the artifact holds the
lines of the template, each directive replaced by what it wrote when it was dispatched
(`Compiler.rendering`).
-/
namespace TemplateCompiler

open Markup

variable {σ : Type}

/-! ## Splicing -/

/-- What a line has in the place of a directive. -/
def Markup.Directive.text (line : Bytes) (d : Directive) : Bytes :=
  (line.take d.stop).drop d.start

theorem splice_text {line : Bytes} {offset : Nat} {ds : List Directive}
    (hordered : ds.Pairwise fun d e => d.stop ≤ e.start) (hoffset : ∀ d ∈ ds, offset ≤ d.start) :
    splice line offset ds (ds.map (·.text line)) = line.drop offset := by
  induction ds generalizing offset with
  | nil => rfl
  | cons d ds ih =>
    obtain ⟨hstop, hrest⟩ := List.pairwise_cons.1 hordered
    have hle := hoffset d List.mem_cons_self
    have hlt := d.start_lt_stop
    rw [List.map_cons, splice, ih hrest hstop, Directive.text]
    have hcut {first last : Nat} (h : first ≤ last) :
        (line.take last).drop first ++ line.drop last = line.drop first := by
      have hlast : line.drop last = (line.drop first).drop (last - first) := by
        rw [List.drop_drop, Nat.add_sub_cancel' h]
      rw [hlast, List.drop_take, List.take_append_drop]
    rw [List.append_assoc, hcut hlt.le, hcut hle]

/-- **Nothing else is touched**: a line in which every directive is replaced by its own text is the
line itself. -/
theorem splice_all (line : Bytes) :
    splice line 0 (Directive.all line) ((Directive.all line).map (·.text line)) = line :=
  splice_text (Directive.all_stand line).1 fun _ _ => Nat.zero_le _

/-! ## The beginning -/

/-- The run in which the source of a session that begins is drained. -/
def Session.opening (session : Session) (source : Source) (memory : σ) : Run σ :=
  ⟨{ session with waiting := [] }.setMainPaused false, source, memory⟩

/-- The session is about to begin with its one source, and its artifact is empty. -/
structure Session.Begins (job : Job) (session : Session) (source : Source) (memory : σ) : Prop where
  finishes : job.Finishes
  artifact : session.main.path = job.artifact
  workspace : session.workspace = job.workspace
  id : session.id = job.id
  waiting : session.waiting = [source]
  halted : session.halted = []
  leftovers : session.leftovers = []
  hierarchy : source.hierarchy = {}
  opening : (session.opening source memory).GoesOn source (session.opening source memory).session 0
    []

theorem Session.start_begins {workspace : Workspace} {id template destination : String}
    {disk disk' : Disk} {session : Session}
    (hok : Session.start workspace id template destination disk = .ok session disk') (memory : σ) :
    ∃ source, session.Begins (workspace.job id template session.main.path disk) source memory := by
  obtain ⟨path, main, found, hpath, hopen, -, rfl⟩ := Session.start_cases hok
  obtain ⟨-, rfl, -, -, -, hshows, -⟩ := Destination.open?_eq_ok hopen
  rw [Bool.and_false] at hshows
  exact ⟨_, {
    finishes := ⟨destination, hpath⟩
    artifact := rfl
    workspace := rfl
    id := rfl
    waiting := rfl
    halted := rfl
    leftovers := rfl
    hierarchy := rfl
    opening := {
      active := ⟨_, _, _, rfl⟩
      reading := rfl
      running := rfl
      session := ⟨rfl, rfl, rfl, hshows.setPaused false⟩ } }⟩

namespace Session.Begins

variable {job : Job} {session session' : Session} {source : Source} {memory : σ}
  {dispatch : Dispatch σ} {content : Bytes}

/-! ## The end -/

theorem closeAll_read? (hholds : (session.opening source memory).session.Holds session' content) :
    session'.closeAll.read? session.main.path = some content := by
  have hothers : session'.others = [] := by
    rw [hholds.rest]
    exact hholds.alone
  have hpath : session'.main.path = session.main.path := hholds.path
  unfold closeAll
  rw [hothers, ← hpath]
  exact hholds.main.close rfl

/-- What a session that went on leaves when it succeeds is what its artifact holds. -/
theorem finish (h : session.Begins job source memory) (hid : '/' ∉ job.id.toList)
    (hholds : (session.opening source memory).session.Holds session' content) :
    session'.finish.read? session'.report.artifact = some content := by
  have hartifact : session'.report.artifact = job.artifact := hholds.path.trans h.artifact
  have hclosed : session'.closeAll.read? job.artifact = some content := by
    rw [← h.artifact]
    exact closeAll_read? hholds
  have hothers : session'.others = [] := by
    rw [hholds.rest]
    exact hholds.alone
  have hleft : session'.leftovers = [] := by
    rw [hholds.rest]
    exact h.leftovers
  have hworkspace : session'.workspace = job.workspace := by
    rw [hholds.rest]
    exact h.workspace
  have hsame : session'.id = job.id := by
    rw [hholds.rest]
    exact h.id
  unfold Session.finish allLeftovers
  rw [hleft, hothers, hworkspace, hsame, hartifact]
  dsimp only [List.filterMap_nil, List.append_nil, List.foldl_nil]
  split
  · exact Disk.read?_removeTree (Job.artifact_stacked h.finishes)
      (Job.blockDir_not_prefix h.finishes hid) hclosed
  · exact hclosed

/-! ## Turns -/

/-- The one source takes its turn first. -/
theorem takeTurns_succ (h : session.Begins job source memory) (turns : Nat) :
    takeTurns dispatch (turns + 1) (session, memory) =
      match drain dispatch (Feed.ofText (session.textOf source)) (session.opening source memory) with
      | .ok feed run =>
        takeTurns dispatch turns (run.session.settle run.source feed, run.memory)
      | .error error run => .error error (run.session, run.memory) := by
  rw [takeTurns, get_bind]
  dsimp only
  rw [h.waiting]
  dsimp only
  rw [set_bind]
  have hturn : takeTurn dispatch source ({ session with waiting := [] }, memory) =
      match drain dispatch (Feed.ofText (session.textOf source)) (session.opening source memory) with
      | .ok feed run => .ok ⟨⟩ (run.session.settle run.source feed, run.memory)
      | .error error run => .error error (run.session, run.memory) := rfl
  show EStateM.bind _ _ _ = _
  unfold EStateM.bind
  rw [hturn]
  cases drain dispatch (Feed.ofText (session.textOf source)) (session.opening source memory) <;> rfl

/-- Once its one source has been read to its end, a session is done. -/
theorem takeTurns_done (h : session.Begins job source memory) {run : Run σ} {line : Nat}
    (hrun : run.GoesOn source (session.opening source memory).session line content) (turns : Nat) :
    takeTurns dispatch (turns + 1) (run.session.settle run.source ⟨[], false, []⟩, run.memory) =
      .ok ⟨⟩ ({ run.session with drained := run.session.drained + 1 }, run.memory) := by
  obtain ⟨tag, tagsSeen, atEnd, hsource⟩ := hrun.active
  have htop : run.source.hierarchy.top? = none := by
    rw [hsource]
    show source.hierarchy.top? = none
    rw [h.hierarchy]
    rfl
  have hsettle : run.session.settle run.source ⟨[], false, []⟩ =
      { run.session with drained := run.session.drained + 1 } := by
    unfold settle
    rw [htop]
    rfl
  have hwaiting : run.session.waiting = [] := by
    rw [hrun.session.rest]
    rfl
  have hhalted : run.session.halted = [] := by
    rw [hrun.session.rest]
    exact h.halted
  rw [hsettle, takeTurns, get_bind]
  dsimp only
  rw [hwaiting]
  dsimp only
  rw [hhalted]
  rfl

end Session.Begins

/-! ## Whole compiles -/

theorem Compiler.compileTo_eq {compiler : Compiler σ} {id template destination : String}
    {world : World σ} {session : Session} {disk : Disk}
    (hstart : Session.start compiler.workspace id template destination world.disk =
      .ok session disk) :
    compiler.compileTo id template destination world =
      match Session.takeTurns (compiler.library.dispatch compiler.limits.depth)
        compiler.limits.turns (session, world.memory) with
      | .error error (session, memory) => .error error ⟨session.abandon, memory⟩
      | .ok _ (session, memory) => .ok session.report ⟨session.finish, memory⟩ := by
  unfold compileTo
  dsimp only
  rw [show (Session.start compiler.workspace id template destination).run world.disk =
    .ok session disk from hstart]
  rfl

theorem Compiler.compileTo_eq_error {compiler : Compiler σ} {id template destination : String}
    {world : World σ} {error : CompileError} {disk : Disk}
    (hstart : Session.start compiler.workspace id template destination world.disk =
      .error error disk) :
    compiler.compileTo id template destination world = .error error ⟨disk, world.memory⟩ := by
  unfold compileTo
  dsimp only
  rw [show (Session.start compiler.workspace id template destination).run world.disk =
    .error error disk from hstart]

namespace Compiler

section

variable {compiler : Compiler σ} {id template destination : String} {world world' : World σ}
  {session : Session} {disk : Disk} {source : Source} {job : Job} {report : Report} {out : Bytes}
  {run' : Run σ} (hlibrary : compiler.library.OnlyWrites)
  (hstart : Session.start compiler.workspace id template destination world.disk = .ok session disk)
  (hbegins : session.Begins job source world.memory)
include hlibrary hstart hbegins

/-- A compile that succeeds has rendered its template. -/
theorem renders_of_compileTo (hid : '/' ∉ job.id.toList)
    (hok : compiler.compileTo id template destination world = .ok report world') :
    ∃ out run', Renders (compiler.library.dispatch compiler.limits.depth) []
        (Bytes.lines (session.textOf source)) (session.opening source world.memory) out run' ∧
      world'.disk.read? report.artifact = some out := by
  rw [compileTo_eq hstart] at hok
  cases hturns : compiler.limits.turns with
  | zero =>
    rw [hturns] at hok
    cases hok
  | succ turns =>
    rw [hturns, hbegins.takeTurns_succ] at hok
    cases hdrain : drain (compiler.library.dispatch compiler.limits.depth)
        (Feed.ofText (session.textOf source)) (session.opening source world.memory) with
    | error error run =>
      rw [hdrain] at hok
      cases hok
    | ok feed run =>
      have hdispatch := hlibrary.dispatch compiler.limits.depth
      obtain ⟨rfl, out, hrenders⟩ := renders_of_drain hdispatch
        (fun _ => Bytes.ne_nil_of_mem_lines) hbegins.opening hdrain
      have hdone := hbegins.opening.renders hdispatch hrenders
      rw [hdrain] at hok
      -- the second turn finds nothing to do
      cases turns with
      | zero => cases hok
      | succ turns =>
        dsimp only at hok
        rw [hbegins.takeTurns_done hdone] at hok
        obtain ⟨rfl, rfl⟩ := EStateM.Result.ok.inj hok
        exact ⟨out, run, hrenders, hbegins.finish hid hdone.session.drain⟩

/-- A template that can be rendered is compiled to what it is rendered to. -/
theorem compileTo_of_renders (hid : '/' ∉ job.id.toList) (hturns : 1 < compiler.limits.turns)
    (hrenders : Renders (compiler.library.dispatch compiler.limits.depth) []
      (Bytes.lines (session.textOf source)) (session.opening source world.memory) out run') :
    ∃ report world', compiler.compileTo id template destination world = .ok report world' ∧
      world'.disk.read? report.artifact = some out := by
  have hdispatch := hlibrary.dispatch compiler.limits.depth
  have hdone := hbegins.opening.renders hdispatch hrenders
  have hdrain : drain (compiler.library.dispatch compiler.limits.depth)
      (Feed.ofText (session.textOf source)) (session.opening source world.memory) =
      .ok ⟨[], false, []⟩ run' := by
    have hlast := drain_of_renders hdispatch (fun _ => Bytes.ne_nil_of_mem_lines) hbegins.opening
      hrenders
    rw [List.append_nil] at hlast
    exact hlast.trans (drain_step hdone _)
  obtain ⟨turns, hsucc⟩ : ∃ turns, compiler.limits.turns = turns + 1 + 1 :=
    ⟨compiler.limits.turns - 2, by omega⟩
  rw [compileTo_eq hstart, hsucc, hbegins.takeTurns_succ, hdrain]
  dsimp only
  rw [hbegins.takeTurns_done hdone]
  exact ⟨_, _, rfl, hbegins.finish hid hdone.session.drain⟩

/-- At the first line with an executable marker a compile fails, with what came before rendered. -/
theorem compileTo_of_refused {before : List Bytes} {line : Bytes} {after : List Bytes}
    (hturns : 0 < compiler.limits.turns)
    (hsplit : Bytes.lines (session.textOf source) = before ++ line :: after)
    (hrefused : RawCode.accepted? line = none)
    (hrenders : Renders (compiler.library.dispatch compiler.limits.depth) (line :: after) before
      (session.opening source world.memory) out run') :
    ∃ world', compiler.compileTo id template destination world =
        .error (.forbiddenMarker ⟨source.path, before.length + 1⟩) world' ∧
      world'.disk.read? session.main.path = some out := by
  have hdispatch := hlibrary.dispatch compiler.limits.depth
  have hlines : ∀ text ∈ before ++ line :: after, text ≠ [] := fun _ hmem =>
    Bytes.ne_nil_of_mem_lines (hsplit ▸ hmem)
  have hbefore : ∀ text ∈ before, text ≠ [] := fun text hmem =>
    hlines text (List.mem_append_left _ hmem)
  have hline : line ≠ [] := hlines line (List.mem_append_right _ List.mem_cons_self)
  have hdone := hbegins.opening.renders hdispatch hrenders
  have hdrain : drain (compiler.library.dispatch compiler.limits.depth)
      (Feed.ofText (session.textOf source)) (session.opening source world.memory) =
      .error (.forbiddenMarker ⟨source.path, before.length + 1⟩) run'.nextLine := by
    have hnext := drain_of_renders hdispatch hbefore hbegins.opening hrenders
    rw [← hsplit] at hnext
    have hfailed : drain (compiler.library.dispatch compiler.limits.depth) ⟨line, true, after⟩
        run'.nextLine = _ := drain_unchecked hdone.nextLine hline after
    rw [hrefused, Nat.zero_add] at hfailed
    exact hnext.trans ((drain_step hdone _).trans hfailed)
  obtain ⟨turns, hsucc⟩ : ∃ turns, compiler.limits.turns = turns + 1 :=
    ⟨compiler.limits.turns - 1, by omega⟩
  rw [compileTo_eq hstart, hsucc, hbegins.takeTurns_succ, hdrain]
  exact ⟨_, rfl, Session.Begins.closeAll_read? hdone.session⟩

end

end Compiler

/-- **Rendering**: with a library whose handlers only write, a compile that succeeds leaves its
template rendered, and one whose lines can all be rendered succeeds. At the first line with an
executable marker it fails, with the lines before that one rendered. Lines are cut after each line
break and nothing of them is lost, the directives of a line stand one after another in it, and what
is left of a line after some of them gives the others. -/
theorem Compiler.rendering {compiler : Compiler σ} {id template destination : String}
    {world : World σ} {session : Session} {disk : Disk} (hlibrary : compiler.library.OnlyWrites)
    (hid : '/' ∉ id.toList)
    (hstart : Session.start compiler.workspace id template destination world.disk =
      .ok session disk) :
    ∃ source, session.waiting = [source] ∧
      (∀ report world', compiler.compileTo id template destination world = .ok report world' →
        ∃ out run', Renders (compiler.library.dispatch compiler.limits.depth) []
            (Bytes.lines (session.textOf source)) (session.opening source world.memory) out run' ∧
          world'.disk.read? report.artifact = some out) ∧
      (1 < compiler.limits.turns → ∀ out run',
        Renders (compiler.library.dispatch compiler.limits.depth) []
          (Bytes.lines (session.textOf source)) (session.opening source world.memory) out run' →
        ∃ report world', compiler.compileTo id template destination world = .ok report world' ∧
          world'.disk.read? report.artifact = some out) ∧
      (0 < compiler.limits.turns → ∀ before line after out run',
        Bytes.lines (session.textOf source) = before ++ line :: after →
        RawCode.accepted? line = none →
        Renders (compiler.library.dispatch compiler.limits.depth) (line :: after) before
          (session.opening source world.memory) out run' →
        ∃ world', compiler.compileTo id template destination world =
            .error (.forbiddenMarker ⟨source.path, before.length + 1⟩) world' ∧
          world'.disk.read? session.main.path = some out) ∧
      (Bytes.lines (session.textOf source)).flatten = session.textOf source ∧
      ∀ line, Directive.rescan line = Directive.all line ∧
        splice line 0 (Directive.all line) ((Directive.all line).map (·.text line)) = line ∧
        (Directive.all line).Pairwise (fun d e => d.stop ≤ e.start) ∧
        ∀ d ∈ Directive.all line, d.stop ≤ line.length ∧
          (d.closer = .lineEnd → Directive.atLineEnd (line.drop d.stop) = true) := by
  obtain ⟨source, hbegins⟩ := Session.start_begins hstart world.memory
  refine ⟨source, hbegins.waiting, fun report world' hok =>
    renders_of_compileTo hlibrary hstart hbegins hid hok, fun hturns out run' hrenders =>
    compileTo_of_renders hlibrary hstart hbegins hid hturns hrenders,
    fun hturns before line after out run' hsplit hrefused hrenders =>
      compileTo_of_refused hlibrary hstart hbegins hturns hsplit hrefused hrenders,
    Bytes.flatten_lines _, fun line =>
    ⟨Directive.rescan_eq_all line, splice_all line, Directive.all_stand line⟩⟩

/-- Whether the artifact of a compile on an empty disk, found within a budget of steps, has the given
content. -/
def Compiler.leavesWithin (compiler : Compiler Unit) (steps : Nat) (content : Bytes) : Bool :=
  match Session.start compiler.workspace "s" "a" "a" .empty with
  | .error .. => false
  | .ok session _ =>
    match Session.takeTurnsWithin (compiler.library.dispatch compiler.limits.depth) steps
      compiler.limits.turns (session, ⟨⟩) with
    | .error .. => false
    | .ok _ (last, _) => decide (last.finish.read? last.report.artifact = some content)

theorem Compiler.exists_of_leavesWithin {compiler : Compiler Unit} {steps : Nat} {content : Bytes}
    (h : compiler.leavesWithin steps content = true) :
    ∃ (session : Session) (disk : Disk) (report : Report) (world' : World Unit),
      Session.start compiler.workspace "s" "a" "a" (⟨.empty, ⟨⟩⟩ : World Unit).disk =
        .ok session disk ∧
      compiler.compileTo "s" "a" "a" ⟨.empty, ⟨⟩⟩ = .ok report world' ∧
      world'.disk.read? report.artifact = some content := by
  unfold leavesWithin at h
  split at h
  · cases h
  · next session disk hstart =>
    split at h
    · cases h
    · next taken last memory hturns =>
      have hbegun : Session.start compiler.workspace "s" "a" "a"
          (⟨.empty, ⟨⟩⟩ : World Unit).disk = .ok session disk := hstart
      refine ⟨session, disk, last.report, ⟨last.finish, memory⟩, hbegun, ?_, of_decide_eq_true h⟩
      rw [compileTo_eq hbegun, (Session.takeTurns_of_within hturns).1]

/-- A compiler whose only tag draws a rule, with a template that greets somebody. -/
def Compiler.greeting : Compiler Unit :=
  { Compiler.ofTexts [("a", "Hello\n\x7b\x7b name \x7d\x7d!\x7b% rule %\x7d")] with
    library := { tags := [("rule", fun _ _ => Action.write "<hr>")] } }

theorem Compiler.greeting_onlyWrites : Compiler.greeting.library.OnlyWrites := by
  refine ⟨fun entry hentry dispatch _ tag => ?_, nofun⟩
  obtain rfl := List.mem_singleton.1 hentry
  exact Action.onlyWrites_write "<hr>"

/-- What the greeting is rendered to. -/
def Compiler.greetingRendered : Bytes :=
  Utf8.encode ("Hello\n<?php echo $this->escape($this->vars->name, " ++
    "'Found in \x7b\x7bname\x7d\x7d for a / 2.'); ?>!<hr>")

/-- The greeting is rendered, with the value of the name and the rule in their places. -/
theorem Compiler.rendering_greeting :
    ∃ (session : Session) (source : Source) (run' : Run Unit),
      session.waiting = [source] ∧
      Renders (Compiler.greeting.library.dispatch 1000) []
        (Bytes.lines (session.textOf source)) (session.opening source ⟨⟩)
        Compiler.greetingRendered run' := by
  have hleaves : greeting.leavesWithin 200 greetingRendered = true := by decide +kernel
  obtain ⟨session, disk, report, world', hstart, hok, hartifact⟩ := exists_of_leavesWithin hleaves
  obtain ⟨source, hwaiting, hrendered, -⟩ :=
    Compiler.rendering greeting_onlyWrites (by decide) hstart
  obtain ⟨out, run', hrenders, hout⟩ := hrendered _ _ hok
  obtain rfl := Option.some.inj (hout.symm.trans hartifact)
  exact ⟨session, source, run', hwaiting, hrenders⟩

end TemplateCompiler
