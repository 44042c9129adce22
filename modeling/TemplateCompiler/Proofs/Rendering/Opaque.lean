import TemplateCompiler.Proofs.Rendering.Verbatim
import TemplateCompiler.Proofs.Session.Operations

/-!
# Opaque text

A template that is a text between `literal` and its closing tag compiles to the text, and one that is a
text between `comment` and its closing tag to nothing, just if the first line of the text gets through
the check for raw code (`Compiler.verbatim_iff`).
-/
namespace TemplateCompiler

open Markup

variable {σ : Type}

/-- Pausing everything and putting the flags back changes nothing. -/
theorem Session.restore_pauseAll {session : Session} (h : session.others = []) :
    session.pauseAll.2.restore session.pauseAll.1 = session := by
  obtain ⟨_, _, _, _, _, others⟩ := session
  obtain rfl : others = [] := h
  rfl

theorem Session.Holds.foldl_write {start session : Session} {content : Bytes}
    (h : start.Holds session content) (pieces : List Bytes) :
    start.Holds (pieces.foldl Session.write session) (content ++ pieces.flatten) := by
  induction pieces generalizing session content with
  | nil => rwa [List.flatten_nil, List.append_nil]
  | cons piece pieces ih =>
    rw [List.flatten_cons, ← List.append_assoc]
    exact ih (h.write piece)

namespace Verbatim

open Moment

variable {kind : Verbatim} {run run' : Run σ} {text : Bytes} {breaks : Nat} {atEnd : Bool}

/-- What follows a text that is not read is read as if the text were not there, lines on: with the same
source but for its line, in the same session but for what has been written. -/
structure Resumes (kind : Verbatim) (dispatch : Dispatch σ) (turns : Nat) (run : Run σ)
    (text rest : Bytes) : Prop where
  refused : RawCode.accepted? (Bytes.firstLine rest) = none → ∃ state state',
    outcome dispatch turns (draining run (Feed.ofText (kind.around text rest))) =
        .error (.forbiddenMarker ⟨run.source.path, run.source.line + 1 + Bytes.breaks text⟩) state ∧
      outcome dispatch turns (draining run (Feed.ofText (kind.around [] rest))) =
        .error (.forbiddenMarker ⟨run.source.path, run.source.line + 1⟩) state'
  goesOn : ∀ after, RawCode.accepted? (Bytes.firstLine rest) = some after →
    ∃ written behind behind',
      (RawCode.check (Bytes.firstLine text) = .clean → written = text) ∧
      kind.Leaves run written (Bytes.breaks text) rest.isEmpty behind ∧
      kind.Leaves run [] 0 rest.isEmpty behind' ∧
      outcome dispatch turns (draining run (Feed.ofText (kind.around text rest))) =
        outcome dispatch turns (draining behind ⟨after, false, (Bytes.lines rest).tail⟩) ∧
      outcome dispatch turns (draining run (Feed.ofText (kind.around [] rest))) =
        outcome dispatch turns (draining behind' ⟨after, false, (Bytes.lines rest).tail⟩)

theorem resumes (kind : Verbatim) (depth turns : Nat) (hrunning : run.source.paused = false)
    (hreading : run.source.reading = .directives)
    (hnone : Directive.findMarker? kind.closer text = none)
    (hfirst : ∀ offset, RawCode.check (Bytes.firstLine text) ≠ .executable offset) (rest : Bytes) :
    kind.Resumes ((Library.standard : Library σ).dispatch (depth + 1)) turns run text rest := by
  obtain ⟨first, haccepted⟩ := Option.ne_none_iff_exists'.1 (RawCode.check_ne_executable.1 hfirst)
  obtain ⟨hrefused, hgoesOn⟩ := kind.outcome_around turns depth hrunning hreading hnone
    haccepted rest
  have hempty : Directive.findMarker? kind.closer [] = none := rfl
  obtain ⟨hrefused', hgoesOn'⟩ := kind.outcome_around turns depth hrunning hreading hempty
    RawCode.accepted?_nil rest
  constructor
  · intro hrest
    obtain ⟨state, hfails⟩ := hrefused hrest
    obtain ⟨state', hfails'⟩ := hrefused' hrest
    exact ⟨state, state', hfails, hfails'⟩
  · intro after hafter
    obtain ⟨behind, hleaves, houtcome⟩ := hgoesOn after hafter
    obtain ⟨behind', hleaves', houtcome'⟩ := hgoesOn' after hafter
    refine ⟨_, behind, behind', fun hclean => ?_, hleaves, hleaves', houtcome, houtcome'⟩
    rw [RawCode.check_eq_clean, haccepted] at hclean
    rw [Option.some.inj hclean, Bytes.firstLine_append_drop]

/-! ## Artifacts -/

/-- Behind the closing tag the artifact has what is shown of the text. -/
theorem Leaves.goesOn {source : Source} {start : Session} {line : Nat} {content : Bytes}
    (hleaves : kind.Leaves run text breaks atEnd run') (h : run.GoesOn source start line content) :
    run'.GoesOn source start (line + 1 + breaks) (content ++ kind.shown text) := by
  obtain ⟨tag, tagsSeen, ended, hsource⟩ := h.active
  refine ⟨⟨some kind.closer, tagsSeen + 2, atEnd, ?_⟩, h.reading, h.running, ?_⟩
  · rw [hleaves.source, hsource]
  · have hsession := hleaves.session
    cases kind with
    | literal =>
      obtain ⟨pieces, hpieces, hwritten⟩ := hsession
      rw [hwritten]
      show Session.Holds _ _ (content ++ text)
      rw [← hpieces]
      exact h.session.foldl_write pieces
    | comment =>
      have hbegun := h.session.write []
      have hothers : (run.session.write []).others = [] := by
        rw [hbegun.rest]
        exact hbegun.alone
      rw [hsession, Session.restore_pauseAll hothers]
      exact hbegun

theorem Leaves.warnings (h : kind.Leaves run text breaks atEnd run') :
    run'.session.warnings = run.session.warnings := by
  have hsession := h.session
  cases kind with
  | literal =>
    obtain ⟨pieces, -, hwritten⟩ := hsession
    rw [hwritten]
    clear hwritten
    generalize run.session = session
    induction pieces generalizing session with
    | nil => rfl
    | cons piece pieces ih => exact ih (session.write piece)
  | comment =>
    rw [hsession]
    rfl

end Verbatim

/-! ## Compiles -/

/-- A session begins without warnings. -/
theorem Session.warnings_of_start {workspace : Workspace} {id template destination : String}
    {disk disk' : Disk} {session : Session}
    (hok : Session.start workspace id template destination disk = .ok session disk') :
    session.warnings = [] := by
  obtain ⟨path, main, found, -, -, -, rfl⟩ := Session.start_cases hok
  rfl

/-- What is shown of a text is the text just if its first line is kept. -/
theorem Verbatim.shown_iff {kind : Verbatim} {text first : Bytes}
    (haccepted : RawCode.accepted? (Bytes.firstLine text) = some first) :
    kind.shown (first ++ text.drop (Bytes.firstLine text).length) = kind.shown text ↔
      kind.Keeps text := by
  cases kind with
  | literal =>
    show first ++ text.drop (Bytes.firstLine text).length = text ↔ RawCode.check _ = .clean
    rw [RawCode.check_eq_clean, haccepted]
    constructor
    · intro heq
      rw [List.append_cancel_right (heq.trans (Bytes.firstLine_append_drop text).symm)]
    · intro hclean
      rw [Option.some.inj hclean, Bytes.firstLine_append_drop]
  | comment =>
    refine iff_of_true rfl (RawCode.check_ne_executable.2 ?_)
    rw [haccepted]
    nofun

theorem Verbatim.not_keeps {kind : Verbatim} {text : Bytes}
    (hrefused : RawCode.accepted? (Bytes.firstLine text) = none) : ¬ kind.Keeps text := by
  cases kind with
  | literal =>
    intro hclean
    rw [RawCode.check_eq_clean.1 hclean] at hrefused
    cases hrefused
  | comment => exact fun hkept => RawCode.check_ne_executable.1 hkept hrefused

namespace Compiler

open Moment

section

variable {compiler : Compiler σ} {id template destination : String} {world : World σ}
  {session : Session} {disk : Disk}
  (hstart : Session.start compiler.workspace id template destination world.disk = .ok session disk)
  {source : Source} {job : Job} (hbegins : session.Begins job source world.memory)
include hstart hbegins

/-- What comes of a compile whose one source is about to be read. -/
theorem compileTo_eq_outcome {turns : Nat} (hturns : compiler.limits.turns = turns + 1) :
    compiler.compileTo id template destination world =
      match outcome (compiler.library.dispatch compiler.limits.depth) turns
        (draining (session.opening source world.memory) (Feed.ofText (session.textOf source))) with
      | .error error (session, memory) => .error error ⟨session.abandon, memory⟩
      | .ok _ (session, memory) => .ok session.report ⟨session.finish, memory⟩ := by
  rw [compileTo_eq hstart, hturns, hbegins.takeTurns_succ]
  rfl

/-- A template that is a text in its tags compiles if the first line of the text is accepted. -/
theorem compileTo_of_around (hlibrary : compiler.library = .standard) {depth : Nat}
    (hdepth : compiler.limits.depth = depth + 1) (hturns : 1 < compiler.limits.turns)
    (hid : '/' ∉ job.id.toList) {kind : Verbatim} {text first : Bytes}
    (htext : session.textOf source = kind.around text [])
    (hnone : Directive.findMarker? kind.closer text = none)
    (haccepted : RawCode.accepted? (Bytes.firstLine text) = some first) :
    ∃ report world', compiler.compileTo id template destination world = .ok report world' ∧
      report.warnings = [] ∧ world'.disk.read? report.artifact =
        some (kind.shown (first ++ text.drop (Bytes.firstLine text).length)) := by
  obtain ⟨turns, hsucc⟩ : ∃ turns, compiler.limits.turns = turns + 1 + 1 :=
    ⟨compiler.limits.turns - 2, by omega⟩
  have hopening := hbegins.opening
  have hrunning : (session.opening source world.memory).source.paused = false := hopening.running
  obtain ⟨-, hgoesOn⟩ := kind.outcome_around (turns + 1) depth hrunning hopening.reading hnone
    haccepted []
  obtain ⟨run', hleaves, houtcome⟩ := hgoesOn [] RawCode.accepted?_nil
  have hdone := hleaves.goesOn hopening
  have hrunning : run'.source.paused = false := by
    rw [hleaves.source]
    exact hopening.running
  have hput : Leads (compiler.library.dispatch compiler.limits.depth) (draining run' ⟨[], false, []⟩)
      (putAway run' ⟨[], false, []⟩) := next_running hrunning _
  have hlast : outcome (compiler.library.dispatch compiler.limits.depth) (turns + 1)
      (draining run' ⟨[], false, []⟩) =
      .ok ⟨⟩ ({ run'.session with drained := run'.session.drained + 1 }, run'.memory) :=
    (outcome_of_leads hput).trans (hbegins.takeTurns_done hdone turns)
  have hcompile := compileTo_eq_outcome hstart hbegins hsucc
  rw [htext, hlibrary, hdepth, houtcome, ← hdepth, ← hlibrary, Bytes.lines_nil, List.tail_nil,
    hlast] at hcompile
  have hwarnings : session.warnings = [] := Session.warnings_of_start hstart
  exact ⟨_, _, hcompile, hleaves.warnings.trans hwarnings, hbegins.finish hid hdone.session.drain⟩

theorem compileTo_of_around_refused (hturns : 0 < compiler.limits.turns) {kind : Verbatim} {text : Bytes}
    (htext : session.textOf source = kind.around text [])
    (hrefused : RawCode.accepted? (Bytes.firstLine text) = none) :
    ∃ world', compiler.compileTo id template destination world =
      .error (.forbiddenMarker ⟨source.path, 1⟩) world' := by
  obtain ⟨turns, hsucc⟩ : ∃ turns, compiler.limits.turns = turns + 1 :=
    ⟨compiler.limits.turns - 1, by omega⟩
  have hopening := hbegins.opening
  have hline : source.line = 0 := by
    obtain ⟨_, _, _, hsource⟩ := hopening.active
    exact congrArg Source.line hsource
  have hfails : outcome (compiler.library.dispatch compiler.limits.depth) turns (draining
      (session.opening source world.memory) (Feed.ofText (kind.around text []))) =
      .error (.forbiddenMarker ⟨source.path, source.line + 1⟩) _ :=
    kind.outcome_around_refused _ turns hopening.running hopening.reading hrefused []
  have hcompile := compileTo_eq_outcome hstart hbegins hsucc
  rw [htext, hfails, hline] at hcompile
  exact ⟨_, hcompile⟩

end

/-- **Text that is not read**: a template that is a text in its tags compiles, without warnings, to the
text that is shown just if the first line of the text gets through the check for raw code. What follows
it is read, from any run on, as if it were not there, unless that line is refused, and then nothing
else comes of it. -/
theorem verbatim_iff {compiler : Compiler σ} (hlibrary : compiler.library = .standard)
    (hdepth : 0 < compiler.limits.depth) (hturns : 1 < compiler.limits.turns)
    {id template destination : String} (hid : '/' ∉ id.toList) {world : World σ} {session : Session}
    {disk : Disk}
    (hstart : Session.start compiler.workspace id template destination world.disk = .ok session disk)
    {source : Source} (hsource : source ∈ session.waiting) (kind : Verbatim) {text : Bytes}
    (hnone : Directive.findMarker? kind.closer text = none) :
    (session.textOf source = kind.around text [] →
      ((∃ report world', compiler.compileTo id template destination world = .ok report world' ∧
          report.warnings = [] ∧ world'.disk.read? report.artifact = some (kind.shown text)) ↔
        kind.Keeps text)) ∧
    ∀ (run : Run σ) (rest : Bytes) (turns : Nat), run.source.paused = false →
      run.source.reading = .directives →
      ((∀ offset, RawCode.check (Bytes.firstLine text) ≠ .executable offset) →
        kind.Resumes (compiler.library.dispatch compiler.limits.depth) turns run text rest) ∧
      ((∃ offset, RawCode.check (Bytes.firstLine text) = .executable offset) →
        outcome (compiler.library.dispatch compiler.limits.depth) turns
            (draining run (Feed.ofText (kind.around text rest))) =
          .error (.forbiddenMarker ⟨run.source.path, run.source.line + 1⟩) (run.session, run.memory)) := by
  obtain ⟨depth, hdepth⟩ : ∃ depth, compiler.limits.depth = depth + 1 :=
    ⟨compiler.limits.depth - 1, by omega⟩
  constructor
  · intro htext
    obtain ⟨source', hbegins⟩ := Session.start_begins hstart world.memory
    obtain rfl : source = source' := by
      rw [hbegins.waiting] at hsource
      exact List.mem_singleton.1 hsource
    cases haccepted : RawCode.accepted? (Bytes.firstLine text) with
    | none =>
      obtain ⟨world', hfails⟩ := compileTo_of_around_refused hstart hbegins (by omega) htext haccepted
      refine iff_of_false ?_ (Verbatim.not_keeps haccepted)
      rintro ⟨report, world'', hok, -⟩
      exact nomatch hfails.symm.trans hok
    | some first =>
      obtain ⟨report, world', hok, hwarnings, hartifact⟩ :=
        compileTo_of_around hstart hbegins hlibrary hdepth hturns hid htext hnone haccepted
      rw [← Verbatim.shown_iff haccepted]
      constructor
      · rintro ⟨report', world'', hok', -, hartifact'⟩
        obtain ⟨rfl, rfl⟩ := EStateM.Result.ok.inj (hok.symm.trans hok')
        exact Option.some.inj (hartifact.symm.trans hartifact')
      · intro hshown
        rw [hshown] at hartifact
        exact ⟨report, world', hok, hwarnings, hartifact⟩
  · intro run rest turns hrunning hreading
    constructor
    · intro hfirst
      rw [hlibrary, hdepth]
      exact Verbatim.resumes kind depth turns hrunning hreading hnone hfirst rest
    · rintro ⟨offset, hexecutable⟩
      refine kind.outcome_around_refused _ _ hrunning hreading ?_ rest
      unfold RawCode.accepted?
      rw [hexecutable]

/-- Whether the text of the template is the given one when a session begins. -/
def beginsWith (compiler : Compiler Unit) (text : Bytes) : Bool :=
  match Session.start compiler.workspace "s" "a" "a" .empty with
  | .error .. => false
  | .ok session _ => session.waiting.all fun source => decide (session.textOf source = text)

theorem exists_of_beginsWith {compiler : Compiler Unit} {text : Bytes}
    (h : compiler.beginsWith text = true) :
    ∃ (session : Session) (disk : Disk) (source : Source),
      Session.start compiler.workspace "s" "a" "a" (⟨.empty, ⟨⟩⟩ : World Unit).disk =
        .ok session disk ∧ session.waiting = [source] ∧ session.textOf source = text := by
  unfold beginsWith at h
  split at h
  · cases h
  · next session disk hstart =>
    obtain ⟨source, hbegins⟩ := Session.start_begins hstart (⟨⟩ : Unit)
    rw [hbegins.waiting, List.all_cons, Bool.and_eq_true, decide_eq_true_eq] at h
    exact ⟨session, disk, source, hstart, hbegins.waiting, h.1⟩

/-- A script with quotes and braces, and raw code on its second line. -/
def script : String :=
  "<a title='\x7b\x7b x \x7b%\n<?php \x7d\x7d ?>"

/-- The script is copied. -/
theorem verbatim_script :
    Directive.findMarker? "endliteral" (Utf8.encode script) = none ∧
      ∃ (report : Report) (world' : World Unit),
        (ofTexts [("a", "\x7b% literal %\x7d" ++ script ++ "\x7b% endliteral %\x7d")]).compileTo
          "s" "a" "a" ⟨.empty, ⟨⟩⟩ = .ok report world' ∧ report.warnings = [] ∧
        world'.disk.read? report.artifact = some (Utf8.encode script) := by
  have hnone : Directive.findMarker? Verbatim.literal.closer (Utf8.encode script) = none := by
    decide +kernel
  have hbegins : (ofTexts [("a", "\x7b% literal %\x7d" ++ script ++ "\x7b% endliteral %\x7d")]).beginsWith
      (Verbatim.literal.around (Utf8.encode script) []) = true := by decide +kernel
  obtain ⟨session, disk, source, hstart, hwaiting, htext⟩ := exists_of_beginsWith hbegins
  have hiff := (verbatim_iff rfl (by decide) (by decide) (by decide) hstart
    (hwaiting ▸ List.mem_cons_self) .literal hnone).1 htext
  exact ⟨hnone, hiff.2 (by decide +kernel : RawCode.check _ = .clean)⟩

/-- Raw code on one line with its tags. -/
def inlined : String :=
  "<?php x ?>"

/-- Text that is to be copied is refused if its tag is on the same line. -/
theorem exists_not_verbatim :
    Directive.findMarker? "endliteral" (Utf8.encode inlined) = none ∧
      ∃ (path : Path) (world' : World Unit),
        (ofTexts [("a", "\x7b% literal %\x7d" ++ inlined ++ "\x7b% endliteral %\x7d")]).compileTo
          "s" "a" "a" ⟨.empty, ⟨⟩⟩ = .error (.forbiddenMarker ⟨path, 1⟩) world' := by
  have hbegins : (ofTexts [("a", "\x7b% literal %\x7d" ++ inlined ++ "\x7b% endliteral %\x7d")]).beginsWith
      (Verbatim.literal.around (Utf8.encode inlined) []) = true := by decide +kernel
  obtain ⟨session, disk, source, hstart, hwaiting, htext⟩ := exists_of_beginsWith hbegins
  obtain ⟨source', hbegun⟩ := Session.start_begins hstart (⟨⟩ : Unit)
  obtain rfl : source = source' := by
    rw [hbegun.waiting] at hwaiting
    exact (List.singleton_inj.1 hwaiting).symm
  obtain ⟨world', hfails⟩ := compileTo_of_around_refused hstart hbegun (by decide) htext (by decide +kernel)
  exact ⟨by decide +kernel, source.path, world', hfails⟩

end Compiler

end TemplateCompiler
