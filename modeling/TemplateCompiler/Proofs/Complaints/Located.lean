import TemplateCompiler.Proofs.Complaints.Here
import TemplateCompiler.Proofs.Complaints.Lines
import TemplateCompiler.Proofs.Inheritance.Ending
import TemplateCompiler.Proofs.Moment.Trail

/-!
# Where complaints point

A compile says something where it warns and where it fails (`Moment.Says`). With the standard library,
whatever it says of a place is said of the source that is being read, and of the line that has to be
looked at (`Complaint.Names`): the one in which the directive opens that is dispatched, the one of an
executable marker, or the last one where a tag was never closed. So it is with every warning that is
reported and every error that a compile comes out with (`Compiler.locates`).
-/
namespace TemplateCompiler

open Markup

variable {σ : Type}

/-! ## Complaints -/

/-- A warning, or the error that a compile fails with. -/
inductive Complaint where
  | warning (noted : Warning)
  | error (failure : CompileError)

/-- The place that the complaint is about, if it is about one. -/
def Complaint.location? : Complaint → Option Location
  | warning noted => some noted.location
  | error failure => failure.location?

namespace Moment

/-- The session after a step, whether the compile goes on or fails. -/
def Next.session? : Next σ → Option Session
  | goesOn m => some m.session
  | ends => none
  | fails _ session _ => some session

/-- What is said in the step that a compile takes next. -/
inductive Says (dispatch : Dispatch σ) (m : Moment σ) : Complaint → Prop
  | warns {session : Session} {noted : List Warning} {warning : Warning}
    (hnext : (m.next dispatch).session? = some session)
    (hnoted : session.warnings = m.session.warnings ++ noted) (hmem : warning ∈ noted) :
    Says dispatch m (.warning warning)
  | fails {error : CompileError} {session : Session} {memory : σ}
    (hnext : m.next dispatch = .fails error session memory) : Says dispatch m (.error error)

end Moment

/-- The line that a complaint names about a source of this text, so much of it being left to read. -/
inductive Complaint.Names (text : Bytes) (reading : Reading) (feed : Feed) : Complaint → Nat → Prop
  /-- Where a directive is dispatched, or has no closer, the line in which it opens. -/
  | directive {complaint : Complaint} {before : Bytes} {d : Directive} {after : Feed} {offset : Nat}
    (hstep : feed.step reading = .directive before d after) (hopens : feed.Opens text d offset)
    (hother : ∀ location, complaint ≠ .error (.forbiddenMarker location)) :
    Names text reading feed complaint (Bytes.lineAt text offset)
  /-- Where directives are looked for in a line, the one of its first executable marker. -/
  | forbidden {location : Location} {offset : Nat} (hreading : reading = .directives)
    (hforbids : feed.Forbids text offset) :
    Names text reading feed (.error (.forbiddenMarker location)) (Bytes.lineAt text offset)
  /-- Where the text ends, its last line. -/
  | unclosed {tag : String} {location : Location} (hend : feed.atEnd = true) :
    Names text reading feed (.warning ⟨tag ++ " tag was never closed", location⟩)
      (Bytes.lines text).length

/-! ## Steps of a source -/

namespace Moment

variable {dispatch : Dispatch σ} {run : Run σ} {feed : Feed}

/-- What is noted in a step is among what the session has of it. -/
theorem mem_noted {location : Location} {before after noted : List Warning} {warning : Warning}
    (h : Warning.NotedAt location before after) (hnoted : after = before ++ noted)
    (hmem : warning ∈ noted) : warning.location = location := by
  obtain ⟨noted', rfl, hall⟩ := h
  exact hall warning (List.append_cancel_left hnoted ▸ hmem)

variable {complaint : Complaint} {location : Location}

/-- What is said where the compile goes on is a warning that is noted. -/
theorem Says.of_goesOn {m m' : Moment σ} (h : Says dispatch m complaint)
    (hnext : m.next dispatch = .goesOn m') : ∃ noted warning, complaint = .warning warning ∧
      m'.session.warnings = m.session.warnings ++ noted ∧ warning ∈ noted := by
  cases h with
  | warns hsession hnoted hmem =>
    rw [hnext] at hsession
    obtain rfl := Option.some.inj hsession
    exact ⟨_, _, rfl, hnoted, hmem⟩
  | fails hfails =>
    rw [hnext] at hfails
    cases hfails

/-- What is said where the compile fails is the error, or a warning that is noted. -/
theorem Says.of_fails {m : Moment σ} {error : CompileError} {session : Session} {memory : σ}
    (h : Says dispatch m complaint) (hnext : m.next dispatch = .fails error session memory) :
    complaint = .error error ∨ ∃ noted warning, complaint = .warning warning ∧
      session.warnings = m.session.warnings ++ noted ∧ warning ∈ noted := by
  cases h with
  | warns hsession hnoted hmem =>
    rw [hnext] at hsession
    obtain rfl := Option.some.inj hsession
    exact .inr ⟨_, _, rfl, hnoted, hmem⟩
  | fails hfails =>
    obtain ⟨rfl, -, -⟩ := Next.fails.inj (hnext.symm.trans hfails)
    exact .inl rfl

/-- Where nothing is noted and the compile goes on, nothing is said. -/
theorem not_says_of_same {m m' : Moment σ} (hnext : m.next dispatch = .goesOn m')
    (hsame : m'.session.warnings = m.session.warnings) : ¬ Says dispatch m complaint := by
  intro hsaid
  obtain ⟨noted, warning, -, hnoted, hmem⟩ := hsaid.of_goesOn hnext
  obtain rfl := List.self_eq_append_right.1 (hsame.symm.trans hnoted)
  cases hmem

/-- Between two turns nothing is said of a place. -/
theorem Says.location?_between {session : Session} {memory : σ}
    (h : Says dispatch (between session memory) complaint) : complaint.location? = none := by
  cases hwaiting : session.waiting with
  | nil =>
    by_cases hhalted : session.halted.isEmpty = true
    · have hnext : next dispatch (between session memory) = .ends := by
        rw [next, hwaiting]
        exact if_pos hhalted
      cases h with
      | warns hsession =>
        rw [hnext] at hsession
        cases hsession
      | fails hfails =>
        rw [hnext] at hfails
        cases hfails
    · have hnext : next dispatch (between session memory) =
          .fails (.stalled session.halted.length) session memory := by
        rw [next, hwaiting]
        exact if_neg hhalted
      rcases h.of_fails hnext with rfl | ⟨noted, warning, -, hnoted, hmem⟩
      · rfl
      · obtain rfl := List.self_eq_append_right.1 hnoted
        cases hmem
  | cons source waiting =>
    have hnext : next dispatch (between session memory) =
        .goesOn (draining (session.beginTurn source waiting memory)
          (Feed.ofText (session.textOf source))) := by
      rw [next, hwaiting]
    exact absurd h (not_says_of_same hnext rfl)

/-- Where a line is refused, nothing is said but that. -/
theorem says_forbidden {error : CompileError} (hsaid : Says dispatch (draining run feed) complaint)
    (hnext : next dispatch (draining run feed) = .fails error run.session run.memory) :
    complaint = .error error := by
  rcases hsaid.of_fails hnext with rfl | ⟨noted, warning, -, hnoted, hmem⟩
  · rfl
  · obtain rfl := List.self_eq_append_right.1 hnoted
    cases hmem

/-- Where a source has come to its end, nothing is said but that a tag was never closed. -/
theorem says_putAway (hend : feed.atEnd = true) (hsaid : Says dispatch (draining run feed) complaint)
    (hnext : next dispatch (draining run feed) = .goesOn (putAway run feed)) :
    ∃ tag, complaint = .warning ⟨tag ++ " tag was never closed", run.source.location⟩ := by
  have hsettle : (run.session.settle run.source feed).warnings =
      run.session.warnings ++ (run.source.hierarchy.top?.map fun tag =>
        (⟨tag ++ " tag was never closed", run.source.location⟩ : Warning)).toList := by
    unfold Session.settle
    rw [if_pos hend]
    cases run.source.hierarchy.top? with
    | none => exact (List.append_nil _).symm
    | some tag => rfl
  obtain ⟨noted, warning, rfl, hnoted, hmem⟩ := hsaid.of_goesOn hnext
  rw [show (putAway run feed).session = run.session.settle run.source feed from rfl, hsettle] at hnoted
  obtain rfl := List.append_cancel_left hnoted
  obtain ⟨tag, -, rfl⟩ := Option.map_eq_some_iff.1 (Option.mem_toList.1 hmem)
  exact ⟨tag, rfl⟩

/-- What is said where a directive is dispatched is said of the place where the source is read. -/
theorem says_directive {before : Bytes} {d : Directive} {after : Feed}
    (hmeet : (meet dispatch before d after.atEnd).ComplainsHere)
    (hrunning : run.source.paused = false)
    (hstep : feed.step run.source.reading = .directive before d after)
    (hsaid : Says dispatch (draining run feed) complaint)
    (hlocation : complaint.location? = some location) :
    location = run.source.location ∧
      ∀ location, complaint ≠ .error (.forbiddenMarker location) := by
  have hnext := @next_running σ dispatch run hrunning feed
  rw [hstep] at hnext
  have hhere := hmeet run
  dsimp only at hnext
  cases hresult : meet dispatch before d after.atEnd run with
  | ok u run' =>
    rw [hresult] at hnext hhere
    obtain ⟨noted, warning, rfl, hnoted, hmem⟩ := hsaid.of_goesOn hnext
    obtain rfl := Option.some.inj hlocation
    exact ⟨mem_noted hhere.noted hnoted hmem, nofun⟩
  | error error run' =>
    rw [hresult] at hnext hhere
    obtain ⟨habout, hstays⟩ := hhere
    rcases hsaid.of_fails hnext with rfl | ⟨noted, warning, rfl, hnoted, hmem⟩
    · exact ⟨habout.location location hlocation, fun place heq =>
        habout.ne_forbidden place (Complaint.error.inj heq)⟩
    · obtain rfl := Option.some.inj hlocation
      exact ⟨mem_noted hstays.noted hnoted hmem, nofun⟩

/-- Steps take no warning back. -/
theorem exists_noted_of_leads
    (hdispatch : ∀ before d atEnd, (meet dispatch before d atEnd).ComplainsHere) {m m' : Moment σ}
    (hleads : Leads dispatch m m') :
    ∃ noted, m'.session.warnings = m.session.warnings ++ noted := by
  cases m with
  | between session memory =>
    obtain ⟨source, waiting, -, rfl⟩ := leads_between hleads
    exact ⟨[], (List.append_nil _).symm⟩
  | draining run feed =>
    rcases leads_draining hleads with ⟨rfl, -⟩ | ⟨run', after, -, hpiece, rfl⟩
    · show ∃ noted, (run.session.settle run.source feed).warnings = _
      unfold Session.settle
      split
      · split
        · exact ⟨_, rfl⟩
        · exact ⟨[], (List.append_nil _).symm⟩
      · exact ⟨[], (List.append_nil _).symm⟩
    · cases hpiece with
      | newLine | checked | text => exact ⟨[], (List.append_nil _).symm⟩
      | @directive before d _ u _ _ hmeet =>
        have hhere := hdispatch before d after.atEnd run
        rw [hmeet] at hhere
        obtain ⟨noted, heq, -⟩ := hhere.noted
        exact ⟨noted, heq⟩

/-- Every warning of a session has been said in one of its steps. -/
theorem exists_says_of_mem
    (hdispatch : ∀ before d atEnd, (meet dispatch before d atEnd).ComplainsHere) {first m : Moment σ}
    (hfirst : first.session.warnings = []) (hreached : Reached dispatch first m) {warning : Warning}
    (hmem : warning ∈ m.session.warnings) :
    ∃ m', Reached dispatch first m' ∧ Says dispatch m' (.warning warning) := by
  -- a warning that was not there before the last step is said in it
  induction hreached with
  | refl =>
    rw [hfirst] at hmem
    cases hmem
  | @tail middle last hbefore hleads ih =>
    obtain ⟨noted, hnoted⟩ := exists_noted_of_leads hdispatch hleads
    rw [hnoted, List.mem_append] at hmem
    rcases hmem with hmem | hmem
    · exact ih hmem
    · refine ⟨middle, hbefore, .warns ?_ hnoted hmem⟩
      rw [show next dispatch middle = .goesOn last from hleads]
      rfl

end Moment

/-! ## Turns -/

namespace Compiler

variable {compiler : Compiler σ} {id template destination : String} {world : World σ}

section

variable (compiler id template destination world)

/-- A source is being read whose text this was when its turn began, and the feed is what is left of
it. -/
inductive IsReading (source : Source) (text : Bytes) : Run σ → Feed → Prop
  | begins {session : Session} {memory : σ} {waiting : List Source}
    (hpasses : compiler.Passes id template destination world (.between session memory))
    (hwaiting : session.waiting = source :: waiting) (htext : session.textOf source = text) :
    IsReading source text (session.beginTurn source waiting memory) (Feed.ofText text)
  | piece {run run' : Run σ} {feed after : Feed} (h : IsReading source text run feed)
    (hrunning : run.source.paused = false)
    (hpiece : Moment.Piece (compiler.library.dispatch compiler.limits.depth) run feed run' after) :
    IsReading source text run' after

end

/-- Whatever is being read is read in the turn of some source. -/
theorem exists_isReading {run : Run σ} {feed : Feed}
    (h : compiler.Passes id template destination world (.draining run feed)) :
    ∃ source text, compiler.IsReading id template destination world source text run feed := by
  obtain ⟨session, disk, hstart, hreached⟩ := h
  generalize hm : Moment.draining run feed = m at hreached
  induction hreached generalizing run feed with
  | refl => cases hm
  | @tail middle last hbefore hleads ih =>
    subst hm
    cases middle with
    | between session' memory =>
      obtain ⟨source, waiting, hwaiting, heq⟩ := Moment.leads_between hleads
      obtain ⟨rfl, rfl⟩ := Moment.draining.inj heq
      exact ⟨source, _, .begins ⟨session, disk, hstart, hbefore⟩ hwaiting rfl⟩
    | draining run' feed' =>
      rcases Moment.leads_draining hleads with ⟨heq, -⟩ | ⟨_, _, hrunning, hpiece, heq⟩
      · cases heq
      · obtain ⟨rfl, rfl⟩ := Moment.draining.inj heq
        obtain ⟨source, text, hreading⟩ := ih rfl
        exact ⟨source, text, hreading.piece hrunning hpiece⟩

variable (hlibrary : compiler.library = .standard)
include hlibrary

theorem complainsHere_meet (before : Bytes) (d : Directive) (atEnd : Bool) :
    (meet (compiler.library.dispatch compiler.limits.depth) before d atEnd).ComplainsHere := by
  rw [hlibrary]
  exact Action.serves_complainsHere.meet_standard _ before d atEnd

/-- **The lines of a source are counted**: the feed stands on the line whose number the source has. -/
theorem IsReading.stands {source : Source} {text : Bytes} {run : Run σ} {feed : Feed}
    (h : compiler.IsReading id template destination world source text run feed) :
    run.source.path = source.path ∧ feed.Stands text run.source.line := by
  induction h with
  | @begins session memory waiting hpasses hwaiting htext =>
    -- no line is read yet where the turn begins, and none has been counted
    have hzero : source.line = 0 := by rw [hpasses.isNew hlibrary hwaiting]
    refine ⟨rfl, ?_⟩
    show Feed.Stands text source.line _
    rw [hzero]
    exact .begins
  | @piece run run' feed after _ hrunning hpiece ih =>
    obtain ⟨hpath, hstands⟩ := ih
    have hstep := hstands.step run.source.reading
    cases hpiece with
    | newLine heq =>
      rw [heq] at hstep
      exact ⟨hpath, hstep⟩
    | checked heq =>
      rw [heq] at hstep
      exact ⟨hpath, hstep⟩
    | text heq =>
      rw [heq] at hstep
      exact ⟨hpath, hstep⟩
    | @directive before d _ u _ heq hmeet =>
      rw [heq] at hstep
      -- handlers may change the source, but neither its path nor its line
      have hhere := complainsHere_meet hlibrary before d after.atEnd run
      rw [hmeet] at hhere
      obtain ⟨hpath', hline'⟩ := Location.mk.inj hhere.location
      rw [hpath', hline']
      exact ⟨hpath, hstep⟩

omit hlibrary

/-- The complaints of a compile point where they should. -/
structure Locates (compiler : Compiler σ) (id template destination : String) (world : World σ) :
    Prop where
  /-- Every warning that is reported was said at a moment of the compile. -/
  reported : ∀ report world', compiler.compileTo id template destination world = .ok report world' →
    ∀ warning ∈ report.warnings, ∃ m, compiler.Passes id template destination world m ∧
      m.Says (compiler.library.dispatch compiler.limits.depth) (.warning warning)
  /-- So was an error that is about a place. -/
  failed : ∀ error world' location,
    compiler.compileTo id template destination world = .error error world' →
    error.location? = some location → ∃ m, compiler.Passes id template destination world m ∧
      m.Says (compiler.library.dispatch compiler.limits.depth) (.error error)
  /-- What is said of a place is said of the source that is being read, and of the line to look at. -/
  located : ∀ m complaint location, compiler.Passes id template destination world m →
    m.Says (compiler.library.dispatch compiler.limits.depth) complaint →
    complaint.location? = some location →
    ∃ run feed source text, m = .draining run feed ∧
      compiler.IsReading id template destination world source text run feed ∧
      location.path = source.path ∧ complaint.Names text run.source.reading feed location.line
  /-- Where a compile goes on though directives are about to be looked for in what is left of a line,
  there is no executable marker in it: the first that is met is refused. -/
  first : ∀ run feed m, compiler.Passes id template destination world (.draining run feed) →
    Moment.Leads (compiler.library.dispatch compiler.limits.depth) (.draining run feed) m →
    run.source.reading = .directives → feed.unchecked = true →
    ∀ i, ¬ RawCode.ExecutableAt feed.line i

section

variable (hlibrary : compiler.library = .standard)
include hlibrary

theorem exists_says_of_report {report : Report} {world' : World σ}
    (hok : compiler.compileTo id template destination world = .ok report world') {warning : Warning}
    (hmem : warning ∈ report.warnings) : ∃ m, compiler.Passes id template destination world m ∧
      m.Says (compiler.library.dispatch compiler.limits.depth) (.warning warning) := by
  cases hstart : Session.start compiler.workspace id template destination world.disk with
  | error error disk =>
    rw [compileTo_eq_error hstart] at hok
    cases hok
  | ok session disk =>
    have hfirst : (Moment.between session world.memory).session.warnings = [] := by
      obtain ⟨path, main, found, -, -, -, rfl⟩ := Session.start_cases hstart
      rfl
    have hcomes := @Moment.comesOut σ (compiler.library.dispatch compiler.limits.depth)
      compiler.limits.turns (.between session world.memory)
    rw [compileTo_eq_conclude hstart] at hok
    rw [Moment.outcome] at hcomes
    generalize Session.takeTurns _ _ _ = result at hok hcomes
    cases hcomes with
    | @ends last memory hreached hnext =>
      obtain ⟨rfl, -⟩ := EStateM.Result.ok.inj hok
      obtain ⟨m, hm, hsaid⟩ :=
        Moment.exists_says_of_mem (complainsHere_meet hlibrary) hfirst hreached hmem
      exact ⟨m, ⟨session, disk, hstart, hm⟩, hsaid⟩
    | fails | unfinished => cases hok

omit hlibrary in
theorem exists_says_of_error {error : CompileError} {world' : World σ} {location : Location}
    (herror : compiler.compileTo id template destination world = .error error world')
    (hlocation : error.location? = some location) :
    ∃ m, compiler.Passes id template destination world m ∧
      m.Says (compiler.library.dispatch compiler.limits.depth) (.error error) := by
  cases hstart : Session.start compiler.workspace id template destination world.disk with
  | error refused disk =>
    rw [compileTo_eq_error hstart] at herror
    obtain ⟨rfl, -⟩ := EStateM.Result.error.inj herror
    rcases start_error_cases hstart with ⟨_, rfl⟩ | ⟨_, _, rfl⟩ | ⟨_, rfl⟩ <;> cases hlocation
  | ok session disk =>
    have hcomes := @Moment.comesOut σ (compiler.library.dispatch compiler.limits.depth)
      compiler.limits.turns (.between session world.memory)
    rw [compileTo_eq_conclude hstart] at herror
    rw [Moment.outcome] at hcomes
    generalize Session.takeTurns _ _ _ = result at herror hcomes
    cases hcomes with
    | ends => cases herror
    | @fails last _ session' memory hreached hnext =>
      obtain ⟨rfl, -⟩ := EStateM.Result.error.inj herror
      exact ⟨last, ⟨session, disk, hstart, hreached⟩, .fails hnext⟩
    | unfinished =>
      obtain ⟨rfl, -⟩ := EStateM.Result.error.inj herror
      cases hlocation

/-- What is said of a place is said of the source that is being read, and of the line to look at. -/
theorem exists_names {m : Moment σ} {complaint : Complaint} {location : Location}
    (hpasses : compiler.Passes id template destination world m)
    (hsaid : m.Says (compiler.library.dispatch compiler.limits.depth) complaint)
    (hlocation : complaint.location? = some location) :
    ∃ run feed source text, m = .draining run feed ∧
      compiler.IsReading id template destination world source text run feed ∧
      location.path = source.path ∧ complaint.Names text run.source.reading feed location.line := by
  cases m with
  | between session memory => exact absurd hlocation (hsaid.location?_between ▸ nofun)
  | draining run feed =>
    have hrunning := hpasses.running hlibrary
    obtain ⟨source, text, hreading⟩ := exists_isReading hpasses
    obtain ⟨hpath, hstands⟩ := hreading.stands hlibrary
    refine ⟨run, feed, source, text, rfl, hreading, ?_⟩
    have hnext := @Moment.next_running σ (compiler.library.dispatch compiler.limits.depth) run
      hrunning feed
    -- what can be said depends on what the step finds
    cases hstep : feed.step run.source.reading with
    | newLine | checked | text =>
      rw [hstep] at hnext
      exact absurd hsaid (Moment.not_says_of_same hnext rfl)
    | done =>
      rw [hstep] at hnext
      have hend := atEnd_of_step hstep
      obtain ⟨tag, rfl⟩ := Moment.says_putAway hend hsaid hnext
      obtain rfl := Option.some.inj hlocation
      refine ⟨hpath, ?_⟩
      show Complaint.Names _ _ _ _ run.source.line
      rw [hstands.atEnd hend]
      exact .unclosed hend
    | forbidden =>
      rw [hstep] at hnext
      obtain rfl := Moment.says_forbidden hsaid hnext
      obtain rfl := Option.some.inj hlocation
      obtain ⟨hdirectives, offset, hforbids, hcount⟩ := hstands.forbidden hstep
      refine ⟨hpath, ?_⟩
      show Complaint.Names _ _ _ _ run.source.line
      rw [hcount]
      exact .forbidden hdirectives hforbids
    | directive before d after =>
      obtain ⟨rfl, hother⟩ := Moment.says_directive (complainsHere_meet hlibrary before d after.atEnd)
        hrunning hstep hsaid hlocation
      obtain ⟨offset, hopens, hcount⟩ := hstands.directive hstep
      refine ⟨hpath, ?_⟩
      show Complaint.Names _ _ _ _ run.source.line
      rw [hcount]
      exact .directive hstep hopens hother

omit hlibrary in
/-- Where a compile goes on, no executable marker has been met. -/
theorem not_executableAt_of_leads {dispatch : Dispatch σ} {run : Run σ} {feed : Feed} {m : Moment σ}
    (hrunning : run.source.paused = false) (hleads : Moment.Leads dispatch (.draining run feed) m)
    (hreading : run.source.reading = .directives) (hunchecked : feed.unchecked = true) (i : Nat) :
    ¬ RawCode.ExecutableAt feed.line i := by
  refine Feed.not_executableAt_of_step (fun hstep => ?_) hunchecked i
  have hnext := @Moment.next_running σ dispatch run hrunning feed
  rw [hreading, hstep] at hnext
  exact nomatch hnext.symm.trans hleads

end

/-- **Complaints point at the right line**, in every compile with the standard library. -/
theorem locates (hlibrary : compiler.library = .standard) (id template destination : String)
    (world : World σ) : compiler.Locates id template destination world where
  reported _ _ hok _ hmem := exists_says_of_report hlibrary hok hmem
  failed _ _ _ herror hlocation := exists_says_of_error herror hlocation
  located _ _ _ hpasses hsaid hlocation := exists_names hlibrary hpasses hsaid hlocation
  first _ _ _ hpasses hleads hreading hunchecked :=
    not_executableAt_of_leads (hpasses.running hlibrary) hleads hreading hunchecked

/-- A template with raw code that is printed, raw code that is copied, and a tag that nothing handles
after another unit on its line. -/
def misspelt : List (String × String) :=
  [("a", "<?xml?>\n\x7b% literal %\x7d\n<?php\n\x7b% endliteral %\x7d\x7b\x7b x \x7d\x7d \x7b% foo %\x7d\n")]

/-- Whether the tag that nothing handles is refused in the fourth line. -/
def refusesFoo : EStateM.Result CompileError (World Unit) Report → Bool
  | .ok .. => false
  | .error error _ => error = .unknownTag "foo" ⟨⟨"view/a"⟩, 4⟩

/-- Lines are counted past what is printed and what is copied. -/
theorem locates_misspelt : (ofTexts misspelt).library = .standard ∧
    ∃ world' run feed source text,
      (ofTexts misspelt).compileTo "s" "a" "a" ⟨.empty, ⟨⟩⟩ =
        .error (.unknownTag "foo" ⟨⟨"view/a"⟩, 4⟩) world' ∧
      (ofTexts misspelt).IsReading "s" "a" "a" ⟨.empty, ⟨⟩⟩ source text run feed ∧
      source.path = ⟨"view/a"⟩ ∧
      Complaint.Names text run.source.reading feed (.error (.unknownTag "foo" ⟨⟨"view/a"⟩, 4⟩)) 4 := by
  have hcheck : ((ofTexts misspelt).compileInSteps 40 "s" "a" "a" ⟨.empty, ⟨⟩⟩).any refusesFoo =
      true := by
    decide +kernel
  obtain ⟨result, hsteps, hrefuses⟩ := (Option.any_eq_true _ _).1 hcheck
  have hcompiled := compileTo_of_inSteps hsteps
  cases result with
  | ok report world' => cases hrefuses
  | error error world' =>
    obtain rfl : error = _ := of_decide_eq_true hrefuses
    have hlocates := @locates _ (ofTexts misspelt) rfl "s" "a" "a" ⟨.empty, ⟨⟩⟩
    obtain ⟨m, hpasses, hsaid⟩ := hlocates.failed _ _ _ hcompiled rfl
    obtain ⟨run, feed, source, text, -, hreading, hpath, hnames⟩ :=
      hlocates.located _ _ _ hpasses hsaid rfl
    exact ⟨rfl, world', run, feed, source, text, hcompiled, hreading, hpath.symm, hnames⟩

end Compiler

end TemplateCompiler
