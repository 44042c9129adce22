import TemplateCompiler.Proofs.Inheritance.Ending
import TemplateCompiler.Proofs.Moment.Trail
import TemplateCompiler.Proofs.Nesting.Handlers

/-!
# What is accepted

Which tags are met in a text depends on the text alone (`Feed.tags`): between `literal` or `comment` and
its end tag there are none. A turn of a source with the standard library fails at the first of its tags
that does not fit, or it comes to its end with the openers open that have no end tag
(`Run.Recognizes`). So a source is accepted without a complaint exactly if its paired tags are balanced.
-/
namespace TemplateCompiler

variable {σ : Type}

/-! ## Tags of a text -/

/-- The tag that a directive on this line is, if it is one. -/
def Markup.Directive.tags (d : Markup.Directive) (line : Nat) : List (Nat × String) :=
  match d.kind with
  | .tag => [(line, d.name)]
  | .variable => []

/-- How the text is read on after a directive. -/
def Reading.after (reading : Reading) (d : Markup.Directive) : Reading :=
  match d.kind with
  | .tag => reading.afterTag d.name
  | .variable => reading

namespace Feed

/-- The tags that are met in a feed, each with its line. Lines are counted from the given one, and raw
code ends the reading. -/
def tags (reading : Reading) (line : Nat) (feed : Feed) : List (Nat × String) :=
  match _ : feed.step reading with
  | .done | .forbidden => []
  | .newLine after => after.tags reading (line + 1)
  | .checked after | .text _ after => after.tags reading line
  | .directive _ d after => d.tags line ++ after.tags (reading.after d) line
termination_by feed.size
decreasing_by
  all_goals
    rename_i h
    exact size_lt_of_step (by rw [h]; rfl)

theorem tags_eq (reading : Reading) (line : Nat) (feed : Feed) :
    feed.tags reading line =
      match feed.step reading with
      | .done | .forbidden => []
      | .newLine after => after.tags reading (line + 1)
      | .checked after | .text _ after => after.tags reading line
      | .directive _ d after => d.tags line ++ after.tags (reading.after d) line := by
  rw [tags]
  split <;> simp_all

/-- The tags that are met in a feed, if it is read to its end in so many steps. -/
def tagsWithin : Nat → Reading → Nat → Feed → Option (List (Nat × String))
  | 0, _, _, _ => none
  | steps + 1, reading, line, feed =>
    match feed.step reading with
    | .done | .forbidden => some []
    | .newLine after => tagsWithin steps reading (line + 1) after
    | .checked after | .text _ after => tagsWithin steps reading line after
    | .directive _ d after => (tagsWithin steps (reading.after d) line after).map (d.tags line ++ ·)

theorem tags_of_within {steps : Nat} {reading : Reading} {line : Nat} {feed : Feed}
    {found : List (Nat × String)} (h : tagsWithin steps reading line feed = some found) :
    feed.tags reading line = found := by
  induction steps generalizing reading line feed found with
  | zero => cases h
  | succ steps ih =>
    rw [tagsWithin] at h
    rw [tags_eq]
    cases hstep : feed.step reading with
    | done | forbidden =>
      rw [hstep] at h
      exact Option.some.inj h
    | newLine | checked | text =>
      rw [hstep] at h
      exact ih h
    | directive before d after =>
      rw [hstep] at h
      obtain ⟨rest, hrest, rfl⟩ := Option.map_eq_some_iff.1 h
      exact congrArg (d.tags line ++ ·) (ih hrest)

/-- **Ignored text**: up to its end marker no tag is met in a text that is copied. -/
theorem name_of_head_tags {marker : String} (line : Nat) (feed : Feed) :
    ∀ tag ∈ (feed.tags (.verbatim (some marker)) line).head?, tag.2 = marker := by
  rw [tags_eq]
  cases hstep : feed.step (.verbatim (some marker)) with
  | done | forbidden => nofun
  | newLine after => exact name_of_head_tags (line + 1) after
  | checked after => exact name_of_head_tags line after
  | text content after => exact name_of_head_tags line after
  | directive before d after =>
    obtain ⟨hname, -, hcloser⟩ := step_directive hstep marker rfl
    have hkind : d.kind = .tag := by
      rw [Markup.Directive.kind, hcloser]
    dsimp only
    rw [Markup.Directive.tags, hkind]
    exact fun tag htag => Option.some.inj htag ▸ hname
termination_by feed.size
decreasing_by
  all_goals exact Feed.size_lt_of_step (by rw [hstep]; rfl)

/-- After a tag the text is read on as the tag says. -/
theorem tags_after {reading : Reading} {line l : Nat} {feed : Feed} {name : String}
    {before after : List (Nat × String)}
    (h : feed.tags reading line = before ++ (l, name) :: after) :
    ∃ reading' feed', after = Feed.tags (Reading.afterTag reading' name) l feed' := by
  rw [tags_eq] at h
  cases hstep : feed.step reading with
  | done | forbidden =>
    rw [hstep] at h
    simp at h
  | newLine rest | checked rest | text content rest =>
    rw [hstep] at h
    exact tags_after h
  | directive text d rest =>
    rw [hstep] at h
    dsimp only at h
    unfold Markup.Directive.tags Reading.after at h
    cases hkind : d.kind with
    | «variable» =>
      rw [hkind] at h
      exact tags_after h
    | tag =>
      rw [hkind] at h
      cases before with
      | nil =>
        obtain ⟨htag, rfl⟩ := List.cons.inj h
        obtain ⟨rfl, rfl⟩ := Prod.mk.inj htag
        exact ⟨reading, rest, rfl⟩
      | cons first before => exact tags_after (List.cons.inj h).2
termination_by feed.size
decreasing_by
  all_goals exact Feed.size_lt_of_step (by rw [hstep]; rfl)

/-- After `literal` or `comment` the next tag that is met is its end tag. -/
theorem name_of_tags {reading : Reading} {line l : Nat} {feed : Feed} {kind : String}
    {before after : List (Nat × String)} (hkind : kind = "literal" ∨ kind = "comment")
    (h : feed.tags reading line = before ++ (l, kind) :: after) :
    ∀ tag ∈ after.head?, tag.2 = "end" ++ kind := by
  obtain ⟨reading', feed', rfl⟩ := tags_after h
  rcases hkind with rfl | rfl
  · exact name_of_head_tags l feed'
  · exact name_of_head_tags l feed'

end Feed

/-! ## Directives -/

/-- The source goes on where it was, and nothing was said of open tags. -/
structure Run.Abides (run run' : Run σ) : Prop where
  path : run'.source.path = run.source.path
  line : run'.source.line = run.source.line
  paused : run'.source.paused = run.source.paused
  warnings : Warning.Noted run.session.warnings run'.session.warnings

theorem Run.Abides.trans {a b c : Run σ} (h : a.Abides b) (h' : b.Abides c) : a.Abides c :=
  ⟨h'.path.trans h.path, h'.line.trans h.line, h'.paused.trans h.paused,
    h.warnings.trans h'.warnings⟩

theorem Run.StaysAt.abides {run run' : Run σ} (h : run.StaysAt run') : run.Abides run' := by
  obtain ⟨_, _, _, _, _, heq⟩ := h.source
  exact ⟨by rw [heq], by rw [heq], by rw [heq], h.warnings⟩

theorem Session.warnings_write (session : Session) (piece : Bytes) :
    (session.write piece).warnings = session.warnings := rfl

theorem Run.abides_approach (run : Run σ) (before : Bytes) (d : Markup.Directive) (atEnd : Bool) :
    run.Abides (run.approach before d atEnd) := by
  refine ⟨rfl, rfl, rfl, ?_⟩
  unfold Run.approach
  dsimp only
  rw [Session.warnings_write]
  split
  · exact .refl _
  · refine Warning.noted_singleton ?_ _
    exact Warning.not_namesPair "line terminated" ⟨" before end of tag", rfl⟩ (by decide) (by decide)

/-- A directive is met as its tag says, if it is one: it fails if the tag does not fit, and leaves open
what the tag leaves open otherwise. -/
def Run.Meets (run : Run σ) (d : Markup.Directive)
    (result : EStateM.Result CompileError (Run σ) PUnit) : Prop :=
  match result, Bracket.trace run.source.openTags (d.tags run.source.line) with
  | .ok _ run', .ok opened => run.Abides run' ∧ run'.source.openTags = opened ∧
      run'.source.reading = run.source.reading.after d
  | .ok _ _, .error _ => False
  | .error error _, .ok _ => ¬ error.IsNesting
  | .error error _, .error (line, name, fault) =>
      error.IsNesting → error = fault.error name ⟨run.source.path, line⟩

section

variable {run run₁ : Run σ} {d : Markup.Directive}
  {result : EStateM.Result CompileError (Run σ) PUnit} (habides : run.Abides run₁)
  (hopened : run₁.source.openTags = run.source.openTags)
  (hreading : run₁.source.reading = run.source.reading)
include habides hopened hreading

theorem Run.Nests.meets (hkind : d.kind = .variable)
    (h : run₁.Nests run₁.source.openTags run₁.source.reading result) : run.Meets d result := by
  rw [hopened, hreading] at h
  unfold Run.Meets Markup.Directive.tags Reading.after
  rw [hkind]
  cases h with
  | ok hstays hopened hreading => exact ⟨habides.trans hstays.abides, hopened, hreading⟩
  | error hother => exact hother

theorem Run.Handles.meets (hkind : d.kind = .tag) (h : run₁.Handles d.name result) :
    run.Meets d result := by
  unfold Run.Handles at h
  rw [hopened, hreading] at h
  unfold Run.Meets Markup.Directive.tags Reading.after
  rw [hkind]
  dsimp only
  rw [Bracket.trace]
  cases hfault : Bracket.faultOf? run.source.openTags d.name with
  | some fault =>
    rw [hfault] at h
    obtain ⟨error, run', rfl, herror⟩ := h
    intro hnesting
    rw [herror hnesting]
    exact congrArg (fault.error d.name) (congrArg₂ Location.mk habides.path habides.line)
  | none =>
    rw [hfault] at h
    cases h with
    | ok hstays hopened hreading => exact ⟨habides.trans hstays.abides, hopened, hreading⟩
    | error hother => exact hother

end

section

variable {dispatch : Dispatch σ} (h : dispatch.Nests)
include h

/-- **Directives** are met as their tags say. -/
theorem meets_meet (before : Bytes) (d : Markup.Directive) (atEnd : Bool) (run : Run σ) :
    run.Meets d (meet dispatch before d atEnd run) := by
  rw [meet_eq]
  have happroach := run.abides_approach before d atEnd
  have hmark (currentTag : Option String) (tagsSeen : Nat) : run.Abides
      { run.approach before d atEnd with
        source := { (run.approach before d atEnd).source with currentTag, tagsSeen } } :=
    ⟨happroach.path, happroach.line, happroach.paused, happroach.warnings⟩
  cases hkind : d.kind with
  | «variable» => exact (nests_handle h hkind _).meets (hmark _ _) rfl rfl hkind
  | tag => exact (handles_handle h hkind _).meets (hmark _ _) rfl rfl hkind

end

/-! ## Turns -/

/-- What comes of a source that is being read, so far as its paired tags go. -/
inductive Run.Recognizes (dispatch : Dispatch σ) (run : Run σ) (feed : Feed) :
    EStateM.Result CompileError (Run σ) Feed → Prop
  /-- It comes to its end, and its tags leave open what is open then. -/
  | accepts {feed' : Feed} {run' : Run σ} (hend : feed'.atEnd = true)
    (htrace : Bracket.trace run.source.openTags (feed.tags run.source.reading run.source.line) =
      .ok run'.source.openTags)
    (hwarnings : Warning.Noted run.session.warnings run'.session.warnings) :
    Recognizes dispatch run feed (.ok feed' run')
  /-- It fails with the first tag that does not fit. -/
  | refuses {run' : Run σ} {line : Nat} {name : String} {fault : Bracket.Fault}
    (htrace : Bracket.trace run.source.openTags (feed.tags run.source.reading run.source.line) =
      .error (line, name, fault)) :
    Recognizes dispatch run feed (.error (fault.error name ⟨run.source.path, line⟩) run')
  /-- It fails for another reason, after tags that all fit. -/
  | breaksOff {error : CompileError} {run' last : Run σ} {rest : Feed} (met : List (Nat × String))
    (hother : ¬ error.IsNesting)
    (hreached : Moment.Reached dispatch (.draining run feed) (.draining last rest))
    (hfails : Moment.next dispatch (.draining last rest) = .fails error run'.session run'.memory)
    (htags : feed.tags run.source.reading run.source.line =
      met ++ rest.tags last.source.reading last.source.line)
    (htrace : Bracket.trace run.source.openTags met = .ok last.source.openTags) :
    Recognizes dispatch run feed (.error error run')

section

variable {dispatch : Dispatch σ} {run next : Run σ} {feed after : Feed}
  {result : EStateM.Result CompileError (Run σ) Feed}

/-- What comes of a source comes of what is left of it after a step. -/
theorem Run.Recognizes.of_leads (met : List (Nat × String))
    (hleads : Moment.Leads dispatch (.draining run feed) (.draining next after))
    (htags : feed.tags run.source.reading run.source.line =
      met ++ after.tags next.source.reading next.source.line)
    (htrace : Bracket.trace run.source.openTags met = .ok next.source.openTags)
    (hpath : next.source.path = run.source.path)
    (hwarnings : Warning.Noted run.session.warnings next.session.warnings)
    (h : next.Recognizes dispatch after result) : run.Recognizes dispatch feed result := by
  have hall := Bracket.trace_append htrace (after.tags next.source.reading next.source.line)
  rw [← htags] at hall
  cases h with
  | accepts hend hrest hnoted => exact .accepts hend (hall.trans hrest) (hwarnings.trans hnoted)
  | refuses hrest =>
    rw [hpath]
    exact .refuses (hall.trans hrest)
  | @breaksOff error run' last rest met' hother hreached hfails htags' htrace' =>
    refine .breaksOff (met ++ met') hother (.head hleads hreached) hfails ?_ ?_
    · rw [htags, htags', List.append_assoc]
    · rw [Bracket.trace_append htrace, htrace']

/-- **Every source** that is read with such handlers is read as its tags say. -/
theorem recognizes_drain (h : dispatch.Nests) (run : Run σ) (hrunning : run.source.paused = false)
    (feed : Feed) : run.Recognizes dispatch feed (drain dispatch feed run) := by
  have hnext := @Moment.next_running σ dispatch run hrunning feed
  have hmeets (before : Bytes) (d : Markup.Directive) (after : Feed) :=
    meets_meet h before d after.atEnd run
  unfold Run.Meets at hmeets
  rw [drain_running hrunning]
  have htags := feed.tags_eq run.source.reading run.source.line
  cases hstep : feed.step run.source.reading with
  | done =>
    rw [hstep] at htags
    refine .accepts (atEnd_of_step hstep) ?_ (.refl _)
    rw [htags]
    rfl
  | newLine after =>
    rw [hstep] at htags hnext
    exact (recognizes_drain h run.nextLine hrunning after).of_leads [] hnext htags rfl rfl (.refl _)
  | checked after =>
    rw [hstep] at htags hnext
    exact (recognizes_drain h run hrunning after).of_leads [] hnext htags rfl rfl (.refl _)
  | forbidden =>
    rw [hstep] at hnext
    exact .breaksOff [] id .refl hnext rfl rfl
  | text content after =>
    rw [hstep] at htags hnext
    have hrest := recognizes_drain h { run with session := run.session.write content } hrunning after
    exact hrest.of_leads [] hnext htags rfl rfl (.refl _)
  | directive before d after =>
    rw [hstep] at htags hnext
    have hmeets := hmeets before d after
    dsimp only at htags hnext ⊢
    cases hmeet : meet dispatch before d after.atEnd run with
    | ok u next =>
      rw [hmeet] at hmeets hnext
      cases htrace : Bracket.trace run.source.openTags (d.tags run.source.line) with
      | error fault =>
        -- a tag that does not fit is not met
        rw [htrace] at hmeets
        exact hmeets.elim
      | ok opened =>
        rw [htrace] at hmeets
        obtain ⟨habides, hopened, hreading⟩ := hmeets
        refine (recognizes_drain h _ (habides.paused.trans hrunning) after).of_leads _ hnext ?_
          (hopened ▸ htrace) habides.path habides.warnings
        rw [htags, hreading, habides.line]
    | error error run' =>
      rw [hmeet] at hmeets hnext
      by_cases hnesting : error.IsNesting
      · -- handlers complain of nesting nowhere but at a tag that does not fit
        cases htrace : Bracket.trace run.source.openTags (d.tags run.source.line) with
        | ok opened =>
          rw [htrace] at hmeets
          exact absurd hnesting hmeets
        | error found =>
          obtain ⟨line, name, fault⟩ := found
          rw [htrace] at hmeets
          obtain rfl := hmeets hnesting
          refine .refuses ?_
          rw [htags]
          exact Bracket.trace_append_error htrace _
      · exact .breaksOff [] hnesting .refl hnext rfl rfl
termination_by feed.size
decreasing_by
  all_goals exact Feed.size_lt_of_step (by rw [hstep]; rfl)

end

/-! ## Compiles -/

namespace Session

/-- The tags that are met in a source, each with its line. -/
def tagsOf (session : Session) (source : Source) : List (Nat × String) :=
  (Feed.ofText (session.textOf source)).tags .directives 0

/-- Only nesting makes the turn of a source fail, if anything does. -/
def Undisturbed (dispatch : Dispatch σ) (session : Session) (source : Source)
    (waiting : List Source) (memory : σ) : Prop :=
  ∀ error run, session.turn dispatch source waiting memory = .error error run → error.IsNesting

open Bracket in
/-- The turn of a source comes out as its paired tags say. -/
structure Recognizes (dispatch : Dispatch σ) (session : Session) (source : Source)
    (waiting : List Source) (memory : σ) : Prop where
  /-- Between `literal` or `comment` and its end tag there are no tags. -/
  ignores : ∀ before line kind after, session.tagsOf source = before ++ (line, kind) :: after →
    kind = "literal" ∨ kind = "comment" → ∀ tag ∈ after.head?, tag.2 = "end" ++ kind
  /-- An error of nesting is that of the first tag that does not fit. -/
  refused : ∀ error run, session.turn dispatch source waiting memory = .error error run →
    error.IsNesting → ∃ line name fault, Faults (session.tagsOf source) line name fault ∧
      error = fault.error name ⟨source.path, line⟩
  /-- A tag that does not fit is refused, unless another error came first. -/
  refuses : ∀ line name fault, Faults (session.tagsOf source) line name fault →
    session.Undisturbed dispatch source waiting memory →
    ∃ run, session.turn dispatch source waiting memory =
      .error (fault.error name ⟨source.path, line⟩) run
  /-- Another error comes after tags that all fit. -/
  disturbed : ∀ error run, session.turn dispatch source waiting memory = .error error run →
    ¬ error.IsNesting → ∃ met last rest, Moment.Reached dispatch
        (.draining (session.beginTurn source waiting memory) (Feed.ofText (session.textOf source)))
        (.draining last rest) ∧
      Moment.next dispatch (.draining last rest) = .fails error run.session run.memory ∧
      session.tagsOf source = met ++ rest.tags last.source.reading last.source.line ∧
      Leaves last.source.openTags (ofTags met)
  /-- At the end the openers are open that have no end tag, and there is one warning of the innermost
  of them. -/
  ends : ∀ feed run, session.turn dispatch source waiting memory = .ok feed run →
    feed.atEnd = true ∧ Leaves run.source.openTags (ofTags (session.tagsOf source)) ∧
    ∃ noted, (∀ warning ∈ noted, ¬ warning.NamesPair) ∧
      (run.session.settle run.source feed).warnings = session.warnings ++ noted ++
        (run.source.openTags.head?.map fun kind =>
          ⟨kind ++ " tag was never closed", run.source.location⟩).toList
  /-- A source is accepted without a complaint exactly if its paired tags are balanced. -/
  accepts : session.Undisturbed dispatch source waiting memory →
    ((∃ feed run, session.turn dispatch source waiting memory = .ok feed run ∧
        ∃ noted, (run.session.settle run.source feed).warnings = session.warnings ++ noted ∧
          ∀ warning ∈ noted, ¬ warning.NamesPair) ↔
      Balanced none (ofTags (session.tagsOf source)))

theorem warnings_settle {session : Session} {source : Source} {feed : Feed}
    (hend : feed.atEnd = true) :
    (session.settle source feed).warnings = session.warnings ++
      (source.openTags.head?.map fun kind =>
        (⟨kind ++ " tag was never closed", source.location⟩ : Warning)).toList := by
  unfold settle Hierarchy.top? Source.openTags
  rw [if_pos hend, List.head?_map]
  cases source.hierarchy.frames.head? with
  | none => exact (List.append_nil _).symm
  | some frame => rfl

section

open Bracket

variable {dispatch : Dispatch σ} {session : Session} {source : Source} {waiting : List Source}
  {memory : σ} {feed : Feed} {run : Run σ} {error : CompileError} (h : dispatch.Nests)
  (hnew : source.IsNew)
include hnew

/-- A new source is read from its beginning, with nothing open. -/
theorem beginTurn_of_isNew : (session.beginTurn source waiting memory).source.openTags = [] ∧
    Feed.tags (session.beginTurn source waiting memory).source.reading
      (session.beginTurn source waiting memory).source.line (Feed.ofText (session.textOf source)) =
      session.tagsOf source := by
  show source.openTags = [] ∧ Feed.tags source.reading source.line _ = _
  rw [hnew]
  exact ⟨rfl, rfl⟩

include h

theorem recognizes_turn : Run.Recognizes dispatch (session.beginTurn source waiting memory)
    (Feed.ofText (session.textOf source)) (session.turn dispatch source waiting memory) :=
  recognizes_drain h _ (by show source.paused = false; rw [hnew]) _

theorem turn_ok (hturn : session.turn dispatch source waiting memory = .ok feed run) :
    feed.atEnd = true ∧ Leaves run.source.openTags (ofTags (session.tagsOf source)) ∧
    ∃ noted, (∀ warning ∈ noted, ¬ warning.NamesPair) ∧
      (run.session.settle run.source feed).warnings = session.warnings ++ noted ++
        (run.source.openTags.head?.map fun kind =>
          (⟨kind ++ " tag was never closed", run.source.location⟩ : Warning)).toList := by
  have hturns : Run.Recognizes dispatch (session.beginTurn source waiting memory) _ _ :=
    recognizes_turn h hnew
  obtain ⟨hopened, hreads⟩ := @beginTurn_of_isNew σ session source waiting memory hnew
  rw [hturn] at hturns
  cases hturns with
  | accepts hend htrace hwarnings =>
    rw [hreads, hopened] at htrace
    obtain ⟨noted, heq, hnoted⟩ := hwarnings
    refine ⟨hend, trace_ok_iff.1 htrace, noted, hnoted, ?_⟩
    rw [warnings_settle hend, heq]
    rfl

theorem turn_nesting (hturn : session.turn dispatch source waiting memory = .error error run)
    (hnesting : error.IsNesting) : ∃ line name fault,
      Faults (session.tagsOf source) line name fault ∧
        error = fault.error name ⟨source.path, line⟩ := by
  have hturns : Run.Recognizes dispatch (session.beginTurn source waiting memory) _ _ :=
    recognizes_turn h hnew
  obtain ⟨hopened, hreads⟩ := @beginTurn_of_isNew σ session source waiting memory hnew
  rw [hturn] at hturns
  cases hturns with
  | refuses htrace =>
    rw [hreads, hopened] at htrace
    exact ⟨_, _, _, trace_error_iff.1 htrace, rfl⟩
  | breaksOff met hother => exact absurd hnesting hother

theorem turn_disturbed (hturn : session.turn dispatch source waiting memory = .error error run)
    (hother : ¬ error.IsNesting) : ∃ met last rest, Moment.Reached dispatch
        (.draining (session.beginTurn source waiting memory) (Feed.ofText (session.textOf source)))
        (.draining last rest) ∧
      Moment.next dispatch (.draining last rest) = .fails error run.session run.memory ∧
      session.tagsOf source = met ++ rest.tags last.source.reading last.source.line ∧
      Leaves last.source.openTags (ofTags met) := by
  have hturns : Run.Recognizes dispatch (session.beginTurn source waiting memory) _ _ :=
    recognizes_turn h hnew
  obtain ⟨hopened, hreads⟩ := @beginTurn_of_isNew σ session source waiting memory hnew
  rw [hturn] at hturns
  cases hturns with
  | refuses => exact absurd (Fault.isNesting_error _ _ _) hother
  | breaksOff met _ hreached hfails htags htrace =>
    rw [hreads] at htags
    rw [hopened] at htrace
    exact ⟨met, _, _, hreached, hfails, htags, trace_ok_iff.1 htrace⟩

/-- **Turns**: a new source is read as its paired tags say. -/
theorem recognizes_of_isNew : session.Recognizes dispatch source waiting memory where
  ignores _ _ _ _ htags hkind := Feed.name_of_tags hkind htags
  refused _ _ hturn hnesting := turn_nesting h hnew hturn hnesting
  refuses line name fault hfaults hundisturbed := by
    cases hturn : session.turn dispatch source waiting memory with
    | ok feed run => exact absurd (turn_ok h hnew hturn).2.1 hfaults.not_leaves
    | error error run =>
      obtain ⟨line', name', fault', hfaults', rfl⟩ :=
        turn_nesting h hnew hturn (hundisturbed error run hturn)
      obtain ⟨rfl, rfl, rfl⟩ := hfaults.unique hfaults'
      exact ⟨run, rfl⟩
  disturbed _ _ hturn hother := turn_disturbed h hnew hturn hother
  ends _ _ hturn := turn_ok h hnew hturn
  accepts hundisturbed := by
    refine ⟨?_, fun hbalanced => ?_⟩
    · rintro ⟨feed, run, hturn, noted, hwarnings, hnoted⟩
      obtain ⟨-, hleaves, noted', -, hall⟩ := turn_ok h hnew hturn
      cases hopen : run.source.openTags with
      | nil => exact leaves_nil_iff.1 (hopen ▸ hleaves)
      | cons kind rest =>
        -- the warning of what is left open would be among those that name no pair
        rw [hwarnings, hopen, List.append_assoc] at hall
        have hmem : ⟨kind ++ " tag was never closed", run.source.location⟩ ∈ noted := by
          rw [List.append_cancel_left hall]
          exact List.mem_append_right _ List.mem_cons_self
        refine absurd ⟨kind, ?_, rfl⟩ (hnoted _ hmem)
        exact mem_kinds (hleaves.mem kind (hopen ▸ List.mem_cons_self))
    · cases hturn : session.turn dispatch source waiting memory with
      | error error run =>
        obtain ⟨line, name, fault, hfaults, -⟩ :=
          turn_nesting h hnew hturn (hundisturbed error run hturn)
        exact absurd (leaves_nil_iff.2 hbalanced) hfaults.not_leaves
      | ok feed run =>
        obtain ⟨-, hleaves, noted, hnoted, hwarnings⟩ := turn_ok h hnew hturn
        rw [hleaves.unique (leaves_nil_iff.2 hbalanced)] at hwarnings
        exact ⟨feed, run, rfl, noted, hwarnings.trans (List.append_nil _), hnoted⟩

end

end Session

namespace Compiler

/-- **Nesting** is recognized: whenever a source begins its turn in a compile with the standard library,
it is refused with the first of its paired tags that does not fit, or it is read to its end with a
warning of the innermost tag that was left open, so that it is accepted without a complaint exactly if
its paired tags are balanced. -/
theorem recognizes {compiler : Compiler σ} (hlibrary : compiler.library = .standard)
    {id template destination : String} {world : World σ} {session : Session} {memory : σ}
    {source : Source} {waiting : List Source}
    (hpasses : compiler.Passes id template destination world (.between session memory))
    (hwaiting : session.waiting = source :: waiting) :
    session.Recognizes (compiler.library.dispatch compiler.limits.depth) source waiting memory := by
  have hline : session.InLine compiler.workspace fun _ => True :=
    hpasses.inLine hlibrary fun _ _ => trivial
  obtain ⟨_, -, -, -, hqueue⟩ := hline.line
  obtain ⟨first, hqueues, -⟩ := hqueue.resolve_left fun hnone => by
    rw [hnone] at hwaiting
    cases hwaiting
  obtain ⟨rfl, rfl⟩ := List.cons.inj (hwaiting.symm.trans hqueues.waiting)
  rw [hlibrary]
  exact Session.recognizes_of_isNew (nests_standard _) hqueues.isNew

/-- A template with a tag that does not fit after text that is copied. -/
def crossing : List (String × String) :=
  [("a", "\x7b% if x %\x7d\n\x7b% literal %\x7d\x7b% endfor %\x7d\x7b% endliteral %\x7d\n\x7b% endfor %\x7d")]

/-- Whether its tags are those that are read in this template. -/
def beginsCrossing : Moment Unit → Bool
  | .between session _ =>
    match session.waiting with
    | [source] => Feed.tagsWithin 50 .directives 0 (Feed.ofText (session.textOf source)) ==
        some [(1, "if"), (2, "literal"), (2, "endliteral"), (3, "endfor")]
    | _ => false
  | .draining .. => false

/-- What is copied is not read, and the tag that does not fit is refused. -/
theorem recognizes_crossing : (ofTexts crossing).library = .standard ∧
    ∃ session source, (ofTexts crossing).Passes "s" "a" "a" ⟨.empty, ⟨⟩⟩ (.between session ⟨⟩) ∧
      session.waiting = [source] ∧
      session.tagsOf source = [(1, "if"), (2, "literal"), (2, "endliteral"), (3, "endfor")] ∧
      session.Recognizes ((ofTexts crossing).library.dispatch (ofTexts crossing).limits.depth) source
        [] ⟨⟩ := by
  have hcheck : ((ofTexts crossing).trail 40 "s" "a" "a" ⟨.empty, ⟨⟩⟩).any (·.any beginsCrossing) =
      true := by
    decide +kernel
  obtain ⟨m, hpasses, hm⟩ := exists_passes _ hcheck
  cases m with
  | draining run feed => cases hm
  | between session memory =>
    unfold beginsCrossing at hm
    dsimp only at hm
    split at hm
    · next source hwaiting =>
      exact ⟨rfl, session, source, hpasses, hwaiting, Feed.tags_of_within (eq_of_beq hm),
        recognizes rfl hpasses hwaiting⟩
    · cases hm

end Compiler

end TemplateCompiler
