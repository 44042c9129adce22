import TemplateCompiler.Proofs.Flow.Layers
import TemplateCompiler.Proofs.Inheritance.Chain
import TemplateCompiler.Proofs.RawCode.Artifact

/-!
# The structure of artifacts

The tags that a reader has open tell what is open in the artifacts. So the conditions and loops of
an artifact are closed in order if no source leaves a tag open and no block stands inside a block of
its name. The artifact is a structured program exactly if, besides, no condition has a branch after
its last one (`Compiler.structured_iff`).
-/
namespace TemplateCompiler

open Segment

variable {σ : Type} {inserted : String → Bytes}

/-! ## Blocks inside each other -/

/-- No block stands inside a block of its name, `names` being the blocks that are open. The first
outline is the text up to the end of the innermost one, and so on. -/
def Outline.Apart : List String → List Outline → Prop
  | _, [] => True
  | names, outline :: more =>
    (outline.IsProper ∧ ∀ name ∈ names, name ∉ outline.names) ∧ Apart names.tail more

namespace Outline.Apart

variable {names : List String} {outlines : List Outline} {name : String}

theorem of_write {passage : Passage}
    (h : Apart names (Event.nest inserted (.write passage) outlines)) : Apart names outlines := by
  cases outlines <;> exact h

theorem of_insert {requested : String}
    (h : Apart names (Event.nest inserted (.insert requested) outlines)) :
    Apart names outlines := by
  cases outlines <;> exact h

theorem of_openBlock (h : Apart names (Event.nest inserted (.openBlock name) outlines))
    (hlength : 2 ≤ outlines.length) : name ∉ names ∧ Apart (name :: names) outlines := by
  match outlines, hlength with
  | body :: rest :: more, _ =>
    obtain ⟨⟨⟨hself, hbody, hrest⟩, hnames⟩, hmore⟩ := h
    have hout (other : String) (hother : other ∈ names) :
        other ≠ name ∧ other ∉ body.names ∧ other ∉ rest.names := by
      have hnot := hnames other hother
      rw [Outline.names, List.mem_cons, List.mem_append, not_or, not_or] at hnot
      exact hnot
    refine ⟨fun hmem => (hout name hmem).1 rfl, ⟨hbody, ?_⟩, ⟨hrest, fun other hother =>
      (hout other hother).2.2⟩, hmore⟩
    intro other hother
    rcases List.mem_cons.1 hother with rfl | hother
    · exact hself
    · exact (hout other hother).2.1

theorem of_writes {events : List Event} (hwrites : Event.Writes events)
    (h : Apart names (events.foldr (Event.nest inserted) outlines)) : Apart names outlines := by
  induction events with
  | nil => exact h
  | cons event events ih =>
    obtain ⟨passage, rfl⟩ := hwrites event List.mem_cons_self
    exact ih (fun event hmem => hwrites event (List.mem_cons_of_mem _ hmem)) (of_write h)

end Outline.Apart

/-! ## Readings -/

namespace Reader

/-- The blocks that are open, the innermost first. -/
def names (reader : Reader) : List String :=
  reader.opened.filterMap (·.name?)

variable {reader next last : Reader} {may : String → Bytes → Prop} {desk : Desk Passage}
  {acts : List (Desk.Act Passage)} {outlines : List Outline}

/-- A tag never opens a block inside a block of its name, if no such block is to come. -/
theorem Moves.apart {tag : Tag} {effect : Effect} (h : Moves tag reader effect next)
    (hlength : outlines.length = next.depth + 1)
    (hapart : Outline.Apart reader.names (effect.events.foldr (Event.nest inserted) outlines)) :
    (∀ name, effect = .openBlock name → name ∉ reader.names) ∧
      Outline.Apart next.names outlines := by
  cases h with
  | openBlock =>
    have htwo : 2 ≤ outlines.length := by
      rw [hlength]
      exact Nat.le_add_left 2 _
    obtain ⟨hname, hrest⟩ := Outline.Apart.of_openBlock hapart htwo
    refine ⟨fun name heq => ?_, hrest⟩
    obtain rfl := Effect.openBlock.inj heq
    exact hname
  | closeBlock hopened =>
    refine ⟨nofun, ?_⟩
    have htail := hapart.2
    rwa [names, hopened] at htail
  | insert => exact ⟨nofun, Outline.Apart.of_insert hapart⟩
  | ifThen | elseIf | forEach | name | load | enter | extend | otherwise => exact ⟨nofun, hapart⟩
  | endIf hopened | forNone hopened | endFor hopened | endName hopened =>
    rw [names, hopened] at hapart
    exact ⟨nofun, hapart⟩

/-- What a tag writes and does changes the open tags and the desk in the same way. -/
theorem Moves.layered {tag : Tag} {effect : Effect} {fills : List Fill}
    (h : Moves tag reader effect next)
    (henacts : List.Forall₂ (Event.Enacts may) (.write (.tagged fills effect.statement?) ::
      effect.events) acts)
    (hname : ∀ name, effect = .openBlock name → name ∉ reader.names)
    (hfirst : reader.tagsSeen ≤ 1 → reader.opened = [])
    (hlayered : Desk.Layered reader.opened desk) : Desk.Layered next.opened (desk.play acts) := by
  obtain _ | ⟨hwrite, hrest⟩ := henacts
  obtain _ | _ | _ := hwrite
  -- a tag that leaves nothing open in the code
  have hplain (hstraight : Segment.isStraight
      (.tag effect.statement? (fills.map (·.slot))) = true) :
      Desk.Layered reader.opened (desk.put [.tagged fills effect.statement?]) :=
    hlayered.put (.tagged_straight fills hstraight) hlayered.settled
  cases h with
  | ifThen =>
    cases hrest
    exact hlayered.push (.condition false) (.tagged .ifThen)
  | elseIf hopened =>
    cases hrest
    rw [hopened] at hlayered ⊢
    refine hlayered.shift (fun constructs hopens => ?_) rfl
    cases hopens with
    | condition last => exact ⟨_, .condition last, .tagged (.elseIf nofun)⟩
  | otherwise hopened =>
    cases hrest
    rw [hopened] at hlayered ⊢
    refine hlayered.shift (fun constructs hopens => ?_) rfl
    cases hopens with
    | condition last => exact ⟨_, .condition true, .tagged (.otherwise nofun)⟩
  | endIf hopened =>
    cases hrest
    rw [hopened] at hlayered
    refine hlayered.pop (fun constructs hopens => ?_) rfl
    cases hopens
    exact .tagged .endIf
  | forEach =>
    cases hrest
    exact hlayered.push (.loop false) (.tagged .forEach)
  | forNone hopened =>
    cases hrest
    rw [hopened] at hlayered
    refine hlayered.shift (fun constructs hopens => ?_) rfl
    cases hopens
    exact ⟨_, .loop true, .tagged .forNone⟩
  | endFor hopened =>
    cases hrest
    rw [hopened] at hlayered
    refine hlayered.pop (fun constructs hopens => ?_) rfl
    cases hopens
    exact .tagged .endFor
  | name =>
    cases hrest
    exact hlayered.push .naming (.tagged_straight fills rfl)
  | endName hopened =>
    cases hrest
    rw [hopened] at hlayered
    refine hlayered.pop (fun constructs hopens => ?_) rfl
    cases hopens
    exact .tagged_straight fills rfl
  | @openBlock name =>
    obtain _ | ⟨hopen, hnil⟩ := hrest
    cases hopen
    cases hnil
    refine (hplain rfl).openBlock ?_
    rw [(hplain rfl).names.1, List.mem_reverse]
    exact hname name rfl
  | closeBlock hopened =>
    obtain _ | ⟨hclose, hnil⟩ := hrest
    cases hclose
    cases hnil
    rw [hopened] at hplain
    exact (hplain rfl).closeBlock
  | extend hseen =>
    obtain _ | ⟨hextend, hnil⟩ := hrest
    cases hextend
    cases hnil
    have hnone := hfirst (Nat.le_of_not_lt hseen)
    rw [hnone] at hplain ⊢
    exact (hplain rfl).silence
  | load =>
    cases hrest
    exact hplain rfl
  | insert =>
    obtain _ | ⟨hinsert, hnil⟩ := hrest
    cases hinsert
    cases hnil
    exact (hplain rfl).put (.cons (.straight rfl) .nil) (hplain rfl).settled
  | enter =>
    cases hrest
    exact hplain rfl

theorem Meets.layered {d : Markup.Directive} {events : List Event} (h : Meets reader d events next)
    (henacts : List.Forall₂ (Event.Enacts may) events acts)
    (hname : ∀ name, .openBlock name ∈ events → name ∉ reader.names)
    (hfirst : reader.tagsSeen = 0 → reader.opened = [])
    (hlayered : Desk.Layered reader.opened desk) : Desk.Layered next.opened (desk.play acts) := by
  cases h with
  | shown =>
    obtain _ | ⟨hwrite, hnil⟩ := henacts
    cases hwrite
    cases hnil
    exact hlayered.put (.cons (.straight rfl) .nil) hlayered.settled
  | resumed =>
    cases henacts
    exact hlayered
  | tagged hmode hread hfill hmoves =>
    refine hmoves.layered henacts (fun name heq => hname name ?_)
      (fun hseen => hfirst (Nat.le_zero.1 (Nat.le_of_succ_le_succ hseen))) hlayered
    rw [heq]
    exact List.mem_cons_of_mem _ List.mem_cons_self

/-- A directive never opens a block inside a block of its name, if no such block is to come. -/
theorem Meets.apart {d : Markup.Directive} {events : List Event} (h : Meets reader d events next)
    (hlength : outlines.length = next.depth + 1)
    (hapart : Outline.Apart reader.names (events.foldr (Event.nest inserted) outlines)) :
    (∀ name, .openBlock name ∈ events → name ∉ reader.names) ∧
      Outline.Apart next.names outlines := by
  cases h with
  | shown =>
    exact ⟨fun name hmem => (nomatch List.mem_singleton.1 hmem), Outline.Apart.of_write hapart⟩
  | resumed => exact ⟨nofun, hapart⟩
  | @tagged tag fills params slots effect next hmode hread hfill hmoves =>
    obtain ⟨hname, hrest⟩ := hmoves.apart hlength (Outline.Apart.of_write hapart)
    refine ⟨fun name hmem => hname name ?_, hrest⟩
    have hevent := (List.mem_cons.1 hmem).resolve_left Event.noConfusion
    cases effect with
    | openBlock other => rw [Event.openBlock.inj (List.mem_singleton.1 hevent)]
    | none | emit => exact nomatch hevent
    | insert | closeBlock | extend => exact nomatch List.mem_singleton.1 hevent

/-- Something is open only if a tag was seen. -/
theorem Meets.opened_of_tagsSeen {d : Markup.Directive} {events : List Event}
    (h : Meets reader d events next) (hfirst : reader.tagsSeen = 0 → reader.opened = []) :
    next.tagsSeen = 0 → next.opened = [] := by
  cases h with
  | shown => exact hfirst
  | resumed => exact fun hseen => nomatch hseen
  | tagged hmode hread hfill hmoves =>
    intro hseen
    rw [hmoves.tagsSeen] at hseen
    cases hseen

end Reader

/-- What events are followed by others do, they do first. -/
theorem Event.exists_of_append {may : String → Bytes → Prop} {first second : List Event}
    {acts : List (Desk.Act Passage)} (h : List.Forall₂ (Enacts may) (first ++ second) acts) :
    ∃ before after, acts = before ++ after ∧ List.Forall₂ (Enacts may) first before ∧
      List.Forall₂ (Enacts may) second after :=
  ⟨acts.take first.length, acts.drop first.length, (List.take_append_drop _ _).symm,
    (List.forall₂_take_append _ _ _ h.flip).flip, (List.forall₂_drop_append _ _ _ h.flip).flip⟩

namespace Reader

variable {reader last : Reader} {may : String → Bytes → Prop} {desk : Desk Passage}
  {acts : List (Desk.Act Passage)}

theorem layered_chunk {content : Bytes}
    (henacts : List.Forall₂ (Event.Enacts may) (reader.chunk content) acts)
    (hlayered : Desk.Layered reader.opened desk) :
    Desk.Layered reader.opened (desk.play acts) := by
  have hwrites := reader.writes_chunk content
  unfold chunk at henacts
  split at henacts
  · obtain _ | ⟨hwrite, hnil⟩ := henacts
    cases hwrite
    cases hnil
    exact hlayered.put (.cons (.straight rfl) .nil) hlayered.settled
  · obtain _ | ⟨hwrite, hnil⟩ := henacts
    cases hwrite
    cases hnil
    exact hlayered.put (.cons (.straight rfl) .nil) hlayered.settled
  · cases henacts
    exact hlayered

/-- **Layers along a reading**: the open tags of the reader at the end are the layers of the desk. -/
theorem Reads.layered {feed : Feed} {events : List Event} (h : Reads reader feed events last)
    (hdepth : last.depth = 0) (henacts : List.Forall₂ (Event.Enacts may) events acts)
    (hapart : Outline.Apart reader.names (events.foldr (Event.nest inserted) [.nil]))
    (hfirst : reader.tagsSeen = 0 → reader.opened = [])
    (hlayered : Desk.Layered reader.opened desk) : Desk.Layered last.opened (desk.play acts) := by
  induction h generalizing desk acts with
  | done =>
    cases henacts
    exact hlayered
  | newLine _ _ ih => exact ih hdepth henacts hapart hfirst hlayered
  | checked _ _ ih => exact ih hdepth henacts hapart hfirst hlayered
  | @text reader _ _ _ content _ _ _ ih =>
    obtain ⟨before, after, rfl, hbefore, hafter⟩ := Event.exists_of_append henacts
    rw [List.foldr_append] at hapart
    rw [Desk.play_append]
    exact ih hdepth hafter (hapart.of_writes (reader.writes_chunk content)) hfirst
      (layered_chunk hbefore hlayered)
  | @directive reader next _ _ _ text _ first events _ hmeets hreads ih =>
    obtain ⟨middle, after, rfl, hmiddle, hafter⟩ := Event.exists_of_append henacts
    obtain ⟨before, inner, rfl, hbefore, hinner⟩ := Event.exists_of_append hmiddle
    rw [List.foldr_append, List.foldr_append] at hapart
    -- the outlines of what follows tell which blocks are still to come inside of the open ones
    have hnests : Event.Nests inserted events next.depth _ := hreads.nests
    have hlength := (hnests [.nil] (by rw [hdepth]; rfl)).1
    obtain ⟨hname, hrest⟩ :=
      hmeets.apart hlength (hapart.of_writes (reader.writes_chunk text))
    rw [Desk.play_append, Desk.play_append]
    exact ih hdepth hafter hrest (hmeets.opened_of_tagsSeen hfirst)
      (hmeets.layered hinner hname hfirst (layered_chunk hbefore hlayered))

end Reader

/-! ## Artifacts -/

/-- A source that leaves nothing open leaves nothing open in the artifacts. -/
theorem Page.layered {page : Page} {may : String → Bytes → Prop} {desk : Desk Passage}
    {acts : List (Desk.Act Passage)} (h : page.IsWhole)
    (henacts : List.Forall₂ (Event.Enacts may) page.events acts)
    (hproper : (page.outline inserted).IsProper) (hlayered : Desk.Layered [] desk) :
    Desk.Layered [] (desk.play acts) := by
  rw [page.events_eq h] at henacts
  obtain _ | ⟨hturn, hbody⟩ := henacts
  cases hturn
  obtain ⟨reader, feed, hreads, hopened⟩ := h.read
  have hdepth : page.last.depth = 0 := by
    rw [Reader.depth, h.closed.2]
    rfl
  have hapart : Outline.Apart reader.names (page.body.foldr (Event.nest inserted) [.nil]) := by
    rw [(page.foldr_nest inserted h).1, Reader.names, hopened]
    exact ⟨⟨hproper, fun name hmem => absurd hmem List.not_mem_nil⟩, trivial⟩
  have hlast := hreads.layered hdepth hbody hapart (fun _ => hopened) (hopened ▸ hlayered.turn)
  rwa [h.closed.2] at hlast

theorem Page.layered_all {pages : List Page} {may : String → Bytes → Prop} {desk : Desk Passage}
    {acts : List (Desk.Act Passage)} (hwhole : ∀ page ∈ pages, page.IsWhole)
    (henacts : List.Forall₂ (Event.Enacts may) (pages.flatMap (·.events)) acts)
    (hproper : ∀ page ∈ pages, (page.outline inserted).IsProper)
    (hlayered : Desk.Layered [] desk) : Desk.Layered [] (desk.play acts) := by
  induction pages generalizing desk acts with
  | nil =>
    cases henacts
    exact hlayered
  | cons page pages ih =>
    obtain ⟨before, after, rfl, hbefore, hafter⟩ := Event.exists_of_append henacts
    rw [Desk.play_append]
    exact ih (fun page hmem => hwhole page (List.mem_cons_of_mem _ hmem)) hafter
      (fun page hmem => hproper page (List.mem_cons_of_mem _ hmem))
      (Page.layered (hwhole page List.mem_cons_self) hbefore (hproper page List.mem_cons_self)
        hlayered)

theorem Desk.layered_beginning (store : String → Option Bytes) :
    Layered [] (beginning store) := by
  refine .ground rfl .nil fun name stored hstored => ?_
  obtain ⟨content, -, rfl⟩ := Option.map_eq_some_iff.1 hstored
  exact .cons (.straight rfl) .nil

/-- **The structure of artifacts**: if no source leaves a tag open and no block stands inside a block
of its name, the conditions and loops of an artifact are closed in order. It is a structured program
exactly if no condition has a branch after its last one. -/
theorem Compiler.structured_iff {compiler : Compiler σ} {id template destination : String}
    {world world' : World σ} {report : Report} {job : Job} {store : String → Option Bytes}
    {pages : List Page}
    (h : compiler.Compiles id template destination world report world' job)
    (hstored : job.Stored store)
    (hpages : compiler.pages id template destination world = some pages)
    (hclosed : ∀ warning ∈ report.warnings, ¬ warning.IsUnclosed)
    (hproper : ∀ page ∈ pages, (page.outline job.copied).IsProper) :
    ∃ acts, List.Forall₂ (Event.Enacts job.Inserted) (pages.flatMap (·.events)) acts ∧
      world'.disk.read? report.artifact = some ((Desk.written store acts).flatMap Passage.bytes) ∧
      Passage.Scans (Desk.written store acts) [] [] ∧
      ((∃ flow : Flow .code,
          flow.segments = (Desk.written store acts).flatMap Passage.segments) ↔
        ¬ HasStrayBranch ((Desk.written store acts).flatMap Passage.segments)) := by
  obtain ⟨read, acts, hread, henacts, hartifact, hall⟩ := h.pages hstored
  obtain rfl : pages = read := Option.some.inj (hpages.symm.trans hread)
  have hwhole : ∀ page ∈ pages, page.IsWhole := by
    intro page hmem
    refine Page.isWhole_of_readPages hpages hmem ((hall page hmem).resolve_right ?_)
    rintro ⟨warning, hwarning, hunclosed⟩
    exact hclosed warning hwarning hunclosed
  have hlayered := Page.layered_all hwhole henacts hproper (Desk.layered_beginning store)
  have hscans : Passage.Scans (Desk.written store acts) [] [] := by
    generalize hdesk : (Desk.beginning store).play acts = desk at hlayered
    obtain ⟨-, hmain, -⟩ := hlayered
    rwa [← hdesk] at hmain
  exact ⟨acts, henacts, hartifact, hscans, exists_flow_iff hscans⟩

theorem Segment.isStraight_neutral : Segment.neutral.isStraight = true := rfl

theorem Segment.isStraight_idle : (Segment.tag none []).isStraight = true := rfl

/-- Some text, and then the rest. -/
def Flow.text (rest : Flow .code) : Flow .code :=
  .straight .neutral Segment.isStraight_neutral rest

/-- A tag that only the compile knows, and then the rest. -/
def Flow.idle (rest : Flow .code) : Flow .code :=
  .straight (.tag none []) Segment.isStraight_idle rest

/-- A template with a loop in a block in a condition. -/
def branching : List (String × String) :=
  [("a", "\x7b% if b %\x7d\x7b% block m %\x7d\x7b% for i in l %\x7dx\x7b% empty %\x7dy" ++
    "\x7b% endfor %\x7d\x7b% endblock %\x7d\x7b% elseif c %\x7dz\x7b% else %\x7dw\x7b% endif %\x7d")]

/-- Its artifact as a program. -/
def branchingFlow : Flow .code :=
  .text <| .choice [.value (.var "b")] []
    (.text <| .idle <| .text <|
      .loopOr (.var "l") (.var "i") [] (.text .done) [] (.text .done) [] <|
      .text <| .idle <| .text .done)
    (.elseIf [.value (.var "c")] [] (.text .done) (.otherwise [] (.text .done) []))
    .done

/-- No condition of the artifact has a branch after its last one. -/
theorem Compiler.structured_branching :
    ∃ (report : Report) (pages : List Page) (world' : World Unit),
      (Compiler.ofTexts branching).compileTo "s" "a" "a" ⟨.empty, ⟨⟩⟩ = .ok report world' ∧
        world'.disk.read? report.artifact = some ((Page.written pages).flatMap Passage.bytes) ∧
        branchingFlow.segments = (Page.written pages).flatMap Passage.segments ∧
        Passage.Scans (Page.written pages) [] [] ∧
        ¬ HasStrayBranch ((Page.written pages).flatMap Passage.segments) := by
  obtain ⟨report, pages, world', hproperty, hpages, h⟩ := Compiler.exists_compiles branching
    (fun report pages _ =>
      let copied :=
        ((Compiler.ofTexts branching).workspace.job "s" "a" report.artifact .empty).copied
      decide ((∀ page ∈ pages, page.isChecked = true) ∧ report.warnings = [] ∧
        (∀ page ∈ pages, (page.outline copied).IsProper) ∧
        branchingFlow.segments = (Page.written pages).flatMap Passage.segments))
    (by decide +kernel)
  obtain ⟨hchecked, hwarnings, hproper, hsegments⟩ := of_decide_eq_true hproperty
  obtain ⟨acts, henacts, hartifact, hscans, hiff⟩ :=
    Compiler.structured_iff h (Job.stored_empty rfl) hpages
      (by
        rw [hwarnings]
        exact fun warning hwarning => nomatch hwarning) hproper
  rw [Page.written_eq hchecked henacts] at hartifact hscans hiff
  exact ⟨report, pages, world', h.result, hartifact, hsegments, hscans, hiff.1 ⟨_, hsegments⟩⟩

/-- A template whose condition has two last branches. -/
def doubleElse : List (String × String) :=
  [("a", "\x7b% if b %\x7dx\x7b% else %\x7dy\x7b% else %\x7dz\x7b% endif %\x7d")]

/-- A second `else` is taken over into the artifact, which then is no program. -/
theorem Compiler.exists_not_structured :
    ∃ (report : Report) (pages : List Page) (world' : World Unit),
      (Compiler.ofTexts doubleElse).compileTo "s" "a" "a" ⟨.empty, ⟨⟩⟩ = .ok report world' ∧
        (Compiler.ofTexts doubleElse).pages "s" "a" "a" ⟨.empty, ⟨⟩⟩ = some pages ∧
        report.warnings = [] ∧
        world'.disk.read? report.artifact = some ((Page.written pages).flatMap Passage.bytes) ∧
        world'.disk.read? report.artifact = some (Utf8.encode
          ("<?php if($this->vars->b): ?>x<?php else: ?>y<?php else: ?>z<?php endif; ?>")) ∧
        ¬ ∃ flow : Flow .code, flow.segments = (Page.written pages).flatMap Passage.segments := by
  obtain ⟨report, pages, world', hproperty, hpages, h⟩ := Compiler.exists_compiles doubleElse
    (fun report pages disk => decide (report.warnings = [] ∧
      disk.read? report.artifact = some ((Page.written pages).flatMap Passage.bytes) ∧
      disk.read? report.artifact = some (Utf8.encode
        ("<?php if($this->vars->b): ?>x<?php else: ?>y<?php else: ?>z<?php endif; ?>")) ∧
      (Page.written pages).flatMap Passage.segments =
        [.neutral, .tag (some (.ifThen [.value (.var "b")])) [], .neutral] ++
          .tag (some .otherwise) [] ::
            ([.neutral] ++ .tag (some .otherwise) [] :: [.neutral, .tag (some .endIf) []])))
    (by decide +kernel)
  obtain ⟨hwarnings, hartifact, htext, hsegments⟩ := of_decide_eq_true hproperty
  refine ⟨report, pages, world', h.result, hpages, hwarnings, hartifact, htext, ?_⟩
  rintro ⟨flow, hflow⟩
  refine (flow.scans true []).not_hasStrayBranch ?_
  rw [hflow, hsegments]
  exact ⟨_, [], .straight .neutral rfl .done, _, _, rfl, rfl⟩

/-- A template with a block inside a block of its name, in an open condition. -/
def selfNested : List (String × String) :=
  [("a", "\x7b% block m %\x7d\x7b% if b %\x7d\x7b% block m %\x7d\x7b% endblock %\x7d" ++
    "\x7b% endif %\x7d\x7b% endblock %\x7d")]

/-- The segments of its artifact. -/
def selfNestedSegments : List Segment :=
  [.neutral, .tag none [], .neutral, .tag (some (.ifThen [.value (.var "b")])) [], .neutral,
    .tag none [], .neutral, .tag (some (.ifThen [.value (.var "b")])) [], .neutral, .tag none [],
    .neutral, .tag (some .endIf) [], .neutral, .tag none []]

theorem scans_selfNested : Scans false selfNestedSegments [] [.condition false] :=
  .cons (.straight rfl) <| .cons (.straight rfl) <| .cons (.straight rfl) <| .cons .ifThen <|
  .cons (.straight rfl) <| .cons (.straight rfl) <| .cons (.straight rfl) <| .cons .ifThen <|
  .cons (.straight rfl) <| .cons (.straight rfl) <| .cons (.straight rfl) <| .cons .endIf <|
  .cons (.straight rfl) <| .cons (.straight rfl) .nil

/-- A block inside a block of its name is shown as far as the outer one has come, so a condition that
is open between the two is opened twice and closed once. -/
theorem Compiler.exists_not_scans :
    ∃ (report : Report) (pages : List Page) (world' : World Unit),
      (Compiler.ofTexts selfNested).compileTo "s" "a" "a" ⟨.empty, ⟨⟩⟩ = .ok report world' ∧
        report.warnings = [] ∧
        world'.disk.read? report.artifact = some ((Page.written pages).flatMap Passage.bytes) ∧
        ¬ Passage.Scans (Page.written pages) [] [] := by
  obtain ⟨report, pages, world', hproperty, -, h⟩ := Compiler.exists_compiles selfNested
    (fun report pages disk => decide (report.warnings = [] ∧
      disk.read? report.artifact = some ((Page.written pages).flatMap Passage.bytes) ∧
      (Page.written pages).flatMap Passage.segments = selfNestedSegments)) (by decide +kernel)
  obtain ⟨hwarnings, hartifact, hsegments⟩ := of_decide_eq_true hproperty
  refine ⟨report, pages, world', h.result, hwarnings, hartifact, fun hscans => ?_⟩
  unfold Passage.Scans at hscans
  rw [hsegments] at hscans
  exact nomatch hscans.unique scans_selfNested

end TemplateCompiler
