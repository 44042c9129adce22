import Mathlib.Data.List.Nodup
import TemplateCompiler.Proofs.Flow.Slots
import TemplateCompiler.Proofs.RawCode.Artifact
import TemplateCompiler.Proofs.Transcript.Slots

/-!
# Slots in artifacts

Slots are numbered throughout a compile, so no two tags have one in common, and the slots of a tag
are filled right before it in every artifact. What is left is control flow: a run of the artifact
finds the slots of every tag assigned exactly if no `elseif` has a parameter with filters
(`Compiler.slots_iff`).
-/
namespace TemplateCompiler

open Segment

variable {σ : Type}

/-! ## The slots of events -/

/-- The slots that are filled for a passage. -/
def Passage.slots : Passage → List Nat
  | .tagged fills _ => fills.map (·.slot)
  | _ => []

/-- The slots that are filled in an event. -/
def Event.slots : Event → List Nat
  | write passage => passage.slots
  | _ => []

namespace Reader

/-- Events fill slots in order, from the first one that the reader before has not handed out to the
last one that the reader afterwards has. -/
def Numbers (reader : Reader) (events : List Event) (last : Reader) : Prop :=
  ∃ count, events.flatMap (·.slots) = List.range' reader.slots count ∧
    last.slots = reader.slots + count

variable {reader next last : Reader} {first second : List Event}

theorem Numbers.of_eq (hslots : first.flatMap (·.slots) = []) (h : next.slots = reader.slots) :
    reader.Numbers first next :=
  ⟨0, hslots, h⟩

theorem Numbers.append (h : reader.Numbers first next) (h' : next.Numbers second last) :
    reader.Numbers (first ++ second) last := by
  obtain ⟨count, hfirst, hnext⟩ := h
  obtain ⟨more, hsecond, hlast⟩ := h'
  refine ⟨count + more, ?_, ?_⟩
  · have happend := @List.range'_append reader.slots count more 1
    rw [Nat.one_mul] at happend
    rw [List.flatMap_append, hfirst, hsecond, hnext, happend]
  · rw [hlast, hnext, Nat.add_assoc]

theorem slots_chunk (reader : Reader) (content : Bytes) :
    (reader.chunk content).flatMap (·.slots) = [] := by
  unfold chunk
  split <;> rfl

theorem Effect.slots_events (effect : Effect) : effect.events.flatMap (·.slots) = [] := by
  cases effect <;> rfl

theorem Moves.slots {tag : Tag} {effect : Effect} (h : Moves tag reader effect next) :
    next.slots = reader.slots := by
  cases h <;> rfl

theorem Meets.numbers {d : Markup.Directive} (h : Meets reader d first next) :
    reader.Numbers first next := by
  cases h with
  | shown => exact .of_eq rfl rfl
  | resumed => exact .of_eq rfl rfl
  | @tagged tag fills params slots effect _ hmode hread hfill hmoves =>
    obtain ⟨-, hrange, rfl⟩ := fills_of_fill hfill
    refine ⟨fills.length, ?_, hmoves.slots⟩
    rw [List.flatMap_cons, effect.slots_events, List.append_nil]
    exact hrange

/-- A reading hands out slots in order. -/
theorem Reads.numbers {feed : Feed} {events : List Event} (h : Reads reader feed events last) :
    reader.Numbers events last := by
  induction h with
  | done => exact .of_eq rfl rfl
  | newLine _ _ ih | checked _ _ ih => exact ih
  | text _ _ ih => exact (Numbers.of_eq (slots_chunk _ _) rfl).append ih
  | directive _ hmeets _ ih =>
    exact ((Numbers.of_eq (slots_chunk _ _) rfl).append hmeets.numbers).append ih

end Reader

theorem Page.slots_events (page : Page) :
    page.events.flatMap (·.slots) = page.body.flatMap (·.slots) := by
  unfold events farewell
  split <;> simp [Event.slots]

/-- **Numbering**: the slots of a compile are numbered throughout. -/
theorem slots_of_readPages {options : Options} {slots : Nat} {turns : List (Source × Bytes)}
    {pages : List Page} (h : readPages options slots turns = some pages) :
    ∃ count, (pages.flatMap (·.events)).flatMap (·.slots) = List.range' slots count := by
  induction turns generalizing slots pages with
  | nil =>
    obtain rfl := Option.some.inj h
    exact ⟨0, rfl⟩
  | cons turn turns ih =>
    obtain ⟨source, text⟩ := turn
    obtain ⟨page, hpage, h⟩ := Option.bind_eq_some_iff.1 h
    obtain ⟨more, hmore, heq⟩ := Option.bind_eq_some_iff.1 h
    obtain rfl := Option.some.inj heq
    obtain ⟨count, hcount⟩ := ih hmore
    obtain ⟨first, hfirst, hlast⟩ := (Source.reads_page hpage).numbers
    have hslots : (source.reader options slots).slots = slots := rfl
    rw [hslots] at hfirst hlast
    refine ⟨first + count, ?_⟩
    have happend := @List.range'_append slots first count 1
    rw [Nat.one_mul] at happend
    rw [List.flatMap_cons, List.flatMap_append, page.slots_events, hfirst, hcount, hlast, happend]

/-- Passages that have a slot in common are one passage. -/
theorem Event.passage_unique {events : List Event} (h : (events.flatMap (·.slots)).Nodup)
    {p q : Passage} (hp : .write p ∈ events) (hq : .write q ∈ events) {slot : Nat}
    (hslot : slot ∈ p.slots) (hslot' : slot ∈ q.slots) : p = q := by
  obtain ⟨-, hdisjoint⟩ := List.nodup_flatMap.1 h
  have : Std.Symm (Function.onFun List.Disjoint Event.slots) :=
    ⟨fun _ _ h slot hslot hslot' => h hslot' hslot⟩
  by_contra hne
  exact hdisjoint.forall hp hq (fun heq => hne (Event.write.inj heq)) hslot hslot'

/-! ## The segments of passages -/

namespace Passage

theorem mem_segments {passage : Passage} {statement : Option Code.Statement} {own : List Nat}
    (h : .tag statement own ∈ passage.segments) :
    ∃ fills, passage = .tagged fills statement ∧ own = fills.map (·.slot) := by
  cases passage with
  | tagged fills other =>
    rcases List.mem_append.1 h with h | h
    · obtain ⟨fill, -, heq⟩ := List.mem_map.1 h
      cases heq
    · obtain ⟨rfl, rfl⟩ := Segment.tag.inj (List.mem_singleton.1 h)
      exact ⟨fills, rfl, rfl⟩
  | text | verbatim | copied | shown => exact nomatch List.mem_singleton.1 h

theorem prepared_fills (fills : List Fill) {ready : List Nat} {rest : List Segment}
    (h : Prepared ((fills.map (·.slot)).reverse ++ ready) rest) :
    Prepared ready (fills.map (fun fill => .fill fill.slot fill.vars) ++ rest) := by
  induction fills generalizing ready with
  | nil => exact h
  | cons fill fills ih =>
    refine ih ?_
    rwa [List.map_cons, List.reverse_cons, List.append_assoc] at h

/-- Every tag of an artifact follows right after what fills its slots. -/
theorem prepared_segments (passages : List Passage) (ready : List Nat) :
    Prepared ready (passages.flatMap segments) := by
  induction passages generalizing ready with
  | nil => trivial
  | cons passage passages ih =>
    rw [List.flatMap_cons]
    cases passage with
    | tagged fills statement =>
      rw [segments, List.append_assoc]
      refine prepared_fills fills ⟨fun slot hslot => ?_, ih []⟩
      exact List.mem_append_left _ (List.mem_reverse.2 hslot)
    | text | verbatim | copied | shown => exact ih []

theorem owned_fills {fills : List Fill} {rest : List Segment} {statement : Option Code.Statement}
    {own : List Nat} (hsub : ∀ fill ∈ fills, fill.slot ∈ own) (h : Owned rest) :
    Owned (fills.map (fun fill => .fill fill.slot fill.vars) ++ .tag statement own :: rest) := by
  induction fills with
  | nil => exact h
  | cons fill fills ih =>
    obtain ⟨hfill, hfills⟩ := List.forall_mem_cons.1 hsub
    refine ⟨⟨statement, own, ?_, hfill⟩, ih hfills⟩
    clear ih hfills hsub
    induction fills with
    | nil => rfl
    | cons other fills ih => exact ih

/-- Every slot of an artifact that is filled belongs to the tag that comes next. -/
theorem owned_segments (passages : List Passage) : Owned (passages.flatMap segments) := by
  induction passages with
  | nil => trivial
  | cons passage passages ih =>
    rw [List.flatMap_cons]
    cases passage with
    | tagged fills statement =>
      rw [segments, List.append_assoc]
      exact owned_fills (fun fill hfill => List.mem_map_of_mem hfill) ih
    | text | verbatim | copied | shown => exact ih

/-- Passages are tidy if those that have a slot in common are one passage. -/
theorem isTidy_segments {passages : List Passage}
    (h : ∀ p ∈ passages, ∀ q ∈ passages, ∀ slot ∈ p.slots, slot ∈ q.slots → p = q) :
    IsTidy (passages.flatMap segments) where
  owned := owned_segments passages
  unique statement own statement' own' slot htag htag' hslot hslot' := by
    obtain ⟨p, hp, htag⟩ := List.mem_flatMap.1 htag
    obtain ⟨q, hq, htag'⟩ := List.mem_flatMap.1 htag'
    obtain ⟨fills, rfl, rfl⟩ := mem_segments htag
    obtain ⟨fills', rfl, rfl⟩ := mem_segments htag'
    obtain ⟨rfl, rfl⟩ := Passage.tagged.inj (h _ hp _ hq slot hslot hslot')
    exact ⟨rfl, rfl⟩

end Passage

/-! ## The slots of further branches -/

namespace Reader

/-- A parameter that was filled is its slot. -/
theorem Fills.mem {written params : List Variable} {fills : List Fill}
    (h : Fills written fills params) {fill : Fill} (hfill : fill ∈ fills) :
    .ofSlot fill.slot ∈ params := by
  induction h with
  | nil => cases hfill
  | plain _ _ ih => exact List.mem_cons_of_mem _ (ih hfill)
  | filled _ _ _ ih =>
    rcases List.mem_cons.1 hfill with rfl | hfill
    · exact List.mem_cons_self
    · exact List.mem_cons_of_mem _ (ih hfill)

end Reader

/-- No name that does not begin as slots do is the name of a slot. -/
theorem Code.ne_slotName {name : String} (h : name.toList.head? ≠ some '_') (slot : Nat) :
    name ≠ Code.slotName slot := by
  rintro rfl
  refine h ?_
  rw [Code.slotName, String.toList_append]
  rfl

/-- As a word of a condition, a slot is a value. -/
theorem Standard.term_ofSlot (slot : Nat) : term (.ofSlot slot) = .value (.slot slot) := by
  have hraw : (Variable.ofSlot slot).raw = Code.slotName slot := rfl
  unfold term
  rw [hraw, if_neg (Code.ne_slotName (by decide) slot).symm,
    if_neg (Code.ne_slotName (by decide) slot).symm,
    if_neg (Code.ne_slotName (by decide) slot).symm]
  rfl

/-- A further branch reads the slots that are filled for it. -/
def Passage.ReadsSlots (passage : Passage) : Prop :=
  ∀ fills condition, passage = .tagged fills (some (.elseIf condition)) →
    ∀ fill ∈ fills, Code.slotName fill.slot ∈ (Code.Statement.elseIf condition).vars

theorem Reader.Meets.readsSlots {reader next : Reader} {d : Markup.Directive} {events : List Event}
    (h : Meets reader d events next) :
    ∀ event ∈ events, ∀ passage, event = .write passage → passage.ReadsSlots := by
  rintro event hevent passage rfl fills condition rfl fill hfill
  cases h with
  | shown => exact nomatch List.mem_singleton.1 hevent
  | resumed => cases hevent
  | @tagged tag _ params slots effect _ hmode hread hfilled hmoves =>
    have hmem : .write (.tagged fills (some (.elseIf condition))) ∉ effect.events := by
      cases effect <;> simp [Effect.events]
    obtain ⟨rfl, hstatement⟩ :=
      Passage.tagged.inj (Event.write.inj ((List.mem_cons.1 hevent).resolve_right hmem))
    obtain ⟨hfills, -, -⟩ := fills_of_fill hfilled
    have hparam : Variable.ofSlot fill.slot ∈ params := hfills.mem hfill
    cases hmoves with
    | elseIf hopened hparams =>
      obtain rfl : condition = params.map Standard.term :=
        Code.Statement.elseIf.inj (Option.some.inj hstatement)
      refine List.mem_flatMap.2 ⟨_, List.mem_map_of_mem hparam, ?_⟩
      rw [Standard.term_ofSlot]
      exact List.mem_singleton_self _
    | _ => cases hstatement

/-! ## Artifacts -/

/-- What stands in an artifact was written by a page, or copied. -/
theorem Desk.mem_written {may : String → Bytes → Prop} {store : String → Option Bytes}
    {events : List Event} {acts : List (Desk.Act Passage)}
    (henacts : List.Forall₂ (Event.Enacts may) events acts) {p : Passage}
    (hp : p ∈ Desk.written store acts) : .write p ∈ events ∨ ∃ content, p = .copied content := by
  have hmade : ((Desk.beginning store).play acts).MadeOf
      fun p => .write p ∈ events ∨ ∃ content, p = .copied content :=
    Desk.MadeOf.play (Desk.madeOf_beginning fun _ content _ => .inr ⟨content, rfl⟩)
      (Event.puts_of_enacts henacts (fun _ hmem => .inl hmem)
        fun _ _ content => .inr ⟨content, rfl⟩)
  exact hmade.main p hp

/-- What the pages write, some text reads as. -/
theorem Page.readsSlots {options : Options} {slots : Nat} {turns : List (Source × Bytes)}
    {pages : List Page} (h : readPages options slots turns = some pages) {p : Passage}
    (hp : .write p ∈ pages.flatMap (·.events)) : p.ReadsSlots := by
  obtain ⟨page, hpage, hevent⟩ := List.mem_flatMap.1 hp
  obtain ⟨source, slots, text, hreads⟩ := Page.reads_of_readPages h hpage
  have hbody : .write p ∈ page.body :=
    (page.mem_events hevent).resolve_right fun heq => by rcases heq with heq | heq <;> cases heq
  refine hreads.forall_mem (p := fun event => ∀ p, event = .write p → p.ReadsSlots)
    (fun content p heq => ?_) (fun content p heq => ?_) (fun _ _ _ _ hmeets => hmeets.readsSlots)
    _ hbody p rfl
  · obtain rfl := Event.write.inj heq
    exact fun _ _ heq => nomatch heq
  · obtain rfl := Event.write.inj heq
    exact fun _ _ heq => nomatch heq

/-- Whether the passage is a further branch of a condition for which slots are filled. -/
def Passage.isLate : Passage → Bool
  | tagged (_ :: _) (some (.elseIf _)) => true
  | _ => false

theorem Passage.hasLateSlots_iff {passages : List Passage} :
    Flow.HasLateSlots (passages.flatMap segments) ↔ ∃ p ∈ passages, p.isLate = true := by
  constructor
  · rintro ⟨condition, own, htag, hown⟩
    obtain ⟨p, hp, htag⟩ := List.mem_flatMap.1 htag
    obtain ⟨fills, rfl, rfl⟩ := mem_segments htag
    cases fills with
    | nil => exact absurd rfl hown
    | cons fill fills => exact ⟨_, hp, rfl⟩
  · rintro ⟨p, hp, hlate⟩
    unfold isLate at hlate
    split at hlate
    · next fill fills condition =>
      refine ⟨condition, (fill :: fills).map (·.slot), List.mem_flatMap.2 ⟨_, hp, ?_⟩,
        List.cons_ne_nil _ _⟩
      exact List.mem_append_right _ (List.mem_singleton_self _)
    · cases hlate

/-- **Slots of artifacts**: every run of an artifact finds its slots assigned exactly if no `elseif`
has a parameter with filters, and what the template reads under the names of slots of its own accord
was assigned before. Where it names no slot, the `elseif` tags alone decide. -/
theorem Compiler.slots_iff {compiler : Compiler σ} {id template destination : String}
    {world world' : World σ} {report : Report} {job : Job} {store : String → Option Bytes}
    {pages : List Page}
    (h : compiler.Compiles id template destination world report world' job)
    (hstored : job.Stored store)
    (hpages : compiler.pages id template destination world = some pages) :
    ∃ acts, List.Forall₂ (Event.Enacts job.Inserted) (pages.flatMap (·.events)) acts ∧
      world'.disk.read? report.artifact = some ((Desk.written store acts).flatMap Passage.bytes) ∧
      ∀ flow : Flow .code, flow.segments = (Desk.written store acts).flatMap Passage.segments →
        ((∀ trace, flow.Runs trace → Access.InOrder (fun _ => true) [] trace) ↔
          (¬ ∃ p ∈ Desk.written store acts, p.isLate = true) ∧
            ∀ trace, flow.Runs trace → Access.InOrder Access.isStray [] trace) ∧
        (Flow.NamesNoSlot flow.segments →
          ((∀ trace, flow.Runs trace → Access.InOrder (fun _ => true) [] trace) ↔
            ¬ ∃ p ∈ Desk.written store acts, p.isLate = true)) := by
  obtain ⟨read, acts, hread, henacts, hartifact, -⟩ := h.pages hstored
  obtain rfl : pages = read := Option.some.inj (hpages.symm.trans hread)
  -- slots are numbered one after another, so no two tags share one
  obtain ⟨count, hslots⟩ := slots_of_readPages hread
  have hnodup : ((pages.flatMap (·.events)).flatMap (·.slots)).Nodup := by
    rw [hslots]
    exact List.nodup_range'
  refine ⟨acts, henacts, hartifact, fun flow hflow => ?_⟩
  have hprepared : Prepared [] flow.segments := by
    rw [hflow]
    exact Passage.prepared_segments _ _
  have htidy : IsTidy flow.segments := by
    rw [hflow]
    refine Passage.isTidy_segments fun p hp q hq slot hslot hslot' => ?_
    -- a block may be shown more than once, but what was copied has no slots
    rcases Desk.mem_written henacts hp with hp | ⟨content, rfl⟩
    · rcases Desk.mem_written henacts hq with hq | ⟨content, rfl⟩
      · exact Event.passage_unique hnodup hp hq hslot hslot'
      · cases hslot'
    · cases hslot
  have hlate : Flow.ReadsLateSlots flow.segments := by
    rw [hflow]
    intro condition own htag slot hslot
    obtain ⟨p, hp, htag⟩ := List.mem_flatMap.1 htag
    obtain ⟨fills, rfl, rfl⟩ := Passage.mem_segments htag
    obtain ⟨fill, hfill, rfl⟩ := List.mem_map.1 hslot
    rcases Desk.mem_written henacts hp with hp | ⟨content, heq⟩
    · exact Page.readsSlots hread hp fills condition rfl fill hfill
    · cases heq
  have hiff : (∀ trace, flow.Runs trace → Access.InOrder (fun _ => true) [] trace) ↔
      (¬ ∃ p ∈ Desk.written store acts, p.isLate = true) ∧
        ∀ trace, flow.Runs trace → Access.InOrder Access.isStray [] trace := by
    rw [Flow.inOrder_all, Flow.inOrder_iff hprepared htidy hlate, hflow,
      Passage.hasLateSlots_iff]
  refine ⟨hiff, fun hnames => ?_⟩
  rw [hiff]
  exact and_iff_left fun trace hrun => hnames.inOrder hrun

/-- A template with a filter in its condition. -/
def filteredIf : List (String × String) :=
  [("a", "\x7b% if b|upper %\x7dx\x7b% endif %\x7d")]

/-- Its artifact as a program. -/
def filteredIfFlow : Flow .code :=
  .straight .neutral rfl (.straight (.fill 0 ["b"]) rfl
    (.choice [.value (.slot 0)] [0] (.straight .neutral rfl .done) (.endIf []) .done))

/-- The slot of a condition is assigned before it is tested. -/
theorem Compiler.slots_filteredIf :
    ∃ (report : Report) (pages : List Page) (world' : World Unit),
      (Compiler.ofTexts filteredIf).compileTo "s" "a" "a" ⟨.empty, ⟨⟩⟩ = .ok report world' ∧
        world'.disk.read? report.artifact = some ((Page.written pages).flatMap Passage.bytes) ∧
        filteredIfFlow.segments = (Page.written pages).flatMap Passage.segments ∧
        ∀ trace, filteredIfFlow.Runs trace → Access.InOrder (fun _ => true) [] trace := by
  obtain ⟨report, pages, world', hproperty, hpages, h⟩ := Compiler.exists_compiles filteredIf
    (fun _ pages _ => pages.all (·.isChecked) && decide (
      filteredIfFlow.segments = (Page.written pages).flatMap Passage.segments ∧
        ¬ ∃ p ∈ Page.written pages, p.isLate = true)) (by decide +kernel)
  rw [Bool.and_eq_true, List.all_eq_true, decide_eq_true_eq] at hproperty
  obtain ⟨hchecked, hsegments, hlate⟩ := hproperty
  obtain ⟨acts, henacts, hartifact, hruns⟩ :=
    Compiler.slots_iff h (Job.stored_empty rfl) hpages
  rw [Page.written_eq hchecked henacts] at hartifact hruns
  have hnames : Flow.NamesNoSlot filteredIfFlow.segments := by
    intro segment hsegment name hstray
    have hall : ∀ segment ∈ filteredIfFlow.segments, ∀ access ∈ segment.accesses,
        access.isStray = true → access = .stray "b" := by decide
    obtain rfl : name = "b" := Access.stray.inj (hall segment hsegment _ hstray rfl)
    exact Code.ne_slotName (by decide)
  exact ⟨report, pages, world', h.result, hartifact, hsegments,
    ((hruns _ hsegments).2 hnames).2 hlate⟩

/-- A template with a filter in the condition of a further branch. -/
def filteredElseIf : List (String × String) :=
  [("a", "\x7b% if b %\x7dx\x7b% elseif c|upper %\x7dy\x7b% endif %\x7d")]

/-- Its artifact as a program. -/
def filteredElseIfFlow : Flow .code :=
  .straight .neutral rfl (.choice [.value (.var "b")] []
    (.straight .neutral rfl (.straight (.fill 0 ["c"]) rfl .done))
    (.elseIf [.value (.slot 0)] [0] (.straight .neutral rfl .done) (.endIf [])) .done)

/-- The slot of a further branch is assigned in the branch before, so a run that does not take that
one tests it unassigned. -/
theorem Compiler.exists_not_inOrder :
    ∃ (report : Report) (pages : List Page) (world' : World Unit),
      (Compiler.ofTexts filteredElseIf).compileTo "s" "a" "a" ⟨.empty, ⟨⟩⟩ = .ok report world' ∧
        (Compiler.ofTexts filteredElseIf).pages "s" "a" "a" ⟨.empty, ⟨⟩⟩ = some pages ∧
        world'.disk.read? report.artifact = some ((Page.written pages).flatMap Passage.bytes) ∧
        filteredElseIfFlow.segments = (Page.written pages).flatMap Passage.segments ∧
        ∃ trace, filteredElseIfFlow.Runs trace ∧
          ¬ Access.InOrder (fun _ => true) [] trace := by
  obtain ⟨report, pages, world', hproperty, hpages, h⟩ := Compiler.exists_compiles filteredElseIf
    (fun report pages disk => decide (
      disk.read? report.artifact = some ((Page.written pages).flatMap Passage.bytes) ∧
        filteredElseIfFlow.segments = (Page.written pages).flatMap Passage.segments))
    (by decide +kernel)
  obtain ⟨hartifact, hsegments⟩ := of_decide_eq_true hproperty
  refine ⟨report, pages, world', h.result, hpages, hartifact, hsegments,
    [.stray "b", .read 0], ?_, ?_⟩
  · -- the first branch is not taken, the further one is
    have hbranch : Flow.Runs (.elseIf [.value (.slot 0)] [0]
        (.straight .neutral rfl .done) (.endIf [])) [.read 0] :=
      ⟨[], .inl ⟨[], rfl, rfl⟩, by decide⟩
    exact ⟨_, ⟨[.read 0], [], .inr hbranch, rfl, rfl⟩, rfl⟩
  · exact fun hall => nomatch hall.2.1 rfl

end TemplateCompiler
