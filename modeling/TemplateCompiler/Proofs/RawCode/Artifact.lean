import TemplateCompiler.Proofs.RawCode.Extent
import TemplateCompiler.Proofs.RawCode.Ink
import TemplateCompiler.Proofs.Transcript.Budget
import TemplateCompiler.Proofs.Transcript.Course

/-!
# Raw code in artifacts

Every line is checked for raw code before its directives are taken out, but the artifact is put
together from what is left over. So the text of each passage is free of markers, and the artifact is
exactly if none comes about where two passages meet (`Compiler.covered_iff`).
-/
namespace TemplateCompiler

open Markup.RawCode

variable {σ : Type}

/-! ## Pages -/

namespace Reader

theorem Meets.not_text {reader next : Reader} {d : Markup.Directive} {events : List Event}
    (h : Meets reader d events next) (chunk : Bytes) : .write (.text chunk) ∉ events := by
  cases h with
  | shown => simp
  | resumed => simp
  | tagged hmode hread hfill hmoves =>
    rw [List.mem_cons, not_or]
    refine ⟨fun heq => (nomatch heq), ?_⟩
    cases hmoves <;> simp [Effect.events]

/-- **The text of a page** is free of markers. -/
theorem Reads.defused {reader last : Reader} {feed : Feed} {events : List Event}
    (h : Reads reader feed events last) (hfeed : feed.IsChecked) {chunk : Bytes}
    (hmem : .write (.text chunk) ∈ events) : Defused chunk := by
  have hchunk {reader : Reader} {content : Bytes}
      (hdefused : reader.mode.reading = .directives → Defused content)
      (hmem : .write (.text chunk) ∈ reader.chunk content) : Defused chunk := by
    unfold Reader.chunk at hmem
    split at hmem
    · next hmode =>
      obtain rfl := Passage.text.inj (Event.write.inj (List.mem_singleton.1 hmem))
      exact hdefused (by rw [hmode]; rfl)
    · exact nomatch Event.write.inj (List.mem_singleton.1 hmem)
    · cases hmem
  induction h with
  | done => cases hmem
  | newLine hstep _ ih | checked hstep _ ih => exact ih (hfeed.step hstep) hmem
  | text hstep _ ih =>
    have hafter := hfeed.step hstep
    rcases List.mem_append.1 hmem with hmem | hmem
    · exact hchunk hafter.1 hmem
    · exact ih hafter.2 hmem
  | directive hstep hmeets _ ih =>
    have hafter := hfeed.step hstep
    rcases List.mem_append.1 hmem with hmem | hmem
    · rcases List.mem_append.1 hmem with hmem | hmem
      · exact hchunk hafter.1 hmem
      · exact absurd hmem (hmeets.not_text chunk)
    · exact ih hafter.2 hmem

end Reader

/-- Whether an event takes something over without a check: a template that is copied, or literal
text. -/
def Event.isForeign : Event → Bool
  | write passage => passage.isForeign
  | insert _ => true
  | _ => false

namespace Page

/-- Whether a source takes nothing over without a check, as `insert` and `literal` do. -/
def isChecked (page : Page) : Bool :=
  page.body.all (!·.isForeign)

theorem mem_events {page : Page} {event : Event} (h : event ∈ page.events) :
    event ∈ page.body ∨ event = .turn ∨ event = .hush := by
  unfold events farewell at h
  rcases List.mem_cons.1 h with h | h
  · exact .inr (.inl h)
  · rcases List.mem_append.1 h with h | h
    · exact .inl h
    · split at h
      · exact .inr (.inr (List.mem_singleton.1 h))
      · cases h

end Page

/-! ## Artifacts -/

/-- What the desk of a session that begins is made of. -/
theorem Desk.madeOf_beginning {store : String → Option Bytes} {p : Passage → Prop}
    (h : ∀ name content, store name = some content → p (.copied content)) :
    (Desk.beginning store).MadeOf p where
  main item hmem := nomatch hmem
  blocks block hmem := nomatch hmem
  store name items hitems item hmem := by
    obtain ⟨content, hcontent, rfl⟩ := Option.map_eq_some_iff.1 hitems
    rw [List.mem_singleton.1 hmem]
    exact h name content hcontent

/-- What the main sheet holds in the end. -/
def Desk.written (store : String → Option Bytes) (acts : List (Desk.Act Passage)) : List Passage :=
  ((Desk.beginning store).play acts).main.content

theorem Page.isForeign_events {pages : List Page} (hchecked : ∀ page ∈ pages, page.isChecked = true) :
    ∀ event ∈ pages.flatMap (·.events), event.isForeign = false := by
  intro event hmem
  obtain ⟨page, hpage, hevent⟩ := List.mem_flatMap.1 hmem
  rcases page.mem_events hevent with hbody | rfl | rfl
  · simpa using List.all_eq_true.1 (hchecked page hpage) event hbody
  · rfl
  · rfl

/-- Sources that take nothing over put nothing of the kind on a desk. -/
theorem Page.isForeign_written {pages : List Page} {acts : List (Desk.Act Passage)}
    {may : String → Bytes → Prop} {store : String → Option Bytes}
    (henacts : List.Forall₂ (Event.Enacts may) (pages.flatMap (·.events)) acts)
    (hchecked : ∀ page ∈ pages, page.isChecked = true) (hnone : ∀ name, store name = none) :
    ∀ p ∈ Desk.written store acts, p.isForeign = false := by
  have hevent := isForeign_events hchecked
  have hmade : ((Desk.beginning store).play acts).MadeOf fun p => p.isForeign = false := by
    refine Desk.MadeOf.play (Desk.madeOf_beginning fun name content hcontent => ?_) ?_
    · rw [hnone name] at hcontent
      cases hcontent
    · refine Event.puts_of_enacts henacts (fun passage hmem => hevent _ hmem) ?_
      exact fun requested hmem => nomatch hevent _ hmem
  exact hmade.main

/-- **Raw code** stands in an artifact, outside of what the compiler wrote, exactly if it was taken
over without a check or if two passages make a marker where they meet. Where nothing was taken over,
the seams alone decide. -/
theorem Compiler.covered_iff {compiler : Compiler σ} {id template destination : String}
    {world world' : World σ} {report : Report} {job : Job} {store : String → Option Bytes}
    {pages : List Page}
    (h : compiler.Compiles id template destination world report world' job)
    (hstored : job.Stored store)
    (hpages : compiler.pages id template destination world = some pages) :
    ∃ acts, List.Forall₂ (Event.Enacts job.Inserted) (pages.flatMap (·.events)) acts ∧
      world'.disk.read? report.artifact = some ((Desk.written store acts).flatMap Passage.bytes) ∧
      (Ink.Covered ((Desk.written store acts).flatMap Passage.inks) ↔
        (∀ p ∈ Desk.written store acts, p.isForeign = true → Ink.Covered p.inks) ∧
          Passage.Seamless (Desk.written store acts)) ∧
      ((∀ page ∈ pages, page.isChecked = true) → (∀ name, store name = none) →
        (Ink.Covered ((Desk.written store acts).flatMap Passage.inks) ↔
          Passage.Seamless (Desk.written store acts))) := by
  obtain ⟨read, acts, hread, henacts, hartifact, -⟩ := h.pages hstored
  obtain rfl : pages = read := Option.some.inj (hpages.symm.trans hread)
  have hmade : ((Desk.beginning store).play acts).MadeOf
      fun p => ∀ chunk, p = .text chunk → Defused chunk := by
    refine Desk.MadeOf.play (Desk.madeOf_beginning fun _ _ _ _ hchunk => nomatch hchunk) ?_
    refine Event.puts_of_enacts henacts ?_ fun _ _ _ _ hchunk => nomatch hchunk
    rintro passage hmem chunk rfl
    obtain ⟨page, hpage, hevent⟩ := List.mem_flatMap.1 hmem
    obtain ⟨source, slots, text, hreads⟩ := Page.reads_of_readPages hread hpage
    refine hreads.defused (fun _ => ⟨[], .nil, rfl⟩) ((page.mem_events hevent).resolve_right ?_)
    rintro (heq | heq) <;> cases heq
  have hown (p : Passage) (hp : p ∈ Desk.written store acts) (hforeign : p.isForeign = false) :
      Ink.Covered p.inks :=
    Passage.covered_inks hforeign (hmade.main p hp)
  refine ⟨acts, henacts, hartifact, ?_, fun hchecked hnone => ?_⟩
  · rw [Passage.covered_flatMap_inks]
    refine and_congr_left fun _ => ⟨fun hall p hp _ => hall p hp, fun hforeign p hp => ?_⟩
    cases hp' : p.isForeign with
    | true => exact hforeign p hp hp'
    | false => exact hown p hp hp'
  · have hnot := Page.isForeign_written henacts hchecked hnone
    rw [Passage.covered_flatMap_inks]
    exact and_iff_right fun p hp => hown p hp (hnot p hp)

/-- What the main sheet holds after sources that copy no template. -/
def Page.written (pages : List Page) : List Passage :=
  Desk.written (fun _ => none) ((pages.flatMap (·.events)).map (Event.act fun _ => []))

theorem Page.written_eq {pages : List Page} {acts : List (Desk.Act Passage)}
    {may : String → Bytes → Prop} (hchecked : ∀ page ∈ pages, page.isChecked = true)
    (henacts : List.Forall₂ (Event.Enacts may) (pages.flatMap (·.events)) acts) :
    Desk.written (fun _ => none) acts = Page.written pages := by
  rw [Page.written, Event.acts_eq henacts fun requested hmem =>
    nomatch isForeign_events hchecked _ hmem]

/-- A template with markup around a value. -/
def emphasis : List (String × String) :=
  [("a", "<b>\x7b\x7b a \x7d\x7d</b>")]

/-- No raw code is left of a template that has none. -/
theorem Compiler.covered_emphasis :
    ∃ (report : Report) (pages : List Page) (world' : World Unit),
      (Compiler.ofTexts emphasis).compileTo "s" "a" "a" ⟨.empty, ⟨⟩⟩ = .ok report world' ∧
        world'.disk.read? report.artifact = some ((Page.written pages).flatMap Passage.bytes) ∧
        Ink.Covered ((Page.written pages).flatMap Passage.inks) := by
  obtain ⟨report, pages, world', hproperty, hpages, h⟩ := Compiler.exists_compiles emphasis
    (fun _ pages _ => pages.all (·.isChecked) && decide (Passage.Seamless (Page.written pages)))
    (by decide +kernel)
  rw [Bool.and_eq_true, List.all_eq_true, decide_eq_true_eq] at hproperty
  obtain ⟨hchecked, hseamless⟩ := hproperty
  obtain ⟨acts, henacts, hartifact, -, hcovered⟩ :=
    Compiler.covered_iff h (Job.stored_empty rfl) hpages
  have hcovered := hcovered hchecked fun _ => rfl
  rw [Page.written_eq hchecked henacts] at hartifact hcovered
  exact ⟨report, pages, world', h.result, hartifact, hcovered.2 hseamless⟩

/-- A template in which a comment stands between the parts of a marker. -/
def parted : List (String × String) :=
  [("a", "<\x7b% comment %\x7dx\x7b% endcomment %\x7d?php evil(); ?>")]

/-- What the compiler wrote does not cover the marker that is left when a comment is taken out. -/
theorem Compiler.exists_not_covered :
    ∃ (report : Report) (pages : List Page) (world' : World Unit),
      (Compiler.ofTexts parted).compileTo "s" "a" "a" ⟨.empty, ⟨⟩⟩ = .ok report world' ∧
        (Compiler.ofTexts parted).pages "s" "a" "a" ⟨.empty, ⟨⟩⟩ = some pages ∧
        (∀ page ∈ pages, page.isChecked = true) ∧
        world'.disk.read? report.artifact = some (Utf8.encode "<?php evil(); ?>") ∧
        (Page.written pages).flatMap Passage.bytes = Utf8.encode "<?php evil(); ?>" ∧
        ¬ Ink.Covered ((Page.written pages).flatMap Passage.inks) := by
  obtain ⟨report, pages, world', hproperty, hpages, h⟩ := Compiler.exists_compiles parted
    (fun report pages disk => decide ((∀ page ∈ pages, page.isChecked = true) ∧
      disk.read? report.artifact = some (Utf8.encode "<?php evil(); ?>") ∧
      (Page.written pages).flatMap Passage.bytes = Utf8.encode "<?php evil(); ?>" ∧
      ¬ Ink.Covered ((Page.written pages).flatMap Passage.inks))) (by decide +kernel)
  exact ⟨report, pages, world', h.result, hpages, of_decide_eq_true hproperty⟩

end TemplateCompiler
