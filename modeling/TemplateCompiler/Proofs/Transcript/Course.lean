import TemplateCompiler.Proofs.Transcript.Turns

/-!
# The course of a reading

What a reading that succeeds has gone through, as derivations: each step of the feed (`Reads`), each
directive that was met (`Meets`) and each effect of a tag (`Moves`). Facts about what readings give
are proved by induction on these.
-/
namespace TemplateCompiler.Reader

/-! ## Tags -/

/-- What a tag can do once its parameters have been filled, depending on the tags that are open. -/
inductive Moves (tag : Tag) (reader : Reader) : Effect → Reader → Prop
  | ifThen (h : tag.params ≠ []) :
    Moves tag reader (.emit (.ifThen (tag.params.map Standard.term))) (reader.push .condition)
  | elseIf {opened : List OpenTag} (hopened : reader.opened = .condition :: opened)
    (h : tag.params ≠ []) :
    Moves tag reader (.emit (.elseIf (tag.params.map Standard.term))) reader
  | otherwise {opened : List OpenTag} (hopened : reader.opened = .condition :: opened) :
    Moves tag reader (.emit .otherwise) reader
  | endIf {opened : List OpenTag} (hopened : reader.opened = .condition :: opened) :
    Moves tag reader (.emit .endIf) { reader with opened }
  | forEach {item keyword list : Variable} (h : tag.params = [item, keyword, list]) :
    Moves tag reader (.emit (.forEach list.expr (.var item.raw))) (reader.push (.loop false))
  | forNone {opened : List OpenTag} (hopened : reader.opened = .loop false :: opened) :
    Moves tag reader (.emit .forNone) { reader with opened := .loop true :: opened }
  | endFor {hasNone : Bool} {opened : List OpenTag}
    (hopened : reader.opened = .loop hasNone :: opened) :
    Moves tag reader (.emit (.endFor hasNone)) { reader with opened }
  | name {value keyword name : Variable} (h : tag.params = [value, keyword, name]) :
    Moves tag reader (.emit (.assign (.var name.raw) value.expr)) (reader.push .naming)
  | endName {opened : List OpenTag} (hopened : reader.opened = .naming :: opened) :
    Moves tag reader .none { reader with opened }
  | openBlock {name : String} (h : singleName tag = some name) :
    Moves tag reader (.openBlock name) (reader.push (.block name))
  | closeBlock {name : String} {opened : List OpenTag}
    (hopened : reader.opened = .block name :: opened) :
    Moves tag reader .closeBlock { reader with opened }
  | extend {path : String} (hfirst : ¬ 1 < reader.tagsSeen) (h : quotedPath tag = some path) :
    Moves tag reader (.extend (Text.trimSlashes path)) reader
  | load {path : Variable} (h : tag.params = [path]) :
    Moves tag reader (.emit (.load path.expr)) reader
  | insert {path : String} (h : quotedPath tag = some path) :
    Moves tag reader (.insert path) reader
  | enter {mode : Mode} (h : mode ≠ .directives) :
    Moves tag reader .none { reader with mode }

variable {tag : Tag} {reader next : Reader} {effect : Effect}

theorem onCondition_eq_some {statement : Code.Condition → Code.Statement}
    (h : onCondition statement tag = some effect) :
    tag.params ≠ [] ∧ effect = .emit (statement (tag.params.map Standard.term)) := by
  unfold onCondition at h
  split at h
  · cases h
  · next hparams =>
    obtain rfl := Option.some.inj h
    exact ⟨fun hnil => hparams (by rw [hnil]; rfl), rfl⟩

/-- The tag does no more than it can. -/
def Inverts (meaning : Meaning) : Prop :=
  ∀ tag reader effect next, meaning tag reader = some (effect, next) → Moves tag reader effect next

theorem inverts_if : Inverts onIf := by
  intro tag reader effect next h
  obtain ⟨_, hcondition, heq⟩ := Option.map_eq_some_iff.1 h
  obtain ⟨rfl, rfl⟩ := Prod.mk.inj heq
  obtain ⟨hparams, rfl⟩ := onCondition_eq_some hcondition
  exact .ifThen hparams

theorem inverts_elseIf : Inverts onElseIf := by
  intro tag reader effect next h
  unfold onElseIf at h
  split at h
  · next opened hopened =>
    obtain ⟨_, hcondition, heq⟩ := Option.map_eq_some_iff.1 h
    obtain ⟨rfl, rfl⟩ := Prod.mk.inj heq
    obtain ⟨hparams, rfl⟩ := onCondition_eq_some hcondition
    exact .elseIf hopened hparams
  · cases h

theorem inverts_else : Inverts onElse := by
  intro tag reader effect next h
  unfold onElse at h
  split at h
  · next opened hopened =>
    obtain ⟨rfl, rfl⟩ := Prod.mk.inj (Option.some.inj h)
    exact .otherwise hopened
  · cases h

theorem inverts_endIf : Inverts onEndIf := by
  intro tag reader effect next h
  unfold onEndIf at h
  split at h
  · next opened hopened =>
    obtain ⟨rfl, rfl⟩ := Prod.mk.inj (Option.some.inj h)
    exact .endIf hopened
  · cases h

theorem inverts_for : Inverts onFor := by
  intro tag reader effect next h
  unfold onFor at h
  split at h
  · next item keyword list hparams =>
    split at h
    · obtain ⟨rfl, rfl⟩ := Prod.mk.inj (Option.some.inj h)
      exact .forEach hparams
    · cases h
  · cases h

theorem inverts_empty : Inverts onEmpty := by
  intro tag reader effect next h
  unfold onEmpty at h
  split at h
  · next opened hopened =>
    obtain ⟨rfl, rfl⟩ := Prod.mk.inj (Option.some.inj h)
    exact .forNone hopened
  · cases h

theorem inverts_endFor : Inverts onEndFor := by
  intro tag reader effect next h
  unfold onEndFor at h
  split at h
  · next hasNone opened hopened =>
    obtain ⟨rfl, rfl⟩ := Prod.mk.inj (Option.some.inj h)
    exact .endFor hopened
  · cases h

theorem inverts_with : Inverts onWith := by
  intro tag reader effect next h
  unfold onWith at h
  split at h
  · next value keyword name hparams =>
    split at h
    · obtain ⟨rfl, rfl⟩ := Prod.mk.inj (Option.some.inj h)
      exact .name hparams
    · cases h
  · cases h

theorem inverts_endWith : Inverts onEndWith := by
  intro tag reader effect next h
  unfold onEndWith at h
  split at h
  · next opened hopened =>
    obtain ⟨rfl, rfl⟩ := Prod.mk.inj (Option.some.inj h)
    exact .endName hopened
  · cases h

theorem inverts_block : Inverts onBlock := by
  intro tag reader effect next h
  obtain ⟨name, hname, heq⟩ := Option.map_eq_some_iff.1 h
  obtain ⟨rfl, rfl⟩ := Prod.mk.inj heq
  exact .openBlock hname

theorem inverts_endBlock : Inverts onEndBlock := by
  intro tag reader effect next h
  unfold onEndBlock at h
  split at h
  · next name opened hopened =>
    obtain ⟨rfl, rfl⟩ := Prod.mk.inj (Option.some.inj h)
    exact .closeBlock hopened
  · cases h

theorem inverts_extends : Inverts onExtends := by
  intro tag reader effect next h
  unfold onExtends at h
  split at h
  · cases h
  · next hfirst =>
    obtain ⟨path, hpath, heq⟩ := Option.map_eq_some_iff.1 h
    obtain ⟨rfl, rfl⟩ := Prod.mk.inj heq
    exact .extend hfirst hpath

theorem inverts_include : Inverts onInclude := by
  intro tag reader effect next h
  unfold onInclude at h
  split at h
  · next path hparams =>
    obtain ⟨rfl, rfl⟩ := Prod.mk.inj (Option.some.inj h)
    exact .load hparams
  · cases h

theorem inverts_insert : Inverts onInsert := by
  intro tag reader effect next h
  obtain ⟨path, hpath, heq⟩ := Option.map_eq_some_iff.1 h
  obtain ⟨rfl, rfl⟩ := Prod.mk.inj heq
  exact .insert hpath

theorem inverts_enter {mode : Mode} (hmode : mode ≠ .directives) : Inverts (enter mode) := by
  intro tag reader effect next h
  obtain ⟨rfl, rfl⟩ := Prod.mk.inj (Option.some.inj h)
  exact .enter hmode

theorem inverts_refuse : Inverts refuse :=
  fun _ _ _ _ h => nomatch h

/-- **Inversion**: the standard tags do no more than they can. -/
theorem moves_of_lookup {name : String} {meaning : Meaning}
    (hlookup : tags.lookup name = some meaning) (h : meaning tag reader = some (effect, next)) :
    Moves tag reader effect next := by
  have hall : ∀ entry ∈ tags, Inverts entry.2 := by
    simp only [tags, List.forall_mem_cons, List.not_mem_nil, false_implies, implies_true, and_true]
    exact ⟨inverts_if, inverts_elseIf, inverts_else, inverts_endIf, inverts_for, inverts_empty,
      inverts_endFor, inverts_with, inverts_endWith, inverts_block, inverts_endBlock,
      inverts_extends, inverts_include, inverts_insert, inverts_enter (by decide), inverts_refuse,
      inverts_enter (by decide), inverts_refuse⟩
  exact hall (name, meaning) (mem_of_lookup hlookup) _ _ _ _ h

/-! ## Directives -/

/-- The reader at a tag that it has met. -/
def atTag (reader : Reader) (d : Markup.Directive) : Reader :=
  { reader with tag := some d.name, tagsSeen := reader.tagsSeen + 1 }

/-- What can become of a directive. -/
inductive Meets (reader : Reader) (d : Markup.Directive) : List Event → Reader → Prop
  /-- A variable is shown. -/
  | shown {v : Variable} {chain : List Code.Filtering} (hmode : reader.mode = .directives)
    (hread : (Variable.interpolation { reader with tag := none }.scene d.content).value? = some v)
    (hchain : filterings v.filters = some chain) :
    Meets reader d [.write (.shown v.expr chain)] { reader with tag := none }
  /-- A tag is handled. -/
  | tagged {tag : Tag} {fills : List Fill} {params : List Variable} {slots : Nat} {effect : Effect}
    {next : Reader} (hmode : reader.mode = .directives)
    (hread : (Tag.read (reader.atTag d).scene d.name d.params).value? = some tag)
    (hfill : fill (reader.atTag d).scene reader.slots tag.params = some (fills, params, slots))
    (hmoves : Moves { tag with params } { reader.atTag d with slots } effect next) :
    Meets reader d (.write (.tagged fills effect.statement?) :: effect.events) next
  /-- A literal or a comment ends. -/
  | resumed (hmode : reader.mode ≠ .directives) :
    Meets reader d [] { reader.atTag d with mode := .directives }

theorem meets_of_meet {d : Markup.Directive} {events : List Event}
    (h : reader.meet d = some (events, next)) : Meets reader d events next := by
  unfold meet at h
  split at h
  · next hmode =>
    split at h
    · unfold readTag at h
      dsimp only at h
      obtain ⟨tag, hread, h⟩ := Option.bind_eq_some_iff.1 h
      obtain ⟨meaning, hlookup, h⟩ := Option.bind_eq_some_iff.1 h
      obtain ⟨⟨fills, params, slots⟩, hfill, h⟩ := Option.bind_eq_some_iff.1 h
      obtain ⟨⟨effect, last⟩, hmeaning, h⟩ := Option.bind_eq_some_iff.1 h
      obtain ⟨rfl, rfl⟩ := Prod.mk.inj (Option.some.inj h)
      exact .tagged hmode hread hfill (moves_of_lookup hlookup hmeaning)
    · unfold readVariable at h
      dsimp only at h
      obtain ⟨v, hread, h⟩ := Option.bind_eq_some_iff.1 h
      obtain ⟨chain, hchain, h⟩ := Option.bind_eq_some_iff.1 h
      obtain ⟨rfl, rfl⟩ := Prod.mk.inj (Option.some.inj h)
      exact .shown hmode hread hchain
  · next hmode =>
    obtain ⟨rfl, rfl⟩ := Prod.mk.inj (Option.some.inj h)
    exact .resumed (by rw [hmode]; decide)
  · next hmode =>
    obtain ⟨rfl, rfl⟩ := Prod.mk.inj (Option.some.inj h)
    exact .resumed (by rw [hmode]; decide)

/-! ## Feeds -/

/-- The course of a reading, step by step. -/
inductive Reads : Reader → Feed → List Event → Reader → Prop
  | done {reader : Reader} {feed : Feed} (hstep : feed.step reader.mode.reading = .done) :
    Reads reader feed [] reader
  | newLine {reader last : Reader} {feed after : Feed} {events : List Event}
    (hstep : feed.step reader.mode.reading = .newLine after)
    (h : Reads { reader with line := reader.line + 1 } after events last) :
    Reads reader feed events last
  | checked {reader last : Reader} {feed after : Feed} {events : List Event}
    (hstep : feed.step reader.mode.reading = .checked after) (h : Reads reader after events last) :
    Reads reader feed events last
  | text {reader last : Reader} {feed after : Feed} {content : Bytes} {events : List Event}
    (hstep : feed.step reader.mode.reading = .text content after)
    (h : Reads reader after events last) :
    Reads reader feed (reader.chunk content ++ events) last
  | directive {reader next last : Reader} {feed after : Feed} {text : Bytes}
    {d : Markup.Directive} {first events : List Event}
    (hstep : feed.step reader.mode.reading = .directive text d after)
    (hmeets : Meets reader d first next) (h : Reads next after events last) :
    Reads reader feed (reader.chunk text ++ first ++ events) last

theorem reads_of_read {reader last : Reader} {feed : Feed} {events : List Event}
    (h : reader.read feed = some (events, last)) : Reads reader feed events last := by
  have hless {after : Feed} (hafter : (feed.step reader.mode.reading).after? = some after) :=
    Feed.size_lt_of_step hafter
  rw [read_eq] at h
  split at h
  · next hstep =>
    obtain ⟨rfl, rfl⟩ := Prod.mk.inj (Option.some.inj h)
    exact .done hstep
  · next after hstep =>
    have := hless (by rw [hstep]; rfl)
    exact .newLine hstep (reads_of_read h)
  · next after hstep =>
    have := hless (by rw [hstep]; rfl)
    exact .checked hstep (reads_of_read h)
  · cases h
  · next content after hstep =>
    have := hless (by rw [hstep]; rfl)
    obtain ⟨⟨rest, last'⟩, hread, h⟩ := Option.bind_eq_some_iff.1 h
    obtain ⟨rfl, rfl⟩ := Prod.mk.inj (Option.some.inj h)
    exact .text hstep (reads_of_read hread)
  · next text d after hstep =>
    have := hless (by rw [hstep]; rfl)
    obtain ⟨⟨first, next⟩, hmeet, h⟩ := Option.bind_eq_some_iff.1 h
    obtain ⟨⟨rest, last'⟩, hread, h⟩ := Option.bind_eq_some_iff.1 h
    obtain ⟨rfl, rfl⟩ := Prod.mk.inj (Option.some.inj h)
    exact .directive hstep (meets_of_meet hmeet) (reads_of_read hread)
termination_by feed.size
decreasing_by all_goals assumption

/-- Every event of a reading is a text or what becomes of a directive. -/
theorem Reads.forall_mem {p : Event → Prop} {feed : Feed} {events : List Event} {last : Reader}
    (h : Reads reader feed events last) (htext : ∀ content, p (.write (.text content)))
    (hverbatim : ∀ content, p (.write (.verbatim content)))
    (hmeets : ∀ reader d events next, Meets reader d events next → ∀ event ∈ events, p event) :
    ∀ event ∈ events, p event := by
  have hchunk (reader : Reader) (content : Bytes) : ∀ event ∈ reader.chunk content, p event := by
    unfold chunk
    split <;> simp [htext, hverbatim]
  induction h with
  | done => exact fun _ hmem => nomatch hmem
  | newLine _ _ ih | checked _ _ ih => exact ih
  | text _ _ ih => exact List.forall_mem_append.2 ⟨hchunk _ _, ih⟩
  | directive _ hdirective _ ih =>
    exact List.forall_mem_append.2
      ⟨List.forall_mem_append.2 ⟨hchunk _ _, hmeets _ _ _ _ hdirective⟩, ih⟩

end TemplateCompiler.Reader

namespace TemplateCompiler

/-! ## Pages -/

/-- A page is what the text of a source reads as. -/
theorem Source.reads_page {source : Source} {options : Options} {slots : Nat} {text : Bytes}
    {page : Page} (h : source.page options slots text = some page) :
    Reader.Reads (source.reader options slots) (Feed.ofText text) page.body page.last := by
  obtain ⟨⟨body, last⟩, hread, rfl⟩ := Option.map_eq_some_iff.1 h
  exact Reader.reads_of_read hread

/-- Every page that was read is what some text reads as. -/
theorem Page.reads_of_readPages {options : Options} {slots : Nat} {turns : List (Source × Bytes)}
    {pages : List Page} (h : readPages options slots turns = some pages) {page : Page}
    (hmem : page ∈ pages) :
    ∃ (source : Source) (slots : Nat) (text : Bytes),
      Reader.Reads (source.reader options slots) (Feed.ofText text) page.body page.last := by
  induction turns generalizing slots pages with
  | nil =>
    obtain rfl := Option.some.inj h
    cases hmem
  | cons turn turns ih =>
    obtain ⟨source, text⟩ := turn
    obtain ⟨first, hfirst, h⟩ := Option.bind_eq_some_iff.1 h
    obtain ⟨more, hmore, h⟩ := Option.bind_eq_some_iff.1 h
    obtain rfl := Option.some.inj h
    rcases List.mem_cons.1 hmem with rfl | hmem
    · exact ⟨source, slots, text, source.reads_page hfirst⟩
    · exact ih hmore hmem

end TemplateCompiler
