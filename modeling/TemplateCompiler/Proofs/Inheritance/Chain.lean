import TemplateCompiler.Proofs.Inheritance.Outline
import TemplateCompiler.Proofs.Session.Lookup
import TemplateCompiler.Proofs.Transcript.Budget
import TemplateCompiler.Proofs.Transcript.Slots

/-!
# Inheritance

The events of a page make up an outline, and a chain of templates, each of which extends the next,
leaves in the artifact what comes before the `extends` tags and then what the last outline renders
to. The blocks that are open, their pause flags and their artifacts on the disk are not seen in the
result.
-/
namespace TemplateCompiler

variable {σ : Type}

/-! ## Events in bytes -/

namespace Event

/-- What an event does to a desk in bytes, `inserted` being the content of the templates that are
copied. -/
def deed (inserted : String → Bytes) : Event → Desk.Act UInt8
  | turn => .turn
  | write passage => .put passage.bytes
  | insert requested => .put (inserted requested)
  | openBlock name => .openBlock name
  | closeBlock => .closeBlock
  | extend _ => .silence
  | hush => .hush

/-- The template that is extended. -/
def parent? : Event → Option String
  | extend parent => some parent
  | _ => none

/-- What an event writes by itself. -/
def text : Event → Bytes
  | write passage => passage.bytes
  | _ => []

/-- Puts an event in front of a text. The first outline is the text up to the end of the innermost
block that is open, the next one the text up to the end of the block around it, and so on. -/
def nest (inserted : String → Bytes) (event : Event) (outlines : List Outline) : List Outline :=
  match event, outlines with
  | write passage, top :: more => .item passage.bytes top :: more
  | insert requested, top :: more => .item (inserted requested) top :: more
  | openBlock name, body :: rest :: more => .block name body rest :: more
  | closeBlock, outlines => .nil :: outlines
  | _, outlines => outlines

end Event

/-- What is done up to the end of a text, a block ending after every outline but the last. -/
def Outline.deedsOf : List Outline → List (Desk.Act UInt8)
  | [] => []
  | [outline] => outline.deeds
  | outline :: more => outline.deeds ++ .closeBlock :: deedsOf more

variable {inserted : String → Bytes}

namespace Outline

theorem deedsOf_item (content : Bytes) (top : Outline) (more : List Outline) :
    deedsOf (.item content top :: more) = .put content :: deedsOf (top :: more) := by
  cases more <;> rfl

theorem deedsOf_block (name : String) (body rest : Outline) (more : List Outline) :
    deedsOf (.block name body rest :: more) = .openBlock name :: deedsOf (body :: rest :: more) := by
  cases more with
  | nil => rfl
  | cons next more => simp [deedsOf, deeds]

theorem deedsOf_nil {outlines : List Outline} (h : outlines ≠ []) :
    deedsOf (.nil :: outlines) = .closeBlock :: deedsOf outlines := by
  cases outlines with
  | nil => exact absurd rfl h
  | cons next more => rfl

end Outline

/-- Whether the events lead from so many open blocks to so many, and their outlines tell what they
do; that another template is extended is not told by outlines. -/
def Event.Nests (inserted : String → Bytes) (events : List Event) (before after : Nat) : Prop :=
  ∀ outlines : List Outline, outlines.length = after + 1 →
    (events.foldr (nest inserted) outlines).length = before + 1 ∧
      Outline.deedsOf (events.foldr (nest inserted) outlines) =
        (events.filter (·.parent?.isNone)).map (deed inserted) ++ Outline.deedsOf outlines

namespace Event.Nests

variable {first second : List Event} {a b c n : Nat}

theorem nil (n : Nat) : Nests inserted [] n n :=
  fun _ h => ⟨h, rfl⟩

theorem append (h : Nests inserted first a b) (h' : Nests inserted second b c) :
    Nests inserted (first ++ second) a c := by
  intro outlines hlength
  obtain ⟨hmid, hdeeds⟩ := h' outlines hlength
  obtain ⟨hlength, hdeeds'⟩ := h _ hmid
  rw [List.foldr_append]
  refine ⟨hlength, ?_⟩
  rw [hdeeds', hdeeds, List.filter_append, List.map_append, List.append_assoc]

theorem write (passage : Passage) (n : Nat) : Nests inserted [.write passage] n n := by
  intro outlines hlength
  match outlines, hlength with
  | top :: more, hlength => exact ⟨hlength, Outline.deedsOf_item _ top more⟩

theorem insert (requested : String) (n : Nat) : Nests inserted [.insert requested] n n := by
  intro outlines hlength
  match outlines, hlength with
  | top :: more, hlength => exact ⟨hlength, Outline.deedsOf_item _ top more⟩

theorem openBlock (name : String) (n : Nat) : Nests inserted [.openBlock name] n (n + 1) := by
  intro outlines hlength
  match outlines, hlength with
  | body :: rest :: more, hlength =>
    exact ⟨Nat.succ.inj hlength, Outline.deedsOf_block name body rest more⟩

theorem closeBlock (n : Nat) : Nests inserted [.closeBlock] (n + 1) n := by
  intro outlines hlength
  have hne : outlines ≠ [] := by
    rintro rfl
    cases hlength
  exact ⟨congrArg (· + 1) hlength, Outline.deedsOf_nil hne⟩

theorem extend (parent : String) (n : Nat) : Nests inserted [.extend parent] n n :=
  fun _ hlength => ⟨hlength, rfl⟩

end Event.Nests

/-! ## Pages are nested -/

/-- Whether an open tag is a block. -/
def OpenTag.isBlock : OpenTag → Bool
  | block _ => true
  | _ => false

namespace Reader

/-- How many blocks are open. -/
def depth (reader : Reader) : Nat :=
  (reader.opened.filter (·.isBlock)).length

theorem Moves.nests {tag : Tag} {reader next : Reader} {effect : Effect}
    (h : Moves tag reader effect next) :
    Event.Nests inserted effect.events reader.depth next.depth := by
  cases h with
  | ifThen | elseIf | forEach | name | load | enter => exact .nil _
  | otherwise => exact .nil _
  | endIf hopened | forNone hopened | endFor hopened | endName hopened =>
    unfold depth
    rw [hopened]
    exact .nil _
  | openBlock => exact .openBlock _ _
  | closeBlock hopened =>
    unfold depth
    rw [hopened]
    exact .closeBlock _
  | extend => exact .extend _ _
  | insert => exact .insert _ _

theorem nests_chunk (reader : Reader) (content : Bytes) (n : Nat) :
    Event.Nests inserted (reader.chunk content) n n := by
  unfold chunk
  split
  · exact .write _ n
  · exact .write _ n
  · exact .nil n

theorem Meets.nests {reader next : Reader} {d : Markup.Directive} {events : List Event}
    (h : Meets reader d events next) : Event.Nests inserted events reader.depth next.depth := by
  cases h with
  | shown => exact .write _ _
  | tagged hmode hread hfill hmoves =>
    exact Event.Nests.append (.write _ _) hmoves.nests
  | resumed => exact .nil _

/-- The events of a reading are nested as its open blocks are. -/
theorem Reads.nests {reader last : Reader} {feed : Feed} {events : List Event}
    (h : Reads reader feed events last) :
    Event.Nests inserted events reader.depth last.depth := by
  induction h with
  | done => exact .nil _
  | newLine _ _ ih => exact ih
  | checked _ _ ih => exact ih
  | text _ _ ih => exact (nests_chunk _ _ _).append ih
  | directive _ hmeets _ ih => exact ((nests_chunk _ _ _).append hmeets.nests).append ih

/-! ## Where `extends` stands -/

theorem Moves.tagsSeen {tag : Tag} {reader next : Reader} {effect : Effect}
    (h : Moves tag reader effect next) : next.tagsSeen = reader.tagsSeen := by
  cases h <;> rfl

end Reader

/-- Whether none of the events extends another template. -/
def Event.Stays (events : List Event) : Prop :=
  ∀ event ∈ events, event.parent? = none

/-- Whether events only write. -/
def Event.Writes (events : List Event) : Prop :=
  ∀ event ∈ events, ∃ passage, event = write passage

namespace Event

variable {first second : List Event}

theorem Stays.append (h : Stays first) (h' : Stays second) : Stays (first ++ second) := by
  intro event hmem
  rcases List.mem_append.1 hmem with hmem | hmem
  · exact h event hmem
  · exact h' event hmem

theorem Writes.append (h : Writes first) (h' : Writes second) : Writes (first ++ second) := by
  intro event hmem
  rcases List.mem_append.1 hmem with hmem | hmem
  · exact h event hmem
  · exact h' event hmem

theorem Writes.stays (h : Writes first) : Stays first := by
  intro event hmem
  obtain ⟨passage, rfl⟩ := h event hmem
  rfl

/-- Whether events extend another template before they do anything but write. -/
def Leads (events : List Event) : Prop :=
  ∃ lead parent rest, events = lead ++ write (.tagged [] none) :: extend parent :: rest ∧
    Writes lead ∧ Stays rest

theorem Leads.writes_append (h : Writes first) (h' : Leads second) : Leads (first ++ second) := by
  obtain ⟨lead, parent, rest, rfl, hlead, hrest⟩ := h'
  exact ⟨first ++ lead, parent, rest, (List.append_assoc _ _ _).symm, h.append hlead, hrest⟩

end Event

namespace Reader

theorem writes_chunk (reader : Reader) (content : Bytes) :
    Event.Writes (reader.chunk content) := by
  unfold chunk
  intro event hmem
  split at hmem
  · exact ⟨_, List.mem_singleton.1 hmem⟩
  · exact ⟨_, List.mem_singleton.1 hmem⟩
  · cases hmem

/-- Only the first tag can extend another template. -/
theorem Meets.cases_extend {reader next : Reader} {d : Markup.Directive} {events : List Event}
    (h : Meets reader d events next) :
    (next.tagsSeen = reader.tagsSeen ∧ Event.Writes events) ∨
      (0 < next.tagsSeen ∧ Event.Stays events) ∨
      (0 < next.tagsSeen ∧ reader.tagsSeen = 0 ∧
        ∃ parent, events = [.write (.tagged [] none), .extend parent]) := by
  have hwrite (passage : Passage) : Event.Writes [.write passage] :=
    fun event hmem => ⟨passage, List.mem_singleton.1 hmem⟩
  cases h with
  | shown => exact .inl ⟨rfl, hwrite _⟩
  | resumed => exact .inr (.inl ⟨Nat.succ_pos _, fun event hmem => nomatch hmem⟩)
  | tagged hmode hread hfill hmoves =>
    have hseen := hmoves.tagsSeen
    have hpos : 0 < next.tagsSeen := by
      rw [hseen]
      exact Nat.succ_pos _
    cases hmoves with
    | extend hfirst hpath =>
      have hzero : reader.tagsSeen = 0 := by
        have hle := Nat.le_of_not_lt hfirst
        exact Nat.le_zero.1 (Nat.le_of_succ_le_succ hle)
      obtain rfl := fills_quotedPath (fills_of_fill hfill).1 hpath
      exact .inr (.inr ⟨hpos, hzero, _, rfl⟩)
    | openBlock | closeBlock | insert =>
      refine .inr (.inl ⟨hpos, fun event hmem => ?_⟩)
      rcases List.mem_cons.1 hmem with rfl | hmem
      · rfl
      · rw [List.mem_singleton.1 hmem]
        rfl
    | ifThen | elseIf | otherwise | endIf | forEach | forNone | endFor | name | endName | load
      | enter => exact .inr (.inl ⟨hpos, (hwrite _).stays⟩)

/-- **`extends` comes first**: what a source does before is writing, and it extends one template at
most. -/
theorem Reads.leads {reader last : Reader} {feed : Feed} {events : List Event}
    (h : Reads reader feed events last) :
    Event.Stays events ∨ (reader.tagsSeen = 0 ∧ Event.Leads events) := by
  induction h with
  | done => exact .inl fun event hmem => nomatch hmem
  | newLine _ _ ih => exact ih
  | checked _ _ ih => exact ih
  | @text reader _ _ _ content _ _ _ ih =>
    have hchunk := reader.writes_chunk content
    rcases ih with hstays | ⟨hseen, hleads⟩
    · exact .inl (hchunk.stays.append hstays)
    · exact .inr ⟨hseen, hleads.writes_append hchunk⟩
  | @directive reader next _ _ _ text _ first events _ hmeets _ ih =>
    have hchunk := reader.writes_chunk text
    rcases hmeets.cases_extend with ⟨hsame, hwrites⟩ | ⟨hpos, hstays⟩ | ⟨hpos, hzero, parent, rfl⟩
    · rcases ih with hstays' | ⟨hseen, hleads⟩
      · exact .inl ((hchunk.append hwrites).stays.append hstays')
      · exact .inr ⟨hsame.symm.trans hseen, hleads.writes_append (hchunk.append hwrites)⟩
    · have hstays' := ih.resolve_right fun hn => Nat.ne_of_gt hpos hn.1
      exact .inl ((hchunk.stays.append hstays).append hstays')
    · have hstays' := ih.resolve_right fun hn => Nat.ne_of_gt hpos hn.1
      refine .inr ⟨hzero, reader.chunk text, parent, events, ?_, hchunk, hstays'⟩
      rw [List.append_assoc]
      rfl

end Reader

/-! ## Writing before a block -/

namespace Event.Writes

variable {events : List Event}

/-- Events that only write are put on a desk together. -/
theorem play (h : Writes events) (desk : Desk UInt8) :
    desk.play (events.map (deed inserted)) = desk.put (events.flatMap (·.text)) := by
  induction events generalizing desk with
  | nil => exact (Desk.put_nil desk).symm
  | cons event events ih =>
    obtain ⟨passage, rfl⟩ := h event List.mem_cons_self
    rw [List.map_cons, Desk.play_cons, ih fun event hmem => h event (List.mem_cons_of_mem _ hmem),
      List.flatMap_cons]
    exact Desk.put_put _ _ _

/-- What is written before a text stands before it. -/
theorem foldr_nest (h : Writes events) (inserted : String → Bytes) (outline : Outline) :
    ∃ whole, events.foldr (nest inserted) [outline] = [whole] ∧
      whole.deeds = events.map (deed inserted) ++ outline.deeds ∧
      (whole.IsProper → outline.IsProper) ∧
      ∀ env, whole.render env =
        (events.flatMap (·.text) ++ (outline.render env).1, (outline.render env).2) := by
  induction events with
  | nil => exact ⟨outline, rfl, rfl, id, fun env => rfl⟩
  | cons event events ih =>
    obtain ⟨passage, rfl⟩ := h event List.mem_cons_self
    obtain ⟨whole, hwhole, hdeeds, hproper, hrender⟩ :=
      ih fun event hmem => h event (List.mem_cons_of_mem _ hmem)
    refine ⟨.item passage.bytes whole, ?_, ?_, hproper, fun env => ?_⟩
    · rw [List.foldr_cons, hwhole]
      rfl
    · show Desk.Act.put _ :: whole.deeds = _
      rw [hdeeds]
      rfl
    · show (passage.bytes ++ (whole.render env).1, (whole.render env).2) = _
      rw [hrender, ← List.append_assoc]
      rfl

end Event.Writes

/-! ## Pages -/

namespace Page

/-- The outline of what a source writes. -/
def outline (inserted : String → Bytes) (page : Page) : Outline :=
  (page.body.foldr (Event.nest inserted) [.nil]).headD .nil

/-- The template that a source extends. -/
def parent? (page : Page) : Option String :=
  page.body.findSome? (·.parent?)

/-- What a source writes before it extends another template. -/
def lead (page : Page) : Bytes :=
  (page.body.takeWhile (·.parent?.isNone)).flatMap (·.text)

/-- The blocks that are defined after a source. -/
def define (inserted : String → Bytes) (env : Environment) (page : Page) : Environment :=
  ((page.outline inserted).render env).2

/-- Whether a page is what some text reads as, and leaves nothing open. -/
structure IsWhole (page : Page) : Prop where
  read : ∃ reader feed, Reader.Reads reader feed page.body page.last ∧ reader.opened = []
  closed : page.last.IsClosed

variable {page : Page}

theorem events_eq (h : page.IsWhole) : page.events = .turn :: page.body := by
  unfold events farewell
  rw [h.closed.1]
  exact congrArg (Event.turn :: ·) (List.append_nil _)

/-- The outline of a page tells what its source does. -/
theorem foldr_nest (inserted : String → Bytes) (h : page.IsWhole) :
    page.body.foldr (Event.nest inserted) [.nil] = [page.outline inserted] ∧
      (page.outline inserted).deeds =
        (page.body.filter (·.parent?.isNone)).map (Event.deed inserted) := by
  obtain ⟨reader, feed, hreads, hopened⟩ := h.read
  have hnests : Event.Nests inserted page.body reader.depth page.last.depth := hreads.nests
  obtain ⟨hlength, hdeeds⟩ := hnests [.nil] (by
    rw [Reader.depth, h.closed.2]
    rfl)
  rw [Reader.depth, hopened] at hlength
  obtain ⟨outline, houtline⟩ := List.length_eq_one_iff.1 hlength
  unfold Page.outline
  rw [houtline] at hdeeds ⊢
  exact ⟨rfl, hdeeds.trans (List.append_nil _)⟩

/-- A page that was read, and after which nothing is left open, is whole. -/
theorem isWhole_of_readPages {options : Options} {slots : Nat} {turns : List (Source × Bytes)}
    {pages : List Page} (h : readPages options slots turns = some pages) {page : Page}
    (hmem : page ∈ pages) (hclosed : page.last.IsClosed) : page.IsWhole := by
  obtain ⟨source, slots', text, hreads⟩ := reads_of_readPages h hmem
  exact ⟨⟨_, _, hreads, rfl⟩, hclosed⟩

end Page

/-! ## Chains -/

/-- What an `insert` of a template copies. -/
def Job.copied (job : Job) (requested : String) : Bytes :=
  (job.lookup job.disk (Text.trimSlashes requested)).getD []

end TemplateCompiler
