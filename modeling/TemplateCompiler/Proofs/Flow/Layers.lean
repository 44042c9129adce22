import TemplateCompiler.Proofs.Flow.Constructs
import TemplateCompiler.Proofs.Inheritance.Outline
import TemplateCompiler.Proofs.Transcript.Reader

/-!
# Layers of a desk

A desk is built up with the tags that are open (`Desk.Layered`): on top of what was there when a tag
was opened lies what was written since, to all sheets that are not paused, and it has the construct
of the tag open and nothing else. A block is a layer that begins with a sheet of its own. Taking
layers off again gives a desk whose artifacts have everything closed.
-/
namespace TemplateCompiler

open Segment

/-! ## Constructs of passages -/

/-- What passages make of the open constructs. -/
def Passage.Scans (passages : List Passage) (opened last : List Construct) : Prop :=
  Segment.Scans false (passages.flatMap segments) opened last

namespace Passage.Scans

variable {first second : List Passage} {opened middle last : List Construct}

theorem append (h : Scans first opened middle) (h' : Scans second middle last) :
    Scans (first ++ second) opened last := by
  unfold Scans
  rw [List.flatMap_append]
  exact Segment.Scans.append h h'

theorem under (h : Scans first [] []) (opened : List Construct) : Scans first opened opened :=
  Segment.Scans.weaken h opened

/-- The slots of a tag are filled before it does anything to the open constructs. -/
theorem tagged {fills : List Fill} {statement : Option Code.Statement}
    (h : Segment.Shifts false (.tag statement (fills.map (·.slot))) opened last) :
    Scans [.tagged fills statement] opened last := by
  have hfills : ∀ segment ∈ fills.map (fun fill => Segment.fill fill.slot fill.vars),
      segment.isStraight = true := by
    intro segment hsegment
    obtain ⟨fill, -, rfl⟩ := List.mem_map.1 hsegment
    rfl
  unfold Scans
  rw [List.flatMap_singleton]
  exact (scans_straight hfills opened).append h.scans

theorem tagged_straight (fills : List Fill) {statement : Option Code.Statement}
    (h : Segment.isStraight (.tag statement (fills.map (·.slot))) = true) :
    Scans [.tagged fills statement] [] [] :=
  tagged (.straight h)

end Passage.Scans

/-- What is open of a tag in the code. -/
inductive OpenTag.Opens : OpenTag → List Construct → Prop
  | condition (last : Bool) : Opens condition [.condition last]
  | loop (hasNone : Bool) : Opens (loop hasNone) [.loop hasNone]
  | naming : Opens naming []

/-- The name of an open block. -/
def OpenTag.name? : OpenTag → Option String
  | block name => some name
  | _ => none

theorem OpenTag.Opens.name? {tag : OpenTag} {constructs : List Construct}
    (h : tag.Opens constructs) : tag.name? = none := by
  cases h <;> rfl

namespace Desk

/-! ## Layers -/

theorem put_store {ι : Type} (desk : Desk ι) (first second : List ι)
    (store : String → Option (List ι)) :
    ({ desk.put first with store } : Desk ι).put second =
      { desk.put (first ++ second) with store } := by
  rw [← put_put]
  rfl

/-- Whether nothing is open at the end of any stored block. -/
def Settled (store : String → Option (List Passage)) : Prop :=
  ∀ name stored, store name = some stored → Passage.Scans stored [] []

theorem Settled.update {store : String → Option (List Passage)} (h : Settled store) (name : String)
    {text : List Passage} (htext : Passage.Scans text [] []) :
    Settled (Function.update store name (some text)) := by
  intro other stored hstored
  by_cases heq : other = name
  · subst heq
    rw [Function.update_self] at hstored
    obtain rfl := Option.some.inj hstored
    exact htext
  · rw [Function.update_of_ne heq] at hstored
    exact h other stored hstored

/-- The desk as it has been built up with the open tags, the innermost first. -/
inductive Layered : List OpenTag → Desk Passage → Prop
  /-- Nothing is open. -/
  | ground {desk : Desk Passage} (hblocks : desk.blocks = [])
    (hmain : Passage.Scans desk.main.content [] []) (hstore : Settled desk.store) :
    Layered [] desk
  /-- A tag and what was written since it was opened. -/
  | tag {tag : OpenTag} {opened : List OpenTag} {desk : Desk Passage} {text : List Passage}
    {store : String → Option (List Passage)} {constructs : List Construct} (h : Layered opened desk)
    (hopens : tag.Opens constructs) (htext : Passage.Scans text [] constructs)
    (hstore : Settled store) : Layered (tag :: opened) { desk.put text with store }
  /-- A block and what was written since it was opened. -/
  | block {name : String} {opened : List OpenTag} {desk : Desk Passage} {text : List Passage}
    {store : String → Option (List Passage)} (h : Layered opened desk) (hname : name ∉ desk.names)
    (htext : Passage.Scans text [] []) (hstore : Settled store) :
    Layered (.block name :: opened) { (desk.openBlock name).put text with store }

namespace Layered

variable {tag tag' : OpenTag} {opened : List OpenTag} {desk : Desk Passage} {text : List Passage}
  {store : String → Option (List Passage)} {constructs : List Construct} {name : String}

theorem settled (h : Layered opened desk) : Settled desk.store := by
  cases h with
  | ground _ _ hstore => exact hstore
  | tag _ _ _ hstore => exact hstore
  | block _ _ _ hstore => exact hstore

/-- The blocks of a desk are those that are open. -/
theorem names (h : Layered opened desk) :
    desk.names = (opened.filterMap (·.name?)).reverse ∧ desk.names.Nodup := by
  induction h with
  | ground hblocks =>
    unfold Desk.names
    rw [hblocks]
    exact ⟨rfl, List.nodup_nil⟩
  | @tag tag opened desk text store _ _ hopens _ _ ih =>
    have hnames : ({ desk.put text with store } : Desk Passage).names = desk.names :=
      names_put desk text
    rw [hnames, List.filterMap_cons_none hopens.name?]
    exact ih
  | @block name opened desk text store _ hname _ _ ih =>
    have hnames : ({ (desk.openBlock name).put text with store } : Desk Passage).names =
        desk.names ++ [name] := (names_put _ text).trans (names_openBlock hname)
    rw [hnames]
    constructor
    · rw [ih.1]
      exact List.reverse_cons.symm
    · rw [← List.concat_eq_append]
      exact ih.2.concat hname

/-- What has everything closed can be written at any time. -/
theorem put (h : Layered opened desk) (htext : Passage.Scans text [] []) (hstore : Settled store) :
    Layered opened { desk.put text with store } := by
  cases h with
  | ground hblocks hmain _ =>
    refine .ground ?_ ?_ hstore
    · simp [Desk.put, onSheets, hblocks]
    · show Passage.Scans (desk.main.put text).content [] []
      unfold Sheet.put
      split
      · exact hmain
      · exact hmain.append htext
  | @tag tag _ below before _ constructs h hopens hbefore _ =>
    rw [Desk.put_store]
    exact .tag h hopens (hbefore.append (htext.under constructs)) hstore
  | @block name _ below before _ h hname hbefore _ =>
    rw [Desk.put_store]
    exact .block h hname (hbefore.append htext) hstore

/-- What opens a construct lies on top. -/
theorem push (h : Layered opened desk) (hopens : tag.Opens constructs)
    (htext : Passage.Scans text [] constructs) : Layered (tag :: opened) (desk.put text) :=
  .tag h hopens htext h.settled

/-- What changes the open construct of a tag lies in its layer. -/
theorem shift (h : Layered (tag :: opened) desk)
    (hshift : ∀ constructs, tag.Opens constructs →
      ∃ constructs', tag'.Opens constructs' ∧ Passage.Scans text constructs constructs')
    (htag : tag.name? = none) : Layered (tag' :: opened) (desk.put text) := by
  cases h with
  | @tag _ _ below before store constructs h hopens hbefore hstore =>
    obtain ⟨constructs', hopens', htext⟩ := hshift constructs hopens
    rw [Desk.put_store]
    exact .tag h hopens' (hbefore.append htext) hstore
  | block => cases htag

/-- What closes the open construct of a tag takes its layer off. -/
theorem pop (h : Layered (tag :: opened) desk)
    (hclose : ∀ constructs, tag.Opens constructs → Passage.Scans text constructs [])
    (htag : tag.name? = none) : Layered opened (desk.put text) := by
  cases h with
  | @tag _ _ below before store constructs h hopens hbefore hstore =>
    rw [Desk.put_store]
    exact h.put (hbefore.append (hclose constructs hopens)) hstore
  | block => cases htag

theorem openBlock (h : Layered opened desk) (hname : name ∉ desk.names) :
    Layered (.block name :: opened) (desk.openBlock name) := by
  have hblock : Layered (.block name :: opened)
      { (desk.openBlock name).put [] with store := (desk.openBlock name).store } := by
    refine .block h hname .nil ?_
    rw [store_openBlock hname]
    exact h.settled
  rwa [Desk.put_nil] at hblock

/-- A block that is closed leaves what it shows, or what is stored for it, in the layer below. -/
theorem closeBlock (h : Layered (.block name :: opened) desk) : Layered opened desk.closeBlock := by
  cases h with
  | tag _ hopens => cases hopens
  | @block _ _ below text store h hname htext hstore =>
    cases hfound : below.store name with
    | none =>
      rw [closeBlock_new hname hfound]
      exact h.put htext (hstore.update name htext)
    | some stored =>
      rw [closeBlock_stored hname h.names.2 hfound]
      -- what was written in the block is dropped: only the stored text goes to the layer below
      exact h.put (h.settled name stored hfound) hstore

theorem silence (h : Layered [] desk) : Layered [] desk.silence := by
  obtain ⟨hblocks, hmain, hstore⟩ := h
  exact .ground hblocks hmain hstore

theorem turn (h : Layered [] desk) : Layered [] desk.turn := by
  obtain ⟨hblocks, hmain, hstore⟩ := h
  exact .ground hblocks hmain hstore

end Layered

end Desk

end TemplateCompiler
