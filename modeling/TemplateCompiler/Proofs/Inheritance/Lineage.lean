import Mathlib.Logic.Relation
import TemplateCompiler.Standard

/-!
# Lines of descent

A source that extends another one has it queued, and the catalog remembers of the other one which
source extended it. From a source these links lead back to the first one: its line. The search along
the links finds just the paths of the line (`Lineage.chainHas_eq`), so that a catalog in which a path
is entered only if it is not in the line has no path twice in a line (`Catalogued.append`).
-/
namespace TemplateCompiler

open Relation

theorem Path.same_comm (a b : Path) : a.same b = b.same a :=
  Bool.beq_comm

/-- The first source was extended by the second one. -/
def ExtendedBy (catalog : List Origin) (id child : SourceId) : Prop :=
  ∃ origin, catalog[id]? = some origin ∧ origin.child = some child

/-- The paths of a source and of those that are reached from it by links. -/
inductive Lineage (catalog : List Origin) : Option SourceId → List Path → Prop
  | ended : Lineage catalog none []
  | link {id : SourceId} {origin : Origin} {paths : List Path}
    (horigin : catalog[id]? = some origin) (hrest : Lineage catalog origin.child paths) :
    Lineage catalog (some id) (origin.path :: paths)

namespace Lineage

variable {catalog : List Origin} {id : SourceId} {start : Option SourceId} {paths : List Path}
  {path : Path}

theorem append (h : Lineage catalog start paths) (more : List Origin) :
    Lineage (catalog ++ more) start paths := by
  induction h with
  | ended => exact .ended
  | link horigin _ ih =>
    refine .link ?_ ih
    rw [List.getElem?_append_left (List.getElem?_eq_some_iff.1 horigin).1]
    exact horigin

theorem unique {others : List Path} (h : Lineage catalog start paths)
    (h' : Lineage catalog start others) : paths = others := by
  induction h generalizing others with
  | ended =>
    cases h'
    rfl
  | link horigin _ ih =>
    cases h' with
    | link horigin' hrest' =>
      obtain rfl := Option.some.inj (horigin.symm.trans horigin')
      rw [ih hrest']

/-- **The search for a path** along the links looks at every path of the line, if it may take as many
steps as the line is long. -/
theorem chainHas_eq (h : Lineage catalog start paths) {steps : Nat} (hsteps : paths.length ≤ steps) :
    Standard.chainHas catalog path steps start = paths.any (·.same path) := by
  induction h generalizing steps with
  | ended => cases steps <;> rfl
  | link horigin _ ih =>
    cases steps with
    | zero => cases hsteps
    | succ steps =>
      rw [Standard.chainHas, horigin]
      dsimp only
      rw [ih (Nat.le_of_succ_le_succ hsteps), List.any_cons]

/-- A path of the line is that of a source that is reached by links. -/
theorem mem_iff (h : Lineage catalog (some id) paths) :
    path ∈ paths ↔ ∃ id' origin, ReflTransGen (ExtendedBy catalog) id id' ∧
      catalog[id']? = some origin ∧ origin.path = path := by
  generalize hstart : some id = start at h
  induction h generalizing id with
  | ended => cases hstart
  | @link first origin rest horigin hrest ih =>
    obtain rfl := Option.some.inj hstart
    constructor
    · intro hmem
      rcases List.mem_cons.1 hmem with rfl | hmem
      · exact ⟨id, origin, .refl, horigin, rfl⟩
      · cases hchild : origin.child with
        | none =>
          rw [hchild] at hrest
          cases hrest
          cases hmem
        | some child =>
          obtain ⟨id', found, hreached, hfound, hpath⟩ := (ih hchild.symm).1 hmem
          exact ⟨id', found, .head ⟨origin, horigin, hchild⟩ hreached, hfound, hpath⟩
    · rintro ⟨id', found, hreached, hfound, rfl⟩
      rcases ReflTransGen.cases_head hreached with rfl | ⟨child, ⟨link, hlink, hchild⟩, hreached⟩
      · obtain rfl := Option.some.inj (horigin.symm.trans hfound)
        exact List.mem_cons_self
      · obtain rfl := Option.some.inj (horigin.symm.trans hlink)
        exact List.mem_cons_of_mem _ ((ih hchild.symm).2 ⟨id', found, hreached, hfound, rfl⟩)

/-- A line is no longer than the number of its source allows, if links lead to earlier sources. -/
theorem length_le (hearlier : ∀ (id : SourceId) (origin : Origin) (child : SourceId),
    catalog[id]? = some origin → origin.child = some child → child < id) (h : Lineage catalog (some id) paths) :
    paths.length ≤ id + 1 := by
  generalize hstart : some id = start at h
  induction h generalizing id with
  | ended => cases hstart
  | @link first origin rest horigin hrest ih =>
    obtain rfl := Option.some.inj hstart
    cases hchild : origin.child with
    | none =>
      rw [hchild] at hrest
      cases hrest
      exact Nat.succ_le_succ (Nat.zero_le id)
    | some child =>
      have hlt := hearlier id origin child horigin hchild
      exact Nat.succ_le_succ (Nat.le_trans (ih hchild.symm) hlt)

end Lineage

/-- Links lead to earlier sources, and no path is twice in a line. -/
structure Catalogued (catalog : List Origin) : Prop where
  earlier : ∀ (id : SourceId) (origin : Origin) (child : SourceId),
    catalog[id]? = some origin → origin.child = some child → child < id
  lines : ∀ id < catalog.length, ∃ paths, Lineage catalog (some id) paths ∧
    paths.Pairwise fun p q => p.same q = false

namespace Catalogued

variable {catalog : List Origin} {id : SourceId} {path : Path}

theorem nil : Catalogued [] where
  earlier := by
    intro id origin child horigin
    cases horigin
  lines := by
    intro id hlt
    exact absurd hlt (Nat.not_lt_zero id)

/-- **The search is exact**: it finds a path just if it is that of the source itself or of one that is
reached from it by links. -/
theorem chainHas_iff (h : Catalogued catalog) (hid : id < catalog.length) :
    Standard.chainHas catalog path catalog.length (some id) = true ↔
      ∃ id' origin, ReflTransGen (ExtendedBy catalog) id id' ∧ catalog[id']? = some origin ∧
        origin.path.same path = true := by
  obtain ⟨paths, hline, -⟩ := h.lines id hid
  rw [hline.chainHas_eq (Nat.le_trans (hline.length_le h.earlier) hid), List.any_eq_true]
  constructor
  · rintro ⟨found, hmem, hsame⟩
    obtain ⟨id', origin, hreached, horigin, rfl⟩ := hline.mem_iff.1 hmem
    exact ⟨id', origin, hreached, horigin, hsame⟩
  · rintro ⟨id', origin, hreached, horigin, hsame⟩
    exact ⟨origin.path, hline.mem_iff.2 ⟨id', origin, hreached, horigin, rfl⟩, hsame⟩

/-- **No path twice**: a source and one that is reached from it by links have different paths. -/
theorem distinct (h : Catalogued catalog) {id' : SourceId} {origin origin' : Origin}
    (hreached : TransGen (ExtendedBy catalog) id id') (horigin : catalog[id]? = some origin)
    (horigin' : catalog[id']? = some origin') : origin.path.same origin'.path = false := by
  obtain ⟨child, ⟨link, hlink, hchild⟩, hrest⟩ := TransGen.head'_iff.1 hreached
  obtain rfl := Option.some.inj (horigin.symm.trans hlink)
  obtain ⟨paths, hline, hpairwise⟩ := h.lines id (List.getElem?_eq_some_iff.1 horigin).1
  cases hline with
  | link hfirst hline =>
    obtain rfl := Option.some.inj (horigin.symm.trans hfirst)
    rw [hchild] at hline
    exact (List.pairwise_cons.1 hpairwise).1 _
      (hline.mem_iff.2 ⟨id', origin', hrest, horigin', rfl⟩)

/-- An origin may be entered if its path is not in the line of the source that it links to. -/
theorem append (h : Catalogued catalog) (origin : Origin)
    (hfresh : ∀ child, origin.child = some child → child < catalog.length ∧
      Standard.chainHas catalog origin.path catalog.length (some child) = false) :
    Catalogued (catalog ++ [origin]) where
  earlier := by
    intro id found child hfound hchild
    by_cases hlt : id < catalog.length
    · rw [List.getElem?_append_left hlt] at hfound
      exact h.earlier id found child hfound hchild
    · have hle := Nat.le_of_not_lt hlt
      rw [List.getElem?_append_right hle] at hfound
      obtain rfl := List.mem_singleton.1 (List.mem_of_getElem? hfound)
      exact Nat.lt_of_lt_of_le (hfresh child hchild).1 hle
  lines := by
    intro id hlt
    rw [List.length_append, List.length_singleton] at hlt
    rcases Nat.lt_succ_iff_lt_or_eq.1 hlt with hlt | rfl
    · obtain ⟨paths, hline, hpairwise⟩ := h.lines id hlt
      exact ⟨paths, hline.append _, hpairwise⟩
    · have hlast : (catalog ++ [origin])[catalog.length]? = some origin := List.getElem?_concat_length
      cases hchild : origin.child with
      | none =>
        refine ⟨[origin.path], .link hlast ?_, List.pairwise_singleton _ _⟩
        rw [hchild]
        exact .ended
      | some child =>
        obtain ⟨hbefore, hnot⟩ := hfresh child hchild
        obtain ⟨paths, hline, hpairwise⟩ := h.lines child hbefore
        refine ⟨origin.path :: paths, .link hlast ?_, List.pairwise_cons.2 ⟨?_, hpairwise⟩⟩
        · rw [hchild]
          exact hline.append _
        · intro path hpath
          rw [hline.chainHas_eq (Nat.le_trans (hline.length_le h.earlier) hbefore), List.any_eq_false] at hnot
          rw [Path.same_comm]
          exact Bool.eq_false_iff.2 (hnot path hpath)

end Catalogued

end TemplateCompiler
