import TemplateCompiler.Proofs.Path.Staying
import TemplateCompiler.SearchPath

/-!
# Looking along the search path

Which root a look-up answers with, told by position: the first one from `startOf` on that has the
template, unless one before it, a skipped one included, refuses the name (`Answers`). Every look-up has
exactly one such answer, and `SearchPath.find` gives it (`find_eq_iff`).
-/
namespace TemplateCompiler

/-- The root takes the request for something below it. -/
def SearchRoot.Accepts (root : SearchRoot) (requested : String) : Prop :=
  ∃ path, root.dir.below requested = .ok path

theorem SearchRoot.not_accepts_iff {root : SearchRoot} {requested : String} :
    ¬ root.Accepts requested ↔ ∃ refusal, root.dir.below requested = .error refusal := by
  unfold Accepts
  cases root.dir.below requested with
  | error refusal => exact iff_of_true nofun ⟨refusal, rfl⟩
  | ok path => exact iff_of_false (fun h => h ⟨path, rfl⟩) nofun

namespace SearchPath

/-- The position from which on files are looked for: past the first root of the level to be skipped, and
past all roots if there is none. -/
def startOf (skipped : Option String) (roots : SearchPath) : Nat :=
  match skipped with
  | none => 0
  | some level => roots.findIdx (·.level == level) + 1

/-- A look-up gets to position `i`: every root before it accepts the name, and those that count do not
have the template. -/
def Passes (isThere : Path → Bool) (requested : String) (start : Nat) (roots : SearchPath)
    (i : Nat) : Prop :=
  ∀ j < i, ∀ root, roots[j]? = some root →
    ∃ path, root.dir.below requested = .ok path ∧ (start ≤ j → isThere path = false)

/-- The look-up ends at position `i`, where the template is found. -/
structure Hits (isThere : Path → Bool) (requested : String) (start : Nat) (roots : SearchPath)
    (i : Nat) (found : Found) : Prop where
  root : ∃ root, roots[i]? = some root ∧ root.level = found.level ∧
    root.dir.below requested = .ok found.path
  start_le : start ≤ i
  there : isThere found.path = true
  passes : Passes isThere requested start roots i

/-- The look-up ends at position `i`, where the name is refused. -/
structure Refuses (isThere : Path → Bool) (requested : String) (start : Nat) (roots : SearchPath)
    (i : Nat) (refusal : Path.Refusal) : Prop where
  root : ∃ root, roots[i]? = some root ∧ root.dir.below requested = .error refusal
  passes : Passes isThere requested start roots i

/-- What there is to be answered to a look-up. -/
inductive Answers (isThere : Path → Bool) (requested : String) (start : Nat) (roots : SearchPath) :
    Except Path.Refusal (Option Found) → Prop
  | hit {i : Nat} {found : Found} (h : Hits isThere requested start roots i found) :
      Answers isThere requested start roots (.ok (some found))
  | refusal {i : Nat} {refusal : Path.Refusal}
      (h : Refuses isThere requested start roots i refusal) :
      Answers isThere requested start roots (.error refusal)
  | nothing (h : Passes isThere requested start roots roots.length) :
      Answers isThere requested start roots (.ok none)

variable {isThere : Path → Bool} {requested : String} {skipped : Option String} {start i j : Nat}
  {root : SearchRoot} {roots : SearchPath} {found found' : Found} {refusal refusal' : Path.Refusal}
  {answer answer' : Except Path.Refusal (Option Found)}

theorem toOption_eq_some_iff {result : Except Path.Refusal Path} {path : Path} :
    result.toOption = some path ↔ result = .ok path :=
  ⟨Path.eq_ok_of_toOption, fun h => by rw [h]; rfl⟩

instance : Decidable (Passes isThere requested start roots i) :=
  decidable_of_iff (∀ j < i, ∀ root ∈ roots[j]?, ∃ path ∈ (root.dir.below requested).toOption,
      start ≤ j → isThere path = false) <| by
    simp only [Option.mem_def, toOption_eq_some_iff]
    rfl

instance : Decidable (Hits isThere requested start roots i found) :=
  decidable_of_iff ((∃ root ∈ roots[i]?, root.level = found.level ∧
      (root.dir.below requested).toOption = some found.path) ∧ start ≤ i ∧
      isThere found.path = true ∧ Passes isThere requested start roots i) <| by
    simp only [Option.mem_def, toOption_eq_some_iff]
    exact ⟨fun ⟨hroot, hstart, hthere, hpasses⟩ => ⟨hroot, hstart, hthere, hpasses⟩,
      fun h => ⟨h.root, h.start_le, h.there, h.passes⟩⟩

/-! ## There is one answer -/

theorem Passes.accepts (h : Passes isThere requested start roots i) (hj : j < i)
    (hroot : roots[j]? = some root) : root.Accepts requested := by
  obtain ⟨path, hpath, -⟩ := h j hj root hroot
  exact ⟨path, hpath⟩

/-- Whatever the look-up finds, the roots up to there accept the request. -/
theorem Hits.accepts (h : Hits isThere requested start roots i found) (hj : j ≤ i)
    (hroot : roots[j]? = some root) : root.Accepts requested := by
  rcases Nat.lt_or_eq_of_le hj with hj | rfl
  · exact h.passes.accepts hj hroot
  · obtain ⟨other, hother, -, hbelow⟩ := h.root
    obtain rfl := Option.some.inj (hroot.symm.trans hother)
    exact ⟨_, hbelow⟩

theorem Hits.lt_length (h : Hits isThere requested start roots i found) : i < roots.length := by
  obtain ⟨_, hroot, -, -⟩ := h.root
  exact (List.getElem?_eq_some_iff.1 hroot).1

theorem Refuses.lt_length (h : Refuses isThere requested start roots i refusal) :
    i < roots.length := by
  obtain ⟨_, hroot, -⟩ := h.root
  exact (List.getElem?_eq_some_iff.1 hroot).1

/-- No look-up gets past a root that has the template, if that root counts. -/
theorem Hits.le_of_passes {start' : Nat} (h : Hits isThere requested start roots i found)
    (hstart : start' ≤ i) (hpasses : Passes isThere requested start' roots j) : j ≤ i := by
  refine Nat.le_of_not_lt fun hlt => ?_
  obtain ⟨root, hroot, -, hbelow⟩ := h.root
  obtain ⟨path, hpath, hnot⟩ := hpasses i hlt root hroot
  obtain rfl : found.path = path := Except.ok.inj (hbelow.symm.trans hpath)
  exact Bool.false_ne_true ((hnot hstart).symm.trans h.there)

theorem Refuses.not_accepts (h : Refuses isThere requested start roots i refusal)
    (hroot : roots[i]? = some root) : ¬ root.Accepts requested := by
  obtain ⟨other, hother, hbelow⟩ := h.root
  obtain rfl := Option.some.inj (hroot.symm.trans hother)
  exact SearchRoot.not_accepts_iff.2 ⟨refusal, hbelow⟩

/-- No look-up gets past a root that refuses the name. -/
theorem Refuses.le_of_passes (h : Refuses isThere requested start roots i refusal)
    (hpasses : Passes isThere requested start roots j) : j ≤ i := by
  refine Nat.le_of_not_lt fun hlt => ?_
  obtain ⟨root, hroot, -⟩ := h.root
  exact h.not_accepts hroot (hpasses.accepts hlt hroot)

theorem Hits.unique (h : Hits isThere requested start roots i found)
    (h' : Hits isThere requested start roots j found') : found = found' := by
  obtain rfl : i = j := Nat.le_antisymm (h'.le_of_passes h'.start_le h.passes)
    (h.le_of_passes h.start_le h'.passes)
  obtain ⟨root, hroot, hlevel, hbelow⟩ := h.root
  obtain ⟨root', hroot', hlevel', hbelow'⟩ := h'.root
  obtain rfl := Option.some.inj (hroot.symm.trans hroot')
  have hpath := Except.ok.inj (hbelow.symm.trans hbelow')
  cases found
  cases found'
  exact Found.mk.injEq .. ▸ ⟨hpath, hlevel.symm.trans hlevel'⟩

theorem Refuses.unique (h : Refuses isThere requested start roots i refusal)
    (h' : Refuses isThere requested start roots j refusal') : refusal = refusal' := by
  obtain rfl : i = j := Nat.le_antisymm (h'.le_of_passes h.passes) (h.le_of_passes h'.passes)
  obtain ⟨root, hroot, hbelow⟩ := h.root
  obtain ⟨root', hroot', hbelow'⟩ := h'.root
  obtain rfl := Option.some.inj (hroot.symm.trans hroot')
  exact Except.error.inj (hbelow.symm.trans hbelow')

theorem Hits.not_refuses (h : Hits isThere requested start roots i found) :
    ¬ Refuses isThere requested start roots j refusal := by
  intro h'
  obtain ⟨root, hroot, -⟩ := h'.root
  exact h'.not_accepts hroot (h.accepts (h.le_of_passes h.start_le h'.passes) hroot)

theorem Answers.unique (h : Answers isThere requested start roots answer)
    (h' : Answers isThere requested start roots answer') : answer = answer' := by
  cases h with
  | hit h =>
    cases h' with
    | hit h' => rw [h.unique h']
    | refusal h' => exact absurd h' h.not_refuses
    | nothing h' => exact absurd (h.le_of_passes h.start_le h') (Nat.not_le.2 h.lt_length)
  | refusal h =>
    cases h' with
    | hit h' => exact absurd h h'.not_refuses
    | refusal h' => rw [h.unique h']
    | nothing h' => exact absurd (h.le_of_passes h') (Nat.not_le.2 h.lt_length)
  | nothing h =>
    cases h' with
    | hit h' => exact absurd (h'.le_of_passes h'.start_le h) (Nat.not_le.2 h'.lt_length)
    | refusal h' => exact absurd (h'.le_of_passes h) (Nat.not_le.2 h'.lt_length)
    | nothing _ => rfl

/-! ## The search gives it -/

/-- Where files are looked for once a root has been passed. -/
theorem startOf_skipAfter (skipped : Option String) (root : SearchRoot) (roots : SearchPath) :
    startOf (skipAfter skipped root.level) roots = startOf skipped (root :: roots) - 1 := by
  cases skipped with
  | none => rfl
  | some level =>
    unfold skipAfter
    by_cases h : level = root.level
    · subst h
      simp [startOf, List.findIdx_cons]
    · have hne : (root.level == level) = false := beq_false_of_ne (Ne.symm h)
      rw [if_neg (by simpa using h)]
      simp [startOf, List.findIdx_cons, hne]

theorem startOf_eq_zero_iff : startOf skipped roots = 0 ↔ skipped.isNone = true := by
  cases skipped <;> simp [startOf]

/-- One root is passed, and then those after it. -/
theorem Passes.cons {path : Path} (hbelow : root.dir.below requested = .ok path)
    (hnot : start = 0 → isThere path = false) (h : Passes isThere requested (start - 1) roots i) :
    Passes isThere requested start (root :: roots) (i + 1) := by
  intro j hj other hother
  cases j with
  | zero =>
    obtain rfl : root = other := Option.some.inj hother
    exact ⟨path, hbelow, fun hle => hnot (Nat.le_zero.1 hle)⟩
  | succ j =>
    obtain ⟨path, hpath, hthere⟩ := h j (Nat.lt_of_succ_lt_succ hj) other hother
    exact ⟨path, hpath, fun hle => hthere (Nat.sub_le_of_le_add hle)⟩

/-- What is to be answered after a root that is passed is to be answered with it. -/
theorem Answers.cons {path : Path} (hbelow : root.dir.below requested = .ok path)
    (hnot : start = 0 → isThere path = false)
    (h : Answers isThere requested (start - 1) roots answer) :
    Answers isThere requested start (root :: roots) answer := by
  cases h with
  | hit h =>
    exact .hit ⟨h.root, Nat.le_add_of_sub_le h.start_le, h.there, .cons hbelow hnot h.passes⟩
  | refusal h => exact .refusal ⟨h.root, .cons hbelow hnot h.passes⟩
  | nothing h => exact .nothing (.cons hbelow hnot h)

theorem passes_zero : Passes isThere requested start roots 0 :=
  fun _ hj => absurd hj (Nat.not_lt_zero _)

theorem answers_find (isThere : Path → Bool) (requested : String) (skipped : Option String)
    (roots : SearchPath) :
    Answers isThere requested (startOf skipped roots) roots (find isThere requested skipped roots) := by
  induction roots generalizing skipped with
  | nil => exact .nothing passes_zero
  | cons root roots ih =>
    unfold find
    cases hbelow : root.dir.below requested with
    | error refusal => exact .refusal ⟨⟨root, rfl, hbelow⟩, passes_zero⟩
    | ok path =>
      dsimp only
      split
      · next hthere =>
        obtain ⟨hnone, hthere⟩ := Bool.and_eq_true_iff.1 hthere
        exact .hit ⟨⟨root, rfl, rfl, hbelow⟩, Nat.le_of_eq (startOf_eq_zero_iff.2 hnone), hthere,
          passes_zero⟩
      · next hnot =>
        refine .cons hbelow (fun hzero => ?_) (startOf_skipAfter skipped root roots ▸ ih _)
        rw [startOf_eq_zero_iff.1 hzero, Bool.true_and] at hnot
        exact eq_false_of_ne_true hnot

theorem find_eq_iff : find isThere requested skipped roots = answer ↔
    Answers isThere requested (startOf skipped roots) roots answer :=
  ⟨fun h => h ▸ answers_find isThere requested skipped roots,
    (answers_find isThere requested skipped roots).unique⟩

theorem find_eq_some_iff : find isThere requested skipped roots = .ok (some found) ↔
    ∃ i, Hits isThere requested (startOf skipped roots) roots i found := by
  rw [find_eq_iff]
  constructor
  · rintro (⟨h⟩ | _ | _)
    exact ⟨_, h⟩
  · rintro ⟨i, h⟩
    exact .hit h

theorem find_eq_error_iff : find isThere requested skipped roots = .error refusal ↔
    ∃ i, Refuses isThere requested (startOf skipped roots) roots i refusal := by
  rw [find_eq_iff]
  constructor
  · rintro (_ | ⟨h⟩ | _)
    exact ⟨_, h⟩
  · rintro ⟨i, h⟩
    exact .refusal h

/-- A look-up ends at a root that has the template or refuses the name, or it passes all roots. -/
theorem hits_or_refuses_or_passes (isThere : Path → Bool) (requested : String)
    (skipped : Option String) (roots : SearchPath) :
    (∃ i found, Hits isThere requested (startOf skipped roots) roots i found) ∨
      (∃ i refusal, Refuses isThere requested (startOf skipped roots) roots i refusal) ∨
        Passes isThere requested (startOf skipped roots) roots roots.length := by
  have h := answers_find isThere requested skipped roots
  generalize find isThere requested skipped roots = answer at h
  cases h with
  | hit h => exact .inl ⟨_, _, h⟩
  | refusal h => exact .inr (.inl ⟨_, _, h⟩)
  | nothing h => exact .inr (.inr h)

/-! ## Looking up -/

/-- What a look-up is to do: it gives the one answer there is, and what it finds exists and stands
strictly below the cleaned directory of the root that the look-up ended at. -/
structure LooksUp (isThere : Path → Bool) (requested : String) (skipped : Option String)
    (roots : SearchPath) : Prop where
  answer : ∀ answer, find isThere requested skipped roots = answer ↔
    Answers isThere requested (startOf skipped roots) roots answer
  inside : ∀ found, find isThere requested skipped roots = .ok (some found) →
    isThere found.path = true ∧ ∃ i root, roots[i]? = some root ∧
      Hits isThere requested (startOf skipped roots) roots i found ∧
      ∃ more, more ≠ [] ∧ found.path.parts = root.dir.clean.parts ++ more

/-- **Looking up**: the first root from the start on that has the template is the answer, unless a root
before it refuses the name. -/
theorem looksUp (isThere : Path → Bool) (requested : String) (skipped : Option String)
    (roots : SearchPath) : LooksUp isThere requested skipped roots where
  answer _ := find_eq_iff
  inside found h := by
    obtain ⟨i, hit⟩ := find_eq_some_iff.1 h
    obtain ⟨root, hroot, -, hbelow⟩ := hit.root
    exact ⟨hit.there, i, root, hroot, hit, (Path.below_eq_ok hbelow).2⟩

end SearchPath

end TemplateCompiler
