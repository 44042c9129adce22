import TemplateCompiler.Proofs.Path.Names
import TemplateCompiler.Proofs.Path.Spelling
import TemplateCompiler.Proofs.Path.Starting

/-!
# Names below a directory

`Path.below` compares cleaned parts where it is places that count. An accepted name always leads to
the path that it is accepted as, and for a directory that is absolute or ends in a name it is accepted
exactly if it leads strictly below. Two kinds of directory are told wrongly: nothing counts as below
the directory where one starts, and everything does that climbs out of one above it (`jails_iff`).
-/
namespace TemplateCompiler.Path

/-- The place that a name leads to from the directory that `base` denotes. -/
def placeBelow (start : Place) (base : Path) (name : String) : Place :=
  (steps ⟨Text.trimSlashes name⟩).foldl advance (base.placeFrom start)

/-- What is left first of a name once it is rid of its detours. -/
def lead (name : String) : Option Part :=
  (cleanParts (steps ⟨Text.trimSlashes name⟩)).head?

/-- A name is kept in: it is accepted exactly if it leads strictly below the base, whatever directory
one starts from, and what it is accepted as leads to the same place. -/
structure Jails (base : Path) (name : String) : Prop where
  reaches : ∀ path, base.below name = .ok path →
    ∀ start, path.placeFrom start = placeBelow start base name
  accepts : (∃ path, base.below name = .ok path) ↔
    ∀ start, IsDirectory start → IsInside (placeBelow start base name) (base.placeFrom start)

variable {base path : Path} {name : String} {stack parts above below : List Part} {part : Part}

/-- The stack of parts that a name leads to. -/
def stackBelow (base : Path) (name : String) : List Part :=
  (steps ⟨Text.trimSlashes name⟩).foldl pushPart (cleanParts base.parts).reverse

theorem placeBelow_eq_reach (start : Place) (base : Path) (name : String) :
    placeBelow start base name = reach start (stackBelow base name) := by
  rw [placeBelow, placeFrom_eq_reach, stackBelow,
    reach_foldl_pushPart (stacked_cleanParts base) (areSteps_steps _)]

/-! ## Accepted names -/

theorem here_not_mem_of_stacked (h : Stacked stack) : Part.here ∉ stack := by
  obtain ⟨names, front, rfl, hnames, hfront⟩ := h.exists_names
  intro hmem
  rcases List.mem_append.1 hmem with hmem | hmem
  · obtain ⟨text, heq⟩ := hnames _ hmem
    cases heq
  · rcases hfront with rfl | ⟨climbs, rfl⟩
    · cases List.mem_singleton.1 hmem
    · cases List.eq_of_mem_replicate hmem

theorem clean_eq_here_iff (base : Path) : base.clean = ⟨"."⟩ ↔ cleanParts base.parts = [] := by
  refine ⟨fun h => ?_, clean_of_cleanParts_eq_nil⟩
  by_cases hnil : cleanParts base.parts = []
  · exact hnil
  · have hparts := parts_clean hnil
    rw [h, show parts ⟨"."⟩ = [.here] by decide] at hparts
    have hnot := here_not_mem_of_stacked (stacked_cleanParts base)
    rw [← hparts] at hnot
    exact absurd List.mem_cons_self hnot

theorem join_clean_empty (base : Path) : (base.clean.join "").clean = base.clean := by
  have hstack := @cleanParts_join base.clean "" (by decide)
  rw [cleanParts_clean, show steps ⟨""⟩ = [] from rfl, List.foldl_nil, List.reverse_inj] at hstack
  exact clean_eq_of_cleanParts_eq hstack

/-- What it takes for a name to be accepted. -/
theorem exists_below_iff :
    (∃ path, base.below name = .ok path) ↔ ∃ more, more ≠ [] ∧
      (base.clean.join (Text.trimSlashes name)).clean.parts = base.clean.parts ++ more := by
  constructor
  · rintro ⟨path, h⟩
    obtain ⟨hpath, more, hne, hparts⟩ := below_eq_ok h
    exact ⟨more, hne, by rw [← hpath, hparts]⟩
  · rintro ⟨more, hne, hparts⟩
    have htrimmed : Text.trimSlashes name ≠ "" := by
      intro hempty
      rw [hempty, join_clean_empty, List.self_eq_append_right] at hparts
      exact hne hparts
    unfold below
    simp only
    generalize (base.clean.join (Text.trimSlashes name)).clean = cleaned at hparts ⊢
    have hprefix : cleaned.startsWith base.clean = true := by
      rw [startsWith, List.isPrefixOf_iff_prefix, hparts]
      exact List.prefix_append _ _
    have hsame : cleaned.same base.clean = false := by
      rw [same, hparts]
      simpa using hne
    rw [if_neg htrimmed, hprefix, hsame]
    exact ⟨cleaned, rfl⟩

/-- A name is accepted if it leaves further parts on the stack of its base, which has to have some
itself. -/
theorem exists_below_iff_stack :
    (∃ path, base.below name = .ok path) ↔ cleanParts base.parts ≠ [] ∧
      ∃ more, more ≠ [] ∧ stackBelow base name = more ++ (cleanParts base.parts).reverse := by
  have hstack : (cleanParts (base.clean.join (Text.trimSlashes name)).parts).reverse =
      stackBelow base name := by
    rw [cleanParts_join _ (head?_trimSlashes name), cleanParts_clean, stackBelow]
  generalize hjoin : base.clean.join (Text.trimSlashes name) = joined at hstack
  have hbase := here_not_mem_of_stacked (stacked_cleanParts base)
  have hjoined := here_not_mem_of_stacked (stacked_cleanParts joined)
  rw [List.mem_reverse] at hbase hjoined
  rw [exists_below_iff, hjoin]
  constructor
  · rintro ⟨more, hne, hparts⟩
    have hhere : parts ⟨"."⟩ = [.here] := by decide
    have hstart : cleanParts base.parts ≠ [] := by
      intro hnil
      rw [clean_of_cleanParts_eq_nil hnil, hhere] at hparts
      by_cases hleft : cleanParts joined.parts = []
      · rw [clean_of_cleanParts_eq_nil hleft, hhere] at hparts
        exact hne (List.cons.inj hparts).2.symm
      · rw [parts_clean hleft] at hparts
        exact hjoined (hparts ▸ List.mem_cons_self)
    rw [parts_clean hstart] at hparts
    by_cases hleft : cleanParts joined.parts = []
    · rw [clean_of_cleanParts_eq_nil hleft, hhere] at hparts
      obtain ⟨part, rest, hcons⟩ := List.exists_cons_of_ne_nil hstart
      rw [hcons] at hparts hbase
      exact absurd ((List.cons.inj hparts).1 ▸ List.mem_cons_self) hbase
    · rw [parts_clean hleft] at hparts
      exact ⟨hstart, more.reverse, by simpa using hne, by rw [← hstack, hparts, List.reverse_append]⟩
  · rintro ⟨hne, more, hmore, heq⟩
    have hleft : cleanParts joined.parts = cleanParts base.parts ++ more.reverse := by
      rw [← List.reverse_inj, hstack, heq, List.reverse_append, List.reverse_reverse]
    have hnonempty : cleanParts joined.parts ≠ [] := by
      rw [hleft]
      exact List.append_ne_nil_of_left_ne_nil hne _
    exact ⟨more.reverse, by simpa using hmore, by rw [parts_clean hne, parts_clean hnonempty, hleft]⟩

/-- An accepted name leads to the path that it is accepted as. -/
theorem placeFrom_below (h : base.below name = .ok path) (start : Place) :
    path.placeFrom start = placeBelow start base name := by
  rw [placeFrom_eq_reach, cleanParts_of_stacked (stacked_below h), stack_below h,
    placeBelow_eq_reach, stackBelow, steps_trimSlashes]

/-! ## Where names are kept in -/

/-- Whatever stands on the root or on a name is a name. -/
theorem Stacked.names_above_of_ne_up (h : Stacked (above ++ part :: below)) (hpart : part ≠ .up) :
    ∀ p ∈ above, ∃ text, p = .name text := by
  induction above with
  | nil => exact nofun
  | cons top above ih =>
    rw [List.cons_append] at h
    refine List.forall_mem_cons.2 ⟨?_, ih h.tail⟩
    generalize hrest : above ++ part :: below = rest at h
    cases h with
    | root => simp at hrest
    | up hups => exact absurd (hups part (by simp [← hrest])) hpart
    | name _ _ => exact ⟨_, rfl⟩

/-- Steps from a directory above the start do there what they do anywhere. -/
theorem foldl_pushPart_ups (h : Stacked stack) (hroot : Part.root ∉ stack) (hsteps : AreSteps parts)
    (climbs : Nat) :
    parts.foldl pushPart (stack ++ List.replicate climbs .up) =
      parts.foldl pushPart stack ++ List.replicate climbs .up := by
  induction parts generalizing stack with
  | nil => rfl
  | cons part parts ih =>
    have hone : AreSteps [part] := fun p hp => hsteps p (List.mem_singleton.1 hp ▸ List.mem_cons_self)
    have hnext : Stacked (pushPart stack part) := h.foldl_pushPart hone
    have hrootNext : Part.root ∉ pushPart stack part := by
      intro hmem
      rcases @mem_foldl_pushPart stack [part] .root hmem with hmem | hmem
      · exact hroot hmem
      · exact root_not_mem_of_areSteps hone hmem
    have hpush : pushPart (stack ++ List.replicate climbs .up) part =
        pushPart stack part ++ List.replicate climbs .up := by
      rcases hsteps part List.mem_cons_self with rfl | ⟨text, rfl, -⟩
      · cases h with
        | nil => cases climbs <;> rfl
        | root => exact absurd List.mem_cons_self hroot
        | up _ => rfl
        | name _ _ => rfl
      · rfl
    rw [List.foldl_cons, List.foldl_cons, hpush, ih hnext hrootNext hsteps.of_cons]

/-- A stack has names alone if its lowest part is a name. -/
theorem Stacked.names_iff (h : Stacked stack) :
    (stack ≠ [] ∧ ∀ p ∈ stack, ∃ text, p = .name text) ↔
      ∃ text, stack.getLast? = some (.name text) := by
  constructor
  · rintro ⟨hne, hnames⟩
    obtain ⟨text, hlast⟩ := hnames _ (List.getLast_mem hne)
    exact ⟨text, by rw [List.getLast?_eq_some_getLast hne, hlast]⟩
  · rintro ⟨text, hlast⟩
    obtain ⟨above, rfl⟩ := List.getLast?_eq_some_iff.1 hlast
    refine ⟨by simp, fun p hp => ?_⟩
    rcases List.mem_append.1 hp with hp | hp
    · exact h.names_above_of_ne_up nofun p hp
    · exact ⟨text, List.mem_singleton.1 hp⟩

/-- What is left of steps by themselves is left of them on a directory above the start as well. -/
theorem leaves_iff_of_ups (hsteps : AreSteps parts) (climbs : Nat) :
    (∃ names, names ≠ [] ∧ (∀ p ∈ names, ∃ text, p = .name text) ∧
      parts.foldl pushPart (List.replicate climbs .up) = names ++ List.replicate climbs .up) ↔
      ∃ text, (parts.foldl pushPart []).getLast? = some (.name text) := by
  have hfold := foldl_pushPart_ups .nil List.not_mem_nil hsteps climbs
  have hleft : Stacked (parts.foldl pushPart []) := Stacked.nil.foldl_pushPart hsteps
  rw [List.nil_append] at hfold
  rw [hfold, ← hleft.names_iff]
  constructor
  · rintro ⟨names, hne, hnames, heq⟩
    rw [List.append_cancel_right heq]
    exact ⟨hne, hnames⟩
  · rintro ⟨hne, hnames⟩
    exact ⟨_, hne, hnames, rfl⟩

/-- The parts that steps leave on a stack are names alone, unless it is the stack of a directory above
the start, or has no parts. -/
theorem leaves_iff (h : Stacked stack) (hsteps : AreSteps parts) :
    ((stack ≠ [] ∧ ∃ more, more ≠ [] ∧ parts.foldl pushPart stack = more ++ stack) ↔
      ∃ names, names ≠ [] ∧ (∀ p ∈ names, ∃ text, p = .name text) ∧
        parts.foldl pushPart stack = names ++ stack) ↔
      (stack = [] → ∀ text, (parts.foldl pushPart []).getLast? ≠ some (.name text)) ∧
      (stack.head? = some .up → (parts.foldl pushPart []).getLast? ≠ some .up) := by
  cases stack with
  | nil =>
    have hnames := leaves_iff_of_ups hsteps 0
    rw [List.replicate_zero] at hnames
    rw [hnames]
    simp
  | cons part below =>
    by_cases hup : part = .up
    · obtain ⟨climbs, hclimbs⟩ : ∃ climbs, part :: below = List.replicate (climbs + 1) .up := by
        subst hup
        cases h with
        | up hups => exact ⟨_, List.eq_replicate_iff.2 ⟨rfl, List.forall_mem_cons.2 ⟨rfl, hups⟩⟩⟩
      have hfold := foldl_pushPart_ups .nil List.not_mem_nil hsteps (climbs + 1)
      rw [hclimbs, leaves_iff_of_ups hsteps]
      rw [List.nil_append] at hfold
      have hmore : (∃ more, more ≠ [] ∧ parts.foldl pushPart (List.replicate (climbs + 1) .up) =
          more ++ List.replicate (climbs + 1) .up) ↔ parts.foldl pushPart [] ≠ [] := by
        rw [hfold]
        simp
      rw [hmore]
      have hroot : Part.root ∉ parts.foldl pushPart [] := by
        intro hmem
        rcases mem_foldl_pushPart hmem with hmem | hmem
        · cases hmem
        · exact root_not_mem_of_areSteps hsteps hmem
      have hhere := here_not_mem_of_stacked (Stacked.nil.foldl_pushPart hsteps)
      generalize parts.foldl pushPart [] = left at hroot hhere
      cases hlast : left.getLast? with
      | none => simp [List.getLast?_eq_none_iff.1 hlast]
      | some last =>
        have hmem := List.mem_of_getLast? hlast
        cases last with
        | root => exact absurd hmem hroot
        | here => exact absurd hmem hhere
        | up => simp [List.ne_nil_of_mem hmem, List.replicate_succ]
        | name text => simp [List.ne_nil_of_mem hmem, List.replicate_succ]
    · refine iff_of_true ⟨?_, ?_⟩ ⟨nofun, fun hhead => absurd (Option.some.inj hhead) hup⟩
      · rintro ⟨-, more, hne, heq⟩
        have hstacked : Stacked (parts.foldl pushPart (part :: below)) := h.foldl_pushPart hsteps
        rw [heq] at hstacked
        exact ⟨more, hne, hstacked.names_above_of_ne_up hup, heq⟩
      · rintro ⟨names, hne, -, heq⟩
        exact ⟨List.cons_ne_nil _ _, names, hne, heq⟩

/-- **Names below a directory**: a name is kept in by any directory that is absolute or ends in a
name. By the directory where one starts, it is if nothing but detours and climbs is left of it; by one
above, if it does not climb. -/
theorem jails_iff (base : Path) (name : String) :
    Jails base name ↔
      (base.clean = ⟨"."⟩ → ∀ text, lead name ≠ some (.name text)) ∧
      (base.clean.parts.getLast? = some .up → lead name ≠ some .up) := by
  have hjails : Jails base name ↔ ((∃ path, base.below name = .ok path) ↔
      ∀ start, IsDirectory start → IsInside (placeBelow start base name) (base.placeFrom start)) :=
    ⟨Jails.accepts, fun h => ⟨fun path hpath => placeFrom_below hpath, h⟩⟩
  have hlead : lead name = ((steps ⟨Text.trimSlashes name⟩).foldl pushPart []).getLast? := by
    rw [lead, cleanParts, List.head?_reverse]
  have hlast : base.clean.parts.getLast? = some .up ↔
      (cleanParts base.parts).reverse.head? = some .up := by
    rw [List.head?_reverse]
    by_cases hnil : cleanParts base.parts = []
    · rw [clean_of_cleanParts_eq_nil hnil, hnil]
      decide
    · rw [parts_clean hnil]
  rw [hjails, exists_below_iff_stack, hlead, hlast, clean_eq_here_iff]
  simp only [placeBelow_eq_reach, placeFrom_eq_reach]
  rw [stackBelow, reach_below_iff (stacked_cleanParts base) (areSteps_steps _), ← List.reverse_eq_nil_iff,
    ← leaves_iff (stacked_cleanParts base) (areSteps_steps _), List.reverse_ne_nil_iff]

/-- A name may climb out of the directory above the start and is accepted, and what stands in the
directory where one starts is refused. -/
theorem exists_not_jails :
    (Path.below ⟨".."⟩ "../x" = .ok ⟨"../../x"⟩ ∧
      placeFrom ["a", "b"] ⟨"../../x"⟩ = ["x"] ∧ placeFrom ["a", "b"] ⟨".."⟩ = ["a"] ∧
      ¬ Jails ⟨".."⟩ "../x") ∧
    Path.below ⟨"."⟩ "x" = .error (.outsideBase ⟨"."⟩ "x" ⟨"x"⟩) ∧
      placeBelow ["a", "b"] ⟨"."⟩ "x" = ["a", "b", "x"] ∧ placeFrom ["a", "b"] ⟨"."⟩ = ["a", "b"] ∧
      ¬ Jails ⟨"."⟩ "x" := by
  have hok : Path.below ⟨".."⟩ "../x" = .ok ⟨"../../x"⟩ := eq_ok_of_toOption (by decide)
  have herror : Path.below ⟨"."⟩ "x" = .error (.outsideBase ⟨"."⟩ "x" ⟨"x"⟩) := by rfl
  refine ⟨⟨hok, by decide, by decide, fun h => ?_⟩, herror, by decide, by decide, fun h => ?_⟩
  · have hdirectory : IsDirectory ["a", "b"] := by
      rintro text hmem
      simp only [List.mem_cons, List.not_mem_nil, or_false] at hmem
      rcases hmem with rfl | rfl <;> exact isName_iff.2 (by decide)
    obtain ⟨rest, -, hplace⟩ := h.accepts.1 ⟨_, hok⟩ ["a", "b"] hdirectory
    rw [show placeBelow ["a", "b"] ⟨".."⟩ "../x" = ["x"] by decide,
      show placeFrom ["a", "b"] ⟨".."⟩ = ["a"] by decide] at hplace
    simp at hplace
  · obtain ⟨path, hpath⟩ := h.accepts.2 fun start _ => ⟨["x"], by simp, rfl⟩
    rw [herror] at hpath
    cases hpath

end TemplateCompiler.Path
