import TemplateCompiler.Proofs.Path.Clean

/-!
# Paths that stay

When a path goes on from a directory, it ends below it exactly if its last part never climbs out of
it again (`below_iff`): what comes before that part is a detour that leads back to the directory.
Whoever comes back has to name the directory, so a path that does not must never leave it at all.
-/
namespace TemplateCompiler.Path

/-- Whether steps never climb above the place where they begin, `depth` names having been gone down
already. -/
def staysBelow : Nat → List Part → Bool
  | _, [] => true
  | 0, .up :: _ => false
  | depth + 1, .up :: rest => staysBelow depth rest
  | depth, .name _ :: rest => staysBelow (depth + 1) rest
  | depth, _ :: rest => staysBelow depth rest

/-- The path lies strictly below a directory, both of them cleaned. -/
def StrictlyBelow (path base : Path) : Prop :=
  ∃ more, more ≠ [] ∧ path.clean.parts = base.clean.parts ++ more

/-! ## Cleaning what is clean -/

theorem cleanParts_of_stacked {parts : List Part} (h : Stacked parts.reverse) :
    cleanParts parts = parts := by
  suffices ∀ stack, Stacked stack → stack.reverse.foldl pushPart [] = stack by
    rw [cleanParts, ← List.reverse_reverse parts, this _ h]
  intro stack hstack
  induction stack with
  | nil => rfl
  | cons top below ih =>
    rw [List.reverse_cons, List.foldl_append, ih hstack.tail]
    cases hstack with
    | root | name => rfl
    | up hups =>
      cases below with
      | nil => rfl
      | cons part below =>
        obtain rfl := hups part List.mem_cons_self
        rfl

theorem cleanParts_clean (path : Path) : cleanParts path.clean.parts = cleanParts path.parts := by
  by_cases h : cleanParts path.parts = []
  · rw [clean_of_cleanParts_eq_nil h, h]
    rfl
  · rw [parts_clean h, cleanParts_of_stacked (stacked_cleanParts path)]

theorem bottom_join (base : Path) {name : String} (h : name.toList.head? ≠ some '/') :
    (base.join name).bottom = base.bottom := by
  have habsolute : (base.join name).isAbsolute = base.isAbsolute := by
    unfold join isAbsolute
    simp only [h, false_or]
    by_cases hempty : base.text = ""
    · rw [if_pos hempty, hempty]
      simpa using h
    · have hne : base.text.toList ≠ [] := fun hnil => hempty (String.toList_inj.1 hnil)
      obtain ⟨c, rest, hlist⟩ := List.exists_cons_of_ne_nil hne
      rw [if_neg hempty]
      split <;> simp [String.toList_append, hlist]
  rw [bottom, bottom, habsolute]

/-- The stack of a path that goes on from a directory. -/
theorem cleanParts_join (base : Path) {name : String} (h : name.toList.head? ≠ some '/') :
    (cleanParts (base.join name).parts).reverse =
      (steps ⟨name⟩).foldl pushPart (cleanParts base.parts).reverse := by
  rw [cleanParts_parts, cleanParts_parts, List.reverse_reverse, List.reverse_reverse,
    steps_join base h, bottom_join base h, List.foldl_append]

/-! ## Staying -/

/-- Parts that lead on. -/
def AreSteps (parts : List Part) : Prop :=
  ∀ part ∈ parts, part = .up ∨ ∃ text, part = .name text ∧ IsName text

theorem areSteps_steps (path : Path) : AreSteps path.steps :=
  fun _ => mem_steps

theorem AreSteps.of_cons {part : Part} {parts : List Part} (h : AreSteps (part :: parts)) :
    AreSteps parts :=
  fun p hp => h p (List.mem_cons_of_mem _ hp)

theorem AreSteps.right {first second : List Part} (h : AreSteps (first ++ second)) :
    AreSteps second :=
  fun p hp => h p (List.mem_append_right _ hp)

/-- **Steps one by one**: on a stack of names, each step climbs out of it, takes the last name off or
puts one on. -/
theorem AreSteps.onNames {motive : List Part → List Part → Prop} {parts names : List Part}
    (hsteps : AreSteps parts) (hnames : ∀ p ∈ names, ∃ text, p = .name text)
    (done : ∀ names, (∀ p ∈ names, ∃ text, p = .name text) → motive [] names)
    (out : ∀ parts, motive (.up :: parts) [])
    (back : ∀ parts text names, motive parts names → motive (.up :: parts) (.name text :: names))
    (down : ∀ parts text names, motive parts (.name text :: names) →
      motive (.name text :: parts) names) : motive parts names := by
  induction parts generalizing names with
  | nil => exact done names hnames
  | cons part parts ih =>
    rcases hsteps part List.mem_cons_self with rfl | ⟨text, rfl, -⟩
    · cases names with
      | nil => exact out parts
      | cons name names =>
        obtain ⟨text, rfl⟩ := hnames _ List.mem_cons_self
        exact back parts text names
          (ih hsteps.of_cons fun p hp => hnames p (List.mem_cons_of_mem _ hp))
    · exact down parts text names (ih hsteps.of_cons (List.forall_mem_cons.2 ⟨⟨text, rfl⟩, hnames⟩))

/-- Steps that never climb above their start keep what was there. -/
theorem foldl_pushPart_of_staysBelow {parts names stack : List Part} (hsteps : AreSteps parts)
    (hnames : ∀ p ∈ names, ∃ text, p = .name text)
    (h : staysBelow names.length parts = true) :
    ∃ more, (∀ p ∈ more, ∃ text, p = .name text) ∧
      parts.foldl pushPart (names ++ stack) = more ++ stack := by
  refine hsteps.onNames (motive := fun parts names => staysBelow names.length parts = true →
    ∃ more, (∀ p ∈ more, ∃ text, p = .name text) ∧
      parts.foldl pushPart (names ++ stack) = more ++ stack) hnames ?_ ?_ ?_ ?_ h
  · exact fun names hnames _ => ⟨names, hnames, rfl⟩
  · exact fun _ h => nomatch h
  · exact fun _ _ _ ih h => ih h
  · exact fun _ _ _ ih h => ih h

/-- A climb that ends on a directory began below it. -/
theorem exists_pop {stack names below : List Part} {text : String} (hstack : Stacked stack)
    (h : pushPart stack .up = names ++ .name text :: below) :
    ∃ name, stack = .name name :: (names ++ .name text :: below) := by
  have hmem : Part.name text ∈ pushPart stack .up := by
    rw [h]
    exact List.mem_append_right _ List.mem_cons_self
  cases hstack with
  | nil | root => simp [pushPart] at hmem
  | up hups =>
    have hmem := (List.mem_cons.1 hmem).resolve_left Part.noConfusion
    have hmem := (List.mem_cons.1 hmem).resolve_left Part.noConfusion
    cases hups _ hmem
  | @name name rest hname hrest => exact ⟨name, by rw [← h]; rfl⟩

/-- Steps that end below a directory either began there and never left it, or came to it in the end
by its name. -/
theorem staysBelow_of_foldl {parts stack below more : List Part} {text : String}
    (hsteps : AreSteps parts) (hstack : Stacked stack)
    (h : parts.foldl pushPart stack = more ++ .name text :: below) :
    (∃ names, stack = names ++ .name text :: below ∧ staysBelow names.length parts = true) ∨
      ∃ detour home, parts = detour ++ .name text :: home ∧
        detour.foldl pushPart stack = below ∧ staysBelow 0 home = true := by
  induction parts generalizing stack with
  | nil => exact .inl ⟨more, h, rfl⟩
  | cons part parts ih =>
    have hnext : Stacked (pushPart stack part) := by
      have hone : AreSteps [part] := fun p hp =>
        hsteps p (List.mem_singleton.1 hp ▸ List.mem_cons_self)
      exact hstack.foldl_pushPart hone
    -- after this step: below the directory for good, or on a detour that leads there
    rcases ih hsteps.of_cons hnext h with ⟨names, hnames, hstays⟩ |
      ⟨detour, home, rfl, hfold, hstays⟩
    · rcases hsteps part List.mem_cons_self with rfl | ⟨name, rfl, -⟩
      · obtain ⟨name, rfl⟩ := exists_pop hstack hnames
        exact .inl ⟨.name name :: names, rfl, hstays⟩
      · cases names with
        | nil =>
          -- the directory is come to by this very step
          obtain ⟨heq, rfl⟩ := List.cons.inj hnames
          exact .inr ⟨[], parts, by rw [heq]; rfl, rfl, hstays⟩
        | cons top names =>
          obtain ⟨-, rfl⟩ := List.cons.inj hnames
          exact .inl ⟨names, rfl, hstays⟩
    · exact .inr ⟨part :: detour, home, rfl, hfold, hstays⟩

/-- **Ending below a directory**: from a directory, steps end below it exactly if after some detour
that leads back to it they never leave it. -/
theorem below_iff {parts below : List Part} {text : String} (hsteps : AreSteps parts)
    (hstack : Stacked (.name text :: below)) :
    (∃ more, parts.foldl pushPart (.name text :: below) = more ++ .name text :: below) ↔
      ∃ detour home, parts = detour ++ home ∧
        detour.foldl pushPart (.name text :: below) = .name text :: below ∧
        staysBelow 0 home = true := by
  constructor
  · rintro ⟨more, h⟩
    rcases staysBelow_of_foldl hsteps hstack h with ⟨names, heq, hstays⟩ |
      ⟨detour, home, rfl, hfold, hstays⟩
    · obtain rfl : names = [] := List.self_eq_append_left.1 heq
      exact ⟨[], parts, rfl, rfl, hstays⟩
    · -- the detour ends with the step into the directory
      refine ⟨detour ++ [.name text], home, by simp, ?_, hstays⟩
      rw [List.foldl_append, hfold]
      rfl
  · rintro ⟨detour, home, rfl, hfold, hstays⟩
    obtain ⟨more, -, hmore⟩ := @foldl_pushPart_of_staysBelow _ [] _ hsteps.right nofun hstays
    rw [List.foldl_append, hfold]
    exact ⟨more, hmore⟩

/-- Steps that do not name the directory where they begin end below it exactly if they never leave
it. -/
theorem below_iff_of_not_mem {parts below : List Part} {text : String} (hsteps : AreSteps parts)
    (hstack : Stacked (.name text :: below)) (hnot : .name text ∉ parts) :
    (∃ more, parts.foldl pushPart (.name text :: below) = more ++ .name text :: below) ↔
      staysBelow 0 parts = true := by
  constructor
  · rintro ⟨more, h⟩
    rcases staysBelow_of_foldl hsteps hstack h with ⟨names, heq, hstays⟩ |
      ⟨detour, home, rfl, -, -⟩
    · obtain rfl : names = [] := List.self_eq_append_left.1 heq
      exact hstays
    · exact absurd (List.mem_append_right _ List.mem_cons_self) hnot
  · intro hstays
    obtain ⟨more, -, hmore⟩ := @foldl_pushPart_of_staysBelow _ [] _ hsteps nofun hstays
    exact ⟨more, hmore⟩

/-! ## Accepted names -/

theorem eq_ok_of_toOption {result : Except Refusal Path} {path : Path}
    (h : result.toOption = some path) : result = .ok path := by
  cases result with
  | error => cases h
  | ok found => rw [Option.some.inj h]

/-- The path of an accepted name is clean. -/
theorem parts_clean_below {base path : Path} {name : String} (h : base.below name = .ok path) :
    path.clean.parts = path.parts := by
  have hclean := cleanParts_of_stacked (stacked_below h)
  have hne : cleanParts path.parts ≠ [] := by
    rw [hclean, (below_eq_ok h).1]
    exact parts_clean_ne_nil _
  rw [parts_clean hne, hclean]

/-- A path strictly below a directory leads to a place strictly below it. -/
theorem StrictlyBelow.place {base dir path : Path} {name text : String} {front : List Part}
    (h : path.StrictlyBelow dir) (hpath : base.below name = .ok path)
    (hdir : dir.clean.parts = front ++ [.name text]) :
    ∃ rest, path.place = dir.place ++ rest := by
  obtain ⟨more, -, hparts⟩ := h
  rw [parts_clean_below hpath] at hparts
  have hnames : ∀ p ∈ more, ∃ text, p = .name text := by
    have hstacked := stacked_below hpath
    rw [hparts, hdir, List.append_assoc, List.reverse_append, List.reverse_append,
      List.reverse_singleton, List.append_assoc, List.singleton_append] at hstacked
    exact fun p hp => hstacked.names_above p (List.mem_reverse.2 hp)
  refine ⟨more.map Part.text, ?_⟩
  rw [← foldl_advance_parts path, hparts, List.foldl_append, foldl_advance_parts, place_clean,
    foldl_advance_names hnames]

end TemplateCompiler.Path
