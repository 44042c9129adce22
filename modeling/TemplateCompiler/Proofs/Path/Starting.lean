import TemplateCompiler.Proofs.Path.Staying

/-!
# Places from a starting directory

Where a relative path leads to depends on the directory that one starts from (`Path.placeFrom`). The
cleaned parts of a path say it for every start (`placeFrom_eq_reach`), and they can be told from it: a
path that goes on from another one ends below it from every start exactly if its stack of parts has
names on that of the other one and nothing else (`reach_below_iff`).
-/
namespace TemplateCompiler.Path

/-- The place that a path leads to from a starting directory. -/
def placeFrom (start : Place) (path : Path) : Place :=
  path.steps.foldl advance (if path.isAbsolute then [] else start)

/-- The place that a stack of parts leads to from a starting directory. -/
def reach (start : Place) : List Part → Place
  | [] => start
  | .root :: _ => []
  | .here :: below => reach start below
  | .up :: below => (reach start below).dropLast
  | .name text :: below => reach start below ++ [text]

/-- A place strictly below another one. -/
def IsInside (place dir : Place) : Prop :=
  ∃ rest, rest ≠ [] ∧ place = dir ++ rest

/-- A place whose parts can be names. -/
def IsDirectory (place : Place) : Prop :=
  ∀ text ∈ place, IsName text

variable {start : Place} {stack parts names front : List Part} {part p : Part}

/-! ## Where a stack leads to -/

theorem reach_pushPart (h : Stacked stack) (hpart : part ≠ .root) :
    reach start (pushPart stack part) = advance (reach start stack) part := by
  cases part with
  | root => exact absurd rfl hpart
  | here => rfl
  | name text => rfl
  | up =>
    cases h with
    | nil => rfl
    | root => rfl
    | up _ => rfl
    | name _ _ => simp [pushPart, reach, advance]

theorem reach_foldl_pushPart (h : Stacked stack) (hsteps : AreSteps parts) :
    reach start (parts.foldl pushPart stack) = parts.foldl advance (reach start stack) := by
  induction parts generalizing stack with
  | nil => rfl
  | cons part parts ih =>
    have hone : AreSteps [part] := fun p hp => hsteps p (List.mem_singleton.1 hp ▸ List.mem_cons_self)
    have hnext : Stacked (pushPart stack part) := h.foldl_pushPart hone
    have hpart : part ≠ .root := by
      rcases hsteps part List.mem_cons_self with rfl | ⟨text, rfl, -⟩ <;> exact Part.noConfusion
    rw [List.foldl_cons, ih hnext hsteps.of_cons, reach_pushPart h hpart, List.foldl_cons]

/-- **Cleaning keeps the place**, whatever directory one starts from. -/
theorem placeFrom_eq_reach (start : Place) (path : Path) :
    path.placeFrom start = reach start (cleanParts path.parts).reverse := by
  have hbottom : Stacked path.bottom ∧
      reach start path.bottom = if path.isAbsolute then [] else start := by
    unfold bottom
    split
    · exact ⟨.root, rfl⟩
    · exact ⟨.nil, rfl⟩
  rw [cleanParts_parts, List.reverse_reverse, reach_foldl_pushPart hbottom.1 (areSteps_steps path),
    hbottom.2, placeFrom]

theorem reach_names (h : ∀ p ∈ names, ∃ text, p = .name text) :
    reach start (names ++ stack) = reach start stack ++ (names.map Part.text).reverse := by
  induction names with
  | nil => simp
  | cons name names ih =>
    obtain ⟨text, rfl⟩ := h name List.mem_cons_self
    rw [List.cons_append, reach, ih fun p hp => h p (List.mem_cons_of_mem _ hp)]
    simp [Part.text]

theorem reach_ups (text : String) (depth climbs : Nat) :
    reach (List.replicate depth text) (List.replicate climbs .up) =
      List.replicate (depth - climbs) text := by
  induction climbs with
  | zero => rfl
  | succ climbs ih =>
    rw [List.replicate_succ, reach, ih, List.dropLast_replicate, Nat.sub_sub]

/-! ## The shape of a stack -/

/-- A stack has its names on the root or on a number of `..`s. -/
theorem Stacked.exists_names (h : Stacked stack) :
    ∃ names front, stack = names ++ front ∧ (∀ p ∈ names, ∃ text, p = .name text) ∧
      (front = [.root] ∨ ∃ climbs, front = List.replicate climbs .up) := by
  induction h with
  | nil => exact ⟨[], [], rfl, nofun, .inr ⟨0, rfl⟩⟩
  | root => exact ⟨[], [.root], rfl, nofun, .inl rfl⟩
  | @up below h =>
    refine ⟨[], .up :: below, rfl, nofun, .inr ⟨below.length + 1, ?_⟩⟩
    rw [List.replicate_succ, List.eq_replicate_iff.2 ⟨rfl, h⟩, List.length_replicate]
  | @name text below _ _ ih =>
    obtain ⟨names, front, rfl, hnames, hfront⟩ := ih
    exact ⟨.name text :: names, front, rfl, List.forall_mem_cons.2 ⟨⟨text, rfl⟩, hnames⟩, hfront⟩

theorem mem_foldl_pushPart (h : p ∈ parts.foldl pushPart stack) : p ∈ stack ∨ p ∈ parts := by
  induction parts generalizing stack with
  | nil => exact .inl h
  | cons part parts ih =>
    rcases ih h with hstack | hparts
    · have hpush : p ∈ stack ∨ p = part := by
        revert hstack
        fun_cases pushPart stack part <;> grind
      rcases hpush with hpush | rfl
      · exact .inl hpush
      · exact .inr List.mem_cons_self
    · exact .inr (List.mem_cons_of_mem _ hparts)

theorem root_not_mem_of_areSteps (h : AreSteps parts) : Part.root ∉ parts := by
  intro hmem
  rcases h _ hmem with heq | ⟨_, heq, -⟩ <;> exact nomatch heq

/-- What is no name stays at the bottom of a stack. -/
theorem suffix_foldl_pushPart (h : front <:+ stack) (hfront : ∀ text, Part.name text ∉ front)
    (hsteps : AreSteps parts) : front <:+ parts.foldl pushPart stack := by
  induction parts generalizing stack with
  | nil => exact h
  | cons part parts ih =>
    refine ih ?_ hsteps.of_cons
    rcases hsteps part List.mem_cons_self with rfl | ⟨text, rfl, -⟩
    · cases stack with
      | nil => exact h.trans (List.suffix_cons _ _)
      | cons top below =>
        cases top with
        | root => exact h
        | here => exact h.trans (List.suffix_cons _ _)
        | up => exact h.trans (List.suffix_cons _ _)
        | name text =>
          -- the name that is taken off is no part of `front`
          rcases List.suffix_cons_iff.1 h with rfl | h
          · exact absurd List.mem_cons_self (hfront text)
          · exact h
    · exact h.trans (List.suffix_cons _ _)

/-- There is always another name. -/
theorem exists_fresh (parts : List Part) : ∃ text, IsName text ∧ text ∉ parts.map Part.text := by
  obtain ⟨n, hn⟩ : ∃ n, ∀ p ∈ parts, p.text.length ≤ n := by
    induction parts with
    | nil => exact ⟨0, nofun⟩
    | cons p parts ih =>
      obtain ⟨n, hn⟩ := ih
      exact ⟨max p.text.length n, by grind⟩
  refine ⟨String.ofList (List.replicate (n + 3) 'x'), ⟨?_, ?_⟩, ?_⟩
  · simp [Part.ofPiece, List.replicate_succ]
  · simp
  · intro hmem
    obtain ⟨p, hp, heq⟩ := List.mem_map.1 hmem
    have hlength := hn p hp
    rw [heq, String.length_ofList, List.length_replicate] at hlength
    omega

/-! ## Ending below -/

section

variable {after bottom : List Part} {climbs : Nat}

/-- Steps keep a stack on the root. -/
theorem bottom_of_root (hsteps : AreSteps parts)
    (hafter : parts.foldl pushPart (names ++ [.root]) = after ++ bottom)
    (hnames : ∀ p ∈ after, ∃ text, p = .name text)
    (hbottom : bottom = [.root] ∨ ∃ climbs, bottom = List.replicate climbs .up) :
    bottom = [.root] := by
  have hmem : Part.root ∈ after ++ bottom := by
    rw [← hafter]
    refine (suffix_foldl_pushPart (List.suffix_append _ _) (by simp) hsteps).subset ?_
    exact List.mem_cons_self
  rcases List.mem_append.1 hmem with hmem | hmem
  · obtain ⟨text, heq⟩ := hnames _ hmem
    cases heq
  · rcases hbottom with rfl | ⟨climbs, rfl⟩
    · rfl
    · cases List.eq_of_mem_replicate hmem

/-- Steps may climb further, but what a stack climbs is never taken back. -/
theorem bottom_of_ups (hsteps : AreSteps parts) (hstack : ∀ p ∈ names, ∃ text, p = .name text)
    (hafter : parts.foldl pushPart (names ++ List.replicate climbs .up) = after ++ bottom)
    (hnames : ∀ p ∈ after, ∃ text, p = .name text)
    (hbottom : bottom = [.root] ∨ ∃ climbs, bottom = List.replicate climbs .up) :
    ∃ more, climbs ≤ more ∧ bottom = List.replicate more .up := by
  have hroot : Part.root ∉ after ++ bottom := by
    rw [← hafter]
    intro hmem
    rcases mem_foldl_pushPart hmem with hmem | hmem
    · rcases List.mem_append.1 hmem with hmem | hmem
      · obtain ⟨text, heq⟩ := hstack _ hmem
        cases heq
      · cases List.eq_of_mem_replicate hmem
    · exact root_not_mem_of_areSteps hsteps hmem
  have hup : Part.up ∉ after := by
    intro hmem
    obtain ⟨text, heq⟩ := hnames _ hmem
    cases heq
  rcases hbottom with rfl | ⟨more, rfl⟩
  · exact absurd (List.mem_append_right _ List.mem_cons_self) hroot
  · have hsuffix := suffix_foldl_pushPart (List.suffix_append names (List.replicate climbs .up))
      (by simp) hsteps
    have hcount := hsuffix.sublist.count_le Part.up
    rw [hafter, List.count_append, List.count_replicate_self, List.count_replicate_self,
      List.count_eq_zero_of_not_mem hup, Nat.zero_add] at hcount
    exact ⟨more, hcount, rfl⟩

end

theorem map_name_map_text (h : ∀ p ∈ names, ∃ text, p = .name text) :
    (names.map Part.text).map Part.name = names := by
  rw [List.map_map]
  refine (List.map_congr_left fun p hp => ?_).trans (List.map_id names)
  obtain ⟨text, rfl⟩ := h p hp
  rfl

/-- Names that lead further than others have these below them. -/
theorem exists_names_of_texts {names others : List Part} {rest : Place}
    (h : ∀ p ∈ names, ∃ text, p = .name text) (hothers : ∀ p ∈ others, ∃ text, p = .name text)
    (heq : (names.map Part.text).reverse = (others.map Part.text).reverse ++ rest) :
    ∃ more, more.map Part.text = rest.reverse ∧ names = more ++ others := by
  have hmap := congrArg List.reverse heq
  rw [List.reverse_append, List.reverse_reverse, List.reverse_reverse] at hmap
  obtain ⟨more, below, rfl, hmore, hbelow⟩ := List.map_eq_append_iff.1 hmap
  have hnames : ∀ p ∈ below, ∃ text, p = .name text := fun p hp => h p (List.mem_append_right _ hp)
  refine ⟨more, hmore, ?_⟩
  rw [← map_name_map_text hnames, hbelow, map_name_map_text hothers]

/-- **Below from every start**: steps from a directory lead strictly below it, whatever directory one
starts from, exactly if they leave names on its stack of parts. -/
theorem reach_below_iff (h : Stacked stack) (hsteps : AreSteps parts) :
    (∀ start, IsDirectory start →
      IsInside (reach start (parts.foldl pushPart stack)) (reach start stack)) ↔
      ∃ names, names ≠ [] ∧ (∀ p ∈ names, ∃ text, p = .name text) ∧
        parts.foldl pushPart stack = names ++ stack := by
  constructor
  · intro hinside
    obtain ⟨names, front, rfl, hnames, hfront⟩ := h.exists_names
    obtain ⟨after, bottom, hafter, hafterNames, hbottom⟩ := (h.foldl_pushPart hsteps).exists_names
    obtain ⟨hsame, rest, hrest, hplace⟩ : bottom = front ∧ ∃ rest, rest ≠ [] ∧
        (after.map Part.text).reverse = (names.map Part.text).reverse ++ rest := by
      rcases hfront with rfl | ⟨climbs, rfl⟩
      · obtain rfl := bottom_of_root hsteps hafter hafterNames hbottom
        obtain ⟨rest, hrest, hplace⟩ := hinside [] nofun
        rw [hafter, reach_names hafterNames, reach_names hnames] at hplace
        exact ⟨rfl, rest, hrest, hplace⟩
      · obtain ⟨more, hle, rfl⟩ := bottom_of_ups hsteps hnames hafter hafterNames hbottom
        -- from below a directory of another name, whoever leaves it does not come back
        obtain ⟨text, hname, hfresh⟩ := exists_fresh after
        obtain ⟨rest, hrest, hplace⟩ := hinside (List.replicate (climbs + 1) text)
          fun t ht => List.eq_of_mem_replicate ht ▸ hname
        rw [hafter, reach_names hafterNames, reach_names hnames, reach_ups, reach_ups,
          Nat.add_sub_cancel_left, List.append_assoc] at hplace
        obtain rfl : more = climbs := by
          refine Nat.le_antisymm (Nat.le_of_not_lt fun hlt => hfresh (List.mem_reverse.1 ?_)) hle
          rw [show climbs + 1 - more = 0 by omega, List.replicate_zero, List.nil_append] at hplace
          rw [hplace]
          exact List.mem_cons_self
        rw [Nat.add_sub_cancel_left] at hplace
        exact ⟨rfl, rest, hrest, List.append_cancel_left hplace⟩
    obtain ⟨more, hmore, rfl⟩ := exists_names_of_texts hafterNames hnames hplace
    refine ⟨more, ?_, fun p hp => hafterNames p (List.mem_append_left _ hp), ?_⟩
    · rintro rfl
      exact hrest (by simpa using hmore.symm)
    · rw [hafter, hsame, List.append_assoc]
  · rintro ⟨names, hne, hnames, heq⟩ start -
    exact ⟨(names.map Part.text).reverse, by simpa using hne, by rw [heq, reach_names hnames]⟩

end TemplateCompiler.Path
