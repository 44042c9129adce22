import TemplateCompiler.Disk

/-!
# Clean paths

What cleaning does to the parts of a path, and the place a path leads to. The parts of a cleaned
path form a stack (`Stacked`): names stand on the root or on `..`s, and a `..` stands on nothing
but other `..`s. Cleaning keeps the place (`place_clean`), and a name that `Path.below` accepts
leads to a place strictly below its base (`place_below`).
-/
namespace TemplateCompiler.Path

/-! ## Pieces and steps -/

/-- The parts that pieces between slashes stand for, a leading slash or point set aside. -/
def steps (path : Path) : List Part :=
  path.pieces.filterMap Part.ofPiece

theorem parts_eq (path : Path) :
    path.parts = (if path.isAbsolute then [.root]
      else if path.pieces.head? = some ['.'] then [.here] else []) ++ path.steps := by
  unfold parts steps
  split
  · rfl
  · split <;> rfl

theorem slash_not_mem_of_mem_pieces {path : Path} {piece : List Char}
    (h : piece ∈ path.pieces) : '/' ∉ piece := by
  suffices ∀ text : List Char, ∀ p ∈ text.splitOn '/', '/' ∉ p from this _ _ h
  intro text
  induction text with
  | nil => simp
  | cons c rest ih =>
    intro p hp
    rw [List.splitOn_cons_eq_if_modifyHead] at hp
    split at hp
    · rcases List.mem_cons.1 hp with rfl | hp
      · simp
      · exact ih p hp
    · next hc =>
      have hc : c ≠ '/' := by simpa using hc
      obtain ⟨first, more, heq⟩ := List.exists_cons_of_ne_nil (List.splitOn_ne_nil '/' rest)
      rw [heq, List.modifyHead_cons] at hp
      rw [heq] at ih
      rcases List.mem_cons.1 hp with rfl | hp
      · simp [hc.symm, ih first (by simp)]
      · exact ih p (List.mem_cons_of_mem _ hp)

theorem text_eq_intercalate (path : Path) :
    path.text.toList = ['/'].intercalate path.pieces :=
  (List.intercalate_splitOn '/').symm

/-- A path is absolute if an empty piece comes first and another one follows it. -/
theorem isAbsolute_iff (path : Path) :
    path.isAbsolute = true ↔ ∃ more, path.pieces = [] :: more ∧ more ≠ [] := by
  have htext := path.text_eq_intercalate
  have hslash : ∀ piece ∈ path.pieces, '/' ∉ piece := fun _ => slash_not_mem_of_mem_pieces
  unfold isAbsolute
  rw [htext]
  cases hp : path.pieces with
  | nil => exact absurd hp (List.splitOn_ne_nil _ _)
  | cons piece more =>
    rw [hp] at hslash
    cases piece with
    | nil => cases more <;> simp
    | cons c cs =>
      have hc : c ≠ '/' := by
        rintro rfl
        exact hslash _ List.mem_cons_self List.mem_cons_self
      cases more <;> simp [hc]

theorem pieces_of_append (a b : String) :
    pieces ⟨a ++ "/" ++ b⟩ = pieces ⟨a⟩ ++ pieces ⟨b⟩ := by
  simp only [pieces, String.toList_append]
  rw [show "/".toList = ['/'] from rfl, List.append_assoc, List.singleton_append,
    List.splitOn_append_cons_self]

theorem steps_of_append (a b : String) :
    steps ⟨a ++ "/" ++ b⟩ = steps ⟨a⟩ ++ steps ⟨b⟩ := by
  rw [steps, pieces_of_append, List.filterMap_append]
  rfl

theorem steps_join (base : Path) {name : String} (h : name.toList.head? ≠ some '/') :
    (base.join name).steps = base.steps ++ steps ⟨name⟩ := by
  unfold join
  simp only [h, false_or]
  split
  · next he =>
    have hnil : base.steps = [] := by
      rw [steps, pieces, he]
      rfl
    rw [hnil, List.nil_append]
  · split
    · next hlast =>
      obtain ⟨front, hf⟩ := List.getLast?_eq_some_iff.1 hlast
      have htext : base.text = String.ofList front ++ "/" ++ "" := by
        rw [← String.toList_inj]
        simp [hf]
      have hempty : steps ⟨""⟩ = [] := rfl
      rw [show base.steps = steps ⟨base.text⟩ from rfl, htext, steps_of_append, hempty,
        List.append_nil, String.append_empty, steps_of_append]
    · exact steps_of_append _ _

/-! ## Stacks of parts -/

/-- A text that can be a name: no piece that stands for something else. -/
def IsName (text : String) : Prop :=
  Part.ofPiece text.toList = some (.name text) ∧ '/' ∉ text.toList

theorem isName_of_mem_steps {path : Path} {text : String} (h : Part.name text ∈ path.steps) :
    IsName text := by
  obtain ⟨piece, hmem, hpiece⟩ := List.mem_filterMap.1 h
  have hslash := slash_not_mem_of_mem_pieces hmem
  have htext : text.toList = piece := by
    unfold Part.ofPiece at hpiece
    split at hpiece
    · cases hpiece
    · split at hpiece
      · cases hpiece
      · cases hpiece
        simp
  exact ⟨by rw [htext]; exact hpiece, by rw [htext]; exact hslash⟩

theorem mem_steps {path : Path} {part : Part} (h : part ∈ path.steps) :
    part = .up ∨ ∃ text, part = .name text ∧ IsName text := by
  cases part with
  | up => exact .inl rfl
  | name text => exact .inr ⟨text, rfl, isName_of_mem_steps h⟩
  | root | here =>
    obtain ⟨piece, -, hpiece⟩ := List.mem_filterMap.1 h
    unfold Part.ofPiece at hpiece
    split at hpiece
    · cases hpiece
    · split at hpiece <;> cases hpiece

/-- The parts of a cleaned path from the last to the first: names stand on the root or on `..`s,
and a `..` stands on nothing but `..`s. -/
inductive Stacked : List Part → Prop
  | nil : Stacked []
  | root : Stacked [.root]
  | up {below : List Part} (h : ∀ part ∈ below, part = .up) : Stacked (.up :: below)
  | name {text : String} {below : List Part} (h : IsName text) (rest : Stacked below) :
      Stacked (.name text :: below)

theorem Stacked.of_ups {parts : List Part} (h : ∀ part ∈ parts, part = .up) : Stacked parts := by
  cases parts with
  | nil => exact .nil
  | cons part below =>
    obtain rfl := h part List.mem_cons_self
    exact .up fun p hp => h p (List.mem_cons_of_mem _ hp)

theorem Stacked.tail {part : Part} {below : List Part} (h : Stacked (part :: below)) :
    Stacked below := by
  cases h with
  | root => exact .nil
  | up h => exact .of_ups h
  | name _ rest => exact rest

/-- What stands on a name is a name. -/
theorem Stacked.names_above {above below : List Part} {text : String}
    (h : Stacked (above ++ .name text :: below)) :
    ∀ part ∈ above, ∃ name, part = .name name := by
  induction above with
  | nil => simp
  | cons part above ih =>
    intro p hp
    rw [List.cons_append] at h
    rcases List.mem_cons.1 hp with rfl | hp
    · generalize hrest : above ++ .name text :: below = rest at h
      cases h with
      | root => simp at hrest
      | up h => cases h (.name text) (by simp [← hrest])
      | name _ _ => exact ⟨_, rfl⟩
    · exact ih h.tail p hp

/-! ## Cleaning -/

theorem Stacked.pushPart {stack : List Part} {part : Part} (h : Stacked stack)
    (hname : ∀ text, part = .name text → IsName text) (hroot : part = .root → stack = []) :
    Stacked (pushPart stack part) := by
  cases part with
  | root => exact hroot rfl ▸ .root
  | here => exact h
  | name text => exact .name (hname text rfl) h
  | up =>
    cases h with
    | nil => exact .up (by simp)
    | root => exact .root
    | up h => exact .up fun p hp => (List.mem_cons.1 hp).elim id (h p)
    | name _ rest => exact rest

theorem Stacked.foldl_pushPart {parts stack : List Part} (h : Stacked stack)
    (hparts : ∀ part ∈ parts, part = .up ∨ ∃ text, part = .name text ∧ IsName text) :
    Stacked (parts.foldl Path.pushPart stack) := by
  induction parts generalizing stack with
  | nil => exact h
  | cons part parts ih =>
    refine ih (h.pushPart ?_ ?_) (fun p hp => hparts p (List.mem_cons_of_mem _ hp))
    · rintro text rfl
      obtain h | ⟨t, ht, hn⟩ := hparts _ List.mem_cons_self
      · cases h
      · cases ht
        exact hn
    · rintro rfl
      obtain h | ⟨t, ht, -⟩ := hparts _ List.mem_cons_self <;> contradiction

/-- The stack that cleaning starts the steps of a path with. -/
def bottom (path : Path) : List Part :=
  if path.isAbsolute then [.root] else []

theorem cleanParts_parts (path : Path) :
    cleanParts path.parts = (path.steps.foldl pushPart path.bottom).reverse := by
  rw [cleanParts, parts_eq, List.foldl_append, bottom]
  split
  · rfl
  · split <;> rfl

theorem stacked_cleanParts (path : Path) : Stacked (cleanParts path.parts).reverse := by
  rw [cleanParts_parts, List.reverse_reverse]
  refine Stacked.foldl_pushPart ?_ (fun part => mem_steps)
  unfold bottom
  split
  · exact .root
  · exact .nil

/-- A stack is the root with names on it, or `..`s with names on them. -/
theorem Stacked.shape {parts : List Part} (h : Stacked parts.reverse) :
    (∃ names, parts = .root :: names ∧ ∀ p ∈ names, ∃ text, p = .name text ∧ IsName text) ∨
      ∀ p ∈ parts, p = .up ∨ ∃ text, p = .name text ∧ IsName text := by
  generalize hs : parts.reverse = stack at h
  have hparts : parts = stack.reverse := by rw [← hs, List.reverse_reverse]
  subst hparts
  clear hs
  induction stack with
  | nil => exact .inr (by simp)
  | cons top below ih =>
    rw [List.reverse_cons]
    cases h with
    | root => exact .inl ⟨[], rfl, by simp⟩
    | up h =>
      refine .inr fun p hp => .inl ?_
      rw [List.mem_append, List.mem_reverse, List.mem_singleton] at hp
      exact hp.elim (h p) id
    | @name text _ hname rest =>
      have htop : ∃ t, Part.name text = .name t ∧ IsName t := ⟨text, rfl, hname⟩
      rcases ih rest with ⟨names, heq, hnames⟩ | hall
      · refine .inl ⟨names ++ [.name text], by rw [heq]; rfl, fun p hp => ?_⟩
        rcases List.mem_append.1 hp with hp | hp
        · exact hnames p hp
        · exact List.mem_singleton.1 hp ▸ htop
      · refine .inr fun p hp => ?_
        rcases List.mem_append.1 hp with hp | hp
        · exact hall p hp
        · exact .inr (List.mem_singleton.1 hp ▸ htop)

theorem Stacked.isPart {parts : List Part} (h : Stacked parts.reverse) {part : Part}
    (hpart : part ∈ parts) : part = .root ∨ part = .up ∨ ∃ text, part = .name text ∧ IsName text := by
  rcases h.shape with ⟨names, rfl, hnames⟩ | hall
  · rcases List.mem_cons.1 hpart with rfl | hpart
    · exact .inl rfl
    · exact .inr (.inr (hnames part hpart))
  · exact .inr (hall part hpart)

/-- What a stack's parts are from the first to the last: names come last. -/
theorem Stacked.split {parts : List Part} (h : Stacked parts.reverse) :
    ∃ front names, parts = front ++ names ∧ (∀ p ∈ front, p = .root ∨ p = .up) ∧
      ∀ p ∈ names, ∃ text, p = .name text := by
  generalize hs : parts.reverse = stack at h
  obtain rfl : parts = stack.reverse := by rw [← hs, List.reverse_reverse]
  clear hs
  induction stack with
  | nil => exact ⟨[], [], rfl, by simp, by simp⟩
  | cons top below ih =>
    rw [List.reverse_cons]
    cases h with
    | root => exact ⟨[.root], [], by simp, by simp, by simp⟩
    | up h =>
      refine ⟨below.reverse ++ [.up], [], by simp, fun p hp => .inr ?_, by simp⟩
      rw [List.mem_append, List.mem_reverse, List.mem_singleton] at hp
      exact hp.elim (h p) id
    | @name text _ hname rest =>
      obtain ⟨front, names, heq, hfront, hnames⟩ := ih rest
      refine ⟨front, names ++ [.name text], by rw [heq, List.append_assoc], hfront, fun p hp => ?_⟩
      rcases List.mem_append.1 hp with hp | hp
      · exact hnames p hp
      · exact ⟨text, List.mem_singleton.1 hp⟩

/-! ## Writing a stack of parts as a path -/

theorem Part.ofPiece_text {part : Part} (h : part = .up ∨ ∃ text, part = .name text ∧ IsName text) :
    ofPiece part.text.toList = some part ∧ '/' ∉ part.text.toList ∧ part.text.toList ≠ [] := by
  rcases h with rfl | ⟨text, rfl, hpiece, hslash⟩
  · decide
  · refine ⟨hpiece, hslash, fun hnil => ?_⟩
    have htext : text.toList = [] := hnil
    rw [htext] at hpiece
    cases hpiece

theorem pieces_intercalate {texts : List String} (hne : texts ≠ [])
    (h : ∀ t ∈ texts, '/' ∉ t.toList) :
    pieces ⟨String.intercalate "/" texts⟩ = texts.map String.toList := by
  rw [pieces, String.toList_intercalate]
  refine List.splitOn_intercalate '/' (fun l hl => ?_) (by simpa using hne)
  obtain ⟨t, ht, rfl⟩ := List.mem_map.1 hl
  exact h t ht

theorem filterMap_ofPiece_texts {parts : List Part}
    (h : ∀ p ∈ parts, p = .up ∨ ∃ text, p = .name text ∧ IsName text) :
    (parts.map fun p => p.text.toList).filterMap Part.ofPiece = parts := by
  induction parts with
  | nil => rfl
  | cons p parts ih =>
    rw [List.map_cons, List.filterMap_cons_some (Part.ofPiece_text (h p List.mem_cons_self)).1,
      ih fun q hq => h q (List.mem_cons_of_mem _ hq)]

/-- A stack of parts is written with one piece for each of them. -/
theorem pieces_ofParts {parts : List Part} (h : Stacked parts.reverse) (hne : parts ≠ [])
    (hroot : parts ≠ [.root]) : (ofParts parts).pieces = parts.map fun p => p.text.toList := by
  have hof : ofParts parts = ⟨String.intercalate "/" (parts.map Part.text)⟩ := by
    unfold ofParts
    split
    · exact absurd rfl hroot
    · rfl
  have hslash : ∀ text ∈ parts.map Part.text, '/' ∉ text.toList := by
    intro text htext
    obtain ⟨part, hpart, rfl⟩ := List.mem_map.1 htext
    rcases h.shape with ⟨names, rfl, hnames⟩ | hall
    · rcases List.mem_cons.1 hpart with rfl | hpart
      · exact List.not_mem_nil
      · exact (Part.ofPiece_text (.inr (hnames _ hpart))).2.1
    · exact (Part.ofPiece_text (hall _ hpart)).2.1
  rw [hof, pieces_intercalate (by simpa using hne) hslash, List.map_map]
  rfl

/-- A stack of parts that is written as a path is read back from it. -/
theorem parts_ofParts {parts : List Part} (h : Stacked parts.reverse) (hne : parts ≠ []) :
    (ofParts parts).parts = parts := by
  rcases h.shape with ⟨names, rfl, hnames⟩ | hall
  · have hnames : ∀ p ∈ names, p = .up ∨ ∃ text, p = .name text ∧ IsName text :=
      fun p hp => .inr (hnames p hp)
    cases names with
    | nil => rfl
    | cons n ns =>
      have hpieces := pieces_ofParts h hne (by simp)
      have habs : (ofParts (.root :: n :: ns)).isAbsolute = true :=
        (isAbsolute_iff _).2 ⟨_, hpieces, by simp⟩
      rw [parts_eq, if_pos habs, steps, hpieces, List.map_cons, List.filterMap_cons_none rfl,
        filterMap_ofPiece_texts hnames]
      rfl
  · have hroot : parts ≠ [.root] := by
      rintro rfl
      obtain h | ⟨_, h, -⟩ := hall _ List.mem_cons_self <;> cases h
    have hpieces := pieces_ofParts h hne hroot
    obtain ⟨p, ps, rfl⟩ := List.exists_cons_of_ne_nil hne
    have hp := Part.ofPiece_text (hall p List.mem_cons_self)
    have habs : (ofParts (p :: ps)).isAbsolute ≠ true := by
      intro h
      obtain ⟨more, heq, -⟩ := (isAbsolute_iff _).1 h
      rw [hpieces, List.map_cons] at heq
      exact hp.2.2 (List.cons.inj heq).1
    have hhead : (ofParts (p :: ps)).pieces.head? ≠ some ['.'] := by
      rw [hpieces, List.map_cons, List.head?_cons]
      intro heq
      have heq : p.text.toList = ['.'] := Option.some.inj heq
      rw [heq] at hp
      exact absurd hp.1 (by simp [Part.ofPiece])
    rw [parts_eq, if_neg habs, if_neg hhead, steps, hpieces, filterMap_ofPiece_texts hall]
    rfl

theorem clean_eq_ofParts {path : Path} (h : cleanParts path.parts ≠ []) :
    path.clean = ofParts (cleanParts path.parts) := by
  unfold clean
  split
  · next heq => exact absurd heq h
  · rfl

/-- The parts of a cleaned path are those that cleaning left. -/
theorem parts_clean {path : Path} (h : cleanParts path.parts ≠ []) :
    path.clean.parts = cleanParts path.parts := by
  rw [clean_eq_ofParts h, parts_ofParts (stacked_cleanParts path) h]

theorem clean_of_cleanParts_eq_nil {path : Path} (h : cleanParts path.parts = []) :
    path.clean = ⟨"."⟩ := by
  unfold clean
  rw [h]

/-! ## Places -/

/-- The place that a part leads to from another one. -/
def advance (place : Place) : Part → Place
  | .name text => place ++ [text]
  | .up => place.dropLast
  | _ => place

/-- The place that a path leads to from the root, whatever stands on the way. -/
def place (path : Path) : Place :=
  path.steps.foldl advance []

theorem foldl_advance_parts (path : Path) : path.parts.foldl advance [] = path.place := by
  rw [parts_eq, List.foldl_append, place]
  split
  · rfl
  · split <;> rfl

theorem foldl_advance_names {names : List Part} (h : ∀ p ∈ names, ∃ text, p = .name text)
    (place : Place) : names.foldl advance place = place ++ names.map Part.text := by
  induction names generalizing place with
  | nil => simp
  | cons p names ih =>
    obtain ⟨text, rfl⟩ := h _ List.mem_cons_self
    rw [List.foldl_cons, ih fun q hq => h q (List.mem_cons_of_mem _ hq)]
    simp [advance, Part.text]

theorem foldl_advance_pushPart {stack : List Part} (h : Stacked stack) (part : Part) :
    (pushPart stack part).reverse.foldl advance [] =
      advance (stack.reverse.foldl advance []) part := by
  cases part with
  | here => rfl
  | root => simp [Path.pushPart, advance]
  | name text => simp [Path.pushPart, advance]
  | up =>
    cases h with
    | nil => rfl
    | root => rfl
    | up _ => simp [Path.pushPart, advance]
    | name _ _ => simp [Path.pushPart, advance]

/-- Cleaning keeps the place. -/
theorem place_clean (path : Path) : path.clean.place = path.place := by
  have key : ∀ (parts stack : List Part), Stacked stack →
      (∀ p ∈ parts, p = .up ∨ ∃ text, p = .name text ∧ IsName text) →
      (parts.foldl pushPart stack).reverse.foldl advance [] =
        parts.foldl advance (stack.reverse.foldl advance []) := by
    intro parts
    induction parts with
    | nil => intros; rfl
    | cons part parts ih =>
      intro stack hstack hparts
      have hrest := fun p hp => hparts p (List.mem_cons_of_mem _ hp)
      have hone : Stacked ([part].foldl Path.pushPart stack) :=
        hstack.foldl_pushPart fun p hp => hparts p (List.mem_singleton.1 hp ▸ List.mem_cons_self)
      rw [List.foldl_cons, List.foldl_nil] at hone
      rw [List.foldl_cons, ih _ hone hrest, foldl_advance_pushPart hstack, List.foldl_cons]
  have hbottom : Stacked path.bottom := by
    unfold bottom
    split
    · exact .root
    · exact .nil
  have hplace : (cleanParts path.parts).foldl advance [] = path.place := by
    rw [cleanParts_parts, key _ _ hbottom fun part => mem_steps, place, bottom]
    split <;> rfl
  by_cases hnil : cleanParts path.parts = []
  · rw [clean_of_cleanParts_eq_nil hnil, ← hplace, hnil]
    rfl
  · rw [← foldl_advance_parts, parts_clean hnil, hplace]

theorem foldl_advance_front {front : List Part} (h : ∀ p ∈ front, p = .root ∨ p = .up) :
    front.foldl advance [] = [] := by
  induction front with
  | nil => rfl
  | cons p front ih =>
    have hone : advance [] p = [] := by
      rcases h p List.mem_cons_self with rfl | rfl <;> rfl
    rw [List.foldl_cons, hone, ih fun q hq => h q (List.mem_cons_of_mem _ hq)]

/-- On the way along a stack of parts, no place is left again. -/
theorem foldl_advance_prefix {done todo : List Part} (h : Stacked (done ++ todo).reverse) :
    done.foldl advance [] <+: (done ++ todo).foldl advance [] := by
  obtain ⟨front, names, heq, hfront, hnames⟩ := h.split
  rw [heq, List.foldl_append, foldl_advance_front hfront]
  rcases List.append_eq_append_iff.1 heq with ⟨more, hf, hrest⟩ | ⟨more, hd, hn⟩
  · rw [foldl_advance_front fun p hp => hfront p (hf ▸ List.mem_append_left _ hp)]
    exact List.nil_prefix
  · rw [hd, List.foldl_append, foldl_advance_front hfront, hn, List.foldl_append]
    have hmore := fun p hp => hnames p (hn ▸ List.mem_append_left _ hp)
    have htodo := fun p hp => hnames p (hn ▸ List.mem_append_right _ hp)
    rw [foldl_advance_names hmore, foldl_advance_names htodo]
    exact List.prefix_append _ _

/-- On the way along a path without detours, no place is left again. -/
theorem steps_prefix {path : Path} (h : Stacked path.parts.reverse) {done todo : List Part}
    (hsteps : path.steps = done ++ todo) : done.foldl advance [] <+: path.place := by
  obtain ⟨pre, hpre, hparts⟩ :
      ∃ pre : List Part, pre.foldl advance [] = [] ∧ path.parts = pre ++ path.steps := by
    rw [parts_eq]
    split
    · exact ⟨[.root], rfl, rfl⟩
    · split
      · exact ⟨[.here], rfl, rfl⟩
      · exact ⟨[], rfl, rfl⟩
  rw [hparts, hsteps, ← List.append_assoc] at h
  have hway := foldl_advance_prefix h
  rw [List.append_assoc, List.foldl_append, List.foldl_append, hpre, ← hsteps] at hway
  exact hway

theorem place_join (base : Path) {name : String} (h : name.toList.head? ≠ some '/') :
    (base.join name).place = (steps ⟨name⟩).foldl advance base.place := by
  rw [place, steps_join base h, List.foldl_append]
  rfl

/-! ## Names below a base -/

theorem head?_trimSlashes (name : String) :
    (Text.trimSlashes name).toList.head? ≠ some '/' := by
  intro h
  rw [Text.trimSlashes, String.toList_ofList, Text.trimBoth] at h
  have hprefix : ((name.toList.dropWhile (· == '/')).reverse.dropWhile (· == '/')).reverse <+:
      name.toList.dropWhile (· == '/') := by
    have := List.reverse_prefix.2
      (List.dropWhile_suffix (l := (name.toList.dropWhile (· == '/')).reverse) (· == '/'))
    rwa [List.reverse_reverse] at this
  obtain ⟨rest, hrest⟩ := hprefix
  have hhead : (name.toList.dropWhile (· == '/')).head? = some '/' := by
    rw [← hrest, List.head?_append, h]
    rfl
  have hnot := List.head?_dropWhile_not (· == '/') name.toList
  rw [hhead] at hnot
  simp at hnot

/-- What it takes for a name to be accepted, and what it is accepted as. -/
theorem below_eq_ok {base path : Path} {name : String} (h : base.below name = .ok path) :
    path = (base.clean.join (Text.trimSlashes name)).clean ∧
      ∃ more, more ≠ [] ∧ path.parts = base.clean.parts ++ more := by
  unfold below at h
  simp only at h
  generalize hq : (base.clean.join (Text.trimSlashes name)).clean = q at h ⊢
  split at h
  · exact nomatch h
  · split at h
    · next hc =>
      obtain rfl : q = path := Except.ok.inj h
      refine ⟨rfl, ?_⟩
      rw [Bool.and_eq_true, startsWith, List.isPrefixOf_iff_prefix, same] at hc
      obtain ⟨⟨more, hmore⟩, hne⟩ := hc
      refine ⟨more, ?_, hmore.symm⟩
      rintro rfl
      rw [List.append_nil] at hmore
      simp [hmore] at hne
    · exact nomatch h

theorem parts_clean_ne_nil (path : Path) : path.clean.parts ≠ [] := by
  by_cases h : cleanParts path.parts = []
  · rw [clean_of_cleanParts_eq_nil h]
    decide
  · rw [parts_clean h]
    exact h

/-- The parts of an accepted name's path form a stack. -/
theorem stacked_below {base path : Path} {name : String} (h : base.below name = .ok path) :
    Stacked path.parts.reverse := by
  obtain ⟨hpath, more, hne, hparts⟩ := below_eq_ok h
  have hclean : cleanParts (base.clean.join (Text.trimSlashes name)).parts ≠ [] := by
    intro hnil
    rw [hpath, clean_of_cleanParts_eq_nil hnil] at hparts
    have hlen := congrArg List.length hparts
    have hpos := List.length_pos_iff.2 hne
    have hpos' := List.length_pos_iff.2 (parts_clean_ne_nil base)
    rw [List.length_append] at hlen
    have hone : (parts ⟨"."⟩).length = 1 := by decide
    omega
  have hstacked := stacked_cleanParts (base.clean.join (Text.trimSlashes name))
  rwa [← parts_clean hclean, ← hpath] at hstacked

/-- A name that is accepted leads strictly below its base, if the base ends in a name. -/
theorem place_below {base path : Path} {name text : String} {front : List Part}
    (hbase : base.clean.parts = front ++ [.name text]) (h : base.below name = .ok path) :
    ∃ rest, rest ≠ [] ∧ path.place = base.place ++ rest := by
  obtain ⟨-, more, hne, hparts⟩ := below_eq_ok h
  refine ⟨more.map Part.text, by simpa using hne, ?_⟩
  have hnames : ∀ p ∈ more, ∃ text, p = .name text := by
    have hstacked := stacked_below h
    rw [hparts, hbase] at hstacked
    rw [List.append_assoc, List.reverse_append, List.reverse_append, List.reverse_singleton,
      List.append_assoc, List.singleton_append] at hstacked
    intro p hp
    exact hstacked.names_above p (List.mem_reverse.2 hp)
  rw [← foldl_advance_parts path, hparts, List.foldl_append, foldl_advance_parts, place_clean,
    foldl_advance_names hnames]

end TemplateCompiler.Path
