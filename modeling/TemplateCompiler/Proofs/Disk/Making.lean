import TemplateCompiler.Proofs.Disk.Trees

/-!
# Which files can be made

A file can be made at a place if none is on the way and no directory stands there (`Disk.HasRoom`), as
long as the new names can be stored; for cleaned paths this is all that counts (`Disk.create_isSome_iff`).
What is written elsewhere leaves the place its room, unless a file comes to stand on the way or a
directory is made for what is below (`Disk.HasRoom.of_left`).
-/
namespace TemplateCompiler.Disk

variable {disk disk' made before after : Disk} {place goal : Place}

/-! ## Room -/

/-- A directory stands at the place, or one can be made there. -/
def canEnter (disk : Disk) (place : Place) : Bool :=
  match disk.get? place with
  | some .directory => true
  | some (.file _) => false
  | none => place.getLast?.all isStorable

/-- A file can be made at the place, in the stead of one that stands there, with what is missing of the
directories above it. -/
structure HasRoom (disk : Disk) (place : Place) : Prop where
  storable : place.getLast?.all isStorable = true
  free : disk.isDirectoryAt place = false
  way : ∀ p, p <+: place → p ≠ place → disk.canEnter p = true

theorem canEnter_congr (h : disk'.get? place = disk.get? place) :
    disk'.canEnter place = disk.canEnter place := by
  unfold canEnter
  rw [h]

theorem isDirectoryAt_congr (h : disk'.get? place = disk.get? place) :
    disk'.isDirectoryAt place = disk.isDirectoryAt place := by
  unfold isDirectoryAt
  rw [h]

/-- A file that stands at a place cannot be entered. -/
theorem canEnter_of_contentAt? {content : Bytes} (h : disk.contentAt? place = some content) :
    disk.canEnter place = false := by
  unfold canEnter
  rw [contentAt?_eq_some.1 h]

/-! ## Making directories -/

theorem enter_of_canEnter {name : String} (h : disk.canEnter (place ++ [name]) = true) :
    ∃ made, enter (disk, place) (.name name) = some (made, place ++ [name]) ∧
      made.isDirectoryAt (place ++ [name]) = true ∧
      ∀ other, other ≠ place ++ [name] → made.get? other = disk.get? other := by
  unfold canEnter at h
  unfold enter
  dsimp only
  cases hget : disk.get? (place ++ [name]) with
  | none =>
    rw [hget] at h
    have hstorable : isStorable name = true := by simpa using h
    have hne : place ++ [name] ≠ [] := List.append_ne_nil_of_right_ne_nil _ (List.cons_ne_nil _ _)
    dsimp only
    rw [if_pos hstorable]
    exact ⟨_, rfl, isDirectoryAt_iff.2 (get?_set_self _ _ hne), fun _ hother => get?_set_ne _ _ hother⟩
  | some node =>
    rw [hget] at h
    cases node with
    | directory => exact ⟨disk, rfl, isDirectoryAt_iff.2 hget, fun _ _ => rfl⟩
    | file => cases h

theorem canEnter_of_enter {name : String} {state : Disk × Place}
    (h : enter (disk, place) (.name name) = some state) : disk.canEnter (place ++ [name]) = true := by
  unfold enter at h
  unfold canEnter
  dsimp only at h
  cases hget : disk.get? (place ++ [name]) with
  | none =>
    rw [hget] at h
    dsimp only at h
    split at h
    · next hstorable => simpa using hstorable
    · cases h
  | some node =>
    rw [hget] at h
    cases node with
    | directory => rfl
    | file => cases h

/-- **Making directories**: along names that can be entered one after another, every directory is made
that is missing, and nothing else. -/
theorem enter_names {names : List String}
    (h : ∀ front, front <+: names → front ≠ [] → disk.canEnter (place ++ front) = true) :
    ∃ made, (names.map Path.Part.name).foldlM enter (disk, place) = some (made, place ++ names) ∧
      (∀ front, front <+: names → front ≠ [] → made.isDirectoryAt (place ++ front) = true) ∧
      ∀ other, ¬ other <+: place ++ names → made.get? other = disk.get? other := by
  induction names generalizing disk place with
  | nil =>
    refine ⟨disk, by simp, fun front hfront hne => ?_, fun _ _ => rfl⟩
    exact absurd (List.prefix_nil.1 hfront) hne
  | cons name names ih =>
    have hone := h [name] (List.prefix_append [name] names) (List.cons_ne_nil _ _)
    obtain ⟨first, henter, hdirectory, hsame⟩ := enter_of_canEnter hone
    have hrest : ∀ front, front <+: names → front ≠ [] →
        first.canEnter (place ++ [name] ++ front) = true := by
      intro front hfront hne
      rw [canEnter_congr (hsame _ fun heq => hne (List.append_right_eq_self.1 heq)), List.append_assoc]
      exact h _ ((List.prefix_cons_inj name).2 hfront) (List.cons_ne_nil _ _)
    obtain ⟨made, hmade, hall, hleft⟩ := ih hrest
    have hplace : place ++ [name] ++ names = place ++ name :: names := List.append_assoc ..
    rw [hplace] at hmade hleft
    refine ⟨made, ?_, fun front hfront hne => ?_, fun other hother => ?_⟩
    · rw [List.map_cons, List.foldlM_cons, henter]
      exact hmade
    · obtain ⟨head, front, rfl⟩ := List.exists_cons_of_ne_nil hne
      obtain ⟨rfl, hmore⟩ := List.cons_prefix_cons.1 hfront
      by_cases hnil : front = []
      · rw [hnil]
        exact (grown_makeDirectories hmade).directory _ hdirectory
      · have hdirectories := hall front hmore hnil
        rwa [List.append_assoc] at hdirectories
    · refine (hleft other hother).trans (hsame other ?_)
      rintro rfl
      exact hother (hplace ▸ List.prefix_append (place ++ [name]) names)

theorem canEnter_of_enter_names {names : List String} {state : Disk × Place}
    (h : (names.map Path.Part.name).foldlM enter (disk, place) = some state) :
    ∀ front, front <+: names → front ≠ [] → disk.canEnter (place ++ front) = true := by
  induction names generalizing disk place with
  | nil => exact fun front hfront hne => absurd (List.prefix_nil.1 hfront) hne
  | cons name names ih =>
    intro front hfront hne
    rw [List.map_cons, List.foldlM_cons] at h
    obtain ⟨next, hnext, hrest⟩ := Option.bind_eq_some_iff.1 h
    have hone := canEnter_of_enter hnext
    obtain ⟨first, henter, -, hsame⟩ := enter_of_canEnter hone
    obtain rfl := Option.some.inj (henter.symm.trans hnext)
    obtain ⟨head, front, rfl⟩ := List.exists_cons_of_ne_nil hne
    obtain ⟨rfl, hmore⟩ := List.cons_prefix_cons.1 hfront
    by_cases hnil : front = []
    · rw [hnil]
      exact hone
    · have hlater := ih hrest front hmore hnil
      rwa [canEnter_congr (hsame _ fun heq => hnil (List.append_right_eq_self.1 heq)),
        List.append_assoc] at hlater

/-! ## Making files -/

/-- A cleaned path that leads anywhere but to the root ends in names. -/
theorem parts_of_clean {path given : Path} (hpath : path = given.clean) (hne : path.place ≠ []) :
    ∃ front names last, path.parts = front ++ (names ++ [last]).map Path.Part.name ∧
      (∀ p ∈ front, p = .root ∨ p = .up) ∧ path.place = names ++ [last] := by
  have hclean : Path.cleanParts given.parts ≠ [] := by
    intro hnil
    rw [hpath, Path.clean_of_cleanParts_eq_nil hnil] at hne
    exact hne rfl
  have hparts : path.parts = Path.cleanParts given.parts := by
    rw [hpath, Path.parts_clean hclean]
  obtain ⟨front, names, hsplit, hfront, hnames⟩ := (Path.stacked_cleanParts given).split
  have hplace : path.place = names.map Path.Part.text := by
    rw [← Path.foldl_advance_parts, hparts, hsplit, List.foldl_append,
      Path.foldl_advance_front hfront, Path.foldl_advance_names hnames, List.nil_append]
  obtain ⟨first, last, heq⟩ := (List.eq_nil_or_concat (names.map Path.Part.text)).resolve_left
    (hplace ▸ hne)
  refine ⟨front, first, last, ?_, hfront, by rw [hplace, heq, List.concat_eq_append]⟩
  rw [hparts, hsplit, ← List.concat_eq_append, ← heq, List.map_map]
  congr 1
  refine (List.map_id names).symm.trans (List.map_congr_left fun part hpart => ?_)
  obtain ⟨text, rfl⟩ := hnames part hpart
  rfl

/-- Steps that lead up from the root stay there. -/
theorem enter_front {front : List Path.Part} (h : ∀ p ∈ front, p = .root ∨ p = .up) (disk : Disk) :
    front.foldlM enter (disk, []) = some (disk, []) := by
  induction front with
  | nil => rfl
  | cons part front ih =>
    have hone : enter (disk, []) part = some (disk, []) := by
      rcases h part List.mem_cons_self with rfl | rfl <;> rfl
    rw [List.foldlM_cons, hone]
    exact ih fun p hp => h p (List.mem_cons_of_mem _ hp)

/-- **Making a file**: a file is made at a place that has room for it, with the directories on the way,
and nothing else is. -/
theorem HasRoom.create {path given : Path} (hpath : path = given.clean) (hne : path.place ≠ [])
    (h : disk.HasRoom path.place) : ∃ disk', disk.create path = some (disk', path.place) ∧
      ∀ other, ¬ other <+: path.place → disk'.get? other = disk.get? other := by
  obtain ⟨front, names, last, hparts, hfront, hplace⟩ := parts_of_clean hpath hne
  have hdirs : path.parts.dropLast = front ++ names.map Path.Part.name := by
    rw [hparts, List.map_append, ← List.append_assoc]
    exact List.dropLast_concat
  have hproper {p : Place} (hp : p <+: names) : p <+: path.place ∧ p ≠ path.place := by
    refine ⟨hplace ▸ hp.trans (List.prefix_append _ _), fun heq => ?_⟩
    have hlength := hp.length_le
    rw [heq, hplace, List.length_append, List.length_singleton] at hlength
    omega
  obtain ⟨made, hmade, hall, hleft⟩ := @enter_names disk [] names fun p hp _ =>
    h.way p (hproper hp).1 (hproper hp).2
  rw [List.nil_append] at hmade hleft
  have hlast : ¬ path.place <+: names := fun hp => (hproper hp).2 rfl
  have hlocate : made.locate? path = some path.place := by
    rw [hpath, Path.place_clean]
    rw [hpath, Path.place_clean] at hplace hne
    refine locate?_clean hne fun p hp hpne => ?_
    rw [hplace] at hp hpne
    by_cases hnil : p = []
    · rw [hnil]
      rfl
    · exact hall p ((List.prefix_concat_iff.1 hp).resolve_left hpne) hnil
  refine ⟨made.set path.place (.file []), ?_, fun other hother => ?_⟩
  · unfold Disk.create makeDirectories
    rw [hdirs, List.foldlM_append, enter_front hfront]
    show (List.foldlM enter (disk, []) (names.map Path.Part.name)).bind _ = _
    rw [hmade]
    show (made.locate? path).bind _ = _
    rw [hlocate]
    show (if made.isDirectoryAt path.place = true then none else _) = _
    rw [isDirectoryAt_congr (hleft _ hlast), h.free, if_neg Bool.false_ne_true, if_pos h.storable]
  · rw [get?_set_ne]
    · exact hleft other fun hp => hother (hproper hp).1
    · rintro rfl
      exact hother (List.prefix_refl _)

theorem hasRoom_of_create {path given : Path} (hpath : path = given.clean) (hne : path.place ≠ [])
    (h : disk.create path = some (disk', place)) : disk.HasRoom path.place := by
  obtain ⟨front, names, last, hparts, hfront, hplace⟩ := parts_of_clean hpath hne
  have hdirs : path.parts.dropLast = front ++ names.map Path.Part.name := by
    rw [hparts, List.map_append, ← List.append_assoc]
    exact List.dropLast_concat
  unfold Disk.create makeDirectories at h
  rw [hdirs, List.foldlM_append, enter_front hfront] at h
  obtain ⟨⟨made, dir⟩, hmade, h⟩ := Option.bind_eq_some_iff.1 h
  obtain ⟨found, hfound, h⟩ := Option.bind_eq_some_iff.1 h
  have hmade : (names.map Path.Part.name).foldlM enter (disk, []) = some (made, dir) := hmade
  obtain rfl := place_of_locate? hfound
  split at h
  · cases h
  · next hnot =>
    split at h
    · next hstorable =>
      refine ⟨hstorable, Bool.eq_false_iff.2 fun hdirectory => ?_, fun p hp hpne => ?_⟩
      · exact hnot ((grown_makeDirectories hmade).directory _ hdirectory)
      · rw [hplace] at hp hpne
        by_cases hnil : p = []
        · rw [hnil]
          rfl
        · exact canEnter_of_enter_names hmade p ((List.prefix_concat_iff.1 hp).resolve_left hpne) hnil
    · cases h

/-- **Room**: a file can be made at a cleaned path exactly if its place has room for it. -/
theorem create_isSome_iff {path given : Path} (hpath : path = given.clean) (hne : path.place ≠ []) :
    (disk.create path).isSome = true ↔ disk.HasRoom path.place := by
  constructor
  · intro h
    obtain ⟨⟨disk', place⟩, hcreate⟩ := Option.isSome_iff_exists.1 h
    exact hasRoom_of_create hpath hne hcreate
  · intro h
    obtain ⟨disk', hcreate, -⟩ := h.create hpath hne
    rw [hcreate]
    rfl

/-! ## Directories that are made -/

/-- Directories have been made for nothing but what is owned: below each of them an owned place is. -/
def MadeFor (owned : Place → Prop) (before after : Disk) : Prop :=
  ∀ place, after.isDirectoryAt place = true →
    before.isDirectoryAt place = true ∨ ∃ goal, owned goal ∧ place <+: goal ∧ place ≠ goal

namespace MadeFor

variable {owned more : Place → Prop} {a b c : Disk}

theorem refl (owned : Place → Prop) (disk : Disk) : MadeFor owned disk disk :=
  fun _ => .inl

theorem trans (h : MadeFor owned a b) (h' : MadeFor owned b c) : MadeFor owned a c := by
  intro place hplace
  rcases h' place hplace with hmiddle | hmade
  · exact h place hmiddle
  · exact .inr hmade

theorem mono (h : MadeFor owned a b) (hsub : ∀ place, owned place → more place) : MadeFor more a b := by
  intro place hplace
  refine (h place hplace).imp_right ?_
  rintro ⟨goal, howned, hbelow⟩
  exact ⟨goal, hsub goal howned, hbelow⟩

end MadeFor

theorem madeFor_set_file (owned : Place → Prop) (disk : Disk) (place : Place) (content : Bytes) :
    MadeFor owned disk (disk.set place (.file content)) := by
  intro other hother
  by_cases heq : other = place
  · subst heq
    by_cases hnil : other = []
    · rw [hnil]
      exact .inl rfl
    · rw [isDirectoryAt_iff, get?_set_self _ _ hnil] at hother
      cases hother
  · rw [isDirectoryAt_congr (get?_set_ne _ _ heq)] at hother
    exact .inl hother

theorem madeFor_writeAt (owned : Place → Prop) (disk : Disk) (place : Place) (position : Nat)
    (piece : Bytes) : MadeFor owned disk (disk.writeAt place position piece) := by
  unfold writeAt
  split
  · exact madeFor_set_file owned disk place _
  · exact .refl owned disk

theorem madeFor_create {path given : Path} (hpath : path = given.clean)
    (h : disk.create path = some (disk', place)) : MadeFor (· = path.place) disk disk' := by
  obtain ⟨rfl, -, hcontent, -⟩ := create_eq_some h
  have hne := ne_nil_of_contentAt? hcontent
  obtain ⟨_, hcreate, hsame⟩ := (hasRoom_of_create hpath hne h).create hpath hne
  obtain ⟨rfl, -⟩ := Prod.mk.inj (Option.some.inj (h.symm.trans hcreate))
  intro other hother
  by_cases hp : other <+: path.place
  · refine .inr ⟨path.place, rfl, hp, ?_⟩
    rintro rfl
    rw [isDirectoryAt_iff, contentAt?_eq_some.1 hcontent] at hother
    cases hother
  · rw [isDirectoryAt_congr (hsame other hp)] at hother
    exact .inl hother

theorem madeFor_erase (owned : Place → Prop) (disk : Disk) (p : Place → Bool) :
    MadeFor owned disk (disk.erase p) := by
  intro place hplace
  by_cases hnil : place = []
  · rw [hnil]
    exact .inl rfl
  · cases hp : p place with
    | true =>
      rw [isDirectoryAt_erase hnil hp] at hplace
      cases hplace
    | false =>
      rw [isDirectoryAt_congr (get?_erase hp)] at hplace
      exact .inl hplace

theorem madeFor_removeFile (owned : Place → Prop) (disk : Disk) (path : Path) :
    MadeFor owned disk (disk.removeFile path) := by
  unfold removeFile
  split
  · split
    · exact madeFor_erase owned disk _
    · exact .refl owned disk
  · exact .refl owned disk

theorem madeFor_removeTree (owned : Place → Prop) (disk : Disk) (path : Path) :
    MadeFor owned disk (disk.removeTree path) := by
  unfold removeTree
  split
  · exact madeFor_erase owned disk _
  · exact .refl owned disk

/-! ## Room that is left -/

/-- **Room stays** for a goal that no owned place is above or below, if the directories on its way
stay. -/
theorem HasRoom.of_left {owned : Place → Prop} (h : before.HasRoom goal)
    (hcontent : ∀ place, ¬ owned place → after.contentAt? place = before.contentAt? place)
    (hmade : MadeFor owned before after)
    (hkept : ∀ p, p <+: goal → before.isDirectoryAt p = true → after.isDirectoryAt p = true)
    (habove : ∀ place, owned place → place <+: goal → place = goal)
    (hbelow : ∀ place, owned place → goal <+: place → place = goal) : after.HasRoom goal where
  storable := h.storable
  free := by
    refine Bool.eq_false_iff.2 fun hdirectory => ?_
    rcases hmade goal hdirectory with hbefore | ⟨place, howned, hp, hne⟩
    · rw [h.free] at hbefore
      cases hbefore
    · exact hne (hbelow place howned hp).symm
  way p hp hne := by
    have hway := h.way p hp hne
    have hsame := hcontent p fun howned => hne (habove p howned hp)
    unfold canEnter at hway ⊢
    cases hget : before.get? p with
    | none =>
      rw [hget] at hway
      have hnone : before.contentAt? p = none := by
        unfold contentAt?
        rw [hget]
      split
      · rfl
      · next content hafter =>
        rw [contentAt?_eq_some.2 hafter, hnone] at hsame
        cases hsame
      · exact hway
    | some node =>
      cases node with
      | directory => rw [isDirectoryAt_iff.1 (hkept p hp (isDirectoryAt_iff.2 hget))]
      | file content =>
        rw [hget] at hway
        cases hway

/-! ## Room that is taken -/

/-- A file stands at the place, in directories. -/
structure Stands (disk : Disk) (place : Place) : Prop where
  file : ∃ content, disk.contentAt? place = some content
  directories : ∀ p, p <+: place → p ≠ place → disk.isDirectoryAt p = true

/-- What is read stands there. -/
theorem stands_of_read? {path : Path} {content : Bytes} (h : disk.read? path = some content) :
    disk.Stands path.place := by
  obtain ⟨place, hlocate, hcontent⟩ := read?_eq_some.1 h
  obtain rfl := place_of_locate? hlocate
  exact ⟨⟨content, hcontent⟩, directories_of_locate? hlocate⟩

/-- **Room is taken** from all that is below a file, or above it. -/
theorem Stands.not_hasRoom (h : disk.Stands place) (hne : place ≠ goal)
    (hnested : place <+: goal ∨ goal <+: place) : ¬ disk.HasRoom goal := by
  intro hroom
  rcases hnested with hbelow | habove
  · obtain ⟨content, hcontent⟩ := h.file
    have hway := hroom.way place hbelow hne
    rw [canEnter_of_contentAt? hcontent] at hway
    cases hway
  · have hfree := hroom.free
    rw [h.directories goal habove hne.symm] at hfree
    cases hfree

end TemplateCompiler.Disk
