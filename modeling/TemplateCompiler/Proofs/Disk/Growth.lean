import TemplateCompiler.Proofs.Path.Clean

/-!
# How a disk changes

Everything a session does to the disk before it ends is growth: directories stay directories, and
the content of a file changes only at places the session owns (`Disk.Grown`). This module proves it
of making, writing and removing single files, and says where paths lead on the disk afterwards.
-/
namespace TemplateCompiler.Disk

/-! ## What stands at a place -/

theorem isDirectoryAt_iff {disk : Disk} {place : Place} :
    disk.isDirectoryAt place = true ↔ disk.get? place = some .directory := by
  simp [isDirectoryAt]

@[simp] theorem isDirectoryAt_nil (disk : Disk) : disk.isDirectoryAt [] = true := rfl

theorem contentAt?_eq_some {disk : Disk} {place : Place} {content : Bytes} :
    disk.contentAt? place = some content ↔ disk.get? place = some (.file content) := by
  unfold contentAt?
  split <;> simp_all

theorem contentAt?_set_self (disk : Disk) {place : Place} (content : Bytes) (h : place ≠ []) :
    (disk.set place (.file content)).contentAt? place = some content :=
  contentAt?_eq_some.2 (disk.get?_set_self _ h)

theorem contentAt?_set_ne (disk : Disk) {place other : Place} (node : Node) (h : other ≠ place) :
    (disk.set place node).contentAt? other = disk.contentAt? other := by
  unfold contentAt?
  rw [get?_set_ne _ _ h]

theorem ne_nil_of_contentAt? {disk : Disk} {place : Place} {content : Bytes}
    (h : disk.contentAt? place = some content) : place ≠ [] := by
  rintro rfl
  cases contentAt?_eq_some.1 h

/-! ## Growth -/

/-- `after` has every directory of `before`, and the same files but for places that are owned. -/
structure Grown (owned : Place → Prop) (before after : Disk) : Prop where
  content : ∀ place, ¬ owned place → after.contentAt? place = before.contentAt? place
  directory : ∀ place, before.isDirectoryAt place = true → after.isDirectoryAt place = true

namespace Grown

variable {owned : Place → Prop} {a b c : Disk}

theorem refl (owned : Place → Prop) (disk : Disk) : Grown owned disk disk :=
  ⟨fun _ _ => rfl, fun _ h => h⟩

theorem trans (h : Grown owned a b) (h' : Grown owned b c) : Grown owned a c where
  content place hp := (h'.content place hp).trans (h.content place hp)
  directory place hp := h'.directory place (h.directory place hp)

theorem mono {more : Place → Prop} (h : Grown owned a b) (hsub : ∀ place, owned place → more place) :
    Grown more a b where
  content place hp := h.content place fun ho => hp (hsub place ho)
  directory := h.directory

end Grown

/-- A file put where no directory stands. -/
theorem grown_set_file (disk : Disk) {place : Place} (content : Bytes)
    (h : disk.isDirectoryAt place = false) :
    Grown (· = place) disk (disk.set place (.file content)) where
  content other hne := contentAt?_set_ne disk _ hne
  directory other hd := by
    have hne : other ≠ place := by
      rintro rfl
      rw [h] at hd
      cases hd
    rw [isDirectoryAt_iff] at hd ⊢
    rw [get?_set_ne _ _ hne, hd]

/-- A directory made where nothing stands. -/
theorem grown_set_directory (disk : Disk) {place : Place} (h : disk.get? place = none) :
    Grown (fun _ => False) disk (disk.set place .directory) where
  content other _ := by
    by_cases hne : other = place
    · subst hne
      have hnil : other ≠ [] := by
        rintro rfl
        cases h
      simp [contentAt?, h, get?_set_self _ _ hnil]
    · exact contentAt?_set_ne disk _ hne
  directory other hd := by
    have hne : other ≠ place := by
      rintro rfl
      rw [isDirectoryAt_iff, h] at hd
      cases hd
    rw [isDirectoryAt_iff] at hd ⊢
    rw [get?_set_ne _ _ hne, hd]

theorem grown_writeAt (disk : Disk) (place : Place) (position : Nat) (piece : Bytes) :
    Grown (· = place) disk (disk.writeAt place position piece) := by
  unfold writeAt
  split
  · next content h =>
    refine grown_set_file disk _ ?_
    simp [isDirectoryAt, contentAt?_eq_some.1 h]
  · exact .refl _ _

theorem contentAt?_writeAt {disk : Disk} {place : Place} {content : Bytes}
    (h : disk.contentAt? place = some content) (position : Nat) (piece : Bytes) :
    (disk.writeAt place position piece).contentAt? place =
      some (overwrite content position piece) := by
  unfold writeAt
  rw [h]
  exact contentAt?_set_self disk _ (ne_nil_of_contentAt? h)

/-! ## Where a path leads -/

theorem walk_eq_some {disk : Disk} {place place' : Place} {piece : List Char}
    (h : disk.walk place piece = some place') :
    disk.isDirectoryAt place = true ∧
      place' = ((Path.Part.ofPiece piece).map (Path.advance place)).getD place := by
  unfold walk at h
  split at h
  · cases h
  · next hd =>
    refine ⟨by simpa using hd, ?_⟩
    cases hp : Path.Part.ofPiece piece with
    | none =>
      rw [hp] at h
      exact (Option.some.inj h).symm
    | some part =>
      rw [hp] at h
      cases part <;> exact (Option.some.inj h).symm

theorem foldlM_walk_eq_some {disk : Disk} {pieces : List (List Char)} {place place' : Place}
    (h : pieces.foldlM disk.walk place = some place') :
    place' = (pieces.filterMap Path.Part.ofPiece).foldl Path.advance place := by
  induction pieces generalizing place with
  | nil => exact (Option.some.inj h).symm
  | cons piece pieces ih =>
    rw [List.foldlM_cons] at h
    obtain ⟨next, hnext, h⟩ := Option.bind_eq_some_iff.1 h
    rw [ih h, (walk_eq_some hnext).2]
    cases hp : Path.Part.ofPiece piece with
    | none => rw [List.filterMap_cons_none hp]; rfl
    | some part => rw [List.filterMap_cons_some hp]; rfl

/-- A path that leads anywhere leads to its place. -/
theorem place_of_locate? {disk : Disk} {path : Path} {place : Place}
    (h : disk.locate? path = some place) : place = path.place := by
  unfold locate? at h
  split at h
  · cases h
  · exact foldlM_walk_eq_some h

/-- A walk finds its way on every disk that has the directories on it. -/
theorem foldlM_walk_agree {before after : Disk} {pieces : List (List Char)} {place place' : Place}
    (hsame : ∀ done todo, pieces = done ++ todo →
      before.isDirectoryAt ((done.filterMap Path.Part.ofPiece).foldl Path.advance place) = true →
      after.isDirectoryAt ((done.filterMap Path.Part.ofPiece).foldl Path.advance place) = true)
    (h : pieces.foldlM before.walk place = some place') :
    pieces.foldlM after.walk place = some place' := by
  induction pieces generalizing place with
  | nil => exact h
  | cons piece pieces ih =>
    rw [List.foldlM_cons] at h ⊢
    obtain ⟨next, hnext, h⟩ := Option.bind_eq_some_iff.1 h
    obtain ⟨hdir, hplace⟩ := walk_eq_some hnext
    have hdir' := hsame [] _ rfl hdir
    have hwalk : after.walk place piece = some next := by
      unfold walk at hnext ⊢
      rw [hdir] at hnext
      rw [show after.isDirectoryAt place = true from hdir']
      exact hnext
    refine Option.bind_eq_some_iff.2 ⟨next, hwalk, ih (fun done todo heq => ?_) h⟩
    have hlater := hsame (piece :: done) todo (by rw [heq]; rfl)
    rw [hplace]
    cases hp : Path.Part.ofPiece piece with
    | none => rwa [List.filterMap_cons_none hp] at hlater
    | some part => rwa [List.filterMap_cons_some hp] at hlater

/-- Where a path led before, it leads to the same place after. -/
theorem Grown.locate? {owned : Place → Prop} {before after : Disk} (hg : Grown owned before after)
    {path : Path} {place : Place} (h : before.locate? path = some place) :
    after.locate? path = some place := by
  unfold Disk.locate? at h ⊢
  split at h
  · cases h
  · rw [if_neg ‹_›]
    exact foldlM_walk_agree (fun _ _ _ => hg.directory _) h

theorem read?_eq_some {disk : Disk} {path : Path} {content : Bytes} :
    disk.read? path = some content ↔
      ∃ place, disk.locate? path = some place ∧ disk.contentAt? place = some content := by
  unfold read? find?
  cases disk.locate? path with
  | none => simp
  | some place =>
    simp only [Option.bind_some, Option.some.injEq, exists_eq_left', contentAt?]

theorem isFile_iff {disk : Disk} {path : Path} :
    disk.isFile path = true ↔ ∃ content, disk.read? path = some content := by
  unfold isFile read?
  split <;> simp

/-- What is read at a path stands at its place. -/
theorem contentAt?_of_read? {disk : Disk} {path : Path} {content : Bytes}
    (h : disk.read? path = some content) : disk.contentAt? path.place = some content := by
  obtain ⟨place, hlocate, hcontent⟩ := read?_eq_some.1 h
  exact place_of_locate? hlocate ▸ hcontent

/-! ## Making directories and files -/

theorem grown_enter {disk disk' : Disk} {place place' : Place} {part : Path.Part}
    (h : enter (disk, place) part = some (disk', place')) :
    Grown (fun _ => False) disk disk' := by
  unfold enter at h
  cases part with
  | root | here | up =>
    obtain ⟨rfl, -⟩ := Prod.mk.inj (Option.some.inj h)
    exact .refl _ _
  | name name =>
    simp only at h
    split at h
    · obtain ⟨rfl, -⟩ := Prod.mk.inj (Option.some.inj h)
      exact .refl _ _
    · cases h
    · next hnone =>
      split at h
      · obtain ⟨rfl, -⟩ := Prod.mk.inj (Option.some.inj h)
        exact grown_set_directory disk hnone
      · cases h

theorem grown_makeDirectories {parts : List Path.Part} {state state' : Disk × Place}
    (h : parts.foldlM enter state = some state') :
    Grown (fun _ => False) state.1 state'.1 := by
  induction parts generalizing state with
  | nil =>
    obtain rfl := Option.some.inj h
    exact .refl _ _
  | cons part parts ih =>
    rw [List.foldlM_cons] at h
    obtain ⟨next, hnext, h⟩ := Option.bind_eq_some_iff.1 h
    exact (grown_enter hnext).trans (ih h)

/-- A file that is created is empty and stands where its path leads. -/
theorem create_eq_some {disk disk' : Disk} {path : Path} {place : Place}
    (h : disk.create path = some (disk', place)) :
    place = path.place ∧ disk'.locate? path = some place ∧ disk'.contentAt? place = some [] ∧
      Grown (· = place) disk disk' := by
  unfold create at h
  obtain ⟨⟨made, dir⟩, hmade, h⟩ := Option.bind_eq_some_iff.1 h
  obtain ⟨found, hfound, h⟩ := Option.bind_eq_some_iff.1 h
  have hgrown : Grown (fun _ => False) disk made := grown_makeDirectories hmade
  split at h
  · cases h
  · next hnot =>
    split at h
    · obtain ⟨rfl, rfl⟩ := Prod.mk.inj (Option.some.inj h)
      have hnil : found ≠ [] := by
        rintro rfl
        exact hnot rfl
      have hset := grown_set_file made [] (Bool.eq_false_iff.2 hnot)
      exact ⟨place_of_locate? hfound, hset.locate? hfound, contentAt?_set_self _ _ hnil,
        (hgrown.mono fun _ => False.elim).trans hset⟩
    · cases h

/-! ## Removing -/

theorem lookup_filter {entries : List (Place × Node)} {p : Place → Bool} {place : Place}
    (h : p place = false) :
    (entries.filter fun entry => !p entry.1).lookup place = entries.lookup place := by
  induction entries with
  | nil => rfl
  | cons entry entries ih =>
    obtain ⟨q, node⟩ := entry
    by_cases hq : place = q
    · subst hq
      simp [h]
    · rw [List.lookup_cons, beq_false_of_ne hq, List.filter_cons]
      split
      · rw [List.lookup_cons, beq_false_of_ne hq, ih]
      · exact ih

theorem get?_erase {disk : Disk} {p : Place → Bool} {place : Place} (h : p place = false) :
    (disk.erase p).get? place = disk.get? place := by
  unfold get? erase
  split
  · rfl
  · exact lookup_filter h

theorem contentAt?_erase {disk : Disk} {p : Place → Bool} {place : Place} (h : p place = false) :
    (disk.erase p).contentAt? place = disk.contentAt? place := by
  unfold contentAt?
  rw [get?_erase h]

theorem grown_removeFile (disk : Disk) (path : Path) :
    Grown (· = path.place) disk (disk.removeFile path) := by
  unfold removeFile
  split
  · next place hplace =>
    split
    · next hsome =>
      obtain ⟨content, hcontent⟩ := Option.isSome_iff_exists.1 hsome
      rw [← place_of_locate? hplace]
      refine ⟨fun other hne => contentAt?_erase (by simpa using hne), fun other hd => ?_⟩
      have hne : other ≠ place := by
        rintro rfl
        rw [isDirectoryAt_iff, contentAt?_eq_some.1 hcontent] at hd
        cases hd
      rw [isDirectoryAt_iff] at hd ⊢
      rw [get?_erase (by simpa using hne), hd]
    · exact .refl _ _
  · exact .refl _ _

/-- A path without detours leads where it led, if the directories on its way are still there. -/
theorem locate?_agree {before after : Disk} {path : Path} {place : Place}
    (hpath : Path.Stacked path.parts.reverse)
    (hsame : ∀ p, p <+: path.place → before.isDirectoryAt p = true → after.isDirectoryAt p = true)
    (h : before.locate? path = some place) : after.locate? path = some place := by
  unfold Disk.locate? at h ⊢
  split at h
  · cases h
  · rw [if_neg ‹_›]
    refine foldlM_walk_agree (fun done todo heq => hsame _ ?_) h
    have hsteps : path.steps =
        done.filterMap Path.Part.ofPiece ++ todo.filterMap Path.Part.ofPiece := by
      rw [Path.steps, heq, List.filterMap_append]
    exact Path.steps_prefix hpath hsteps

/-- Whether every file stands in directories. -/
def IsTree (disk : Disk) : Prop :=
  ∀ place content, disk.contentAt? place = some content →
    ∀ p, p <+: place → p ≠ place → disk.isDirectoryAt p = true

/-- What can be read at a place that is not owned could be read before, if its path makes no
detours. -/
theorem Grown.read?_eq {owned : Place → Prop} {before after : Disk} (h : Grown owned before after)
    (htree : before.IsTree) {path : Path} (hpath : Path.Stacked path.parts.reverse)
    (hplace : ¬ owned path.place) : after.read? path = before.read? path := by
  cases hread : before.read? path with
  | some content =>
    obtain ⟨place, hlocate, hcontent⟩ := read?_eq_some.1 hread
    refine read?_eq_some.2 ⟨place, h.locate? hlocate, ?_⟩
    rw [← hcontent]
    exact h.content _ (place_of_locate? hlocate ▸ hplace)
  | none =>
    cases hafter : after.read? path with
    | none => rfl
    | some content =>
      obtain ⟨place, hlocate, hcontent⟩ := read?_eq_some.1 hafter
      obtain rfl := place_of_locate? hlocate
      have hbefore : before.contentAt? path.place = some content := by
        rw [← h.content _ hplace]
        exact hcontent
      have hback : before.locate? path = some path.place := by
        refine locate?_agree hpath (fun p hp hdir => htree _ _ hbefore p hp ?_) hlocate
        rintro rfl
        rw [isDirectoryAt_iff, contentAt?_eq_some.1 hcontent] at hdir
        cases hdir
      rw [read?_eq_some.2 ⟨_, hback, hbefore⟩] at hread
      cases hread

/-- What does not stand in a tree can be read once the tree is gone, if its path makes no
detours. -/
theorem read?_removeTree {disk : Disk} {path tree : Path} {content : Bytes}
    (hpath : Path.Stacked path.parts.reverse) (hout : ¬ tree.place <+: path.place)
    (h : disk.read? path = some content) : (disk.removeTree tree).read? path = some content := by
  unfold removeTree
  split
  · next root hroot =>
    obtain rfl := place_of_locate? hroot
    obtain ⟨place, hlocate, hcontent⟩ := read?_eq_some.1 h
    obtain rfl := place_of_locate? hlocate
    have hkeep : ∀ p, p <+: path.place → List.isPrefixOf tree.place p = false := by
      intro p hp
      rw [Bool.eq_false_iff, ne_eq, List.isPrefixOf_iff_prefix]
      exact fun htree => hout (htree.trans hp)
    refine read?_eq_some.2 ⟨_, ?_, (contentAt?_erase (hkeep _ (List.prefix_refl _))).trans hcontent⟩
    refine locate?_agree hpath (fun p hp hdir => ?_) hlocate
    rw [isDirectoryAt_iff] at hdir ⊢
    rw [get?_erase (hkeep p hp), hdir]
  · exact h

end TemplateCompiler.Disk
