import TemplateCompiler.Proofs.Disk.Growth
import TemplateCompiler.Proofs.Outcome

/-!
# Disks that are trees

If every file of a disk stands in directories, then a cleaned path leads to a file as soon as one
stands at its place (`Disk.IsTree.read?_clean`): whether there is a way need not be asked. Whatever is
done to a tree, it stays one.
-/
namespace TemplateCompiler

/-! ## Pieces of cleaned paths -/

namespace Path

/-- The piece of a part leads where the part leads. -/
theorem foldl_advance_pieces {parts : List Part} (h : ∀ part ∈ parts, part = .root ∨ part = .up ∨
    ∃ text, part = .name text ∧ IsName text) (place : Place) :
    ((parts.map fun p => p.text.toList).filterMap Part.ofPiece).foldl advance place =
      parts.foldl advance place := by
  induction parts generalizing place with
  | nil => rfl
  | cons part parts ih =>
    have hrest := ih fun p hp => h p (List.mem_cons_of_mem _ hp)
    rw [List.map_cons]
    rcases h part List.mem_cons_self with rfl | hpart
    · rw [List.filterMap_cons_none rfl]
      exact hrest place
    · rw [List.filterMap_cons_some (Part.ofPiece_text hpart).1]
      exact hrest (advance place part)

/-- A stack that leads anywhere but to the root ends in a name. -/
theorem Stacked.ends_in_name {parts : List Part} (h : Stacked parts.reverse)
    (hplace : parts.foldl advance [] ≠ []) : ∃ front text, parts = front ++ [.name text] := by
  obtain ⟨front, names, rfl, hfront, hnames⟩ := h.split
  rcases List.eq_nil_or_concat names with rfl | ⟨more, last, rfl⟩
  · rw [List.append_nil] at hplace
    exact absurd (foldl_advance_front hfront) hplace
  · obtain ⟨text, rfl⟩ := hnames last (by simp)
    exact ⟨front ++ more, text, by rw [List.concat_eq_append, List.append_assoc]⟩

/-- The front of such a stack leads to a place on the way. -/
theorem Stacked.properPrefix_front {first second : List Part} (h : Stacked (first ++ second).reverse)
    (hplace : (first ++ second).foldl advance [] ≠ []) (hsecond : second ≠ []) :
    first.foldl advance [] <+: (first ++ second).foldl advance [] ∧
      first.foldl advance [] ≠ (first ++ second).foldl advance [] := by
  obtain ⟨front, file, hsplit⟩ := h.ends_in_name hplace
  obtain ⟨more, rfl⟩ : ∃ more, second = more ++ [.name file] := by
    rcases List.eq_nil_or_concat second with rfl | ⟨more, last, rfl⟩
    · exact absurd rfl hsecond
    · rw [List.concat_eq_append, ← List.append_assoc] at hsplit
      obtain ⟨-, hlast⟩ := List.append_inj' hsplit rfl
      exact ⟨more, by rw [List.concat_eq_append, hlast]⟩
  rw [← List.append_assoc] at h ⊢
  have hfront : Stacked (first ++ more).reverse := by
    rw [List.reverse_append] at h
    exact h.tail
  have hway := foldl_advance_prefix hfront
  have hend : (first ++ more ++ [Part.name file]).foldl advance [] =
      (first ++ more).foldl advance [] ++ [file] := by
    rw [List.foldl_append]
    rfl
  rw [hend]
  refine ⟨hway.trans (List.prefix_append _ _), fun heq => ?_⟩
  have hlength := hway.length_le
  rw [heq, List.length_append] at hlength
  exact absurd hlength (by simp)

end Path

namespace Disk

/-! ## Walks -/

/-- A walk along directories comes to its end. -/
theorem foldlM_walk_of_directories {disk : Disk} {pieces : List (List Char)} {place : Place}
    (h : ∀ done piece todo, pieces = done ++ piece :: todo →
      disk.isDirectoryAt ((done.filterMap Path.Part.ofPiece).foldl Path.advance place) = true) :
    pieces.foldlM disk.walk place =
      some ((pieces.filterMap Path.Part.ofPiece).foldl Path.advance place) := by
  induction pieces generalizing place with
  | nil => rfl
  | cons piece pieces ih =>
    have hdirectory : disk.isDirectoryAt place = true := h [] piece pieces rfl
    have hwalk : disk.walk place piece =
        some (([piece].filterMap Path.Part.ofPiece).foldl Path.advance place) := by
      unfold walk
      rw [hdirectory]
      cases hpart : Path.Part.ofPiece piece with
      | none => rw [List.filterMap_cons_none hpart]; rfl
      | some part => rw [List.filterMap_cons_some hpart]; cases part <;> rfl
    have hsplit : (piece :: pieces).filterMap Path.Part.ofPiece =
        [piece].filterMap Path.Part.ofPiece ++ pieces.filterMap Path.Part.ofPiece :=
      List.filterMap_append (l := [piece])
    rw [List.foldlM_cons, hwalk, hsplit, List.foldl_append]
    refine ih fun done next todo heq => ?_
    have hnext := h (piece :: done) next todo (by rw [heq]; rfl)
    rwa [← List.singleton_append, List.filterMap_append, List.foldl_append] at hnext

/-- A cleaned path leads to its place if there are directories on the way. -/
theorem locate?_clean {disk : Disk} {path : Path} (hnonempty : path.place ≠ [])
    (h : ∀ p, p <+: path.place → p ≠ path.place → disk.isDirectoryAt p = true) :
    disk.locate? path.clean = some path.place := by
  rw [← Path.place_clean] at hnonempty h ⊢
  have hparts : Path.cleanParts path.parts ≠ [] := by
    intro hnil
    rw [Path.clean_of_cleanParts_eq_nil hnil] at hnonempty
    exact hnonempty rfl
  have hstacked := Path.stacked_cleanParts path
  have hplace : (Path.cleanParts path.parts).foldl Path.advance [] = path.clean.place := by
    rw [← Path.parts_clean hparts, Path.foldl_advance_parts]
  have hroot : Path.cleanParts path.parts ≠ [.root] := by
    intro hroot
    rw [hroot] at hplace
    exact hnonempty hplace.symm
  have hpieces : path.clean.pieces =
      (Path.cleanParts path.parts).map fun p => p.text.toList := by
    rw [Path.clean_eq_ofParts hparts, Path.pieces_ofParts hstacked hparts hroot]
  have hwalk : path.clean.pieces.foldlM disk.walk [] = some path.clean.place := by
    refine foldlM_walk_of_directories fun done piece todo heq => ?_
    rw [hpieces, List.map_eq_append_iff] at heq
    obtain ⟨first, second, hfirst, rfl, hsecond⟩ := heq
    rw [Path.foldl_advance_pieces fun p hp => hstacked.isPart (hfirst ▸ List.mem_append_left _ hp)]
    rw [hfirst] at hstacked hplace
    have hne : second ≠ [] := by
      rintro rfl
      cases hsecond
    obtain ⟨hway, hbefore⟩ := hstacked.properPrefix_front (hplace ▸ hnonempty) hne
    rw [hplace] at hway hbefore
    exact h _ hway hbefore
  unfold locate?
  rw [if_neg, hwalk]
  intro hempty
  have hone : path.clean.pieces = [[]] := by
    rw [Path.pieces, hempty]
    rfl
  have hnil : path.clean.place = [] := by
    rw [Path.place, Path.steps, hone]
    rfl
  exact hnonempty hnil

/-- **Reading from a tree**: a cleaned path reads what stands at its place. -/
theorem IsTree.read?_clean {disk : Disk} (h : disk.IsTree) (path : Path) :
    disk.read? path.clean = disk.contentAt? path.place := by
  cases hcontent : disk.contentAt? path.place with
  | none =>
    cases hread : disk.read? path.clean with
    | none => rfl
    | some content =>
      have hstands := contentAt?_of_read? hread
      rw [Path.place_clean, hcontent] at hstands
      cases hstands
  | some content =>
    have hlocate := locate?_clean (ne_nil_of_contentAt? hcontent) (h path.place content hcontent)
    exact read?_eq_some.2 ⟨path.place, hlocate, hcontent⟩

/-! ## Disks that stay trees -/

variable {disk disk' : Disk}

/-- A disk that grows stays a tree if every file on a place of its own stands in directories. -/
theorem IsTree.grown {owned : Place → Prop} (h : disk.IsTree) (hgrown : Grown owned disk disk')
    (hnew : ∀ place content, owned place → disk'.contentAt? place = some content →
      ∀ p, p <+: place → p ≠ place → disk'.isDirectoryAt p = true) : disk'.IsTree := by
  intro place content hcontent p hp hne
  by_cases howned : owned place
  · exact hnew place content howned hcontent p hp hne
  · rw [hgrown.content place howned] at hcontent
    exact hgrown.directory p (h place content hcontent p hp hne)

/-- Files that were there already stand in directories. -/
theorem IsTree.grown_of_there {owned : Place → Prop} (h : disk.IsTree)
    (hgrown : Grown owned disk disk')
    (hthere : ∀ place content, owned place → disk'.contentAt? place = some content →
      ∃ before, disk.contentAt? place = some before) : disk'.IsTree := by
  refine h.grown hgrown fun place content howned hcontent p hp hne => ?_
  obtain ⟨before, hbefore⟩ := hthere place content howned hcontent
  exact hgrown.directory p (h place before hbefore p hp hne)

theorem isTree_writeAt (h : disk.IsTree) (place : Place) (position : Nat) (piece : Bytes) :
    (disk.writeAt place position piece).IsTree := by
  refine h.grown_of_there (grown_writeAt disk place position piece) ?_
  rintro other content rfl hcontent
  cases hbefore : disk.contentAt? other with
  | some before => exact ⟨before, rfl⟩
  | none =>
    unfold writeAt at hcontent
    rw [hbefore] at hcontent
    exact absurd (hbefore.symm.trans hcontent) nofun

/-- The way to where a path leads goes through directories. -/
theorem directories_of_foldlM_walk {pieces : List (List Char)} {place place' : Place}
    (h : pieces.foldlM disk.walk place = some place')
    (hway : ∀ p, p <+: place → p ≠ place → disk.isDirectoryAt p = true) :
    ∀ p, p <+: place' → p ≠ place' → disk.isDirectoryAt p = true := by
  induction pieces generalizing place with
  | nil =>
    obtain rfl := Option.some.inj h
    exact hway
  | cons piece pieces ih =>
    rw [List.foldlM_cons] at h
    obtain ⟨next, hnext, h⟩ := Option.bind_eq_some_iff.1 h
    obtain ⟨hdir, hplace⟩ := walk_eq_some hnext
    refine ih h fun p hp hne => ?_
    have hhere (hp : p <+: place) : disk.isDirectoryAt p = true := by
      by_cases heq : p = place
      · rw [heq]
        exact hdir
      · exact hway p hp heq
    subst hplace
    cases hpart : Path.Part.ofPiece piece with
    | none =>
      rw [hpart] at hp
      exact hhere hp
    | some part =>
      rw [hpart] at hp hne
      cases part with
      | root | here => exact hhere hp
      | up => exact hhere (hp.trans (List.dropLast_prefix place))
      | name text =>
        rcases List.prefix_concat_iff.1 hp with heq | hp
        · exact absurd heq hne
        · exact hhere hp

theorem directories_of_locate? {path : Path} {place : Place} (h : disk.locate? path = some place) :
    ∀ p, p <+: place → p ≠ place → disk.isDirectoryAt p = true := by
  unfold locate? at h
  split at h
  · cases h
  · refine directories_of_foldlM_walk h fun p hp hne => ?_
    exact absurd (List.prefix_nil.1 hp) hne

theorem isTree_create (h : disk.IsTree) {path : Path} {place : Place}
    (hcreate : disk.create path = some (disk', place)) : disk'.IsTree := by
  obtain ⟨-, hlocate, -, hgrown⟩ := create_eq_some hcreate
  refine h.grown hgrown ?_
  rintro _ content rfl -
  exact directories_of_locate? hlocate

theorem isTree_writeFile (h : disk.IsTree) {path : Path} {content : Bytes}
    (hwrite : disk.writeFile path content = some disk') : disk'.IsTree := by
  obtain ⟨⟨made, place⟩, hcreate, rfl⟩ := Option.map_eq_some_iff.1 hwrite
  exact isTree_writeAt (isTree_create h hcreate) place 0 content

/-- What has a content is among the entries. -/
theorem mem_entries_of_contentAt? {place : Place} {content : Bytes}
    (h : disk.contentAt? place = some content) : (place, .file content) ∈ disk.entries := by
  have hget := contentAt?_eq_some.1 h
  unfold get? at hget
  split at hget
  · cases hget
  · exact mem_of_lookup hget

/-- What is erased is gone. -/
theorem contentAt?_of_erase {p : Place → Bool} {place : Place} {content : Bytes}
    (h : (disk.erase p).contentAt? place = some content) :
    p place = false ∧ disk.contentAt? place = some content := by
  have hnot : p place = false := by
    simpa using (List.mem_filter.1 (mem_entries_of_contentAt? h)).2
  exact ⟨hnot, by rwa [contentAt?_erase hnot] at h⟩

/-- No directory is left of what is erased. -/
theorem isDirectoryAt_erase {p : Place → Bool} {place : Place} (hplace : place ≠ []) (h : p place = true) :
    (disk.erase p).isDirectoryAt place = false := by
  have hlookup : (disk.erase p).entries.lookup place = none := by
    refine List.lookup_eq_none_iff.2 fun entry hentry => ?_
    have hkept : p entry.1 = false := by simpa using (List.mem_filter.1 hentry).2
    refine bne_iff_ne.2 ?_
    rintro rfl
    rw [h] at hkept
    cases hkept
  unfold isDirectoryAt get?
  rw [if_neg hplace, hlookup]
  rfl

theorem isTree_removeFile (h : disk.IsTree) (path : Path) : (disk.removeFile path).IsTree := by
  refine h.grown_of_there (grown_removeFile disk path) fun place content _ hcontent => ?_
  unfold removeFile at hcontent
  split at hcontent
  · split at hcontent
    · exact ⟨content, (contentAt?_of_erase hcontent).2⟩
    · exact ⟨content, hcontent⟩
  · exact ⟨content, hcontent⟩

theorem isTree_removeTree (h : disk.IsTree) (path : Path) : (disk.removeTree path).IsTree := by
  unfold removeTree
  split
  · next tree _ =>
    intro place content hcontent p hp hne
    obtain ⟨hkept, hbefore⟩ := contentAt?_of_erase hcontent
    have hdir := h place content hbefore p hp hne
    rw [isDirectoryAt_iff] at hdir ⊢
    rw [get?_erase, hdir]
    rw [Bool.eq_false_iff, ne_eq, List.isPrefixOf_iff_prefix] at hkept ⊢
    exact fun htree => hkept (htree.trans hp)
  · exact h

end Disk

end TemplateCompiler
