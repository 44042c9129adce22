import TemplateCompiler.Proofs.Cache.Alike
import TemplateCompiler.Proofs.Session.Changes

/-!
# What lasts

While a session goes on, every file stays a file, and every artifact that is to be deleted stays to be
deleted (`Session.Lasts`). Only when the session succeeds are these deleted, with the directory of its
blocks (`Session.isFileAt_finish`).
-/
namespace TemplateCompiler

/-! ## Files -/

namespace Disk

variable {disk disk' disk'' : Disk} {place : Place}

/-- Whether a file stands at a place. -/
def isFileAt (disk : Disk) (place : Place) : Bool :=
  (disk.contentAt? place).isSome

/-- Every file stays a file, and a tree stays a tree. -/
structure Keeps (disk disk' : Disk) : Prop where
  file : ∀ place, disk.isFileAt place = true → disk'.isFileAt place = true
  tree : disk.IsTree → disk'.IsTree

theorem Keeps.refl (disk : Disk) : disk.Keeps disk :=
  ⟨fun _ => id, id⟩

theorem Keeps.trans (h : disk.Keeps disk') (h' : disk'.Keeps disk'') : disk.Keeps disk'' :=
  ⟨fun place hplace => h'.file place (h.file place hplace), fun htree => h'.tree (h.tree htree)⟩

theorem isFileAt_of_isFile {path : Path} (h : disk.isFile path = true) :
    disk.isFileAt path.place = true := by
  obtain ⟨content, hread⟩ := isFile_iff.1 h
  rw [isFileAt, contentAt?_of_read? hread]
  rfl

/-- In a tree a clean path leads to the file that stands at its place. -/
theorem IsTree.isFile_clean (h : disk.IsTree) (path : Path) :
    disk.isFile path.clean = disk.isFileAt path.place := by
  rw [isFileAt, ← h.read?_clean]
  unfold isFile read?
  split <;> rfl

theorem keeps_writeAt (disk : Disk) (place : Place) (position : Nat) (piece : Bytes) :
    disk.Keeps (disk.writeAt place position piece) := by
  refine ⟨fun other hother => ?_, fun htree => isTree_writeAt htree place position piece⟩
  by_cases heq : other = place
  · subst heq
    obtain ⟨content, hcontent⟩ := Option.isSome_iff_exists.1 hother
    rw [isFileAt, contentAt?_writeAt hcontent]
    rfl
  · rw [isFileAt, (grown_writeAt disk place position piece).content other heq]
    exact hother

theorem keeps_create {path : Path} (h : disk.create path = some (disk', place)) :
    disk.Keeps disk' ∧ disk'.isFileAt path.place = true := by
  obtain ⟨rfl, -, hcontent, hgrown⟩ := create_eq_some h
  have hfile : disk'.isFileAt path.place = true := by
    rw [isFileAt, hcontent]
    rfl
  refine ⟨⟨fun other hother => ?_, fun htree => isTree_create htree h⟩, hfile⟩
  by_cases heq : other = path.place
  · exact heq ▸ hfile
  · rw [isFileAt, hgrown.content other heq]
    exact hother

/-- What is removed is the file at the place of the path. -/
theorem IsTree.isFileAt_removeFile (h : disk.IsTree) {path name : Path} (hclean : path = name.clean) :
    (disk.removeFile path).isFileAt place = true ↔ disk.isFileAt place = true ∧ place ≠ path.place := by
  constructor
  · intro hplace
    obtain ⟨content, hcontent⟩ := Option.isSome_iff_exists.1 hplace
    unfold removeFile at hcontent
    have hkeep : disk.isFileAt place = true → disk.isFileAt path.place = false →
        disk.isFileAt place = true ∧ place ≠ path.place := by
      intro hfile hnot
      refine ⟨hfile, ?_⟩
      rintro rfl
      rw [hnot] at hfile
      cases hfile
    cases hlocate : disk.locate? path with
    | none =>
      rw [hlocate] at hcontent
      refine hkeep (Option.isSome_iff_exists.2 ⟨content, hcontent⟩) ?_
      rw [hclean, Path.place_clean, ← h.isFile_clean, ← hclean]
      unfold isFile find?
      rw [hlocate]
      rfl
    | some found =>
      obtain rfl := place_of_locate? hlocate
      rw [hlocate] at hcontent
      dsimp only at hcontent
      split at hcontent
      · obtain ⟨hne, hbefore⟩ := contentAt?_of_erase hcontent
        exact ⟨Option.isSome_iff_exists.2 ⟨content, hbefore⟩, by simpa using hne⟩
      · next hnot =>
        exact hkeep (Option.isSome_iff_exists.2 ⟨content, hcontent⟩) (Bool.eq_false_iff.2 hnot)
  · rintro ⟨hfile, hne⟩
    rw [isFileAt, (grown_removeFile disk path).content place hne]
    exact hfile

theorem IsTree.isFileAt_removeFiles (h : disk.IsTree) {paths : List Path}
    (hclean : ∀ path ∈ paths, ∃ name : Path, path = name.clean) :
    (paths.foldl removeFile disk).IsTree ∧
      ((paths.foldl removeFile disk).isFileAt place = true ↔
        disk.isFileAt place = true ∧ ∀ path ∈ paths, place ≠ path.place) := by
  induction paths generalizing disk with
  | nil => exact ⟨h, by simp⟩
  | cons path paths ih =>
    obtain ⟨name, hname⟩ := hclean path List.mem_cons_self
    obtain ⟨htree, hfile⟩ := ih (isTree_removeFile h path)
      fun other hother => hclean other (List.mem_cons_of_mem _ hother)
    refine ⟨htree, ?_⟩
    rw [List.foldl_cons, hfile, h.isFileAt_removeFile hname, List.forall_mem_cons, and_assoc]

/-! ### Directories that are gone -/

end Disk

namespace Path

end Path

namespace Disk

variable {disk : Disk} {place : Place}

theorem isFileAt_removeTree {dir : Path} (h : ¬ dir.place <+: place) :
    (disk.removeTree dir).isFileAt place = disk.isFileAt place := by
  unfold removeTree
  split
  · next root hroot =>
    obtain rfl := place_of_locate? hroot
    rw [isFileAt, contentAt?_erase (Bool.eq_false_iff.2 fun hp => h (List.isPrefixOf_iff_prefix.1 hp))]
    rfl
  · rfl

theorem isFileAt_of_removeTree {dir : Path} (h : (disk.removeTree dir).isFileAt place = true) :
    disk.isFileAt place = true := by
  unfold removeTree at h
  split at h
  · obtain ⟨content, hcontent⟩ := Option.isSome_iff_exists.1 h
    exact Option.isSome_iff_exists.2 ⟨content, (contentAt?_of_erase hcontent).2⟩
  · exact h

end Disk

/-- The relation holds between a disk and what becomes of it by single writes. -/
structure Disk.OfWrites (related : Disk → Disk → Prop) : Prop where
  refl : ∀ disk, related disk disk
  trans : ∀ {a b c}, related a b → related b c → related a c
  writeAt : ∀ disk place position piece, related disk (disk.writeAt place position piece)

theorem Disk.ofWrites_keeps : OfWrites Keeps :=
  ⟨.refl, .trans, keeps_writeAt⟩

namespace Disk.OfWrites

variable {related : Disk → Disk → Prop} (h : OfWrites related)
include h

theorem writer (writer : Writer) (disk : Disk) (piece : Bytes) :
    related disk (writer.write disk piece).2 := by
  have hroom : related disk (writer.makeRoom disk piece).2 := by
    unfold Writer.makeRoom
    split
    · exact h.writeAt _ _ _ _
    · exact h.refl _
  rw [Writer.write_eq]
  split
  · exact h.trans hroom (h.writeAt _ _ _ _)
  · exact hroom

theorem write (d : Destination) (disk : Disk) (piece : Bytes) :
    related disk (d.write disk piece).2 := by
  unfold Destination.write
  split
  · exact h.writer _ _ _
  · exact h.refl _

theorem writeAll (disk : Disk) (piece : Bytes) (ds : List Destination) :
    related disk (Destination.writeAll disk piece ds).2 := by
  induction ds generalizing disk with
  | nil => exact h.refl disk
  | cons d ds ih => exact h.trans (h.write d disk piece) (ih _)

theorem close (d : Destination) (disk : Disk) : related disk (d.close disk) := by
  unfold Destination.close
  split
  · exact h.writeAt _ _ _ _
  · exact h.refl _

theorem closeAll (session : Session) : related session.disk session.closeAll := by
  have hfold (ds : List Destination) (disk : Disk) :
      related disk (ds.foldl (fun disk d => d.close disk) disk) := by
    induction ds generalizing disk with
    | nil => exact h.refl disk
    | cons d ds ih => exact h.trans (h.close d disk) (ih _)
  exact h.trans (h.close session.main session.disk) (hfold _ _)

end Disk.OfWrites

namespace Destination

variable {disk disk' : Disk}

/-- A destination that is opened is a file. -/
theorem keeps_open? {name : String} {path : Path} {temporary : Bool} {d : Destination}
    (h : open? disk name path temporary = .ok (d, disk')) :
    disk.Keeps disk' ∧ disk'.isFileAt path.place = true := by
  unfold open? at h
  dsimp only at h
  split at h
  · next hkept =>
    obtain ⟨-, rfl⟩ := Prod.mk.inj (Except.ok.inj h)
    exact ⟨.refl _, Disk.isFileAt_of_isFile (Bool.and_eq_true_iff.1 hkept).1⟩
  · split at h
    · next hcreate =>
      obtain ⟨-, rfl⟩ := Prod.mk.inj (Except.ok.inj h)
      exact Disk.keeps_create hcreate
    · cases h

end Destination

/-! ## Sessions -/

namespace Session

/-- The session goes on: files stay, and what is to be deleted stays to be deleted. What is to be
deleted besides is temporary. -/
structure Lasts (session session' : Session) : Prop where
  workspace : session'.workspace = session.workspace
  id : session'.id = session.id
  disk : session.disk.Keeps session'.disk
  leftovers : ∀ path ∈ session.allLeftovers, path ∈ session'.allLeftovers
  temporary : ∀ path ∈ session'.allLeftovers,
    path ∈ session.allLeftovers ∨ ∃ name, session.artifactPath name true = .ok path

namespace Lasts

variable {session session' last : Session}

theorem refl (session : Session) : session.Lasts session :=
  ⟨rfl, rfl, .refl _, fun _ hpath => hpath, fun _ => .inl⟩

theorem artifactPath (h : session.Lasts session') (name : String) (temporary : Bool) :
    session'.artifactPath name temporary = session.artifactPath name temporary := by
  unfold Session.artifactPath
  rw [h.workspace]

theorem trans (h : session.Lasts session') (h' : session'.Lasts last) : session.Lasts last where
  workspace := h'.workspace.trans h.workspace
  id := h'.id.trans h.id
  disk := h.disk.trans h'.disk
  leftovers path hpath := h'.leftovers path (h.leftovers path hpath)
  temporary path hpath := by
    rcases h'.temporary path hpath with hold | ⟨name, hname⟩
    · exact h.temporary path hold
    · exact .inr ⟨name, by rw [← h.artifactPath, hname]⟩

/-- What does not open or close destinations. -/
theorem of_sameAs (hworkspace : session'.workspace = session.workspace)
    (hid : session'.id = session.id) (hdisk : session.disk.Keeps session'.disk)
    (hleft : session'.leftovers = session.leftovers)
    (hothers : List.Forall₂ Destination.SameAs session.others session'.others) :
    session.Lasts session' := by
  have hlists : session'.others.filterMap (·.leftover?) = session.others.filterMap (·.leftover?) := by
    generalize session.others = ds at hothers ⊢
    generalize session'.others = ds' at hothers ⊢
    induction hothers with
    | nil => rfl
    | @cons d d' _ _ hsame _ ih =>
      have hleft : d'.leftover? = d.leftover? := by
        rw [Destination.leftover?, hsame.2.1, hsame.2.2, Destination.leftover?]
      rw [List.filterMap_cons, List.filterMap_cons, hleft, ih]
  have hall : session'.allLeftovers = session.allLeftovers := by
    rw [allLeftovers, allLeftovers, hleft, hlists]
  exact ⟨hworkspace, hid, hdisk, fun path hpath => hall ▸ hpath, fun path hpath => .inl (hall ▸ hpath)⟩

end Lasts

variable {session : Session}

theorem lasts_write (session : Session) (piece : Bytes) : session.Lasts (session.write piece) :=
  .of_sameAs rfl rfl
    ((Disk.ofWrites_keeps.write session.main _ piece).trans (Disk.ofWrites_keeps.writeAll _ piece _)) rfl
    (Destination.sameAs_writeAll _ _ _)

theorem lasts_writeMain (session : Session) (piece : Bytes) :
    session.Lasts (session.writeMain piece) :=
  .of_sameAs rfl rfl (Disk.ofWrites_keeps.write session.main _ piece) rfl (Destination.sameAs_refl _)

/-- **Closing**: a temporary artifact that is closed is to be deleted as before. -/
theorem lasts_removeDestination (session : Session) (name : String) :
    session.Lasts (session.removeDestination name).2 := by
  unfold removeDestination destination?
  split
  · exact .refl session
  · next d hfind =>
    obtain ⟨hname, before, after, hothers, hbefore⟩ := List.find?_eq_some_iff_append.1 hfind
    have herase : session.others.eraseP (·.name == name) = before ++ after := by
      rw [hothers, List.eraseP_append_right _ fun e he => by simpa using hbefore e he,
        List.eraseP_cons_of_pos (by exact hname)]
    -- the path goes from those that are open to those that are put down, so their order changes
    have hperm : (session.leftovers ++ d.leftover?.toList ++
        (before ++ after).filterMap (·.leftover?)).Perm session.allLeftovers := by
      have hd : (d :: after).filterMap (·.leftover?) =
          d.leftover?.toList ++ after.filterMap (·.leftover?) := by
        cases hleft : d.leftover? <;> simp [hleft]
      rw [allLeftovers, hothers, List.filterMap_append, List.filterMap_append, hd, List.append_assoc]
      exact (List.perm_append_comm_assoc _ _ _).append_left _
    refine ⟨rfl, rfl, Disk.ofWrites_keeps.close d _, fun path hpath => ?_, fun path hpath => .inl ?_⟩
    · dsimp only [allLeftovers]
      rw [herase]
      exact hperm.mem_iff.2 hpath
    · dsimp only [allLeftovers] at hpath
      rw [herase] at hpath
      exact hperm.mem_iff.1 hpath

/-- **Opening**: a temporary artifact that is opened is to be deleted. -/
theorem lasts_opening {name : String} {path : Path} {temporary : Bool} {d : Destination} {disk : Disk}
    (hpath : session.artifactPath name temporary = .ok path)
    (hopen : Destination.open? session.disk name path temporary = .ok (d, disk)) :
    session.Lasts (session.withDestination d disk) := by
  obtain ⟨-, hdpath, hdtemporary, -⟩ := Destination.open?_eq_ok hopen
  have hall : (session.withDestination d disk).allLeftovers =
      session.allLeftovers ++ d.leftover?.toList := by
    show session.leftovers ++ (session.others ++ [d]).filterMap (·.leftover?) = _
    rw [List.filterMap_append, allLeftovers, List.append_assoc]
    cases hleft : d.leftover? <;> simp [hleft]
  refine ⟨rfl, rfl, (Destination.keeps_open? hopen).1, fun other hother => ?_, fun other hother => ?_⟩
  · rw [hall]
    exact List.mem_append_left _ hother
  · rw [hall] at hother
    refine (List.mem_append.1 hother).imp_right fun hnew => ?_
    obtain ⟨htemporary, rfl⟩ := Destination.leftover?_eq_some.1 (Option.mem_toList.1 hnew)
    rw [hdtemporary] at htemporary
    exact ⟨name, by rw [hdpath, ← htemporary, hpath]⟩

/-- What has been opened: a temporary artifact is to be deleted, and another one is a file. -/
def HasOpened (session : Session) (path : Path) (temporary : Bool) : Prop :=
  (∃ name, session.artifactPath name temporary = .ok path) ∧
    match temporary with
    | true => path ∈ session.allLeftovers
    | false => session.disk.isFileAt path.place = true

theorem HasOpened.lasts {session' : Session} {path : Path} {temporary : Bool}
    (h : session.HasOpened path temporary) (hlasts : session.Lasts session') :
    session'.HasOpened path temporary := by
  obtain ⟨⟨name, hname⟩, hopened⟩ := h
  refine ⟨⟨name, by rw [hlasts.artifactPath, hname]⟩, ?_⟩
  cases temporary with
  | true => exact hlasts.leftovers path hopened
  | false => exact hlasts.disk.file path.place hopened

theorem hasOpened_opening {name : String} {path : Path} {temporary : Bool} {d : Destination}
    {disk : Disk} (hpath : session.artifactPath name temporary = .ok path)
    (hopen : Destination.open? session.disk name path temporary = .ok (d, disk)) :
    (session.withDestination d disk).HasOpened path temporary := by
  obtain ⟨-, hdpath, hdtemporary, -⟩ := Destination.open?_eq_ok hopen
  refine ⟨⟨name, hpath⟩, ?_⟩
  cases temporary with
  | true =>
    refine List.mem_append_right _ (List.mem_filterMap.2 ⟨d, List.mem_append_right _ ?_, ?_⟩)
    · exact List.mem_singleton_self d
    · exact Destination.leftover?_eq_some.2 ⟨hdtemporary, hdpath⟩
  | false => exact (Destination.keeps_open? hopen).2

theorem clean_of_artifactPath {name : String} {temporary : Bool} {path : Path}
    (h : session.artifactPath name temporary = .ok path) : ∃ given : Path, path = given.clean := by
  have hpath := artifactPath_eq_ok.1 h
  cases temporary <;> exact ⟨_, (Path.below_eq_ok hpath).1⟩

section

variable (hid : Path.IsName session.id) (htree : session.disk.IsTree)
  (hleft : ∀ path ∈ session.allLeftovers, ∃ name, session.artifactPath name true = .ok path)
include htree hleft

/-- The disk once the temporary artifacts have been deleted. -/
theorem isFileAt_deleted {place : Place} :
    (session.allLeftovers.foldl Disk.removeFile session.closeAll).IsTree ∧
      ((session.allLeftovers.foldl Disk.removeFile session.closeAll).isFileAt place = true ↔
        session.closeAll.isFileAt place = true ∧
          ∀ path ∈ session.allLeftovers, place ≠ path.place) := by
  refine ((Disk.ofWrites_keeps.closeAll session).tree htree).isFileAt_removeFiles fun path hpath => ?_
  obtain ⟨name, hname⟩ := hleft path hpath
  exact clean_of_artifactPath hname

theorem isTree_finish : session.finish.IsTree := by
  have hdeleted := (@isFileAt_deleted session htree hleft []).1
  unfold finish
  dsimp only
  split
  · exact Disk.isTree_removeTree hdeleted _
  · exact hdeleted

include hid

/-- **The end**: of what has been opened, just what is not temporary is a file. -/
theorem isFile_finish {path : Path} {temporary : Bool} (hopened : session.HasOpened path temporary) :
    session.finish.isFile path = !temporary := by
  obtain ⟨⟨name, hname⟩, hopened⟩ := hopened
  obtain ⟨given, hclean⟩ := clean_of_artifactPath hname
  have hdeleted (place : Place) := @isFileAt_deleted session htree hleft place
  have hfinish : (session.finish.isFileAt path.place = true →
      (session.allLeftovers.foldl Disk.removeFile session.closeAll).isFileAt path.place = true) ∧
      (¬ (session.workspace.cache.blockDir session.id).place <+: path.place →
        session.finish.isFileAt path.place =
          (session.allLeftovers.foldl Disk.removeFile session.closeAll).isFileAt path.place) := by
    unfold finish
    dsimp only
    split
    · exact ⟨Disk.isFileAt_of_removeTree, Disk.isFileAt_removeTree⟩
    · exact ⟨fun hfile => hfile, fun _ => rfl⟩
  rw [hclean, (isTree_finish htree hleft).isFile_clean, ← Path.place_clean, ← hclean]
  cases temporary with
  | true =>
    refine Bool.eq_false_iff.2 fun hfile => ?_
    exact ((hdeleted _).2.1 (hfinish.1 hfile)).2 path hopened rfl
  | false =>
    -- what is deleted is temporary, and so is all that stands in the directory of the blocks
    have hview := artifactPath_eq_ok.1 hname
    have hout : ¬ (session.workspace.cache.blockDir session.id).place <+: path.place := by
      intro hin
      exact @Job.not_temp_prefix
        ⟨session.workspace, session.id, session.template, path, session.disk⟩ ⟨name, hview⟩
        ((Job.tempPlace_prefix_blockDir hid.2).trans hin)
    rw [hfinish.2 hout]
    refine (hdeleted _).2.2 ⟨(Disk.ofWrites_keeps.closeAll session).file _ hopened, fun other hother heq => ?_⟩
    obtain ⟨_, hother⟩ := hleft other hother
    exact ArtifactCache.place_ne_of_paths (artifactPath_eq_ok.1 hother) hview heq.symm

/-- Nothing is left of a temporary artifact. -/
theorem contentAt?_finish_of_temporary {path : Path} (hopened : session.HasOpened path true) :
    session.finish.contentAt? path.place = none := by
  have hgone := isFile_finish hid htree hleft hopened
  obtain ⟨⟨name, hname⟩, -⟩ := hopened
  obtain ⟨given, rfl⟩ := clean_of_artifactPath hname
  rw [(isTree_finish htree hleft).isFile_clean] at hgone
  rw [Path.place_clean]
  exact Option.isSome_eq_false_iff.1 hgone |> Option.isNone_iff_eq_none.1

end

end Session

end TemplateCompiler
