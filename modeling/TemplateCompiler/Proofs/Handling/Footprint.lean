import TemplateCompiler.Proofs.Cache.Boundary
import TemplateCompiler.Proofs.Disk.Making
import TemplateCompiler.Proofs.Handling.Changing

/-!
# What a compile touches

A compile with the standard library writes its artifact and those of its blocks. Whichever way it comes
out, nothing else changes, no directory is made but for these, and none is removed but that of its blocks
(`Compiler.staysWithin`). If it succeeds, in a session of a name of its own, its artifact is all that has
changed (`Compiler.contentAt?_after`).
-/
namespace TemplateCompiler

open Disk

variable {σ : Type}

/-! ## Directories -/

theorem Disk.ofWrites_madeFor (owned : Place → Prop) : OfWrites (MadeFor owned) :=
  ⟨.refl owned, .trans, madeFor_writeAt owned⟩

theorem Destination.madeFor_open? {disk disk' : Disk} {name : String} {path given : Path}
    {temporary : Bool} {d : Destination} (hpath : path = given.clean)
    (h : open? disk name path temporary = .ok (d, disk')) : MadeFor (· = path.place) disk disk' := by
  unfold open? at h
  dsimp only at h
  split at h
  · obtain ⟨-, rfl⟩ := Prod.mk.inj (Except.ok.inj h)
    exact .refl _ _
  · split at h
    · next hcreate =>
      obtain ⟨-, rfl⟩ := Prod.mk.inj (Except.ok.inj h)
      exact madeFor_create hpath hcreate
    · cases h

namespace Session

variable {session : Session} {changes : List Change}

theorem madeFor_removeDestination (owned : Place → Prop) (session : Session) (name : String) :
    MadeFor owned session.disk (session.removeDestination name).2.disk := by
  unfold removeDestination
  split
  · exact .refl _ _
  · exact (ofWrites_madeFor owned).close _ _

/-- A change makes directories for nothing but what it opens. -/
theorem madeFor_perform (session : Session) (change : Change) :
    MadeFor (fun place => ∃ name temporary d disk, change = .opening name temporary ∧
      session.Opens name temporary d disk ∧ place = d.path.place) session.disk
      (session.perform change).disk := by
  cases change with
  | opening name temporary =>
    have hclosed (owned : Place → Prop) := madeFor_removeDestination owned session name
    rcases session.perform_opening name temporary with ⟨heq | heq, -⟩ | ⟨d, disk, hopens, heq⟩
    · rw [heq]
      exact .refl _ _
    · rw [heq]
      exact hclosed _
    · rw [heq]
      refine (hclosed _).trans ?_
      obtain ⟨given, hgiven⟩ := clean_of_artifactPath hopens.path
      refine (Destination.madeFor_open? hgiven hopens.opened).mono fun place hplace => ?_
      exact ⟨name, temporary, d, disk, rfl, hopens, hplace⟩
  | closing name => exact madeFor_removeDestination _ session name
  | write piece =>
    exact ((ofWrites_madeFor _).write session.main session.disk piece).trans
      ((ofWrites_madeFor _).writeAll _ piece session.others)
  | writeMain piece => exact (ofWrites_madeFor _).write session.main session.disk piece
  | pauseMain | pauseAll | restore => exact .refl _ _

theorem madeFor_performAll (session : Session) (changes : List Change) :
    MadeFor (fun place => ∃ path, session.OpensAmong changes path ∧ place = path.place) session.disk
      (session.performAll changes).disk := by
  induction changes using List.reverseRecOn with
  | nil => exact .refl _ _
  | append_singleton changes change ih =>
    rw [performAll_concat]
    refine (ih.mono ?_).trans ((madeFor_perform _ change).mono ?_)
    · rintro place ⟨path, hopens, hplace⟩
      exact ⟨path, hopens.of_front (List.prefix_append _ _), hplace⟩
    · rintro place ⟨name, temporary, d, disk, rfl, hopens, hplace⟩
      exact ⟨d.path, .opening (List.prefix_refl _) hopens, hplace⟩

/-- Nothing is made when everything is put away at the end. -/
theorem madeFor_finish (owned : Place → Prop) (session : Session) :
    MadeFor owned session.closeAll session.finish := by
  have hfiles (paths : List Path) (disk : Disk) : MadeFor owned disk (paths.foldl removeFile disk) := by
    induction paths generalizing disk with
    | nil => exact .refl _ _
    | cons path paths ih => exact (madeFor_removeFile owned disk path).trans (ih _)
  unfold finish
  dsimp only
  split
  · exact (hfiles _ _).trans (madeFor_removeTree owned _ _)
  · exact hfiles _ _

/-- No directory is removed then but that of the blocks. -/
theorem isDirectoryAt_finish {place : Place}
    (hout : ¬ (session.workspace.cache.blockDir session.id).place <+: place)
    (h : session.closeAll.isDirectoryAt place = true) : session.finish.isDirectoryAt place = true := by
  have hfiles := (grown_removeFiles session.allLeftovers session.closeAll).directory place h
  unfold finish
  dsimp only
  split
  · unfold removeTree
    split
    · next root hroot =>
      obtain rfl := place_of_locate? hroot
      rw [isDirectoryAt_congr]
      · exact hfiles
      · exact get?_erase (Bool.eq_false_iff.2 fun hp => hout (List.isPrefixOf_iff_prefix.1 hp))
    · exact hfiles
  · exact hfiles

end Session

/-! ## Compiles -/

namespace Compiler

open Session

variable {compiler : Compiler σ} {id template destination : String} {world : World σ}
  {session : Session} {disk : Disk}

/-- The place is that of the artifact of a compile, or of one of its blocks. -/
def Touches (compiler : Compiler σ) (id template destination : String) (place : Place) : Prop :=
  ∃ path, compiler.workspace.cache.compiledPath destination = .ok path ∧
    (compiler.workspace.job id template path .empty).Owns place

/-- What may change is the artifact, or temporary. -/
theorem artifact_or_temporary (hid : '/' ∉ id.toList) {place : Place}
    (h : compiler.Touches id template destination place ∨
      (compiler.workspace.cache.blockDir id).place <+: place) :
    (∃ path, compiler.workspace.cache.compiledPath destination = .ok path ∧ place = path.place) ∨
      compiler.workspace.cache.root.place ++ ["temp"] <+: place := by
  rcases h with ⟨path, hpath, rfl | ⟨block, path', hblock, hpath', rfl⟩⟩ | hin
  · exact .inl ⟨path, hpath, rfl⟩
  · exact .inr (Job.place_of_blockPath hblock hpath').2
  · have hdir := @Job.tempPlace_prefix_blockDir
      (compiler.workspace.job id template ⟨destination⟩ .empty) hid
    exact .inr (hdir.trans hin)

/-- Nothing has changed but what a compile touches: elsewhere files have what they had, and of the
directories that of its blocks may be gone. -/
structure StaysWithin (compiler : Compiler σ) (id template destination : String)
    (before after : Disk) : Prop where
  content : ∀ place, ¬ compiler.Touches id template destination place →
    ¬ (compiler.workspace.cache.blockDir id).place <+: place →
      after.contentAt? place = before.contentAt? place
  made : MadeFor (compiler.Touches id template destination) before after
  directory : ∀ place, ¬ (compiler.workspace.cache.blockDir id).place <+: place →
    before.isDirectoryAt place = true → after.isDirectoryAt place = true

theorem StaysWithin.of_grown {before after : Disk}
    (hgrown : Grown (compiler.Touches id template destination) before after)
    (hmade : MadeFor (compiler.Touches id template destination) before after) :
    compiler.StaysWithin id template destination before after :=
  ⟨fun place hplace _ => hgrown.content place hplace, hmade, fun place _ => hgrown.directory place⟩

theorem compiledPath_start
    (hstart : start compiler.workspace id template destination world.disk = .ok session disk) :
    compiler.workspace.cache.compiledPath destination = .ok session.main.path := by
  obtain ⟨path, main, found, hpath, hopen, -, rfl⟩ := start_cases hstart
  rw [hpath, ← (Destination.open?_eq_ok hopen).2.1]
  rfl

theorem template_start
    (hstart : start compiler.workspace id template destination world.disk = .ok session disk) :
    session.template = Text.trimSlashes template := by
  obtain ⟨path, main, found, -, -, -, rfl⟩ := start_cases hstart
  rfl

/-- A compile that succeeds reports its template and its artifact. -/
theorem report_of_ok {permit : Permit} (hlibrary : compiler.library.Performs permit) {report : Report}
    {world' : World σ} (hok : compiler.compileTo id template destination world = .ok report world') :
    report.template = Text.trimSlashes template ∧
      compiler.workspace.cache.compiledPath destination = .ok report.artifact := by
  cases hstart : start compiler.workspace id template destination world.disk with
  | error error disk =>
    rw [compileTo_eq_error hstart] at hok
    cases hok
  | ok session disk =>
    obtain ⟨last, hchanges, hlast⟩ := exists_last hlibrary hstart
    rw [hok] at hlast
    obtain ⟨rfl, -⟩ := hlast
    refine ⟨hchanges.same.2.trans (template_start hstart), ?_⟩
    rw [compiledPath_start hstart, ← hchanges.path]
    rfl

/-- Whatever a session owns that begins, its compile touches. -/
theorem touches_of_start
    (hstart : start compiler.workspace id template destination world.disk = .ok session disk)
    {place : Place} (h : session.job.Owns place) : compiler.Touches id template destination place := by
  obtain ⟨path, main, found, hpath, hopen, -, rfl⟩ := start_cases hstart
  obtain ⟨-, rfl, -⟩ := Destination.open?_eq_ok hopen
  exact ⟨main.path, hpath, h⟩

theorem staysWithin_open {main : Destination} {path : Path} {disk' : Disk}
    (hpath : compiler.workspace.cache.compiledPath destination = .ok path)
    (hopen : Destination.open? disk destination path false = .ok (main, disk')) :
    compiler.StaysWithin id template destination disk disk' := by
  obtain ⟨-, -, -, -, hgrown, -⟩ := Destination.open?_eq_ok hopen
  have hclean : path = _ := (Path.below_eq_ok hpath).1
  have htouches (place : Place) (hplace : place = path.place) :
      compiler.Touches id template destination place := ⟨path, hpath, .inl hplace⟩
  exact .of_grown (hgrown.mono htouches) ((Destination.madeFor_open? hclean hopen).mono htouches)

section

variable (hstart : start compiler.workspace id template destination world.disk = .ok session disk)
  {changes : List Change} (hwithin : ∀ change ∈ changes, change.Within .blocks session)
include hstart hwithin

/-- **Runs** of blocks touch nothing else, up to the moment at which everything is closed. -/
theorem staysWithin_closeAll :
    compiler.StaysWithin id template destination world.disk (session.performAll changes).closeAll := by
  obtain ⟨-, hnone, -, -⟩ := alone_start hstart
  have hstays := staysApart_of_blocks hwithin (named_start hstart) hnone
  have howned (place : Place)
      (h : ∃ path, session.OpensAmong changes path ∧ place = path.place) :
      compiler.Touches id template destination place := by
    obtain ⟨path, hopens, rfl⟩ := h
    exact touches_of_start hstart (hopens.owns hwithin)
  obtain ⟨path, main, found, hpath, hopen, -, rfl⟩ := start_cases hstart
  refine .of_grown ((hstays.grown_opened hstart).2.mono howned) ?_
  exact ((staysWithin_open hpath hopen).made.trans ((madeFor_performAll _ changes).mono howned)).trans
    ((ofWrites_madeFor _).closeAll _)

/-- And none are left of the blocks at the end. -/
theorem staysWithin_finish :
    compiler.StaysWithin id template destination world.disk (session.performAll changes).finish := by
  have hclosed := staysWithin_closeAll hstart hwithin
  obtain ⟨hworkspace, hsid, -⟩ := lasting_start hstart
  have hlasts := lasts_performAll session changes
  have hdir : (session.performAll changes).workspace.cache.blockDir (session.performAll changes).id =
      compiler.workspace.cache.blockDir id := by
    rw [hlasts.workspace, hlasts.id, hworkspace, hsid]
  refine ⟨fun place htouches hout => ?_, hclosed.made.trans (madeFor_finish _ _), fun place hout h => ?_⟩
  · rw [contentAt?_finish, hclosed.content place htouches hout]
    · rintro path hpath rfl
      obtain ⟨-, hothers, hleft, -⟩ := alone_start hstart
      obtain ⟨hopen, hleftovers⟩ := opensAmong_performAll hothers hleft changes
      rcases List.mem_append.1 hpath with hpath | hpath
      · exact htouches (touches_of_start hstart ((hleftovers path hpath).owns hwithin))
      · obtain ⟨d, hd, hd'⟩ := List.mem_filterMap.1 hpath
        obtain ⟨-, rfl⟩ := Destination.leftover?_eq_some.1 hd'
        exact htouches (touches_of_start hstart ((hopen d (List.mem_cons_of_mem _ hd)).owns hwithin))
    · rw [hdir]
      exact fun hin => absurd hin hout
  · refine isDirectoryAt_finish ?_ (hclosed.directory place hout h)
    rwa [hdir]

/-- The artifact stands where it is to stand once everything is closed. -/
theorem stands_closeAll : (session.performAll changes).closeAll.Stands session.main.path.place := by
  obtain ⟨-, hnone, -, -⟩ := alone_start hstart
  have hstays := staysApart_of_blocks hwithin (named_start hstart) hnone
  exact stands_of_read? (fansOut_start hstart hstays).main

omit hwithin in
/-- What is put away in the end leaves the artifact standing. -/
theorem stands_finish (hid : '/' ∉ id.toList)
    (h : (session.performAll changes).closeAll.Stands session.main.path.place) :
    (session.performAll changes).finish.Stands session.main.path.place := by
  obtain ⟨hworkspace, hsid, -, hclear, -⟩ := lasting_start hstart
  have hlasts := lasts_performAll session changes
  have hpath := compiledPath_start hstart
  have hout : ¬ ((session.performAll changes).workspace.cache.blockDir
      (session.performAll changes).id).place <+: session.main.path.place := by
    rw [hlasts.workspace, hlasts.id, hworkspace, hsid]
    exact @Job.blockDir_not_prefix (compiler.workspace.job id template session.main.path disk)
      ⟨destination, hpath⟩ hid
  obtain ⟨content, hcontent⟩ := h.file
  refine ⟨⟨content, ?_⟩, fun p hp hne => ?_⟩
  · rw [contentAt?_finish _ fun hin => absurd hin hout, hcontent]
    intro path hleft heq
    obtain ⟨name, hname⟩ := temporary_performAll hclear hleft
    rw [hlasts.artifactPath, artifactPath_eq_ok] at hname
    rw [← hworkspace] at hpath
    exact ArtifactCache.place_ne_of_paths hname hpath heq.symm
  · exact isDirectoryAt_finish (fun hin => hout (hin.trans hp)) (h.directories p hp hne)

end

/-- **The footprint**: whichever way a compile with the standard library comes out, nothing has changed
but what it touches. -/
theorem staysWithin (hlibrary : compiler.library.Performs .blocks) (id template destination : String)
    (world : World σ) : compiler.StaysWithin id template destination world.disk
      (World.after (compiler.compileTo id template destination world)).disk := by
  have hkept : compiler.StaysWithin id template destination world.disk world.disk :=
    .of_grown (.refl _ _) (.refl _ _)
  cases hstart : start compiler.workspace id template destination world.disk with
  | error error disk =>
    rw [compileTo_eq_error hstart]
    rcases start_error hstart with rfl | ⟨path, main, hpath, hopen⟩
    · exact hkept
    · exact staysWithin_open hpath hopen
  | ok session disk =>
    obtain ⟨-, changes, hwithin, hdisk⟩ := changes_compileTo hlibrary hstart
    cases hresult : compiler.compileTo id template destination world with
    | ok report world' =>
      rw [hresult] at hdisk
      rw [World.after, show world'.disk = _ from hdisk]
      exact staysWithin_finish hstart hwithin
    | error error world' =>
      rw [hresult] at hdisk
      rw [World.after, show world'.disk = _ from hdisk]
      exact staysWithin_closeAll hstart hwithin

/-- **The artifact**: once a session has begun, its artifact stands in the end where it is to stand,
whichever way the compile comes out. -/
theorem stands_after (hlibrary : compiler.library.Performs .blocks) (hid : '/' ∉ id.toList)
    (hstart : start compiler.workspace id template destination world.disk = .ok session disk) :
    (World.after (compiler.compileTo id template destination world)).disk.Stands
      session.main.path.place := by
  obtain ⟨-, changes, hwithin, hdisk⟩ := changes_compileTo hlibrary hstart
  have hclosed := stands_closeAll hstart hwithin
  cases hresult : compiler.compileTo id template destination world with
  | ok report world' =>
    rw [hresult] at hdisk
    rw [World.after, show world'.disk = _ from hdisk]
    exact stands_finish hstart hid hclosed
  | error error world' =>
    rw [hresult] at hdisk
    rw [World.after, show world'.disk = _ from hdisk]
    exact hclosed

/-- **Success**: a compile that succeeds, in a session of a name of its own, has changed no file but its
artifact: the blocks that were opened are gone. -/
theorem contentAt?_of_ok (hlibrary : compiler.library.Performs .blocks) (hid : Path.IsName id)
    (hup : .up ∉ Path.steps ⟨Text.trimSlashes template⟩) (htree : world.disk.IsTree)
    (hfresh : compiler.workspace.cache.IsFresh id world.disk) {report : Report} {world' : World σ}
    (hok : compiler.compileTo id template destination world = .ok report world') {place : Place}
    (hplace : ∀ path, compiler.workspace.cache.compiledPath destination = .ok path →
      place ≠ path.place) : world'.disk.contentAt? place = world.disk.contentAt? place := by
  cases hstart : start compiler.workspace id template destination world.disk with
  | error error disk =>
    rw [compileTo_eq_error hstart] at hok
    cases hok
  | ok session disk =>
    obtain ⟨-, changes, hwithin, hdisk⟩ := changes_compileTo hlibrary hstart
    rw [hok] at hdisk
    rw [show world'.disk = _ from hdisk]
    obtain ⟨hworkspace, hsid, hkeeps, hclear, -⟩ := lasting_start hstart
    obtain ⟨-, hnone, -, -⟩ := alone_start hstart
    have hfans := fansOut_start hstart (staysApart_of_blocks hwithin (named_start hstart) hnone)
    have hlasts := lasts_performAll session changes
    have hdir : compiler.workspace.cache.blockDir id = session.workspace.cache.blockDir session.id := by
      rw [hworkspace, hsid]
    by_cases hopened : ∃ path, session.OpensAmong changes path ∧ place = path.place
    · obtain ⟨path, hopens, rfl⟩ := hopened
      cases hopens with
      | main => exact absurd rfl (hplace _ (compiledPath_start hstart))
      | @opening before name temporary d _ hfront hopens =>
        have hmem := hfront.subset (List.mem_append_right _ (List.mem_singleton_self _))
        obtain ⟨rfl, -⟩ := hwithin _ hmem
        have hbelow := hopens.below_blockDir (hwithin _ hmem) (hsid ▸ hid.2)
          (template_start hstart ▸ hup)
        rw [hfresh _ (hdir ▸ hbelow)]
        exact contentAt?_finish_of_temporary (by rw [hlasts.id, hsid]; exact hid)
          (hlasts.disk.tree (hkeeps.tree htree)) (fun path => temporary_performAll hclear)
          (hopens.hasOpened hfront)
    · have helsewhere := hfans.elsewhere place fun path hopens heq => hopened ⟨path, hopens, heq⟩
      refine helsewhere.2.2 ?_
      rwa [hworkspace, hsid]

end Compiler

end TemplateCompiler
