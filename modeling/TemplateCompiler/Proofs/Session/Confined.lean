import TemplateCompiler.Proofs.Outcome
import TemplateCompiler.Proofs.Path.Staying
import TemplateCompiler.Proofs.Session.Places

/-!
# Where blocks are kept

The temporary artifacts of a session are meant to stand in a directory of its own. The name of the
template is a part of their paths, though, so a template whose name climbs may take them out of that
directory, to where other sessions have theirs (`ArtifactCache.block_confined_iff`).
-/
namespace TemplateCompiler

open Path

/-! ## Block artifacts -/

namespace ArtifactCache

variable {cache : ArtifactCache} {id template block : String} {path : Path}

theorem steps_of_id (hid : '/' ∉ id.toList) :
    steps ⟨id⟩ = [] ∨ steps ⟨id⟩ = [.up] ∨ IsName id ∧ steps ⟨id⟩ = [.name id] := by
  have hpieces : pieces ⟨id⟩ = [id.toList] := List.splitOn_eq_singleton hid
  have hsteps : steps ⟨id⟩ = [id.toList].filterMap Part.ofPiece := by rw [steps, hpieces]
  rw [hsteps]
  by_cases hnone : id.toList = [] ∨ id.toList = ['.']
  · exact .inl (List.filterMap_cons_none (if_pos hnone))
  · by_cases hup : id.toList = ['.', '.']
    · refine .inr (.inl (List.filterMap_cons_some ?_))
      rw [Part.ofPiece, if_neg hnone, if_pos hup]
    · obtain ⟨hempty, hhere⟩ := not_or.1 hnone
      have hname := isName_iff.2 ⟨hempty, hhere, hup, hid⟩
      exact .inr (.inr ⟨hname, List.filterMap_cons_some hname.1⟩)

/-- The directory of a session, from its last part to its first, and what its identity adds to the
directory of all of them. -/
theorem stack_blockDir (cache : ArtifactCache) (hid : '/' ∉ id.toList) :
    (cleanParts (cache.blockDir id).parts).reverse = (steps ⟨id⟩).foldl pushPart
      (.name "__block" :: .name "temp" :: (cleanParts cache.root.parts).reverse) := by
  have htemp : IsName "temp" := isName_iff.2 (by decide)
  have hblock : IsName "__block" := isName_iff.2 (by decide)
  rw [blockDir, cleanParts_join _ fun h => hid (List.mem_of_mem_head? h),
    cleanParts_join _ (head?_of_isName hblock), cleanParts_join _ (head?_of_isName htemp),
    steps_of_isName hblock, steps_of_isName htemp]
  rfl

/-- The directory of a session ends in a name. -/
theorem exists_stack_blockDir (cache : ArtifactCache) (hid : '/' ∉ id.toList) :
    ∃ text below, (cache.blockDir id).clean.parts.reverse = .name text :: below ∧
      cleanParts (cache.blockDir id).parts = (cache.blockDir id).clean.parts := by
  have hstack := cache.stack_blockDir hid
  have hname : ∃ text below, (cleanParts (cache.blockDir id).parts).reverse =
      .name text :: below := by
    rw [hstack]
    rcases steps_of_id hid with h | h | ⟨-, h⟩ <;> rw [h] <;> exact ⟨_, _, rfl⟩
  obtain ⟨text, front, hfront⟩ := hname
  have hclean : (cache.blockDir id).clean.parts = cleanParts (cache.blockDir id).parts := by
    refine parts_clean fun hnil => ?_
    rw [hnil] at hfront
    cases hfront
  exact ⟨text, front, by rw [hclean, hfront], hclean.symm⟩

theorem trimSlashes_fileName (id template block : String) :
    Text.trimSlashes (fileName (blockName id template block)) =
      fileName (blockName id template block) := by
  refine trimSlashes_eq_self ?_ ?_
  · simp [fileName, blockName]
  · rw [fileName, String.toList_append, List.getLast?_append]
    simp

/-- The path of a block goes on from the directory of its session, with the name of the template and
then that of the block. -/
theorem stack_tempPath (hid : '/' ∉ id.toList) (hblock : Markup.isIdentifier block = true) :
    (cleanParts ((cache.root.join "temp").clean.join
        (Text.trimSlashes (fileName (blockName id template block)))).parts).reverse =
      .name (block ++ ".php") ::
        (steps ⟨template⟩).foldl pushPart (cache.blockDir id).clean.parts.reverse := by
  have hname : fileName (blockName id template block) =
      "__block" ++ "/" ++ (id ++ "/" ++ (template ++ "/" ++ (block ++ ".php"))) := by
    simp only [fileName, blockName, String.append_assoc]
    rfl
  have hhead : (fileName (blockName id template block)).toList.head? ≠ some '/' := by
    rw [hname]
    simp
  have hblockName : IsName "__block" := isName_iff.2 (by decide)
  have htemp : IsName "temp" := isName_iff.2 (by decide)
  obtain ⟨text, below, -, hdir⟩ := cache.exists_stack_blockDir hid
  rw [trimSlashes_fileName, cleanParts_join _ hhead, cleanParts_clean, hname, steps_of_append,
    steps_of_append, steps_of_append, steps_of_isName (isName_fileName hblock), ← hdir, blockDir,
    cleanParts_join _ fun h => hid (List.mem_of_mem_head? h),
    cleanParts_join _ (head?_of_isName hblockName), List.foldl_append, List.foldl_append,
    List.foldl_append]
  rfl

/-- The path of a block lies strictly below the directory of its session exactly if the name of the
template leads there. -/
theorem strictlyBelow_iff (hid : '/' ∉ id.toList) (hblock : Markup.isIdentifier block = true)
    (hpath : cache.tempPath (blockName id template block) = .ok path) :
    path.StrictlyBelow (cache.blockDir id) ↔
      ∃ more, (steps ⟨template⟩).foldl pushPart (cache.blockDir id).clean.parts.reverse =
        more ++ (cache.blockDir id).clean.parts.reverse := by
  have hstack := @stack_tempPath cache id template block hid hblock
  rw [← cleanParts_clean, ← (below_eq_ok hpath).1, cleanParts_of_stacked (stacked_below hpath),
    ← parts_clean_below hpath] at hstack
  constructor
  · rintro ⟨more, hne, hparts⟩
    rw [hparts, List.reverse_append] at hstack
    cases hmore : more.reverse with
    | nil => exact absurd (List.reverse_eq_nil_iff.1 hmore) hne
    | cons top rest =>
      rw [hmore] at hstack
      exact ⟨rest, (List.cons.inj hstack).2.symm⟩
  · rintro ⟨more, hmore⟩
    refine ⟨(.name (block ++ ".php") :: more).reverse, by simp, ?_⟩
    rw [hmore, ← List.cons_append] at hstack
    rw [← List.reverse_inj, hstack, List.reverse_append, List.reverse_reverse]

/-- Sessions of different identities keep blocks that lie below their directories in different
places. -/
theorem place_ne_of_strictlyBelow {other template' block' : String} {path' : Path}
    (hid : IsName id) (hother : IsName other) (hne : id ≠ other)
    (hpath : cache.tempPath (blockName id template block) = .ok path)
    (hpath' : cache.tempPath (blockName other template' block') = .ok path')
    (h : path.StrictlyBelow (cache.blockDir id)) (h' : path'.StrictlyBelow (cache.blockDir other)) :
    path.place ≠ path'.place := by
  obtain ⟨front, hdir⟩ := parts_clean_join ((cache.root.join "temp").join "__block") hid
  obtain ⟨front', hdir'⟩ := parts_clean_join ((cache.root.join "temp").join "__block") hother
  obtain ⟨rest, hplace⟩ := h.place hpath hdir
  obtain ⟨rest', hplace'⟩ := h'.place hpath' hdir'
  rw [hplace, hplace', blockDir, blockDir, place_join_isName _ hid, place_join_isName _ hother,
    List.append_assoc, List.append_assoc]
  intro heq
  exact hne (List.cons.inj (List.append_cancel_left heq)).1

/-- **Confinement**: a block lies strictly below the directory of its session exactly if the name of
the template, after some detour that leads back to that directory, never climbs out of it. For a
template whose name does not hold the name of the directory, no climb at all is allowed. Sessions
that keep to their directories have no block in common. -/
theorem block_confined_iff (hid : '/' ∉ id.toList) (hblock : Markup.isIdentifier block = true)
    (hpath : cache.tempPath (blockName id template block) = .ok path) :
    (path.StrictlyBelow (cache.blockDir id) ↔
      ∃ detour home, steps ⟨template⟩ = detour ++ home ∧
        cleanParts ((cache.blockDir id).clean.parts ++ detour) = (cache.blockDir id).clean.parts ∧
        staysBelow 0 home = true) ∧
    ((∀ text, (cache.blockDir id).clean.parts.getLast? = some (.name text) →
        .name text ∉ steps ⟨template⟩) →
      (path.StrictlyBelow (cache.blockDir id) ↔ staysBelow 0 (steps ⟨template⟩) = true)) ∧
    (path.StrictlyBelow (cache.blockDir id) → IsName id →
      ∀ (other template' block' : String) (path' : Path), IsName other → id ≠ other →
        cache.tempPath (blockName other template' block') = .ok path' →
        path'.StrictlyBelow (cache.blockDir other) → path.place ≠ path'.place) := by
  obtain ⟨text, below, hdir, hclean⟩ := cache.exists_stack_blockDir hid
  have hstacked : Stacked (.name text :: below) := by
    rw [← hdir, ← hclean]
    exact stacked_cleanParts _
  have hparts : (cache.blockDir id).clean.parts = (Part.name text :: below).reverse := by
    rw [← hdir, List.reverse_reverse]
  -- a detour leads back to the directory if the walk along it ends where it began
  have hdetour (detour : List Part) :
      cleanParts ((cache.blockDir id).clean.parts ++ detour) = (cache.blockDir id).clean.parts ↔
        detour.foldl pushPart (.name text :: below) = .name text :: below := by
    have hfold : ((Part.name text :: below).reverse.foldl pushPart []).reverse =
        (Part.name text :: below).reverse := cleanParts_of_stacked (by rwa [List.reverse_reverse])
    rw [cleanParts, List.foldl_append, hparts, List.reverse_inj.1 hfold, List.reverse_inj]
  refine ⟨?_, fun hfresh => ?_, fun hbelow hname other template' block' path' hother hne hpath' =>
    place_ne_of_strictlyBelow hname hother hne hpath hpath' hbelow⟩
  · rw [strictlyBelow_iff hid hblock hpath, hdir, below_iff (areSteps_steps _) hstacked]
    simp only [hdetour]
  · rw [strictlyBelow_iff hid hblock hpath, hdir,
      below_iff_of_not_mem (areSteps_steps _) hstacked (hfresh text ?_)]
    rw [hparts, List.reverse_cons, List.getLast?_append]
    rfl

/-- The blocks of a template whose name does not climb are kept in the directory of its session. -/
theorem block_confined_page :
    (ArtifactCache.mk ⟨"/site/cache"⟩).tempPath (blockName "s" "shop/page.html" "a") =
        .ok ⟨"/site/cache/temp/__block/s/shop/page.html/a.php"⟩ ∧
      Path.StrictlyBelow ⟨"/site/cache/temp/__block/s/shop/page.html/a.php"⟩
        ((ArtifactCache.mk ⟨"/site/cache"⟩).blockDir "s") := by
  have hpath : (ArtifactCache.mk ⟨"/site/cache"⟩).tempPath (blockName "s" "shop/page.html" "a") =
      .ok ⟨"/site/cache/temp/__block/s/shop/page.html/a.php"⟩ :=
    eq_ok_of_toOption (by decide +kernel)
  obtain ⟨hiff, -, -⟩ := block_confined_iff (by decide) (by decide) hpath
  exact ⟨hpath, hiff.2 ⟨[], [.name "shop", .name "page.html"], by decide +kernel,
    by decide +kernel, by decide +kernel⟩⟩

end ArtifactCache

/-- A project with one template. -/
def Workspace.single : Workspace :=
  .ofSettings {} ⟨"/site"⟩ (.inMemory [(⟨"/site/app/view/page.html"⟩, [])])

/-- A session may start with a template whose name climbs out of the directory where it is found and
comes back to it. Its blocks are then kept out of its own directory, in the place where another
session keeps them as well. -/
theorem Session.exists_not_confined :
    ∃ (session : Session) (disk : Disk) (path : Path),
      Session.start Workspace.single "s" "../view/page.html" "../view/page.html" .empty =
        .ok session disk ∧
      session.id = "s" ∧ session.template = "../view/page.html" ∧
      session.workspace.cache.tempPath
        (ArtifactCache.blockName "s" session.template "a") = .ok path ∧
      session.workspace.cache.tempPath
        (ArtifactCache.blockName "t" session.template "a") = .ok path ∧
      ¬ path.StrictlyBelow (session.workspace.cache.blockDir "s") := by
  have hstart : succeeds
      (fun session => decide (session.id = "s" ∧ session.template = "../view/page.html" ∧
        session.workspace.cache = ⟨⟨"/site/cache"⟩⟩))
      (Session.start Workspace.single "s" "../view/page.html" "../view/page.html" .empty) = true := by
    decide +kernel
  obtain ⟨session, disk, hok, hcheck⟩ := exists_of_succeeds hstart
  obtain ⟨hid, htemplate, hcache⟩ := of_decide_eq_true hcheck
  refine ⟨session, disk, ⟨"/site/cache/temp/__block/view/page.html/a.php"⟩, hok, hid, htemplate,
    ?_, ?_, ?_⟩
  · rw [hcache, htemplate]
    exact Path.eq_ok_of_toOption (by decide +kernel)
  · rw [hcache, htemplate]
    exact Path.eq_ok_of_toOption (by decide +kernel)
  · rw [hcache]
    rintro ⟨more, -, hmore⟩
    have hprefix := (List.isPrefixOf_iff_prefix.2 ⟨more, hmore.symm⟩ : _ = true)
    exact absurd hprefix (by decide +kernel)

end TemplateCompiler
