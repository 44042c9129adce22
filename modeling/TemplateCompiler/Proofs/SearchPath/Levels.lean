import TemplateCompiler.Proofs.Moment.Requests
import TemplateCompiler.Proofs.SearchPath.FirstMatch

/-!
# Skipping levels

A level is skipped up to its first root. A template that is found in the first root of its level is
therefore not found again when its level is skipped, and the look-up moves on behind it; one that is
found in a later root of the level is found again, or one before it is (`movesOn_iff`).
-/
namespace TemplateCompiler.SearchPath

/-- No root before position `i` has the level. -/
def IsFirst (roots : SearchPath) (i : Nat) (level : String) : Prop :=
  ∀ j < i, ∀ root, roots[j]? = some root → root.level ≠ level

/-- With the level skipped, whatever is found is found behind position `i`. -/
def MovesOn (isThere : Path → Bool) (requested : String) (roots : SearchPath) (i : Nat)
    (level : String) : Prop :=
  ∀ j found, Hits isThere requested (startOf (some level) roots) roots j found → i < j

/-- The levels of a project's roots. -/
def levels (plugins systemPlugins : List String) : List String :=
  "local" :: plugins ++ "system" :: systemPlugins ++ ["temp_block", "compiled"]

variable {isThere : Path → Bool} {requested level : String} {skipped : Option String} {start i j : Nat}
  {root : SearchRoot} {roots : SearchPath} {found : Found}

/-! ## Where files are looked for past a level -/

theorem startOf_le (hroot : roots[i]? = some root) : startOf (some root.level) roots ≤ i + 1 := by
  obtain ⟨hlt, hget⟩ := List.getElem?_eq_some_iff.1 hroot
  refine Nat.succ_le_succ (Nat.le_of_not_lt fun hlate => ?_)
  have hnot := List.not_of_lt_findIdx hlate
  rw [hget, beq_self_eq_true] at hnot
  cases hnot

theorem isFirst_iff (hroot : roots[i]? = some root) :
    IsFirst roots i root.level ↔ startOf (some root.level) roots = i + 1 := by
  obtain ⟨hlt, hget⟩ := List.getElem?_eq_some_iff.1 hroot
  rw [startOf, Nat.add_right_cancel_iff, List.findIdx_eq hlt, hget]
  constructor
  · intro h
    refine ⟨beq_self_eq_true _, fun j hj => beq_false_of_ne ?_⟩
    exact h j hj _ (List.getElem?_eq_getElem _)
  · rintro ⟨-, h⟩ j hj other hother heq
    obtain ⟨hlt', rfl⟩ := List.getElem?_eq_some_iff.1 hother
    exact absurd heq (ne_of_beq_false (h j hj))

/-! ## Moving on -/

/-- A root that a look-up ends at is the end as well if fewer roots before it count. -/
theorem Hits.of_le {start' : Nat} (h : Hits isThere requested start roots i found)
    (hle : start ≤ start') (hstart : start' ≤ i) : Hits isThere requested start' roots i found := by
  refine ⟨h.root, hstart, h.there, fun j hj root hroot => ?_⟩
  obtain ⟨path, hpath, hnot⟩ := h.passes j hj root hroot
  exact ⟨path, hpath, fun hle' => hnot (Nat.le_trans hle hle')⟩

/-- A look-up that begins before a root that has the template ends there at the latest. -/
theorem Hits.exists_le (h : Hits isThere requested start roots i found)
    (hstart : startOf skipped roots ≤ i) :
    ∃ j ≤ i, ∃ found', Hits isThere requested (startOf skipped roots) roots j found' := by
  rcases hits_or_refuses_or_passes isThere requested skipped roots with
    ⟨j, found', h'⟩ | ⟨j, refusal, h'⟩ | h'
  · exact ⟨j, h.le_of_passes hstart h'.passes, found', h'⟩
  · obtain ⟨root, hroot, -⟩ := h'.root
    exact absurd (h.accepts (h.le_of_passes hstart h'.passes) hroot) (h'.not_accepts hroot)
  · exact absurd (h.le_of_passes hstart h') (Nat.not_le.2 h.lt_length)

/-- **Moving on**: what is found behind a root when its level is skipped, and whether anything else can
be, depends on whether it is the first root of the level. -/
theorem movesOn_iff (h : Hits isThere requested start roots i found) :
    MovesOn isThere requested roots i found.level ↔ IsFirst roots i found.level := by
  obtain ⟨root, hroot, hlevel, -⟩ := h.root
  rw [← hlevel, isFirst_iff hroot]
  constructor
  · intro hmoves
    refine Nat.le_antisymm (startOf_le hroot) (Nat.succ_le_of_lt (Nat.lt_of_not_le fun hle => ?_))
    obtain ⟨j, hj, found', h'⟩ := h.exists_le hle
    exact absurd (hmoves j found' h') (Nat.not_lt.2 hj)
  · intro hstart j found' h'
    rw [hstart] at h'
    exact h'.start_le

/-! ## Projects -/

theorem map_level_forProject (project cache : Path) (plugins systemPlugins : List String) :
    (forProject project plugins systemPlugins cache).map (·.level) = levels plugins systemPlugins := by
  simp [forProject, levels, SearchRoot.of, Function.comp_def]

/-- Where no two roots are of one level, each is the first of its own. -/
theorem isFirst_of_nodup (h : (roots.map (·.level)).Nodup) (hroot : roots[i]? = some root) :
    IsFirst roots i root.level := by
  intro j hj other hother heq
  have hmap {k : Nat} {r : SearchRoot} (hr : roots[k]? = some r) :
      (roots.map (·.level))[k]? = some r.level := by
    rw [List.getElem?_map, hr, Option.map_some]
  have hlt : i < (roots.map (·.level)).length := (List.getElem?_eq_some_iff.1 (hmap hroot)).1
  have hsame : (roots.map (·.level))[i]? = (roots.map (·.level))[j]? := by
    rw [hmap hother, hmap hroot, heq]
  exact Nat.ne_of_gt hj ((List.getElem?_inj hlt h).1 hsame)

/-- What a template asks for that extends its own name. -/
theorem parentRequest_of_own {source : Source} {path : String}
    (h : Text.trimSlashes path = source.requested) :
    source.parentRequest path = (source.requested, some source.level) := by
  unfold Source.parentRequest
  dsimp only
  rw [h, if_pos rfl]

/-- **Extending one's own name**: past the level that it was found at, a template is looked for behind
its root exactly if this is the first root of the level. What is found is then the next template of the
name along the search path, and a template that extends its own name is given that one. The root is
always the first of its level in a project whose plugins all have names of their own. -/
theorem movesOn_forProject {project cache : Path} {plugins systemPlugins : List String}
    (hroots : roots = forProject project plugins systemPlugins cache)
    (h : Hits isThere requested (startOf skipped roots) roots i found) :
    (MovesOn isThere requested roots i found.level ↔ IsFirst roots i found.level) ∧
      (IsFirst roots i found.level → ∀ (source : Source) path, source.requested = requested →
        source.level = found.level → Text.trimSlashes path = requested → ∀ isThere' answer,
          find isThere' (source.parentRequest path).1 (source.parentRequest path).2 roots = answer ↔
            Answers isThere' requested (i + 1) roots answer) ∧
      ((levels plugins systemPlugins).Nodup → IsFirst roots i found.level) := by
  obtain ⟨root, hroot, hlevel, -⟩ := h.root
  refine ⟨movesOn_iff h, fun hfirst source path hrequested hsource hpath isThere' answer => ?_,
    fun hnodup => ?_⟩
  · rw [parentRequest_of_own (hpath.trans hrequested.symm), hrequested, hsource, find_eq_iff]
    rw [← hlevel, isFirst_iff hroot, hlevel] at hfirst
    rw [hfirst]
  · rw [← hlevel]
    refine isFirst_of_nodup ?_ hroot
    rwa [hroots, map_level_forProject]

/-- The files of the given names are there, and no others. -/
def among (files : List String) (path : Path) : Bool :=
  files.contains path.text

theorem movesOn_forProject_shop :
    let roots := forProject ⟨"/"⟩ ["shop"] ["admin"] ⟨"/cache"⟩
    let isThere := among ["/app/view/page", "/plugins/shop/view/page",
      "/system/app/view/page"]
    Hits isThere "page" (startOf (some "local") roots) roots 1
        ⟨⟨"/plugins/shop/view/page"⟩, "shop"⟩ ∧
      (levels ["shop"] ["admin"]).Nodup ∧ MovesOn isThere "page" roots 1 "shop" := by
  intro roots isThere
  have hits : Hits isThere "page" (startOf (some "local") roots) roots 1
      ⟨⟨"/plugins/shop/view/page"⟩, "shop"⟩ := by decide +kernel
  have hnodup : (levels ["shop"] ["admin"]).Nodup := by decide
  have hmoves := movesOn_forProject rfl hits
  exact ⟨hits, hnodup, hmoves.1.2 (hmoves.2.2 hnodup)⟩

/-- A plugin of the project and one of the system have one name: the system plugin's template is found
again when its level is skipped, though there is another one behind it. -/
theorem exists_not_movesOn :
    let roots := forProject ⟨"/"⟩ ["shop"] ["shop", "admin"] ⟨"/cache"⟩
    let isThere := among ["/system/plugins/shop/view/page",
      "/system/plugins/admin/view/page"]
    Hits isThere "page" (startOf none roots) roots 3
        ⟨⟨"/system/plugins/shop/view/page"⟩, "shop"⟩ ∧
      Hits isThere "page" (startOf (some "shop") roots) roots 3
        ⟨⟨"/system/plugins/shop/view/page"⟩, "shop"⟩ ∧
      ¬ MovesOn isThere "page" roots 3 "shop" := by
  intro roots isThere
  have hits : Hits isThere "page" (startOf none roots) roots 3
      ⟨⟨"/system/plugins/shop/view/page"⟩, "shop"⟩ := by decide +kernel
  have again := hits.of_le (Nat.zero_le _) (show startOf (some "shop") roots ≤ 3 by decide)
  exact ⟨hits, again, fun hmoves => absurd (hmoves 3 _ again) (Nat.lt_irrefl 3)⟩

end TemplateCompiler.SearchPath
