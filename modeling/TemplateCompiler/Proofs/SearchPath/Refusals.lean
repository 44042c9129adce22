import TemplateCompiler.Proofs.Path.Jail
import TemplateCompiler.Proofs.SearchPath.FirstMatch

/-!
# Refused requests

Each root judges for itself whether a request would leave it, and a look-up hears the roots only up to
the one that has the template. A request that never climbs above where it begins is judged alike by all
of them. One that climbs is refused by one of the two artifact directories at least, so it is refused
whatever files there are just if one of the roots refuses it that are always heard
(`refusedAlike_forProject`).
-/
namespace TemplateCompiler

open Path

namespace SearchPath

/-- A look-up fails because the request would leave a root. -/
def IsRefused (isThere : Path → Bool) (requested : String) (skipped : Option String)
    (roots : SearchPath) : Prop :=
  ∃ refusal, find isThere requested skipped roots = .error refusal

/-- Whether a request is refused does not depend on the files. -/
def RefusedAlike (requested : String) (skipped : Option String) (roots : SearchPath) : Prop :=
  ∀ isThere isThere', IsRefused isThere requested skipped roots ↔
    IsRefused isThere' requested skipped roots

variable {isThere : Path → Bool} {requested : String} {skipped : Option String} {start i : Nat}
  {root : SearchRoot} {roots : SearchPath} {found : Found}

/-! ## The roots that are always heard -/

theorem not_isRefused_of_accepts (h : ∀ root ∈ roots, root.Accepts requested) :
    ¬ IsRefused isThere requested skipped roots := by
  rintro ⟨refusal, hfind⟩
  obtain ⟨i, hrefuses⟩ := find_eq_error_iff.1 hfind
  obtain ⟨root, hroot, -⟩ := hrefuses.root
  exact hrefuses.not_accepts hroot (h root (List.mem_of_getElem? hroot))

/-- A root is heard, whatever files there are, if none are looked for before it. -/
theorem isRefused_of_le {j : Nat} (hj : j ≤ startOf skipped roots) (hroot : roots[j]? = some root)
    (hrefuses : ¬ root.Accepts requested) : IsRefused isThere requested skipped roots := by
  rcases hits_or_refuses_or_passes isThere requested skipped roots with
    ⟨i, found, h⟩ | ⟨i, refusal, h⟩ | h
  · exact absurd (h.accepts (Nat.le_trans hj h.start_le) hroot) hrefuses
  · exact ⟨refusal, find_eq_error_iff.2 ⟨i, h⟩⟩
  · exact absurd (h.accepts (List.getElem?_eq_some_iff.1 hroot).1 hroot) hrefuses

/-- Without files every root is heard. -/
theorem isRefused_of_nowhere (h : ¬ ∀ root ∈ roots, root.Accepts requested) :
    IsRefused (fun _ => false) requested skipped roots := by
  rcases hits_or_refuses_or_passes (fun _ => false) requested skipped roots with
    ⟨i, found, hit⟩ | ⟨i, refusal, hrefuses⟩ | hpasses
  · exact absurd hit.there Bool.false_ne_true
  · exact ⟨refusal, find_eq_error_iff.2 ⟨i, hrefuses⟩⟩
  · refine absurd (fun root hroot => ?_) h
    obtain ⟨j, hj⟩ := List.mem_iff_getElem?.1 hroot
    exact hpasses.accepts (List.getElem?_eq_some_iff.1 hj).1 hj

/-- Where all files are, no root is heard behind the first that counts. -/
theorem exists_of_isRefused_everywhere (h : IsRefused (fun _ => true) requested skipped roots) :
    ∃ root ∈ roots.take (startOf skipped roots + 1), ¬ root.Accepts requested := by
  obtain ⟨refusal, hfind⟩ := h
  obtain ⟨i, hrefuses⟩ := find_eq_error_iff.1 hfind
  obtain ⟨root, hroot, -⟩ := hrefuses.root
  have hle : i ≤ startOf skipped roots := by
    refine Nat.le_of_not_lt fun hlt => ?_
    have hlength := Nat.lt_trans hlt hrefuses.lt_length
    obtain ⟨path, -, hnot⟩ := hrefuses.passes _ hlt _ (List.getElem?_eq_getElem hlength)
    exact Bool.false_ne_true (hnot (Nat.le_refl _)).symm
  refine ⟨root, List.mem_of_getElem? (i := i) ?_, hrefuses.not_accepts hroot⟩
  rw [List.getElem?_take, if_pos (Nat.lt_succ_of_le hle), hroot]

/-- A request is refused whatever files there are, or never, exactly if no root refuses it or one of
those does that are always heard. -/
theorem refusedAlike_iff : RefusedAlike requested skipped roots ↔
    (∀ root ∈ roots, root.Accepts requested) ∨
      ∃ root ∈ roots.take (startOf skipped roots + 1), ¬ root.Accepts requested := by
  constructor
  · intro halike
    by_cases hall : ∀ root ∈ roots, root.Accepts requested
    · exact .inl hall
    · exact .inr (exists_of_isRefused_everywhere ((halike _ _).1 (isRefused_of_nowhere hall)))
  · rintro (hall | ⟨root, hroot, hrefuses⟩) isThere isThere'
    · exact iff_of_false (not_isRefused_of_accepts hall) (not_isRefused_of_accepts hall)
    · obtain ⟨j, hj, hget⟩ := List.mem_take_iff_getElem.1 hroot
      obtain ⟨hle, hlength⟩ := Nat.lt_min.1 hj
      have hget : roots[j]? = some root := by rw [List.getElem?_eq_getElem hlength, hget]
      exact iff_of_true (isRefused_of_le (Nat.le_of_lt_succ hle) hget hrefuses)
        (isRefused_of_le (Nat.le_of_lt_succ hle) hget hrefuses)

end SearchPath

/-! ## How roots judge -/

namespace Path

variable {parts below names more more' : List Part} {a b : String} {base : Path} {requested : String}

/-- Steps that leave a directory do not see which one of its parent's it was. -/
theorem foldl_eq_of_not_staysBelow (hsteps : AreSteps parts)
    (hnames : ∀ p ∈ names, ∃ text, p = .name text) (h : staysBelow names.length parts = false) :
    parts.foldl pushPart (names ++ .name a :: below) =
      parts.foldl pushPart (names ++ .name b :: below) := by
  refine hsteps.onNames (motive := fun parts names => staysBelow names.length parts = false →
    parts.foldl pushPart (names ++ .name a :: below) =
      parts.foldl pushPart (names ++ .name b :: below)) hnames ?_ ?_ ?_ ?_ h
  · exact fun _ _ h => nomatch h
  -- the step that leaves takes the directory off
  · exact fun _ _ => rfl
  · exact fun _ _ _ ih h => ih h
  · exact fun _ _ _ ih h => ih h

/-- Steps that end below two directories beside each other never leave them. -/
theorem staysBelow_of_siblings (hsteps : AreSteps parts) (hne : a ≠ b)
    (ha : parts.foldl pushPart (.name a :: below) = more ++ .name a :: below)
    (hb : parts.foldl pushPart (.name b :: below) = more' ++ .name b :: below) :
    staysBelow 0 parts = true := by
  by_contra hnot
  have heq := @foldl_eq_of_not_staysBelow _ below [] a b hsteps nofun (eq_false_of_ne_true hnot)
  rw [List.nil_append, List.nil_append, ha, hb] at heq
  have htop := List.append_inj_right' heq (by simp)
  exact hne (Part.name.inj (List.cons.inj htop).1)

/-- A request that never climbs is accepted by every directory if anything is left of it, and by none
otherwise. -/
theorem exists_below_iff_of_staysBelow (hbase : cleanParts base.parts ≠ [])
    (h : staysBelow 0 (steps ⟨requested⟩) = true) :
    (∃ path, base.below requested = .ok path) ↔ (steps ⟨requested⟩).foldl pushPart [] ≠ [] := by
  have hfold : (steps ⟨requested⟩).foldl pushPart (cleanParts base.parts).reverse =
      (steps ⟨requested⟩).foldl pushPart [] ++ (cleanParts base.parts).reverse :=
    @foldl_append_of_staysBelow _ [] (areSteps_steps ⟨requested⟩) nofun h _
  rw [exists_below_iff_stack, stackBelow, steps_trimSlashes, hfold]
  simp [hbase]

end Path

namespace SearchPath

variable {project cache : Path} {plugins systemPlugins : List String} {requested : String}
  {root : SearchRoot}

/-- The stack of parts of a root's directory. -/
def stackOf (root : SearchRoot) : List Part :=
  (cleanParts root.dir.parts).reverse

theorem accepts_iff : root.Accepts requested ↔ stackOf root ≠ [] ∧
    ∃ more, more ≠ [] ∧ (steps ⟨requested⟩).foldl pushPart (stackOf root) = more ++ stackOf root := by
  unfold SearchRoot.Accepts stackOf
  rw [exists_below_iff_stack, stackBelow, steps_trimSlashes, List.reverse_ne_nil_iff]

theorem stackOf_join (level : String) (base : Path) {name : String}
    (h : name.toList.head? ≠ some '/') : stackOf (.of level (base.join name)) =
      (steps ⟨name⟩).foldl pushPart (cleanParts base.parts).reverse := by
  rw [stackOf, SearchRoot.of, cleanParts_clean, cleanParts_join base h]

theorem stackOf_join_isName (level : String) (base : Path) {name : String} (h : IsName name) :
    stackOf (.of level (base.join name)) = .name name :: (cleanParts base.parts).reverse := by
  rw [stackOf_join level base (head?_of_isName h), steps_of_isName h]
  rfl

theorem isName_view : IsName "view" := isName_iff.2 (by decide)

theorem isName_temp : IsName "temp" := isName_iff.2 (by decide)

/-- The templates of a project itself. -/
theorem stackOf_local (project : Path) : stackOf (.of "local" (project.join "app/view")) =
    .name "view" :: .name "app" :: (cleanParts project.parts).reverse := by
  rw [stackOf_join _ _ (by decide), show steps ⟨"app/view"⟩ = [.name "app", .name "view"] by decide]
  rfl

/-- Every root of a project has a name. -/
theorem exists_name_of_mem_forProject
    (h : root ∈ forProject project plugins systemPlugins cache) :
    ∃ name below, stackOf root = .name name :: below := by
  simp only [forProject, List.mem_append, List.mem_cons, List.mem_map,
    List.not_mem_nil, or_false] at h
  rcases h with (((rfl | ⟨plugin, -, rfl⟩) | rfl) | ⟨plugin, -, rfl⟩) | rfl | rfl
  · exact ⟨_, _, stackOf_local project⟩
  · exact ⟨_, _, stackOf_join_isName _ _ isName_view⟩
  · refine ⟨"view", .name "app" :: .name "system" :: (cleanParts project.parts).reverse, ?_⟩
    rw [stackOf_join _ _ (by decide), show steps ⟨"system/app/view"⟩ =
      [.name "system", .name "app", .name "view"] by decide]
    rfl
  · exact ⟨_, _, stackOf_join_isName _ _ isName_view⟩
  · exact ⟨_, _, stackOf_join_isName _ _ isName_temp⟩
  · exact ⟨_, _, stackOf_join_isName _ _ isName_view⟩

/-- What all roots accept never climbs: the two directories of artifacts stand beside each other. -/
theorem staysBelow_of_accepts
    (h : ∀ root ∈ forProject project plugins systemPlugins cache, root.Accepts requested) :
    staysBelow 0 (steps ⟨requested⟩) = true := by
  have htemp := accepts_iff.1 (h (.of "temp_block" (cache.join "temp")) (by simp [forProject]))
  have hview := accepts_iff.1 (h (.of "compiled" (cache.join "view")) (by simp [forProject]))
  rw [stackOf_join_isName _ _ isName_temp] at htemp
  rw [stackOf_join_isName _ _ isName_view] at hview
  obtain ⟨-, more, -, hmore⟩ := htemp
  obtain ⟨-, more', -, hmore'⟩ := hview
  exact staysBelow_of_siblings (areSteps_steps _) (by decide) hmore hmore'

/-- A request that never climbs is judged alike by all roots. -/
theorem accepts_iff_of_staysBelow (hroot : root ∈ forProject project plugins systemPlugins cache)
    (h : staysBelow 0 (steps ⟨requested⟩) = true) :
    root.Accepts requested ↔ (steps ⟨requested⟩).foldl pushPart [] ≠ [] := by
  obtain ⟨name, below, hstack⟩ := exists_name_of_mem_forProject hroot
  refine exists_below_iff_of_staysBelow (fun hnil => ?_) h
  rw [stackOf, hnil] at hstack
  cases hstack

/-- A request that climbs is refused by the templates of the project itself, unless it has the name of
their directory. -/
theorem not_accepts_local (hclimbs : staysBelow 0 (steps ⟨requested⟩) ≠ true)
    (hview : .name "view" ∉ steps ⟨requested⟩) (project : Path) :
    ¬ (SearchRoot.of "local" (project.join "app/view")).Accepts requested := by
  intro h
  obtain ⟨-, more, -, hmore⟩ := accepts_iff.1 h
  have hstacked : Stacked (stackOf (.of "local" (project.join "app/view"))) := stacked_cleanParts _
  rw [stackOf_local] at hmore hstacked
  exact hclimbs ((below_iff_of_not_mem (areSteps_steps _) hstacked hview).1 ⟨more, hmore⟩)

/-- **Refusal and files**: in a project, files have no say in whether a request is refused exactly if it
never climbs above where it begins, or is refused by one of the roots that are always heard: the skipped
ones and the one after them. So they have none in requests without a part `view`. -/
theorem refusedAlike_forProject (project cache : Path) (plugins systemPlugins : List String)
    (requested : String) (skipped : Option String) :
    let roots := forProject project plugins systemPlugins cache
    (RefusedAlike requested skipped roots ↔ staysBelow 0 (steps ⟨requested⟩) = true ∨
      ∃ root ∈ roots.take (startOf skipped roots + 1), ¬ root.Accepts requested) ∧
    (.name "view" ∉ steps ⟨requested⟩ → RefusedAlike requested skipped roots) := by
  intro roots
  have hfirst : SearchRoot.of "local" (project.join "app/view") ∈
      roots.take (startOf skipped roots + 1) := by
    simp [roots, forProject]
  have hiff : RefusedAlike requested skipped roots ↔ staysBelow 0 (steps ⟨requested⟩) = true ∨
      ∃ root ∈ roots.take (startOf skipped roots + 1), ¬ root.Accepts requested := by
    rw [refusedAlike_iff]
    constructor
    · rintro (hall | hrefuses)
      · exact .inl (staysBelow_of_accepts hall)
      · exact .inr hrefuses
    · rintro (hstays | hrefuses)
      · by_cases hleft : (steps ⟨requested⟩).foldl pushPart [] = []
        · refine .inr ⟨_, hfirst, fun haccepts => ?_⟩
          exact (accepts_iff_of_staysBelow (List.mem_of_mem_take hfirst) hstays).1 haccepts hleft
        · exact .inl fun root hroot => (accepts_iff_of_staysBelow hroot hstays).2 hleft
      · exact .inr hrefuses
  refine ⟨hiff, fun hview => hiff.2 ?_⟩
  by_cases hstays : staysBelow 0 (steps ⟨requested⟩) = true
  · exact .inl hstays
  · exact .inr ⟨_, hfirst, not_accepts_local hstays hview project⟩

theorem refusedAlike_forProject_climbing :
    .name "view" ∉ steps ⟨"../../etc/passwd"⟩ ∧
      RefusedAlike "../../etc/passwd" none
        (forProject ⟨"/site"⟩ ["shop"] ["admin"] ⟨"/site/cache"⟩) := by
  have hview : Part.name "view" ∉ steps ⟨"../../etc/passwd"⟩ := by decide
  exact ⟨hview, (refusedAlike_forProject _ _ _ _ _ _).2 hview⟩

/-- A request that leaves the project's own templates and comes back by their directory's name is
accepted there, where the template may be; otherwise the artifact directories refuse it. -/
theorem exists_not_refusedAlike :
    let roots := forProject ⟨"/site"⟩ [] [] ⟨"/site/cache"⟩
    find (fun path => path.text == "/site/app/view/page") "../view/page" none roots =
        .ok (some ⟨⟨"/site/app/view/page"⟩, "local"⟩) ∧
      find (fun _ => false) "../view/page" none roots =
        .error (.outsideBase ⟨"/site/cache/temp"⟩ "../view/page" ⟨"/site/cache/view/page"⟩) ∧
      ¬ RefusedAlike "../view/page" none roots := by
  intro roots
  have hfound : find (fun path => path.text == "/site/app/view/page") "../view/page" none roots =
      .ok (some ⟨⟨"/site/app/view/page"⟩, "local"⟩) := by decide +kernel
  have hrefused : find (fun _ => false) "../view/page" none roots =
      .error (.outsideBase ⟨"/site/cache/temp"⟩ "../view/page" ⟨"/site/cache/view/page"⟩) := by
    decide +kernel
  refine ⟨hfound, hrefused, fun halike => ?_⟩
  obtain ⟨refusal, hrefusal⟩ := (halike _ fun path => path.text == "/site/app/view/page").1
    ⟨_, hrefused⟩
  rw [hfound] at hrefusal
  cases hrefusal

end SearchPath

end TemplateCompiler
