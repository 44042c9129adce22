import TemplateCompiler.Proofs.Path.Clean

/-!
# Names of one component

A text that is one component of a path is one step, and a path that it is joined to goes on with it.
-/
namespace TemplateCompiler.Path

theorem isName_iff {text : String} : IsName text ↔
    text.toList ≠ [] ∧ text.toList ≠ ['.'] ∧ text.toList ≠ ['.', '.'] ∧ '/' ∉ text.toList := by
  unfold IsName Part.ofPiece
  constructor
  · rintro ⟨hpiece, hslash⟩
    split at hpiece
    · cases hpiece
    · split at hpiece
      · cases hpiece
      · next h h' => exact ⟨fun hn => h (.inl hn), fun hn => h (.inr hn), h', hslash⟩
  · rintro ⟨hnil, hhere, hup, hslash⟩
    rw [if_neg (not_or.2 ⟨hnil, hhere⟩), if_neg hup, String.ofList_toList]
    exact ⟨rfl, hslash⟩

instance (text : String) : Decidable (IsName text) :=
  inferInstanceAs (Decidable (_ ∧ _))

theorem steps_of_isName {text : String} (h : IsName text) : steps ⟨text⟩ = [.name text] := by
  have hpieces : pieces ⟨text⟩ = [text.toList] := List.splitOn_eq_singleton h.2
  rw [steps, hpieces, List.filterMap_cons_some h.1, List.filterMap_nil]

theorem head?_of_isName {text : String} (h : IsName text) : text.toList.head? ≠ some '/' :=
  fun hhead => h.2 (List.mem_of_mem_head? hhead)

/-- A directory that is named ends in its name, even when it is cleaned. -/
theorem parts_clean_join (base : Path) {text : String} (h : IsName text) :
    ∃ front, (base.join text).clean.parts = front ++ [.name text] := by
  have hclean : cleanParts (base.join text).parts =
      (base.steps.foldl pushPart (base.join text).bottom).reverse ++ [.name text] := by
    rw [cleanParts_parts, steps_join base (head?_of_isName h), steps_of_isName h, List.foldl_append]
    simp [pushPart]
  refine ⟨_, (parts_clean ?_).trans hclean⟩
  rw [hclean]
  exact List.append_ne_nil_of_right_ne_nil _ (List.cons_ne_nil _ _)

theorem place_join_isName (base : Path) {text : String} (h : IsName text) :
    (base.join text).place = base.place ++ [text] := by
  rw [place_join base (head?_of_isName h), steps_of_isName h]
  rfl

theorem trimSlashes_eq_self {text : String} (hhead : text.toList.head? ≠ some '/')
    (hlast : text.toList.getLast? ≠ some '/') : Text.trimSlashes text = text := by
  have hdrop : ∀ chars : List Char, chars.head? ≠ some '/' →
      chars.dropWhile (· == '/') = chars := by
    intro chars h
    cases chars with
    | nil => rfl
    | cons c rest =>
      have hc : c ≠ '/' := fun heq => h (by rw [heq]; rfl)
      simp [hc]
  unfold Text.trimSlashes Text.trimBoth
  rw [hdrop _ hhead, hdrop _ (by rwa [List.head?_reverse]), List.reverse_reverse,
    String.ofList_toList]

end TemplateCompiler.Path
