import Mathlib.Data.List.Induction
import TemplateCompiler.Proofs.Path.Staying

/-!
# How names are spelled

A name is read piece by piece between its slashes. The last piece is its ending (`Path.ending`), and
slashes around the name are no steps (`Path.steps_trimSlashes`); what a name is accepted as below a
directory is told by its steps alone (`Path.stack_below`).
-/
namespace TemplateCompiler.Path

/-- What stands after the last slash of a name. -/
def ending (name : String) : String :=
  String.ofList ((pieces ⟨name⟩).getLast (List.splitOn_ne_nil '/' name.toList))

/-- The steps to where a name's ending is looked for. -/
def stepsBefore (name : String) : List Part :=
  (pieces ⟨name⟩).dropLast.filterMap Part.ofPiece

/-! ## Pieces -/

/-- Text without slashes goes on with the last piece. -/
theorem exists_splitOn_append {suffix : List Char} (h : '/' ∉ suffix) (text : List Char) :
    ∃ front last, text.splitOn '/' = front ++ [last] ∧
      (text ++ suffix).splitOn '/' = front ++ [last ++ suffix] := by
  induction text with
  | nil => exact ⟨[], [], rfl, List.splitOn_eq_singleton h⟩
  | cons c rest ih =>
    obtain ⟨front, last, hrest, happend⟩ := ih
    rw [List.cons_append, List.splitOn_cons_eq_if_modifyHead, List.splitOn_cons_eq_if_modifyHead,
      hrest, happend]
    by_cases hc : (c == '/') = true
    · rw [if_pos hc, if_pos hc]
      exact ⟨[] :: front, last, rfl, rfl⟩
    · rw [if_neg hc, if_neg hc]
      cases front with
      | nil => exact ⟨[], c :: last, rfl, rfl⟩
      | cons piece front => exact ⟨(c :: piece) :: front, last, rfl, rfl⟩

theorem steps_append {suffix : String} (h : '/' ∉ suffix.toList) (name : String) :
    steps ⟨name ++ suffix⟩ =
      stepsBefore name ++ (Part.ofPiece (ending name ++ suffix).toList).toList := by
  obtain ⟨front, last, hname, happend⟩ := exists_splitOn_append h name.toList
  have hpieces : pieces ⟨name⟩ = front ++ [last] := hname
  have hending : (ending name).toList = last := by
    simp [ending, hpieces]
  rw [steps, pieces, String.toList_append, happend, stepsBefore, hpieces, List.dropLast_concat,
    List.filterMap_append, String.toList_append, hending]
  cases hlast : Part.ofPiece (last ++ suffix.toList) <;> simp [hlast]

theorem steps_eq (name : String) :
    steps ⟨name⟩ = stepsBefore name ++ (Part.ofPiece (ending name).toList).toList := by
  have hsteps := @steps_append "" (by decide) name
  rwa [String.append_empty, String.append_empty] at hsteps

theorem slash_not_mem_ending (name : String) : '/' ∉ (ending name).toList := by
  rw [ending, String.toList_ofList]
  exact slash_not_mem_of_mem_pieces (List.getLast_mem _)

/-! ## Slashes around a name -/

theorem steps_dropWhile (text : List Char) :
    steps ⟨String.ofList (text.dropWhile (· == '/'))⟩ = steps ⟨String.ofList text⟩ := by
  induction text with
  | nil => rfl
  | cons c rest ih =>
    by_cases hc : c = '/'
    · subst hc
      have hslash : String.ofList ('/' :: rest) = "" ++ "/" ++ String.ofList rest := by
        rw [← String.toList_inj]
        simp
      rw [List.dropWhile_cons_of_pos rfl, ih, hslash, steps_of_append]
      rfl
    · rw [List.dropWhile_cons_of_neg (by simpa using hc)]

theorem steps_dropWhile_reverse (text : List Char) :
    steps ⟨String.ofList (text.reverse.dropWhile (· == '/')).reverse⟩ =
      steps ⟨String.ofList text⟩ := by
  induction text using List.reverseRecOn with
  | nil => rfl
  | append_singleton front c ih =>
    rw [List.reverse_append, List.reverse_singleton, List.singleton_append]
    by_cases hc : c = '/'
    · subst hc
      have hslash : String.ofList (front ++ ['/']) = String.ofList front ++ "/" ++ "" := by
        rw [← String.toList_inj]
        simp
      rw [List.dropWhile_cons_of_pos rfl, ih, hslash, steps_of_append]
      exact (List.append_nil _).symm
    · rw [List.dropWhile_cons_of_neg (by simpa using hc), List.reverse_cons, List.reverse_reverse]

/-- Slashes around a name are no steps. -/
theorem steps_trimSlashes (name : String) : steps ⟨Text.trimSlashes name⟩ = steps ⟨name⟩ := by
  rw [Text.trimSlashes, Text.trimBoth, steps_dropWhile_reverse, steps_dropWhile, String.ofList_toList]

/-! ## Accepted names -/

theorem clean_clean (path : Path) : path.clean.clean = path.clean := by
  rw [clean, cleanParts_clean]
  rfl

theorem clean_eq_of_cleanParts_eq {p q : Path} (h : cleanParts p.parts = cleanParts q.parts) :
    p.clean = q.clean := by
  rw [clean, clean, h]

theorem cleanParts_eq_of_clean_eq {p q : Path} (h : p.clean = q.clean) :
    cleanParts p.parts = cleanParts q.parts := by
  rw [← cleanParts_clean p, h, cleanParts_clean]

variable {base base' path p q : Path} {name a b : String}

/-- Where an accepted name leads to, from its last part to its first. -/
theorem stack_below (h : base.below name = .ok path) :
    path.parts.reverse = (steps ⟨name⟩).foldl pushPart (cleanParts base.parts).reverse := by
  have hpath := (below_eq_ok h).1
  have hclean := cleanParts_of_stacked (stacked_below h)
  rw [hpath, cleanParts_clean, ← hpath] at hclean
  rw [← hclean, cleanParts_join _ (head?_trimSlashes name), cleanParts_clean, steps_trimSlashes]

theorem below_eq_iff (hp : base.below a = .ok p) (hq : base'.below b = .ok q) :
    p = q ↔ p.parts = q.parts := by
  refine ⟨fun h => h ▸ rfl, fun h => ?_⟩
  have hclean : p.clean = q.clean := by
    rw [clean, clean, h]
  rwa [(below_eq_ok hp).1, (below_eq_ok hq).1, clean_clean, clean_clean, ← (below_eq_ok hp).1,
    ← (below_eq_ok hq).1] at hclean

/-- Steps that stay below where they begin lead to the same from everywhere. -/
theorem foldl_append_of_staysBelow {parts names : List Part} (hsteps : AreSteps parts)
    (hnames : ∀ p ∈ names, ∃ text, p = .name text) (h : staysBelow names.length parts = true)
    (stack : List Part) :
    parts.foldl pushPart (names ++ stack) = parts.foldl pushPart names ++ stack := by
  refine hsteps.onNames (motive := fun parts names => staysBelow names.length parts = true →
    parts.foldl pushPart (names ++ stack) = parts.foldl pushPart names ++ stack) hnames ?_ ?_ ?_ ?_ h
  · exact fun _ _ _ => rfl
  · exact fun _ h => nomatch h
  · exact fun _ _ _ ih h => ih h
  · exact fun _ _ _ ih h => ih h

end TemplateCompiler.Path
