import Mathlib.Data.List.TakeWhile
import TemplateCompiler.Text.Blank

/-!
# Trimmed text

What trimming leaves of a text: it is the text between blanks that neither begins nor ends with one
(`Text.trim_eq`, `Text.exists_trim`).
-/
namespace TemplateCompiler.Text

variable {front back text : List Char}

/-- Neither the first character nor the last is blank. -/
structure IsTrimmed (text : List Char) : Prop where
  head : ∀ c ∈ text.head?, isBlank c = false
  last : ∀ c ∈ text.getLast?, isBlank c = false

theorem IsTrimmed.nil : IsTrimmed [] :=
  ⟨fun _ hc => (nomatch hc), fun _ hc => (nomatch hc)⟩

/-- Text without blanks is trimmed. -/
theorem IsTrimmed.of_forall (h : ∀ c ∈ text, isBlank c = false) : IsTrimmed text :=
  ⟨fun c hc => h c (List.mem_of_head? hc), fun c hc => h c (List.mem_of_getLast? hc)⟩

theorem dropWhile_of_head? (h : ∀ c ∈ text.head?, isBlank c = false) :
    text.dropWhile isBlank = text := by
  cases text with
  | nil => rfl
  | cons c text => exact List.dropWhile_cons_of_neg (by rw [h c rfl]; exact Bool.false_ne_true)

/-- Dropping blanks in front leaves no blank in front. -/
theorem isBlank_of_head?_dropWhile {c : Char} (h : c ∈ (text.dropWhile isBlank).head?) :
    isBlank c = false := by
  have hhead := List.head?_dropWhile_not isBlank text
  rw [Option.mem_def.1 h] at hhead
  simpa using hhead

/-- **Trimming takes blanks away** at both ends of what has none there. -/
theorem trim_eq (hfront : ∀ c ∈ front, isBlank c = true) (hback : ∀ c ∈ back, isBlank c = true)
    (h : IsTrimmed text) : trim (front ++ (text ++ back)) = text := by
  have hreversed : ∀ c ∈ back.reverse, isBlank c = true := fun c hc => hback c (List.mem_reverse.1 hc)
  have hlast : ∀ c ∈ text.reverse.head?, isBlank c = false := fun c hc =>
    h.last c (List.head?_reverse ▸ hc)
  unfold trim trimBoth
  rw [List.dropWhile_append_of_pos hfront]
  cases text with
  | nil => rw [List.nil_append, List.dropWhile_eq_nil_iff.2 hback]; rfl
  | cons c text =>
    have hstart : (c :: text ++ back).dropWhile isBlank = c :: text ++ back :=
      dropWhile_of_head? h.head
    rw [hstart, List.reverse_append, List.dropWhile_append_of_pos hreversed,
      dropWhile_of_head? hlast, List.reverse_reverse]

theorem IsTrimmed.trim (h : IsTrimmed text) : trim text = text := by
  have hnone : ∀ c ∈ ([] : List Char), isBlank c = true := fun _ hc => nomatch hc
  simpa using trim_eq hnone hnone h

/-- What a text begins with, its blanks in front aside. -/
theorem exists_head (text : List Char) : ∃ front left, text = front ++ left ∧
    (∀ c ∈ front, isBlank c = true) ∧ ∀ c ∈ left.head?, isBlank c = false :=
  ⟨text.takeWhile isBlank, text.dropWhile isBlank, List.takeWhile_append_dropWhile.symm,
    fun _ => List.mem_takeWhile_imp, fun _ => isBlank_of_head?_dropWhile⟩

/-- What a text ends with, its blanks at the end aside. -/
theorem exists_last (text : List Char) : ∃ right back, text = right ++ back ∧
    (∀ c ∈ back, isBlank c = true) ∧ ∀ c ∈ right.getLast?, isBlank c = false := by
  obtain ⟨front, left, hsplit, hfront, hleft⟩ := exists_head text.reverse
  refine ⟨left.reverse, front.reverse, ?_, fun c hc => hfront c (List.mem_reverse.1 hc), fun c hc => ?_⟩
  · rw [← List.reverse_append, ← hsplit, List.reverse_reverse]
  · rw [List.getLast?_reverse] at hc
    exact hleft c hc

/-- A text is what trimming leaves of it, with blanks around it. -/
theorem exists_trim (text : List Char) : IsTrimmed (trim text) ∧ ∃ front back,
    text = front ++ (trim text ++ back) ∧ (∀ c ∈ front, isBlank c = true) ∧
      ∀ c ∈ back, isBlank c = true := by
  obtain ⟨front, left, rfl, hfront, hleft⟩ := exists_head text
  obtain ⟨right, back, rfl, hback, hright⟩ := exists_last left
  have htrimmed : IsTrimmed right := by
    refine ⟨fun c hc => hleft c ?_, hright⟩
    rw [List.head?_append, Option.mem_def.1 hc]
    rfl
  rw [trim_eq hfront hback htrimmed]
  exact ⟨htrimmed, front, back, rfl, hfront, hback⟩

theorem isTrimmed_trim (text : List Char) : IsTrimmed (trim text) :=
  (exists_trim text).1

/-- Blanks in front are trimmed. -/
theorem trim_blanks_append (hfront : ∀ c ∈ front, isBlank c = true) (text : List Char) :
    trim (front ++ text) = trim text := by
  obtain ⟨htrimmed, before, after, htext, hbefore, hafter⟩ := exists_trim text
  conv => lhs; rw [htext, ← List.append_assoc]
  exact trim_eq (List.forall_mem_append.2 ⟨hfront, hbefore⟩) hafter htrimmed

/-- Blanks at the end are trimmed. -/
theorem trim_append_blanks (hback : ∀ c ∈ back, isBlank c = true) (text : List Char) :
    trim (text ++ back) = trim text := by
  obtain ⟨htrimmed, before, after, htext, hbefore, hafter⟩ := exists_trim text
  conv => lhs; rw [htext, List.append_assoc, List.append_assoc]
  exact trim_eq hbefore (List.forall_mem_append.2 ⟨hafter, hback⟩) htrimmed

/-- A mark that is no blank parts what is trimmed as it parts the text. -/
theorem exists_trim_mark {mark : Char} (hmark : isBlank mark = false) (front back : List Char) :
    ∃ left right, trim (front ++ mark :: back) = left ++ mark :: right ∧ left <:+ front ∧
      trim left = trim front ∧ trim right = trim back := by
  obtain ⟨before, left, rfl, hbefore, hleft⟩ := exists_head front
  obtain ⟨right, after, rfl, hafter, hright⟩ := exists_last back
  have htrimmed : IsTrimmed (left ++ mark :: right) := by
    refine ⟨fun c hc => ?_, fun c hc => ?_⟩
    · cases left with
      | nil => exact Option.some.inj hc ▸ hmark
      | cons d left => exact hleft c hc
    · cases right with
      | nil =>
        rw [List.getLast?_concat] at hc
        exact Option.some.inj hc ▸ hmark
      | cons d right =>
        rw [List.getLast?_append, List.getLast?_cons_cons, List.getLast?_cons] at hc
        rw [List.getLast?_cons] at hright
        exact hright c hc
  have htext := trim_eq hbefore hafter htrimmed
  rw [List.append_assoc, List.cons_append, ← List.append_assoc] at htext
  exact ⟨left, right, htext, ⟨before, rfl⟩, (trim_blanks_append hbefore left).symm,
    (trim_append_blanks hafter right).symm⟩

/-- What begins with no blank begins with the same character when trimmed. -/
theorem head?_trim {c : Char} (hc : isBlank c = false) (text : List Char) :
    (trim (c :: text)).head? = some c := by
  obtain ⟨left, right, htrim, hleft, -, -⟩ := exists_trim_mark hc [] text
  rw [List.nil_append, List.suffix_nil.1 hleft] at htrim
  rw [htrim]
  rfl

end TemplateCompiler.Text
