import TemplateCompiler.Markup.Parameters
import TemplateCompiler.Proofs.Text.Quoting
import TemplateCompiler.Proofs.Text.Trimming

/-!
# Plain words

The characters of words and of paths: none of them is blank or a quote, so nothing is trimmed from
such a text and nothing in it is split by quotes.
-/
namespace TemplateCompiler

namespace Text

/-- A character of a plain word: an ASCII letter, a digit or an underscore. -/
def isWordChar (c : Char) : Bool :=
  c.isAlphanum || c == '_'

/-- Where the characters of plain words stand. -/
theorem toNat_of_isWordChar {c : Char} (h : isWordChar c = true) :
    48 ≤ c.toNat ∧ c.toNat ≤ 57 ∨ 65 ≤ c.toNat ∧ c.toNat ≤ 90 ∨ c.toNat = 95 ∨
      97 ≤ c.toNat ∧ c.toNat ≤ 122 := by
  have h : (((decide (65 ≤ c.val ∧ c.val ≤ 90) || (97 ≤ c.val && c.val ≤ 122)) ||
    (48 ≤ c.val && c.val ≤ 57)) || c == '_') = true := h
  simp only [Bool.or_eq_true, Bool.and_eq_true, decide_eq_true_eq, beq_iff_eq,
    UInt32.le_iff_toNat_le] at h
  change ((65 ≤ c.toNat ∧ c.toNat ≤ 90 ∨ 97 ≤ c.toNat ∧ c.toNat ≤ 122) ∨
    48 ≤ c.toNat ∧ c.toNat ≤ 57) ∨ c = '_' at h
  rcases h with ((h | h) | h) | rfl
  · omega
  · omega
  · omega
  · decide

theorem isBlank_of_isWordChar {c : Char} (h : isWordChar c = true) : isBlank c = false := by
  have hrange := toNat_of_isWordChar h
  simp only [isBlank, blankRanges, List.any_cons, List.any_nil, Bool.or_false,
    Bool.or_eq_false_iff, Bool.and_eq_false_iff, decide_eq_false_iff_not]
  omega

theorem ne_of_isWordChar {c d : Char} (h : isWordChar c = true) (hd : isWordChar d = false) :
    c ≠ d := by
  rintro rfl
  rw [h] at hd
  cases hd

theorem isQuote_of_isWordChar {c : Char} (h : isWordChar c = true) : isQuote c = false := by
  have hsingle : c ≠ '\'' := ne_of_isWordChar h (by decide)
  have hdouble : c ≠ '"' := ne_of_isWordChar h (by decide)
  simp [isQuote, hsingle, hdouble]

theorem trim_word {text : List Char} (h : ∀ c ∈ text, isWordChar c = true) : trim text = text :=
  (IsTrimmed.of_forall fun c hc => isBlank_of_isWordChar (h c hc)).trim

theorem splitUnquoted_word {delimiter : Char} {text : List Char}
    (hdelimiter : isWordChar delimiter = false) (h : ∀ c ∈ text, isWordChar c = true) :
    splitUnquoted delimiter text = [text] :=
  splitUnquotedFrom_plain fun c hc =>
    ⟨isQuote_of_isWordChar (h c hc), ne_of_isWordChar (h c hc) hdelimiter⟩

end Text

namespace Markup.Lexeme

variable {c : Char}

/-- A character of a path is one of a word, or one of three signs. -/
theorem isPathChar_cases (h : isPathChar c = true) :
    Text.isWordChar c = true ∨ c = '.' ∨ c = '#' ∨ c = '-' := by
  simp only [isPathChar, Bool.or_eq_true, beq_iff_eq] at h
  rcases h with (((h | h) | h) | h) | h
  · exact .inl (by rw [Text.isWordChar, h, Bool.true_or])
  · exact .inr (.inl h)
  · exact .inl (by rw [Text.isWordChar, h]; rfl)
  · exact .inr (.inr (.inl h))
  · exact .inr (.inr (.inr h))

theorem isBlank_of_isPathChar (h : isPathChar c = true) : Text.isBlank c = false := by
  rcases isPathChar_cases h with h | rfl | rfl | rfl
  · exact Text.isBlank_of_isWordChar h
  all_goals decide

theorem isQuote_of_isPathChar (h : isPathChar c = true) : Text.isQuote c = false := by
  rcases isPathChar_cases h with h | rfl | rfl | rfl
  · exact Text.isQuote_of_isWordChar h
  all_goals decide

/-- A path has no mark of a filter in it. -/
theorem ne_of_isPathChar {d : Char} (h : isPathChar c = true) (hd : isPathChar d = false) :
    c ≠ d := by
  rintro rfl
  rw [h] at hd
  cases hd

theorem isPathChar_of_isFilterNameChar (h : isFilterNameChar c = true) : isPathChar c = true := by
  simp only [isFilterNameChar, isPathChar, Bool.or_eq_true] at h ⊢
  rcases h with h | h
  · exact .inl (.inl (.inl (.inl h)))
  · exact .inl (.inl (.inr h))

end Markup.Lexeme

end TemplateCompiler
