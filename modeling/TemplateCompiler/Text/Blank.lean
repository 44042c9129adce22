/-!
# Blank characters

The characters with the Unicode property `White_Space`, and trimming of them. Every character that
core's ASCII class calls white space is blank (`isBlank_of_isWhitespace`).
-/
namespace TemplateCompiler.Text

/-- The inclusive ranges of code points with the property `White_Space`. -/
def blankRanges : List (Nat × Nat) :=
  [(0x9, 0xd), (0x20, 0x20), (0x85, 0x85), (0xa0, 0xa0), (0x1680, 0x1680), (0x2000, 0x200a),
    (0x2028, 0x2029), (0x202f, 0x202f), (0x205f, 0x205f), (0x3000, 0x3000)]

/-- A character with the property `White_Space`. -/
def isBlank (c : Char) : Bool :=
  blankRanges.any fun (first, last) => first ≤ c.toNat && c.toNat ≤ last

theorem isBlank_of_isWhitespace {c : Char} (h : c.isWhitespace = true) : isBlank c = true := by
  simp only [Char.isWhitespace, Bool.or_eq_true, decide_eq_true_eq] at h
  rcases h with ((rfl | rfl) | rfl) | rfl <;> decide

example : isBlank '\u200b' = false ∧ isBlank '\ufeff' = false := by decide

/-- Drops what satisfies `p` at both ends. -/
def trimBoth (p : Char → Bool) (text : List Char) : List Char :=
  ((text.dropWhile p).reverse.dropWhile p).reverse

/-- Drops the blank characters at both ends. -/
def trim (text : List Char) : List Char :=
  trimBoth isBlank text

/-- Drops the slashes at both ends. -/
def trimSlashes (text : String) : String :=
  String.ofList (trimBoth (· == '/') text.toList)

end TemplateCompiler.Text
