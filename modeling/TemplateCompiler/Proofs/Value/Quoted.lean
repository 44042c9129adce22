import TemplateCompiler.Proofs.Value.Literal

/-!
# Reading literals back

The runtime reads a single-quoted literal by two rules: a backslash before a quote or a backslash
stands for that character, and every other character stands for itself, up to the first quote that
is not escaped (`readLiteral?`). What the compiler quotes is read back as it was, from its opening
quote to its last character and no further, whatever stands behind it
(`stringLiteral_reads_back`).
-/
namespace TemplateCompiler.Code

/-! ## Reading -/

/-- Reads on behind the quote that opens a literal: what the literal denotes, and what stands behind
the quote that closes it. -/
def readQuoted? : List Char → Option (List Char × List Char)
  | [] => none
  | '\\' :: c :: rest =>
    if c = '\'' ∨ c = '\\' then (readQuoted? rest).map (Prod.map (c :: ·) id)
    -- this backslash escapes nothing, and `c` is read as the next character
    else (readQuoted? (c :: rest)).map (Prod.map ('\\' :: ·) id)
  | c :: rest =>
    if c = '\'' then some ([], rest) else (readQuoted? rest).map (Prod.map (c :: ·) id)

/-- Reads the literal that a text begins with: what it denotes, and what stands behind it. -/
def readLiteral? : List Char → Option (List Char × List Char)
  | [] => none
  | c :: rest => if c = '\'' then readQuoted? rest else none

/-- One complete literal that denotes `text`: reading it takes its characters and no more, whatever
stands behind it, and no quote closes it before its last character. -/
structure IsLiteralOf (literal text : String) : Prop where
  reads : ∀ behind, readLiteral? (literal.toList ++ behind) = some (text.toList, behind)
  closed : Text.isLiteral literal.toList = true

variable {c : Char} {chars denoted : List Char}

theorem readQuoted?_quote (rest : List Char) : readQuoted? ('\'' :: rest) = some ([], rest) := by
  rw [readQuoted?, if_pos rfl]
  exact nofun

theorem readQuoted?_escape (h : c = '\'' ∨ c = '\\') (rest : List Char) :
    readQuoted? ('\\' :: c :: rest) = (readQuoted? rest).map (Prod.map (c :: ·) id) := by
  rw [readQuoted?, if_pos h]

theorem readQuoted?_plain (hquote : c ≠ '\'') (hback : c ≠ '\\') (rest : List Char) :
    readQuoted? (c :: rest) = (readQuoted? rest).map (Prod.map (c :: ·) id) := by
  rw [readQuoted?, if_neg hquote]
  exact fun _ _ h => absurd h hback

/-- Whether a text closes at its end, and whether it is read to its end, is the same. -/
theorem closesAtEnd_eq (chars : List Char) :
    Text.closesAtEnd '\'' chars = (readQuoted? chars).any (·.2.isEmpty) := by
  fun_induction Text.closesAtEnd '\'' chars with
  | case1 => rfl
  | case2 c rest ih =>
    by_cases hc : c = '\'' ∨ c = '\\'
    · rw [readQuoted?_escape hc, Option.any_map, ih]
      rfl
    · rw [readQuoted?, if_neg hc]
      rw [not_or] at hc
      rw [readQuoted?_plain hc.1 hc.2, Option.any_map, Option.any_map, ih]
      rfl
  | case3 rest => rw [readQuoted?_quote, Option.any_some]
  | case4 c rest hback hquote ih =>
    rw [readQuoted?, if_neg hquote, Option.any_map, ih]
    · rfl
    · exact hback

theorem isLiteral_of_reads (h : readLiteral? chars = some (denoted, [])) :
    Text.isLiteral chars = true := by
  cases chars with
  | nil => cases h
  | cons c rest =>
    rw [readLiteral?] at h
    split at h
    · next hc =>
      subst hc
      rw [Text.isLiteral, closesAtEnd_eq, h]
      rfl
    · cases h

/-! ## What the compiler quotes -/

theorem readQuoted?_escapeChar (c : Char) (rest : List Char) :
    readQuoted? (escapeChar c ++ rest) = (readQuoted? rest).map (Prod.map (c :: ·) id) := by
  rw [escapeChar]
  split
  · next hc => exact readQuoted?_escape hc rest
  · next hc =>
    rw [not_or] at hc
    exact readQuoted?_plain hc.1 hc.2 rest

theorem readQuoted?_escaped (chars behind : List Char) :
    readQuoted? (chars.flatMap escapeChar ++ '\'' :: behind) = some (chars, behind) := by
  induction chars with
  | nil => exact readQuoted?_quote behind
  | cons c chars ih =>
    rw [List.flatMap_cons, List.append_assoc, readQuoted?_escapeChar, ih]
    rfl

theorem readLiteral?_stringLiteral (text : String) (behind : List Char) :
    readLiteral? ((stringLiteral text).toList ++ behind) = some (text.toList, behind) := by
  rw [stringLiteral, String.toList_ofList, List.append_assoc]
  exact readQuoted?_escaped text.toList behind

/-- **A quoted text** is one literal that denotes it. -/
theorem isLiteralOf_stringLiteral (text : String) : IsLiteralOf (stringLiteral text) text where
  reads := readLiteral?_stringLiteral text
  closed := by
    have hread := readLiteral?_stringLiteral text []
    rw [List.append_nil] at hread
    exact isLiteral_of_reads hread

/-- **Literals read back**: the runtime reads what the compiler quotes to its end and gets the text,
two texts are never quoted alike, and where a value was found is one literal in the call that escapes
it, whatever quotes and backslashes there are in its text and its path. -/
theorem stringLiteral_reads_back :
    (∀ text, IsLiteralOf (stringLiteral text) text) ∧ Function.Injective stringLiteral ∧
      ∀ expr raw requested line, ∃ context,
        escape expr raw requested line = "$this->escape(" ++ expr ++ ", " ++ context ++ ")" ∧
          IsLiteralOf context ("Found in \x7b\x7b" ++ raw ++ "\x7d\x7d for " ++ requested ++ " / " ++
            toString line ++ ".") := by
  refine ⟨isLiteralOf_stringLiteral, fun text other h => ?_, fun expr raw requested line =>
    ⟨stringLiteral (foundIn raw requested line), rfl, isLiteralOf_stringLiteral _⟩⟩
  have hread := readLiteral?_stringLiteral text []
  rw [h, readLiteral?_stringLiteral other []] at hread
  exact (String.toList_inj.1 (Prod.mk.inj (Option.some.inj hread)).1).symm

/-- A backslash before the closing quote is escaped, so that it does not escape the quote. -/
example : readLiteral? ((stringLiteral "it's\\").toList ++ ")".toList) =
    some ("it's\\".toList, ")".toList) := by decide

end TemplateCompiler.Code
