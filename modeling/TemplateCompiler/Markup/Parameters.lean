import TemplateCompiler.Markup.Element
import TemplateCompiler.Text.Quotes

/-!
# Parameters

The text after a tag's name is cut into parameters: operators, and quoted strings or paths with
their filters attached. Blanks separate, and a character that fits nowhere is skipped. Nothing is
lost: `Lexeme.text_lex` says that the lexemes of a text, put together, are the text.
-/
namespace TemplateCompiler.Markup

/-- A piece of parameter text. -/
inductive Lexeme where
  | blank (c : Char)
  | parameter (text : List Char)
  | skipped (c : Char)
  deriving DecidableEq, Repr

namespace Lexeme

/-- The text that a lexeme was read from. -/
def text : Lexeme → List Char
  | blank c => [c]
  | parameter text => text
  | skipped c => [c]

/-- A character of a path: an ASCII letter or digit, a point, an underscore, `#` or `-`. -/
def isPathChar (c : Char) : Bool :=
  c.isAlphanum || c == '.' || c == '_' || c == '#' || c == '-'

/-- A character of a filter's name. -/
def isFilterNameChar (c : Char) : Bool :=
  c.isAlphanum || c == '_'

/-- How many characters a quoted string after its opening `quote` takes, the closing quote
included; without one it takes the rest. -/
def quotedLength (quote : Char) (rest : List Char) : Nat :=
  min rest.length ((rest.takeWhile (· != quote)).length + 1)

/-- How many characters a quoted string or path at the start of a text takes. -/
def valueLength : List Char → Nat
  | [] => 0
  | c :: rest =>
    if Text.isQuote c then 1 + quotedLength c rest
    else ((c :: rest).takeWhile isPathChar).length

/-- How many characters a filter after its `|` takes: a name, and if a `:` follows, blanks before
it or not, all up to the end of its argument. -/
def filterLength (rest : List Char) : Nat :=
  let name := (rest.takeWhile isFilterNameChar).length
  let afterName := rest.drop name
  let gap := (afterName.takeWhile Text.isBlank).length
  match afterName.drop gap with
  | ':' :: afterColon =>
    let space := (afterColon.takeWhile Text.isBlank).length
    name + gap + 1 + space + valueLength (afterColon.drop space)
  | _ => name

/-- How many characters the filters at the start of a text take. -/
def filtersLength : List Char → Nat
  | '|' :: rest => 1 + filterLength rest + filtersLength (rest.drop (filterLength rest))
  | _ => 0
termination_by text => text.length

/-- The operator at the start of a text. -/
def operatorAt? (text : List Char) : Option String :=
  operators.find? (·.toList.isPrefixOf text)

/-- The lexeme at the start of a text, and how many more characters than one it takes. -/
def first (c : Char) (rest : List Char) : Lexeme × Nat :=
  if Text.isBlank c then (.blank c, 0)
  else if Text.isQuote c then
    let taken := quotedLength c rest
    let taken := taken + filtersLength (rest.drop taken)
    (.parameter (c :: rest.take taken), taken)
  else
    match operatorAt? (c :: rest) with
    | some operator => (.parameter ((c :: rest).take operator.length), operator.length - 1)
    | none =>
      if isPathChar c then
        let taken := (rest.takeWhile isPathChar).length
        let taken := taken + filtersLength (rest.drop taken)
        (.parameter (c :: rest.take taken), taken)
      else (.skipped c, 0)

/-- The lexemes of a text, in order. -/
def lex : List Char → List Lexeme
  | [] => []
  | c :: rest => (first c rest).1 :: lex (rest.drop (first c rest).2)
termination_by text => text.length

theorem length_pos_of_operatorAt? {text : List Char} {operator : String}
    (h : operatorAt? text = some operator) : 0 < operator.length := by
  have : ∀ o ∈ operators, 0 < o.length := by decide
  exact this operator (List.mem_of_find?_eq_some h)

theorem text_first (c : Char) (rest : List Char) :
    (first c rest).1.text ++ rest.drop (first c rest).2 = c :: rest := by
  unfold first
  split
  · simp [text]
  · split
    · simp [text]
    · split
      · next operator h =>
        obtain ⟨n, hn⟩ := Nat.exists_eq_add_of_lt (length_pos_of_operatorAt? h)
        simp [text, hn]
      · split <;> simp [text]

theorem text_lex (chars : List Char) : (lex chars).flatMap text = chars := by
  induction h : chars.length using Nat.strongRecOn generalizing chars with
  | ind n ih =>
    cases chars with
    | nil => simp [lex]
    | cons c rest =>
      unfold lex
      simp only [List.flatMap_cons]
      rw [ih (rest.drop (first c rest).2).length (by simp at h ⊢; omega) _ rfl]
      exact text_first c rest

/-- The parameter that a lexeme is. -/
def parameter? : Lexeme → Option String
  | parameter text => some (String.ofList text)
  | _ => none

/-- The character that a lexeme skips. -/
def skipped? : Lexeme → Option Char
  | skipped c => some c
  | _ => none

end Lexeme

end TemplateCompiler.Markup
