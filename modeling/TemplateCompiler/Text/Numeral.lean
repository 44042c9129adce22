import TemplateCompiler.Text.Blank

/-!
# Numerals

`Numeral.accepts` recognises a decimal numeral: an optional sign, digits with an optional point
(before, between or after them) and an optional exponent.
-/
namespace TemplateCompiler.Text.Numeral

/-- Drops one sign, if there is one. -/
def dropSign : List Char → List Char
  | '+' :: rest => rest
  | '-' :: rest => rest
  | text => text

/-- Nothing, or `e` or `E` with an optional sign and at least one digit. -/
def isExponent : List Char → Bool
  | [] => true
  | mark :: rest =>
    (mark == 'e' || mark == 'E') &&
      (let digits := dropSign rest
       !digits.isEmpty && digits.all Char.isDigit)

/-- An unsigned numeral: digits, of which at least one stands beside the point if there is one,
and an exponent. -/
def isUnsigned (text : List Char) : Bool :=
  let whole := text.takeWhile Char.isDigit
  match text.dropWhile Char.isDigit with
  | '.' :: rest =>
    let fraction := rest.takeWhile Char.isDigit
    !(whole.isEmpty && fraction.isEmpty) && isExponent (rest.dropWhile Char.isDigit)
  | rest => !whole.isEmpty && isExponent rest

/-- A numeral with an optional sign. -/
def accepts (text : List Char) : Bool :=
  isUnsigned (dropSign text)

example : ["42", "-1.5", "1e3", ".5", "5.", "+0E-7"].all (accepts ·.toList) = true := by decide
example : ["", ".", "e5", "1.a", "1e", "--1", "inf"].any (accepts ·.toList) = false := by decide

end TemplateCompiler.Text.Numeral
