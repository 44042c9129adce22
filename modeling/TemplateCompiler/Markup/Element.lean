import TemplateCompiler.Code.Expr
import TemplateCompiler.Text.Numeral

/-!
# Elements

An element is the text of one value: a quoted literal, a configuration name between `#` signs, a
numeral, an operator, or a path of identifiers between points. `Element.read` says which.
-/
namespace TemplateCompiler.Markup

/-- The operators, longest first, so that `!==` is not taken for `!=` and `=`. -/
def operators : List String :=
  ["!==", "===", "<=", ">=", "!=", "==", "=", ">", "<"]

/-- A character that an identifier may start with: an ASCII letter, an underscore, or any
character outside ASCII. -/
def startsIdentifier (c : Char) : Bool :=
  c.isAlpha || c == '_' || 0x80 ≤ c.toNat

/-- A character that an identifier may go on with; digits count too. -/
def continuesIdentifier (c : Char) : Bool :=
  startsIdentifier c || c.isDigit

/-- An identifier: not empty, and it starts and goes on as one does. -/
def isIdentifierChars : List Char → Bool
  | [] => false
  | c :: rest => startsIdentifier c && rest.all continuesIdentifier

/-- Whether a text is an identifier. -/
def isIdentifier (text : String) : Bool :=
  isIdentifierChars text.toList

/-- Whether a text is a numeral, blanks around it set aside. -/
def isNumeral (text : String) : Bool :=
  Text.Numeral.accepts (Text.trim text.toList)

/-- What the text of a value turned out to be. -/
inductive Element where
  /-- A quoted literal, kept as it is. -/
  | literal (text : String)
  | config (name : String)
  /-- A path, a numeral or an operator. -/
  | value (expr : Code.Expr)
  /-- An operator where none is allowed. -/
  | misplacedOperator
  | invalid
  deriving DecidableEq, Repr

namespace Element

/-- Reads the parts of a path from left to right, `expr` being what they have led to. An operator
takes the place of what stood before it. A part that is no identifier and no operator is accepted
only if `text`, the whole path, is a numeral, and then that is the value. -/
def readParts (allowOperators : Bool) (text : String) : Code.Expr → List (List Char) → Element
  | expr, [] => .value expr
  | expr, part :: rest =>
    if isIdentifierChars part then
      readParts allowOperators text (.member expr (String.ofList part)) rest
    else if operators.contains (String.ofList part) then
      if allowOperators then readParts allowOperators text (.operator (String.ofList part)) rest
      else .misplacedOperator
    else if isNumeral text then .value (.numeral text)
    else .invalid

/-- Drops the `#` signs at the end. -/
def trimHashes (text : List Char) : List Char :=
  (text.reverse.dropWhile (· == '#')).reverse

/-- What `text` is. The first character tells literals and configuration names apart from the
rest. -/
def read (allowOperators : Bool) (text : String) : Element :=
  match text.toList with
  | '\'' :: _ => .literal text
  | '"' :: _ => .literal text
  | '#' :: rest => .config (String.ofList (trimHashes rest))
  | chars => readParts allowOperators text .variables (chars.splitOn '.')

end Element

end TemplateCompiler.Markup
