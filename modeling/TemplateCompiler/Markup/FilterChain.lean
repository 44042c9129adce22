import TemplateCompiler.Text.Quotes

/-!
# Filter chains

The text of a value may be followed by filters, each after a `|` and each with an optional argument
after a `:`; neither mark counts inside quotes.
-/
namespace TemplateCompiler.Markup

/-- One filter as written. -/
structure FilterText where
  name : String
  argument : Option String
  deriving DecidableEq, Repr

namespace FilterText

/-- Reads a piece between two `|` marks: the first `:` outside quotes ends the name, and an empty
argument is none. -/
def ofPiece (piece : List Char) : FilterText :=
  match Text.findUnquoted? ':' piece with
  | none => ⟨String.ofList piece, none⟩
  | some n =>
    let argument := Text.trim (piece.drop (n + 1))
    ⟨String.ofList (Text.trim (piece.take n)),
      if argument.isEmpty then none else some (String.ofList argument)⟩

end FilterText

/-- The text of a value without its filters, and the filters in order; empty ones are left out. -/
def splitFilters (raw : String) : String × List FilterText :=
  match Text.splitUnquoted '|' raw.toList with
  | [] => ("", [])
  | base :: pieces =>
    (String.ofList (Text.trim base),
      ((pieces.map Text.trim).filter (!·.isEmpty)).map FilterText.ofPiece)

example : splitFilters " a.b | default : 'x|y' |upper" =
    ("a.b", [⟨"default", some "'x|y'"⟩, ⟨"upper", none⟩]) := by decide

end TemplateCompiler.Markup
