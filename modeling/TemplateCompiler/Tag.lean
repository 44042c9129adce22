import TemplateCompiler.Markup.Parameters
import TemplateCompiler.Variable

/-!
# Tags

A tag with its parameters read. Every parameter is read as a variable, and a character that fits
into none is skipped with a warning.
-/
namespace TemplateCompiler

/-- One occurrence of a tag. -/
structure Tag where
  name : String
  /-- The parameter text as written. -/
  text : String
  params : List Variable
  deriving DecidableEq, Repr

namespace Tag

/-- Warns of each skipped character. -/
def warnSkipped (scene : Scene) (name : String) : List Char → Diagnosed PUnit
  | [] => pure ⟨⟩
  | c :: rest => do
    Diagnosed.warn
      ⟨"unexpected character `" ++ String.ofList [c] ++ "` in " ++ name ++ " parameters skipped",
        scene.location⟩
    warnSkipped scene name rest

/-- Reads the parameters, in order. -/
def readParams (scene : Scene) : List String → Diagnosed (List Variable)
  | [] => pure []
  | text :: rest => do
    let param ← Variable.parameter scene text
    let more ← readParams scene rest
    pure (param :: more)

/-- Reads the parameter text of the tag `name`. -/
def read (scene : Scene) (name text : String) : Diagnosed Tag := do
  let lexemes := Markup.Lexeme.lex text.toList
  warnSkipped scene name (lexemes.filterMap Markup.Lexeme.skipped?)
  let params ← readParams scene (lexemes.filterMap Markup.Lexeme.parameter?)
  pure ⟨name, text, params⟩

end Tag

end TemplateCompiler
