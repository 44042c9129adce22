import TemplateCompiler.Diagnostics
import TemplateCompiler.Markup.Element
import TemplateCompiler.Markup.FilterChain
import TemplateCompiler.Settings.Basic

/-!
# Variables

A variable is a value with its filters, read from the text of an interpolation or of one tag
parameter. Reading depends on the scene alone: the options, the current tag and the place. Only
interpolations are escaped, and only where `safe` is not among the filters.
-/
namespace TemplateCompiler

/-- What the reading of text depends on. -/
structure Scene where
  options : Options
  /-- The tag being compiled; none while an interpolation is. -/
  tag : Option String
  /-- The name under which the template was asked for. -/
  requested : String
  location : Location
  deriving DecidableEq, Repr

/-- One filter, its argument read. -/
structure FilterCall where
  name : String
  parameter : Option Code.Expr
  deriving DecidableEq, Repr

/-- A value with its filters. -/
structure Variable where
  /-- The text as written, filters included. -/
  raw : String
  /-- The text without its filters. -/
  base : String
  /-- What the base denotes, escaped if it is to be. -/
  expr : Code.Expr
  /-- The filters in order, without `safe`. -/
  filters : List FilterCall
  /-- Whether escaping was asked for and is enabled. -/
  escaped : Bool
  deriving DecidableEq, Repr

/-- What the text of an element denotes. With `escape` set, a path, numeral or operator is escaped
if escaping is enabled; literals and configuration values never are. -/
def Scene.resolve (scene : Scene) (text : String) (escape : Bool) : Diagnosed Code.Expr :=
  match Markup.Element.read (scene.options.allowsOperators scene.tag) text with
  | .literal text => pure (.literal text)
  | .config name => pure (.config name)
  | .value expr =>
    if escape && scene.options.escaping then
      pure (.escaped expr text scene.requested scene.location.line)
    else pure expr
  | .misplacedOperator => do
    let allowed := String.intercalate ", " scene.options.operatorTags
    Diagnosed.warn
      ⟨"operator `" ++ text ++ "` is only supported for these tags: " ++ allowed, scene.location⟩
    pure .absent
  | .invalid => throw (.invalidVariable text scene.location)

namespace Variable

/-- Reads the arguments of the filters, in order. -/
def readFilters (scene : Scene) : List Markup.FilterText → Diagnosed (List FilterCall)
  | [] => pure []
  | filter :: rest => do
    let parameter ← filter.argument.mapM (scene.resolve · false)
    let more ← readFilters scene rest
    pure (⟨filter.name, parameter⟩ :: more)

/-- Whether the base of an interpolation that asks for escaping is to be escaped: a legacy name is
not, which is an error in strict mode and else a warning. -/
def readEscape (scene : Scene) (base : String) (escape : Bool) : Diagnosed Bool :=
  if escape && scene.options.isLegacyUnescaped base then
    if scene.options.debug then throw (.deprecatedUnescaped base scene.location)
    else do
      Diagnosed.warn
        ⟨"deprecated: \x7b\x7b" ++ base ++ "\x7d\x7d is missing the |safe filter", scene.location⟩
      pure false
  else pure escape

/-- Reads a value with its filters; `safe` is no filter but turns escaping off. -/
def read (scene : Scene) (raw : String) (escape : Bool) : Diagnosed Variable := do
  let (base, chain) := Markup.splitFilters raw
  let filters ← readFilters scene (chain.filter (·.name != "safe"))
  let escape ← readEscape scene base (escape && chain.all (·.name != "safe"))
  let expr ← scene.resolve base escape
  pure ⟨raw, base, expr, filters, escape && scene.options.escaping⟩

/-- Reads the text of an interpolation, which is escaped unless `safe` is among its filters. -/
def interpolation (scene : Scene) (raw : String) : Diagnosed Variable :=
  read scene raw true

/-- Reads a tag parameter, which is never escaped. -/
def parameter (scene : Scene) (raw : String) : Diagnosed Variable :=
  read scene raw false

/-- Whether there is a filter. -/
def hasFilters (v : Variable) : Bool :=
  !v.filters.isEmpty

/-- What stands between the quotes of a quoted literal without filters. -/
def unquoted? (v : Variable) : Option String :=
  if Text.isQuoted v.base.toList && v.filters.isEmpty then
    some (String.ofList (Text.inner v.base.toList))
  else none

end Variable

end TemplateCompiler
