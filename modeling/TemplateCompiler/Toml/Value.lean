import TemplateCompiler.Number.Binary64

/-!
# TOML values

The values that a TOML document can hold. A table remembers how it came about, since that decides
what a later line may still add to it.
-/
namespace TemplateCompiler.Toml

/-- How a table came about. -/
inductive TableForm where
  /-- On the way to a table that a header names. -/
  | implied
  /-- Named by a header. -/
  | header
  /-- By a dotted key. -/
  | dotted
  /-- Written as a value. -/
  | inline
  deriving DecidableEq, Repr

/-- A value. -/
inductive Value where
  | text (value : String)
  | integer (value : Int)
  | float (value : Number.Binary64)
  | boolean (value : Bool)
  /-- A date, a time or both, in its uniform spelling. -/
  | moment (spelling : String)
  /-- An array; one of tables may grow by headers. -/
  | array (items : List Value) (ofTables : Bool)
  | table (form : TableForm) (entries : List (String × Value))
  deriving Repr

/-- The entries of a table, the first written first. -/
abbrev Entries := List (String × Value)

/-- Reads something off the front of a text and gives what is left of the text. -/
abbrev Reader (α : Type) := List Char → Option (α × List Char)

end TemplateCompiler.Toml
