import TemplateCompiler.Code.Surface

/-!
# Expressions

The values that template text can denote, as terms; `Expr.render` is the only place where a term
becomes text of the runtime.
-/
namespace TemplateCompiler.Code

/-- A value in the runtime's terms. -/
inductive Expr where
  /-- The root of the template variables. -/
  | variables
  /-- A member of a value. -/
  | member (base : Expr) (name : String)
  /-- A configuration value. -/
  | config (name : String)
  /-- A quoted literal, with its quotes, as the template wrote it. -/
  | literal (text : String)
  /-- A numeral as the template wrote it. -/
  | numeral (text : String)
  /-- A comparison or assignment operator. -/
  | operator (symbol : String)
  /-- What stands for an operator where none is allowed. -/
  | absent
  /-- What the chain of filters works on. -/
  | filterSlot
  /-- A value escaped for output, with where it was found. -/
  | escaped (value : Expr) (raw requested : String) (line : Nat)
  deriving DecidableEq, Repr

namespace Expr

/-- The template variable `name`. -/
def var (name : String) : Expr :=
  .member .variables name

/-- The `n`th parameter slot of a session. -/
def slot (n : Nat) : Expr :=
  .var (slotName n)

/-- The text of a term. -/
def render : Expr → String
  | .variables => variablesRoot
  | member base name => property base.render name
  | config name => Code.config name
  | literal text => text
  | numeral text => text
  | operator symbol => symbol
  | absent => "null"
  | filterSlot => Code.filterSlot
  | escaped value raw requested line => escape value.render raw requested line

/-- Whether the term is a call of the runtime's escape. -/
def isEscaped : Expr → Bool
  | escaped .. => true
  | _ => false

end Expr

end TemplateCompiler.Code
