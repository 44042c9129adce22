import TemplateCompiler.Library

/-!
# The standard filters

Each filter appends one statement to the segment of its chain. A filter that needs an argument
refuses to go without one.
-/
namespace TemplateCompiler.Standard

variable {σ : Type}

/-- The argument of a filter that must have one. -/
def argument (call : FilterCall) : Action σ Code.Expr :=
  match call.parameter with
  | some expr => pure expr
  | none => Action.misuse ("filter " ++ call.name ++ " requires a parameter")

/-- Writes a filter's statement. -/
def apply (filtering : Code.Filtering) : Action σ PUnit :=
  Action.write filtering.render

/-- A filter without an argument; one that is given does not matter. -/
def plain (filtering : Code.Filtering) (_ : Dispatch σ) : FilterHandler σ :=
  fun _ _ => apply filtering

/-- A filter with an argument. -/
def withArgument (filtering : Code.Expr → Code.Filtering) (_ : Dispatch σ) : FilterHandler σ :=
  fun call _ => do apply (filtering (← argument call))

/-- Joins the elements of a list, without a separator if none is given. -/
def join (_ : Dispatch σ) : FilterHandler σ :=
  fun call _ => apply (.join (call.parameter.getD (.literal "''")))

/-- The standard filters by name. -/
def filters : List (String × (Dispatch σ → FilterHandler σ)) :=
  [("upper", plain .upper),
   ("lower", plain .lower),
   ("capfirst", plain .capitalizeFirst),
   ("title", plain .title),
   ("trim", plain .trim),
   ("length", plain .length),
   ("default", withArgument .fallback),
   ("join", join),
   ("first", plain .first),
   ("last", plain .last),
   ("truncate", withArgument .truncate),
   ("date", withArgument .date),
   ("json", plain .json),
   ("urlencode", plain .urlEncode),
   ("escape", plain .escape),
   ("add", withArgument .add)]

end TemplateCompiler.Standard
