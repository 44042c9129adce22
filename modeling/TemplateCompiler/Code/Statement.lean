import TemplateCompiler.Code.Expr

/-!
# Statements

The code segments that the compiler emits, as terms. Control structure uses the runtime's
alternative syntax, in which a branch opens with a colon and ends with a closing word. A chain of
filters is one segment: the slot is set, each filter updates it, and the segment closes.
-/
namespace TemplateCompiler.Code

/-- One word of a condition. -/
inductive Term where
  | conjunction
  | disjunction
  | negation
  | value (expr : Expr)
  deriving DecidableEq, Repr

/-- The text of a word of a condition. -/
def Term.render : Term → String
  | conjunction => "&&"
  | disjunction => "||"
  | negation => "!"
  | value expr => expr.render

/-- The words of a condition, in order. -/
abbrev Condition := List Term

/-- The words with a space between them. -/
def Condition.render (condition : Condition) : String :=
  String.intercalate " " (condition.map Term.render)

/-- One code segment. -/
inductive Statement where
  /-- Write a value. -/
  | echo (value : Expr)
  /-- Write an angle marker. -/
  | print (marker : String)
  | ifThen (condition : Condition)
  | elseIf (condition : Condition)
  | otherwise
  | endIf
  /-- Run the body for each element, if there is any. -/
  | forEach (list item : Expr)
  /-- End the loop and start what runs when there is no element. -/
  | forNone
  /-- End a loop, or what runs when there is no element. -/
  | endFor (hasNone : Bool)
  | assign (target value : Expr)
  /-- Load another template when the artifact runs. -/
  | load (path : Expr)
  deriving DecidableEq, Repr

/-- The code of a statement, without the marks of a segment. -/
def Statement.body : Statement → String
  | echo value => "echo " ++ value.render ++ ";"
  | print marker => "print " ++ stringLiteral marker ++ ";"
  | ifThen condition => "if(" ++ condition.render ++ "):"
  | elseIf condition => "elseif(" ++ condition.render ++ "):"
  | otherwise => "else:"
  | endIf => "endif;"
  | forEach list item =>
    "if(!empty(" ++ list.render ++ ")): foreach(" ++ list.render ++ " as " ++ item.render ++ "):"
  | forNone => "endforeach; else:"
  | endFor true => "endif;"
  | endFor false => "endforeach; endif;"
  | assign target value => target.render ++ " = " ++ value.render ++ ";"
  | load path => "$this->include(" ++ path.render ++ ");"

/-- A statement as a complete segment. -/
def Statement.render (statement : Statement) : String :=
  segment statement.body

/-- One filter at work on the slot. -/
inductive Filtering where
  | upper
  | lower
  | capitalizeFirst
  | title
  | trim
  | length
  | fallback (value : Expr)
  | join (separator : Expr)
  | first
  | last
  | truncate (limit : Expr)
  | date (format : Expr)
  | json
  | urlEncode
  | escape
  | add (amount : Expr)
  deriving DecidableEq, Repr

/-- Sets the slot to `value`. -/
def setSlot (value : String) : String :=
  filterSlot ++ " = " ++ value ++ "; "

/-- A call of a one-place function on the slot. -/
def callOnSlot (function : String) : String :=
  setSlot (function ++ "(" ++ filterSlot ++ ")")

/-- The code of a filter, with a space after it for what follows in the segment. -/
def Filtering.render : Filtering → String
  | upper => callOnSlot "mb_strtoupper"
  | lower => callOnSlot "mb_strtolower"
  | capitalizeFirst => callOnSlot "ucfirst"
  | title => setSlot ("mb_convert_case(" ++ filterSlot ++ ", MB_CASE_TITLE)")
  | trim => callOnSlot "trim"
  | length =>
    setSlot ("is_countable(" ++ filterSlot ++ ") ? count(" ++ filterSlot ++ ") : mb_strlen("
      ++ filterSlot ++ ")")
  | fallback value => "if(empty(" ++ filterSlot ++ ")) " ++ setSlot value.render
  | join separator => setSlot ("implode(" ++ separator.render ++ ", (array) " ++ filterSlot ++ ")")
  | first =>
    setSlot ("is_array(" ++ filterSlot ++ ") ? reset(" ++ filterSlot ++ ") : mb_substr("
      ++ filterSlot ++ ", 0, 1)")
  | last =>
    setSlot ("is_array(" ++ filterSlot ++ ") ? end(" ++ filterSlot ++ ") : mb_substr("
      ++ filterSlot ++ ", -1)")
  | truncate limit =>
    "if(mb_strlen(" ++ filterSlot ++ ") > " ++ limit.render ++ ") "
      ++ setSlot ("mb_substr(" ++ filterSlot ++ ", 0, " ++ limit.render ++ ").'...'")
  | date format =>
    setSlot ("date(" ++ format.render ++ ", is_numeric(" ++ filterSlot ++ ") ? " ++ filterSlot
      ++ " : strtotime(" ++ filterSlot ++ "))")
  | json => callOnSlot "json_encode"
  | urlEncode => callOnSlot "urlencode"
  | escape => setSlot ("htmlspecialchars(" ++ filterSlot ++ ", ENT_QUOTES)")
  | add amount => setSlot (filterSlot ++ " + " ++ amount.render)

/-- Opens the segment of a chain of filters on `value`. -/
def chainOpen (value : Expr) : String :=
  segmentOpen ++ setSlot value.render

/-- Closes the segment of a chain of filters. -/
def chainClose : String := "?>"

end TemplateCompiler.Code
