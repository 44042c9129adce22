/-!
# Surface syntax of artifacts

An artifact is passed-through text with embedded code segments. The runtime that loads it keeps
template variables below `$this->vars` and configuration below `$this->config`, and escapes a value
with `$this->escape(value, context)`. Every spelling of that runtime is in this module.
-/
namespace TemplateCompiler.Code

/-- What opens a code segment. -/
def segmentOpen : String := "<?php "

/-- What closes a code segment. -/
def segmentClose : String := " ?>"

/-- The root of the template variables. -/
def variablesRoot : String := "$this->vars"

/-- The root of the configuration. -/
def configRoot : String := "$this->config"

/-- The variable that a chain of filters works on. -/
def filterSlot : String := "$filter_var"

/-- The member `name` of `base`. -/
def property (base name : String) : String :=
  base ++ "->" ++ name

/-- The configuration value `name`. -/
def config (name : String) : String :=
  property configRoot name

/-- A quote or a backslash is written with a backslash before it, every other character as it is. -/
def escapeChar (c : Char) : List Char :=
  if c = '\'' ∨ c = '\\' then ['\\', c] else [c]

/-- A single-quoted string literal that denotes `text`. -/
def stringLiteral (text : String) : String :=
  String.ofList (['\''] ++ text.toList.flatMap escapeChar ++ ['\''])

/-- Where a value was found, for the runtime's diagnostics. -/
def foundIn (raw requested : String) (line : Nat) : String :=
  "Found in \x7b\x7b" ++ raw ++ "\x7d\x7d for " ++ requested ++ " / " ++ toString line ++ "."

/-- The runtime call that escapes `expr`. -/
def escape (expr raw requested : String) (line : Nat) : String :=
  "$this->escape(" ++ expr ++ ", " ++ stringLiteral (foundIn raw requested line) ++ ")"

/-- A complete code segment. -/
def segment (statements : String) : String :=
  segmentOpen ++ statements ++ segmentClose

/-- A segment that writes the value of `expr`. -/
def echo (expr : String) : String :=
  segment ("echo " ++ expr ++ ";")

/-- A segment that writes an angle marker such as `<?xml` instead of opening code with it. -/
def printMarker (marker : String) : String :=
  segment ("print " ++ stringLiteral marker ++ ";")

/-- The name of the `n`th parameter slot of a session. -/
def slotName (n : Nat) : String :=
  "__tmp" ++ toString n

example : stringLiteral "it's" = "'it\\'s'" := by decide
example : printMarker "<?xml" = "<?php print '<?xml'; ?>" := by decide

end TemplateCompiler.Code
