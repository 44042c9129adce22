import TemplateCompiler.Path

/-!
# Diagnostics

What can go wrong in a compile, each cause with the place it arose in, and the wording of each in
`CompileError.message`. A warning lets the compile go on; an error ends it.
-/
namespace TemplateCompiler

/-- A line of a template. -/
structure Location where
  path : Path
  line : Nat
  deriving DecidableEq, Repr

/-- The place as it is shown at the end of a message. -/
def Location.render (location : Location) : String :=
  "file: " ++ location.path.text ++ " / line: " ++ toString location.line

/-- What ends a compile. -/
inductive CompileError where
  /-- Raw code in a template whose directives are read. -/
  | forbiddenMarker (location : Location)
  /-- A part of a dotted path is no identifier, no operator allowed here and no part of a number. -/
  | invalidVariable (text : String) (location : Location)
  | unknownTag (name : String) (location : Location)
  | unknownFilter (name : String) (location : Location)
  /-- A name that used to be written unescaped, in strict mode. -/
  | deprecatedUnescaped (name : String) (location : Location)
  /-- A closing tag for another tag than the innermost open one. -/
  | hierarchyMismatch (expected found : String) (location : Location)
  | unopenedTag (found : String) (location : Location)
  /-- A branch tag outside of the tag it belongs to. -/
  | notNested (tag expected : String) (location : Location)
  | circularExtends (path : String) (location : Location)
  /-- A tag or filter used wrongly, in its handler's words. -/
  | misuse (message : String) (location : Location)
  /-- No search root has the template, or none below the level that was skipped. -/
  | templateNotFound (path : String) (belowLevel : Option String)
  | invalidPath (refusal : Path.Refusal)
  | destinationOpen (path : Path)
  | unreadable (path : Path)
  /-- Every source that is left is paused. -/
  | stalled (pending : Nat)
  /-- The session was still going after its allotted turns or depth. -/
  | unfinished
  deriving DecidableEq, Repr

namespace CompileError

/-- The short code of an error. -/
def code : CompileError → String
  | forbiddenMarker .. => "C100"
  | invalidVariable .. => "C101"
  | unknownTag .. => "C102"
  | unknownFilter .. => "C103"
  | deprecatedUnescaped .. => "C104"
  | hierarchyMismatch .. => "C200"
  | unopenedTag .. => "C201"
  | notNested .. => "C202"
  | circularExtends .. => "C203"
  | misuse .. => "C210"
  | templateNotFound .. => "C300"
  | invalidPath .. => "C301"
  | destinationOpen .. => "C900"
  | unreadable .. => "C901"
  | stalled .. => "C902"
  | unfinished => "C903"

/-- Where an error arose, if it arose in a template. -/
def location? : CompileError → Option Location
  | forbiddenMarker location
  | invalidVariable _ location
  | unknownTag _ location
  | unknownFilter _ location
  | deprecatedUnescaped _ location
  | hierarchyMismatch _ _ location
  | unopenedTag _ location
  | notNested _ _ location
  | circularExtends _ location
  | misuse _ location => some location
  | templateNotFound ..
  | invalidPath ..
  | destinationOpen ..
  | unreadable ..
  | stalled ..
  | unfinished => none

/-- The wording of an error, without its place. -/
def headline : CompileError → String
  | forbiddenMarker _ =>
    "cannot use raw code tags in template file: <?, <?php, or <% are all forbidden"
  | invalidVariable text _ => "invalid variable/operator found: " ++ text
  | unknownTag name _ => "unknown tag `" ++ name ++ "`"
  | unknownFilter name _ => "unknown filter `" ++ name ++ "`"
  | deprecatedUnescaped name _ =>
    "deprecated: \x7b\x7b" ++ name ++ "\x7d\x7d is missing the |safe filter"
  | hierarchyMismatch expected found _ =>
    "expecting " ++ expected ++ " and found " ++ found ++ " end tag"
  | unopenedTag found _ => "found " ++ found ++ " end tag without an open tag"
  | notNested tag expected _ =>
    "the tag " ++ tag ++ " has to be nested within " ++ expected ++ " tags"
  | circularExtends path _ =>
    "template " ++ path ++ " is already being extended, inheritance is circular"
  | misuse message _ => message
  | templateNotFound path none => "template file " ++ path ++ " could not be found anywhere"
  | templateNotFound path (some level) =>
    "template file " ++ path ++ " could not be found in app hierarchy levels below " ++ level
  | invalidPath refusal => refusal.message
  | destinationOpen path =>
    "could not open " ++ path.text ++ " for writing, does the cache folder have write permissions?"
  | unreadable path => "I/O error on " ++ path.text
  | stalled pending =>
    toString pending ++ " template source(s) are paused and nothing is left to resume them"
  | unfinished => "the session did not come to an end within its limits"

/-- The wording of an error, with its place in parentheses if it has one. -/
def message (error : CompileError) : String :=
  match error.location? with
  | some location => error.headline ++ " (" ++ location.render ++ ")"
  | none => error.headline

end CompileError

/-- A problem that does not stop a compile. -/
structure Warning where
  message : String
  location : Location
  deriving DecidableEq, Repr

/-- The wording of a warning with its place. -/
def Warning.render (warning : Warning) : String :=
  warning.message ++ " (" ++ warning.location.render ++ ")"

/-- A computation that may fail and may add warnings; it keeps those it added before it failed. -/
abbrev Diagnosed := EStateM CompileError (List Warning)

/-- Adds a warning after those that were given before. -/
def Diagnosed.warn (warning : Warning) : Diagnosed PUnit :=
  modify (· ++ [warning])

end TemplateCompiler
