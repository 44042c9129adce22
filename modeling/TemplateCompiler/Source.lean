import TemplateCompiler.Destination
import TemplateCompiler.Hierarchy
import TemplateCompiler.Variable

/-!
# Sources

A source is one template on its way through a session: where it came from, how far it has been
read, and which paired tags are open. The text itself is kept apart, in the source's feed, so that
handlers can stop and restart a source but cannot change what is left to read.
-/
namespace TemplateCompiler

/-- A source's number in the order in which a session opened its sources. -/
abbrev SourceId := Nat

/-- What a handler remembers from an opening tag to its closing tag. -/
inductive FrameData where
  | nothing
  | text (value : String)
  | flag (value : Bool)
  /-- A loop, and whether it has a branch for the empty list. -/
  | loop (hasNone : Bool)
  /-- A block, its artifact, and the pause flags to be restored if its body is dropped. -/
  | block (name destination : String) (paused : Option PauseState)
  /-- Pause flags to be restored. -/
  | pauses (state : PauseState)
  deriving DecidableEq, Repr

/-- How the text of a source is read. -/
inductive Reading where
  /-- Directives are looked for. -/
  | directives
  /-- The text is copied, up to the given tag if there is one. -/
  | verbatim (resumeAt : Option String)
  deriving DecidableEq, Repr

/-- Where a source came from. -/
structure Origin where
  /-- The name under which the template was asked for. -/
  requested : String
  path : Path
  /-- The level of the search root it was found at. -/
  level : String
  /-- The level up to which roots were skipped in the search. -/
  skipped : Option String
  /-- The source that extended this one. -/
  child : Option SourceId
  deriving DecidableEq, Repr

/-- One template on its way through a session. -/
structure Source extends Origin where
  id : SourceId
  /-- The number of the line being read; none has been read at zero. -/
  line : Nat := 0
  reading : Reading := .directives
  paused : Bool := false
  hierarchy : Hierarchy FrameData := {}
  /-- The tag being compiled; none while an interpolation is. -/
  currentTag : Option String := none
  /-- How many tags were met, the current one included. -/
  tagsSeen : Nat := 0
  /-- The template that this one extends. -/
  extended : Option String := none
  /-- Whether nothing is left to read after the current directive. -/
  atEnd : Bool := false
  deriving DecidableEq, Repr

namespace Source

/-- Where the source is being read. -/
def location (source : Source) : Location :=
  ⟨source.path, source.line⟩

/-- What the reading of this source's text depends on. -/
def scene (source : Source) (options : Options) : Scene where
  options
  tag := source.currentTag
  requested := source.requested
  location := source.location

end Source

end TemplateCompiler
