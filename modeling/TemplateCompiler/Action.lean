import TemplateCompiler.Code.Statement
import TemplateCompiler.Session
import TemplateCompiler.Tag

/-!
# Actions

An action is what a handler does for one tag or filter. It works on a run: the session, the source
whose directive is being handled, and a memory that only handlers read. An action that fails keeps
what it did before.
-/
namespace TemplateCompiler

variable {σ α : Type}

/-- A session in which the directive of a source is being handled. -/
structure Run (σ : Type) where
  session : Session
  source : Source
  /-- What handlers remember from one call to the next. -/
  memory : σ

/-- What a handler does. -/
abbrev Action (σ : Type) := EStateM CompileError (Run σ)

namespace Action

/-- Changes the session. -/
def updateSession (f : Session → Session) : Action σ PUnit :=
  modify fun run => { run with session := f run.session }

/-- Changes the source. -/
def updateSource (f : Source → Source) : Action σ PUnit :=
  modify fun run => { run with source := f run.source }

/-- An operation on the session. -/
def ofSession (m : SessionM α) : Action σ α := fun run =>
  match m.run run.session with
  | .ok a session => .ok a { run with session }
  | .error error session => .error error { run with session }

/-- The source. -/
def source : Action σ Source :=
  return (← get).source

/-- The session. -/
def session : Action σ Session :=
  return (← get).session

/-- Where the source is being read. -/
def location : Action σ Location :=
  return (← source).location

/-- Writes text to every destination. -/
def write (text : String) : Action σ PUnit :=
  updateSession (·.write (Utf8.encode text))

/-- Writes a statement as a segment. -/
def emit (statement : Code.Statement) : Action σ PUnit :=
  write statement.render

/-- Warns of a problem at the current place. -/
def warn (message : String) : Action σ PUnit := do
  let location ← location
  updateSession (·.warn ⟨message, location⟩)

/-- Fails because the tag or filter is used wrongly. -/
def misuse (message : String) : Action σ α := do
  throw (.misuse message (← location))

/-- Reads text in the scene of the current directive. Its warnings join those of the session. -/
def reading (read : Scene → Diagnosed α) : Action σ α := fun run =>
  match (read (run.source.scene run.session.workspace.options)).run run.session.warnings with
  | .ok a warnings => .ok a { run with session := { run.session with warnings } }
  | .error error warnings => .error error { run with session := { run.session with warnings } }

/-- The number of a fresh parameter slot. -/
def nextSlot : Action σ Nat := do
  let (slot, session) := (← session).nextSlot
  updateSession fun _ => session
  pure slot

/-- Pauses every destination, and gives the flags that were set before. -/
def pauseAll : Action σ PauseState := do
  let (state, session) := (← session).pauseAll
  updateSession fun _ => session
  pure state

/-! ### The hierarchy of open tags -/

/-- Opens a paired tag. -/
def push (tag : String) (data : FrameData) : Action σ PUnit :=
  updateSource fun source => { source with hierarchy := source.hierarchy.push tag data }

/-- The name that an error shows for the current tag. An interpolation has none, and shows the tag
that it asked for. -/
def shownTag (source : Source) (asked : String) : String :=
  source.currentTag.getD asked

/-- What is wrong when `tag` cannot be closed. -/
def closingError (source : Source) (tag : String) : Hierarchy.Refusal → CompileError
  | .mismatch innermost => .hierarchyMismatch innermost (shownTag source tag) source.location
  | .empty => .unopenedTag (shownTag source tag) source.location

/-- What is wrong when `tag` is not the innermost open tag. -/
def nestingError (source : Source) (tag : String) : CompileError :=
  .notNested (shownTag source tag) tag source.location

/-- What a tag remembers, seen as `view` sees it; other data are a misuse of the tag. -/
def expect (tag : String) (view : FrameData → Option α) (data : FrameData) : Action σ α :=
  match view data with
  | some a => pure a
  | none => misuse (tag ++ " frame holds unexpected data")

/-- Closes `tag`, which must be the innermost open tag, and gives what it remembers. -/
def pop (tag : String) (view : FrameData → Option α) : Action σ α := do
  let source ← source
  match source.hierarchy.pop tag with
  | .error refusal => throw (closingError source tag refusal)
  | .ok (data, hierarchy) =>
    updateSource fun source => { source with hierarchy }
    expect tag view data

/-- What `tag` remembers, which must be the innermost open tag. -/
def peek (tag : String) (view : FrameData → Option α) : Action σ α := do
  let source ← source
  match source.hierarchy.peek tag with
  | .error _ => throw (nestingError source tag)
  | .ok data => expect tag view data

/-- Changes what `tag` remembers, which must be the innermost open tag. -/
def replace (tag : String) (data : FrameData) : Action σ PUnit := do
  let source ← source
  match source.hierarchy.replace tag data with
  | .error _ => throw (nestingError source tag)
  | .ok hierarchy => updateSource fun source => { source with hierarchy }

/-! ### Sources -/

/-- Queues a template, unless it is queued or active already. -/
def addSource (requested : String) (skipped : Option String) (child : Option SourceId) :
    Action σ (Option SourceId) := do
  let source ← source
  ofSession (Session.addSource (some source.toOrigin) requested skipped child)

/-- Looks a template up along the search path. -/
def find (requested : String) (skipped : Option String) : Action σ (Option Found) := do
  MonadExcept.ofExcept ((← session).find requested skipped)

end Action

end TemplateCompiler
