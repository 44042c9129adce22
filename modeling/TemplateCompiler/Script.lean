import TemplateCompiler.Library

/-!
# Scripts

A script is a handler as data: a list of calls, made in order, each of which is entered in a
journal with its outcome. A call that fails ends the script with its error, unless the step only
attempts it.
-/
namespace TemplateCompiler

/-- What kind of data a frame is expected to hold. -/
inductive Shape where
  | nothing
  | text
  | flag
  deriving DecidableEq, Repr

/-- The data, if they are of the expected kind. -/
def Shape.view (shape : Shape) (data : FrameData) : Option FrameData :=
  match shape, data with
  | nothing, .nothing => some data
  | text, .text _ => some data
  | flag, .flag _ => some data
  | _, _ => none

/-- One thing that a handler can ask for. -/
inductive Call where
  /-- What does a text denote? -/
  | resolve (text : String) (escape : Bool)
  /-- Read a variable, as a tag parameter or an interpolation, and evaluate or write it. -/
  | variable (text : String) (asParameter prepare write : Bool)
  /-- Read a tag, and run its handler if it is to be written. -/
  | tag (name text : String) (write : Bool)
  | write (text : String)
  | error (message : String)
  | warning (message : String)
  | slot
  | location
  | push (tag : String) (data : FrameData)
  | pop (tag : String) (shape : Shape)
  | peek (tag : String) (shape : Shape)
  /-- How many tags are open, and which is the innermost? -/
  | frames
  | source
  | setSourcePaused (paused : Bool)
  | setReading (reading : Reading)
  | setExtended (template : String)
  /-- Queue a template, as one that the current source is the child of or not. -/
  | addSource (requested : String) (skipped : Option String) (asChild : Bool)
  | pending
  /-- Which template was the session started for? -/
  | template
  | find (requested : String) (skipped : Option String)
  | insertFile (requested : String)
  | insertArtifact (path : Path)
  | addDestination (name : String) (temporary : Bool)
  | removeDestination (name : String)
  | destination (name : String)
  | main
  | setMainPaused (paused : Bool)
  /-- Pause all destinations, and remember the flags that were set before. -/
  | pauseAll
  /-- Put back the flags remembered last. -/
  | restore
  deriving DecidableEq, Repr

/-- What a call answers. -/
inductive Reply where
  | nothing
  | flag (value : Bool)
  | number (value : Nat)
  | text (value : String)
  | expr (value : Code.Expr)
  | variable (value : Variable)
  | tag (value : Tag)
  | data (value : FrameData)
  | frames (depth : Nat) (innermost : Option String)
  /-- A source, and what the source that extended it was asked for as. -/
  | source (value : Source) (child : Option String)
  | found (value : Option Found)
  | destination (value : Option Destination)
  deriving DecidableEq, Repr

/-- An entry of the journal. -/
inductive Entry where
  /-- The handler of a tag was called. -/
  | tagCalled (tag : Tag)
  /-- The handler of a filter was called. -/
  | filterCalled (filter : FilterCall) (position : Nat)
  | answered (call : Call) (reply : Reply)
  | failed (call : Call) (error : CompileError)
  deriving DecidableEq, Repr

/-- What the scripts of a library remember. -/
structure Journal where
  entries : List Entry := []
  /-- The pause flags to be put back, the last ones first. -/
  pauses : List PauseState := []
  deriving DecidableEq, Repr

/-- A call, and whether the script goes on if it fails. -/
structure ScriptStep where
  call : Call
  attempt : Bool
  deriving DecidableEq, Repr

/-- The calls of a handler, in order. -/
abbrev Script := List ScriptStep

namespace Script

/-- Changes the journal. -/
def updateJournal (f : Journal → Journal) : Action Journal PUnit :=
  modify fun run => { run with memory := f run.memory }

/-- Makes a call and gives what it answers. -/
def answer (dispatch : Dispatch Journal) : Call → Action Journal Reply
  | .resolve text escape => .expr <$> Action.reading fun scene => scene.resolve text escape
  | .variable text asParameter prepare write => do
    let v ← Action.reading fun scene =>
      if asParameter then Variable.parameter scene text else Variable.interpolation scene text
    if prepare then v.prepare dispatch
    if write then v.write dispatch
    pure (.variable v)
  | .tag name text write => do
    let tag ← Action.reading fun scene => Tag.read scene name text
    if write then tag.write dispatch
    pure (.tag tag)
  | .write text => do
    Action.write text
    pure .nothing
  | .error message => Action.misuse message
  | .warning message => do
    Action.warn message
    return .number (← Action.session).warnings.length
  | .slot => return .text (Code.slotName (← Action.nextSlot))
  | .location => return .text (← Action.location).render
  | .push tag data => do
    Action.push tag data
    pure .nothing
  | .pop tag shape => .data <$> Action.pop tag shape.view
  | .peek tag shape => .data <$> Action.peek tag shape.view
  | .frames => do
    let hierarchy := (← Action.source).hierarchy
    pure (.frames hierarchy.depth hierarchy.top?)
  | .source => do
    let source ← Action.source
    let child := source.child.bind (← Action.session).origin?
    pure (.source source (child.map (·.requested)))
  | .setSourcePaused paused => do
    Action.updateSource fun source => { source with paused }
    pure .nothing
  | .setReading reading => do
    Action.updateSource fun source => { source with reading }
    pure .nothing
  | .setExtended template => do
    Action.updateSource fun source => { source with extended := some template }
    pure .nothing
  | .addSource requested skipped asChild => do
    let source ← Action.source
    let id ← Action.addSource requested skipped (if asChild then some source.id else none)
    pure (.flag id.isSome)
  | .pending => return .number (← Action.session).pending
  | .template => return .text (← Action.session).template
  | .find requested skipped => .found <$> Action.find requested skipped
  | .insertFile requested => do
    Action.ofSession (Session.insertFile requested)
    pure .nothing
  | .insertArtifact path => do
    Action.ofSession (Session.insertArtifact path)
    pure .nothing
  | .addDestination name temporary =>
    .flag <$> Action.ofSession (Session.addDestination name temporary)
  | .removeDestination name => do
    let (removed, session) := (← Action.session).removeDestination name
    Action.updateSession fun _ => session
    pure (.flag removed)
  | .destination name => return .destination ((← Action.session).destination? name)
  | .main => return .destination (some (← Action.session).main)
  | .setMainPaused paused => do
    Action.updateSession (·.setMainPaused paused)
    pure .nothing
  | .pauseAll => do
    let state ← Action.pauseAll
    updateJournal fun journal => { journal with pauses := state :: journal.pauses }
    return .number (← get).memory.pauses.length
  | .restore => do
    match (← get).memory.pauses with
    | [] => pure (.flag false)
    | state :: pauses =>
      updateJournal fun journal => { journal with pauses }
      Action.updateSession (·.restore state)
      pure (.flag true)

/-- The run with one more entry in its journal. -/
def note (run : Run Journal) (entry : Entry) : Run Journal :=
  { run with memory := { run.memory with entries := run.memory.entries ++ [entry] } }

/-- Makes the call of a step and enters its outcome. -/
def perform (dispatch : Dispatch Journal) (step : ScriptStep) : Action Journal PUnit := fun run =>
  match (answer dispatch step.call).run run with
  | .ok reply run => .ok ⟨⟩ (note run (.answered step.call reply))
  | .error error run =>
    let run := note run (.failed step.call error)
    if step.attempt then .ok ⟨⟩ run else .error error run

/-- Performs the steps of a script. -/
def performAll (dispatch : Dispatch Journal) (script : Script) : Action Journal PUnit :=
  script.forM (perform dispatch)

/-- The handler of a tag that runs a script. -/
def onTag (script : Script) (dispatch : Dispatch Journal) : TagHandler Journal := fun tag => do
  modify (note · (.tagCalled tag))
  performAll dispatch script

/-- The handler of a filter that runs a script. -/
def onFilter (script : Script) (dispatch : Dispatch Journal) : FilterHandler Journal :=
  fun filter position => do
    modify (note · (.filterCalled filter position))
    performAll dispatch script

end Script

end TemplateCompiler
