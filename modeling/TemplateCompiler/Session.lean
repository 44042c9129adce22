import TemplateCompiler.ArtifactCache
import TemplateCompiler.SearchPath
import TemplateCompiler.Source

/-!
# Sessions

A session compiles one template. Sources wait for their turn, and what they write goes to every
destination that is open: the main artifact and any number of extra ones. An operation that cannot
fail is a function on sessions; one that can is a `SessionM`, which keeps what was done before it
failed.
-/
namespace TemplateCompiler

/-- What a compile consults and does not change. -/
structure Workspace where
  options : Options
  shelf : Shelf
  searchPath : SearchPath
  cache : ArtifactCache
  deriving Repr

/-- The workspace of a project whose templates are on the given shelf. -/
def Workspace.ofSettings (settings : Settings) (project : Path) (shelf : Shelf) : Workspace :=
  let cache := settings.cacheRoot project
  { options := .ofSettings settings
    shelf
    searchPath := .forProject project settings.plugins settings.systemPlugins cache
    cache := ⟨cache⟩ }

/-- Looks a template up along the search path, past the level to be skipped. -/
def Workspace.find (workspace : Workspace) (disk : Disk) (requested : String)
    (skipped : Option String) : Except CompileError (Option Found) :=
  (workspace.searchPath.find (workspace.shelf.has disk) requested skipped).mapError .invalidPath

/-- The compile of one template. -/
structure Session where
  /-- What tells this session's block artifacts from those of others. -/
  id : String
  workspace : Workspace
  template : String
  disk : Disk
  main : Destination
  /-- The extra destinations that are open, the one opened first at the front. -/
  others : List Destination := []
  /-- Where each source came from, by its number. -/
  catalog : List Origin := []
  /-- The sources that have not had their turn. -/
  waiting : List Source := []
  /-- The sources that stopped before their end. -/
  halted : List Source := []
  /-- The artifacts to be deleted if the session succeeds. -/
  leftovers : List Path := []
  warnings : List Warning := []
  /-- How many parameter slots have been handed out. -/
  slots : Nat := 0
  /-- How many sources have been read to their end. -/
  drained : Nat := 0
  deriving Repr

/-- An operation on a session that may fail. -/
abbrev SessionM := EStateM CompileError Session

namespace Session

/-! ### Writing -/

/-- Writes bytes to the main artifact and then to the extra ones. -/
def write (session : Session) (piece : Bytes) : Session :=
  let (main, disk) := session.main.write session.disk piece
  let (others, disk) := Destination.writeAll disk piece session.others
  { session with main, others, disk }

/-- Writes a text line by line. -/
def copy (session : Session) (text : Bytes) : Session :=
  (Bytes.lines text).foldl write session

/-- Adds a warning after the earlier ones. -/
def warn (session : Session) (warning : Warning) : Session :=
  { session with warnings := session.warnings ++ [warning] }

/-- The number of the next parameter slot, which is then taken. -/
def nextSlot (session : Session) : Nat × Session :=
  (session.slots, { session with slots := session.slots + 1 })

/-! ### Destinations -/

/-- The extra destination of the given name. -/
def destination? (session : Session) (name : String) : Option Destination :=
  session.others.find? (·.name == name)

/-- Closes the extra destination of the given name, if it is open. A temporary artifact stays on
the disk until the session succeeds. -/
def removeDestination (session : Session) (name : String) : Bool × Session :=
  match session.destination? name with
  | none => (false, session)
  | some d =>
    (true, { session with
      others := session.others.eraseP (·.name == name)
      disk := d.close session.disk
      leftovers := session.leftovers ++ d.leftover?.toList })

/-- The path of the artifact `name`, temporary or finished. -/
def artifactPath (session : Session) (name : String) (temporary : Bool) :
    Except CompileError Path :=
  let cache := session.workspace.cache
  (if temporary then cache.tempPath name else cache.compiledPath name).mapError .invalidPath

/-- Opens an extra destination in the stead of one of the same name, and says whether its artifact
was there already. -/
def addDestination (name : String) (temporary : Bool) : SessionM Bool := do
  let path ← MonadExcept.ofExcept ((← get).artifactPath name temporary)
  modify fun session => (session.removeDestination name).2
  let session ← get
  let (d, disk) ← MonadExcept.ofExcept (Destination.open? session.disk name path temporary)
  set { session with others := session.others ++ [d], disk }
  pure d.existed

/-- Sets whether the main artifact drops what is written. -/
def setMainPaused (session : Session) (paused : Bool) : Session :=
  { session with main := session.main.setPaused paused }

/-- The pause flags of all destinations. -/
def pauseState (session : Session) : PauseState :=
  ⟨session.main.paused, session.others.map fun d => (d.name, d.paused)⟩

/-- Pauses every destination, and gives the flags that were set before. -/
def pauseAll (session : Session) : PauseState × Session :=
  (session.pauseState,
    { session with
      main := session.main.setPaused true
      others := session.others.map (·.setPaused true) })

/-- Gives `d` the flag that `flags` has for its name, if there is one. -/
def restoreFlag (flags : List (String × Bool)) (d : Destination) : Destination :=
  match flags.lookup d.name with
  | some paused => d.setPaused paused
  | none => d

/-- Puts flags back. A destination that was opened since then keeps its own flag. -/
def restore (session : Session) (state : PauseState) : Session :=
  { session with
    main := session.main.setPaused state.main
    others := session.others.map (restoreFlag state.others) }

/-! ### Sources -/

/-- Looks a template up, past the level to be skipped. -/
def find (session : Session) (requested : String) (skipped : Option String) :
    Except CompileError (Option Found) :=
  session.workspace.find session.disk requested skipped

/-- Enters a source in the catalog. -/
def register (session : Session) (origin : Origin) : Source × Session :=
  ({ toOrigin := origin, id := session.catalog.length },
    { session with catalog := session.catalog ++ [origin] })

/-- Where the source of a number came from. -/
def origin? (session : Session) (id : SourceId) : Option Origin :=
  session.catalog[id]?

/-- Finds a template and enters it in the catalog. -/
def openSource (requested : String) (skipped : Option String) (child : Option SourceId) :
    SessionM Source := do
  match ← MonadExcept.ofExcept ((← get).find requested skipped) with
  | none => throw (.templateNotFound requested skipped)
  | some found => modifyGet (·.register ⟨requested, found.path, found.level, skipped, child⟩)

/-- How many sources are queued: those that wait and those that stopped. -/
def pending (session : Session) : Nat :=
  session.waiting.length + session.halted.length

/-- Whether a source stands for the given request. -/
def isFor (requested : String) (skipped : Option String) (origin : Origin) : Bool :=
  origin.requested == requested && origin.skipped == skipped

/-- Queues a template, slashes around its name set aside. If a queued source or the active one
stands for the same request already, nothing is queued. -/
def addSource (active : Option Origin) (requested : String) (skipped : Option String)
    (child : Option SourceId) : SessionM (Option SourceId) := do
  let requested := Text.trimSlashes requested
  let session ← get
  let queued := (session.waiting ++ session.halted).map (·.toOrigin)
  if (queued ++ active.toList).any (isFor requested skipped) then pure none
  else
    let source ← openSource requested skipped child
    modify fun session => { session with waiting := session.waiting ++ [source] }
    pure (some source.id)

/-- The text of a source as it is now. -/
def textOf (session : Session) (source : Source) : Bytes :=
  (session.workspace.shelf.read? session.disk source.path).getD []

/-- Copies a template into the destinations as it is. -/
def insertFile (requested : String) : SessionM PUnit := do
  let source ← openSource (Text.trimSlashes requested) none none
  modify fun session => session.copy (session.textOf source)

/-- Copies an artifact into the destinations as it is. Artifacts are always on the disk, wherever
templates are. -/
def insertArtifact (path : Path) : SessionM PUnit := do
  match (← get).disk.read? path with
  | none => throw (.unreadable path)
  | some text =>
    modify fun session => (session.register ⟨path.text, path, "artifact", none, none⟩).2.copy text

/-! ### Beginning and end -/

/-- A session that compiles `template` into the artifact `destination`. The template is looked up
first, so that a failure leaves the artifact of an earlier session as it was. -/
def start (workspace : Workspace) (id template destination : String) :
    EStateM CompileError Disk Session := do
  let template := Text.trimSlashes template
  match ← MonadExcept.ofExcept (workspace.find (← get) template none) with
  | none => throw (.templateNotFound template none)
  | some _ =>
    let path ← MonadExcept.ofExcept
      ((workspace.cache.compiledPath destination).mapError .invalidPath)
    let (main, disk) ← MonadExcept.ofExcept (Destination.open? (← get) destination path false)
    set disk
    match (addSource none template none none).run { id, workspace, template, disk, main } with
    | .ok _ session => pure session
    | .error error _ => throw error

/-- The disk after the main artifact and then the extra ones have been closed. -/
def closeAll (session : Session) : Disk :=
  session.others.foldl (fun disk d => d.close disk) (session.main.close session.disk)

/-- The disk after a session that failed: what was written is there, and nothing is deleted. -/
def abandon (session : Session) : Disk :=
  session.closeAll

/-- Every temporary artifact of a session. -/
def allLeftovers (session : Session) : List Path :=
  session.leftovers ++ session.others.filterMap (·.leftover?)

/-- The disk after a session that succeeded: the temporary artifacts and the directory of its
blocks are deleted. -/
def finish (session : Session) : Disk :=
  let disk := session.allLeftovers.foldl Disk.removeFile session.closeAll
  let blocks := session.workspace.cache.blockDir session.id
  if disk.isDirectory blocks then disk.removeTree blocks else disk

end Session

end TemplateCompiler
