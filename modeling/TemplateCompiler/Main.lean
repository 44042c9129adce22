import TemplateCompiler.CommandLine

/-!
# The program

Reads the files that a run may need, runs the command line on them, and writes back what changed.
-/
namespace TemplateCompiler.Main

/-- How deep directories are followed. -/
def depthLimit : Nat := 64

/-- The names in a directory, or none if there is no directory. -/
def namesIn? (path : String) : IO (Option (List String)) := do
  try
    let found ← (← IO.FS.realPath path).readDir
    pure (some (found.toList.map (·.fileName)))
  catch _ => pure none

/-- Adds what stands at `path`, and everything below it, to a disk. -/
def load : Nat → Path → Disk → IO Disk
  | 0, _, disk => pure disk
  | depth + 1, path, disk => do
    match ← namesIn? path.text with
    | some names =>
      let disk := ((disk.makeDirectories path.parts).map (·.1)).getD disk
      names.foldlM (fun disk name => load depth (path.join name) disk) disk
    | none =>
      try
        let content ← IO.FS.readBinFile path.text
        pure ((disk.writeFile path content.toList).getD disk)
      catch _ => pure disk

/-- The path of a place. -/
def pathOf (place : Place) : Path :=
  ⟨"/" ++ String.intercalate "/" place⟩

/-- Writes the files that are new or changed, and removes those that are gone. -/
def store (before after : Disk) : IO Unit := do
  for (place, content) in after.filesBelow [] do
    if before.contentAt? place != some content then
      IO.FS.createDirAll (pathOf place.dropLast).text
      IO.FS.writeBinFile (pathOf place).text content.toByteArray
  for (place, _) in before.filesBelow [] do
    if (after.contentAt? place).isNone then
      IO.FS.removeFile (pathOf place).text

/-- Where the user's settings are. -/
def userDirectory : IO Path := do
  match ← IO.getEnv "XDG_CONFIG_HOME" with
  | some directory => if directory.startsWith "/" then return ⟨directory⟩
  | none => pure ()
  let home ← IO.getEnv "HOME"
  return (Path.mk (home.getD "/")).join ".config"

/-- Adds the directories that a request names to a disk. -/
def loadFor (arguments : List String) (directory user : Path) : IO Disk := do
  let disk ← load depthLimit (user.join "tplc") .empty
  match CommandLine.Request.read arguments with
  | .error _ => pure disk
  | .ok request =>
    try
      let project ← IO.FS.realPath (directory.join request.project).text
      let project : Path := ⟨project.toString⟩
      let disk ← load depthLimit project disk
      match Settings.load disk user project with
      | .ok settings => load depthLimit (settings.cacheRoot project) disk
      | .error _ => pure disk
    catch _ => pure disk

end TemplateCompiler.Main

open TemplateCompiler in
/-- Runs the command line and gives its exit status. -/
def main (arguments : List String) : IO UInt32 := do
  let directory : Path := ⟨(← IO.currentDir).toString⟩
  let user ← TemplateCompiler.Main.userDirectory
  let disk ← TemplateCompiler.Main.loadFor arguments directory user
  let start ← IO.monoNanosNow
  let environment : CommandLine.Environment :=
    { directory, userDirectory := user
      session := fun n => toString start ++ "-" ++ toString n }
  let outcome := CommandLine.run environment disk arguments
  TemplateCompiler.Main.store disk outcome.disk
  IO.print outcome.output
  IO.eprint outcome.errors
  pure outcome.exit.toUInt32
