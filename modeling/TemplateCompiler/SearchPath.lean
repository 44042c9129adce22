import TemplateCompiler.Disk

/-!
# The search path

Templates are looked up along an ordered list of roots, each with the level it belongs to. An
earlier root shadows a later one, which is how a project overrides a plugin's template and a plugin
the system's. A look-up may skip every root up to a named level, so that a template can extend the
next template of its own name.
-/
namespace TemplateCompiler

/-- Where template files are read from. -/
inductive Shelf where
  /-- The disk itself, artifacts included. -/
  | onDisk
  /-- A fixed set of files, whatever is on the disk. -/
  | inMemory (files : List (Path × Bytes))
  deriving DecidableEq, Repr

namespace Shelf

/-- The content of the template file at `path`. -/
def read? (shelf : Shelf) (disk : Disk) (path : Path) : Option Bytes :=
  match shelf with
  | onDisk => disk.read? path
  | inMemory files => (files.find? fun (p, _) => p.same path).map (·.2)

/-- Whether there is a template file at `path`. -/
def has (shelf : Shelf) (disk : Disk) (path : Path) : Bool :=
  (shelf.read? disk path).isSome

end Shelf

/-- A directory that templates are looked up in, and the level it belongs to. -/
structure SearchRoot where
  level : String
  dir : Path
  deriving DecidableEq, Repr

/-- A root at the cleaned `dir`. -/
def SearchRoot.of (level : String) (dir : Path) : SearchRoot :=
  ⟨level, dir.clean⟩

/-- A template that was found, and the level it was found at. -/
structure Found where
  path : Path
  level : String
  deriving DecidableEq, Repr

/-- The roots, in the order in which they are searched. -/
abbrev SearchPath := List SearchRoot

namespace SearchPath

/-- The layout of a project: its own views, those of its plugins, the system's views, those of the
system plugins, and last the two artifact directories. -/
def forProject (project : Path) (plugins systemPlugins : List String) (cache : Path) : SearchPath :=
  [.of "local" (project.join "app/view")]
    ++ plugins.map (fun p => .of p (((project.join "plugins").join p).join "view"))
    ++ [.of "system" (project.join "system/app/view")]
    ++ systemPlugins.map (fun s => .of s (((project.join "system/plugins").join s).join "view"))
    ++ [.of "temp_block" (cache.join "temp"), .of "compiled" (cache.join "view")]

/-- The first root of a level. -/
def root? (roots : SearchPath) (level : String) : Option SearchRoot :=
  roots.find? (·.level == level)

/-- What is still to be skipped after a root of the given level. -/
def skipAfter (skipping : Option String) (level : String) : Option String :=
  if skipping = some level then none else skipping

/-- Finds `requested` below the first root that has it. While a level is being skipped, roots are
passed over up to and including the first one of that level; even a root that is passed over
refuses a name that would leave it. -/
def find (isThere : Path → Bool) (requested : String) :
    Option String → SearchPath → Except Path.Refusal (Option Found)
  | _, [] => .ok none
  | skipping, root :: rest =>
    match root.dir.below requested with
    | .error refusal => .error refusal
    | .ok candidate =>
      if skipping.isNone && isThere candidate then .ok (some ⟨candidate, root.level⟩)
      else find isThere requested (skipAfter skipping root.level) rest

end SearchPath

end TemplateCompiler
