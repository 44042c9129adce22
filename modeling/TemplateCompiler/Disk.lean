import TemplateCompiler.Path
import TemplateCompiler.Text.Utf8

/-!
# The disk

A disk maps places to files and directories, a place being the names on the way from the root.
`get?_set_self` and `get?_set_ne` say what a write changes. Paths are walked name by name, and only
a directory can be walked on from, so `a/..` is no place unless `a` is a directory.
-/
namespace TemplateCompiler

/-- The names on the way from the root to a file or directory. -/
abbrev Place := List String

/-- Places in the order of a walk that goes depth first and takes siblings by name. -/
def Place.le : Place → Place → Bool
  | [], _ => true
  | _ :: _, [] => false
  | a :: as, b :: bs => if a = b then Place.le as bs else decide (a < b)

/-- What stands at a place. -/
inductive Node where
  | file (content : Bytes)
  | directory
  deriving DecidableEq, Repr

/-- What stands where. The root is always a directory. -/
structure Disk where
  entries : List (Place × Node)
  deriving DecidableEq, Repr

namespace Disk

/-- Nothing but the root. -/
def empty : Disk := ⟨[]⟩

/-- What stands at a place. -/
def get? (disk : Disk) (place : Place) : Option Node :=
  if place = [] then some .directory else disk.entries.lookup place

/-- Puts `node` at `place`, in the stead of what stood there. -/
def setEntry (place : Place) (node : Node) : List (Place × Node) → List (Place × Node)
  | [] => [(place, node)]
  | (p, n) :: rest => if p = place then (p, node) :: rest else (p, n) :: setEntry place node rest

/-- The disk with `node` at `place`. -/
def set (disk : Disk) (place : Place) (node : Node) : Disk :=
  ⟨setEntry place node disk.entries⟩

theorem lookup_setEntry (place other : Place) (node : Node) (entries : List (Place × Node)) :
    (setEntry place node entries).lookup other =
      if other = place then some node else entries.lookup other := by
  induction entries with
  | nil =>
    by_cases h : other = place
    · simp [setEntry, h]
    · simp [setEntry, List.lookup_cons, h, beq_false_of_ne h]
  | cons entry rest ih =>
    obtain ⟨p, n⟩ := entry
    by_cases hp : p = place
    · subst hp
      by_cases h : other = p
      · simp [setEntry, h]
      · simp [setEntry, List.lookup_cons, h, beq_false_of_ne h]
    · by_cases h : other = p
      · subst h
        simp [setEntry, hp]
      · simp [setEntry, List.lookup_cons, hp, beq_false_of_ne h, ih]

theorem get?_set_self (disk : Disk) {place : Place} (node : Node) (h : place ≠ []) :
    (disk.set place node).get? place = some node := by
  simp [get?, set, h, lookup_setEntry]

theorem get?_set_ne (disk : Disk) {place other : Place} (node : Node) (h : other ≠ place) :
    (disk.set place node).get? other = disk.get? other := by
  simp [get?, set, h, lookup_setEntry]

/-- The disk without the places that satisfy `p`. -/
def erase (disk : Disk) (p : Place → Bool) : Disk :=
  ⟨disk.entries.filter fun (place, _) => !p place⟩

/-- Whether a directory stands at a place. -/
def isDirectoryAt (disk : Disk) (place : Place) : Bool :=
  disk.get? place == some .directory

/-- The content of the file at a place. -/
def contentAt? (disk : Disk) (place : Place) : Option Bytes :=
  match disk.get? place with
  | some (.file content) => some content
  | _ => none

/-! ### Walking paths -/

/-- One step of a walk: an empty piece and `.` stay, `..` goes up, a name goes down. -/
def walk (disk : Disk) (place : Place) (piece : List Char) : Option Place :=
  if !disk.isDirectoryAt place then none
  else
    match Path.Part.ofPiece piece with
    | some (.name name) => some (place ++ [name])
    | some .up => some place.dropLast
    | _ => some place

/-- The place that a path leads to, whether or not something stands there. A path that does not
start at the root is walked from there nevertheless; the empty path leads nowhere. -/
def locate? (disk : Disk) (path : Path) : Option Place :=
  if path.text = "" then none else path.pieces.foldlM disk.walk []

/-- What a path leads to. -/
def find? (disk : Disk) (path : Path) : Option Node :=
  (disk.locate? path).bind disk.get?

/-- Whether a path leads to a regular file. -/
def isFile (disk : Disk) (path : Path) : Bool :=
  match disk.find? path with
  | some (.file _) => true
  | _ => false

/-- Whether a path leads to a directory. -/
def isDirectory (disk : Disk) (path : Path) : Bool :=
  disk.find? path == some .directory

/-- The content of the file that a path leads to. -/
def read? (disk : Disk) (path : Path) : Option Bytes :=
  match disk.find? path with
  | some (.file content) => some content
  | _ => none

/-! ### Writing -/

/-- A name that can be stored: it has no NUL and takes at most 255 bytes. -/
def isStorable (name : String) : Bool :=
  !name.toList.contains '\x00' && (Utf8.encode name).length ≤ 255

/-- Goes on to the directory that a part leads to, which is made if nothing stands there. A file
on the way is an obstacle. -/
def enter (state : Disk × Place) (part : Path.Part) : Option (Disk × Place) :=
  let (disk, place) := state
  match part with
  | .root | .here => some state
  | .up => some (disk, place.dropLast)
  | .name name =>
    let next := place ++ [name]
    match disk.get? next with
    | some .directory => some (disk, next)
    | some (.file _) => none
    | none => if isStorable name then some (disk.set next .directory, next) else none

/-- Makes every directory on the way along `parts`. -/
def makeDirectories (disk : Disk) (parts : List Path.Part) : Option (Disk × Place) :=
  parts.foldlM enter (disk, [])

/-- An empty file at `path`, in the stead of a file that stood there, with every directory above
it. There is none if a file is in the way or `path` leads to a directory. -/
def create (disk : Disk) (path : Path) : Option (Disk × Place) := do
  let (disk, _) ← disk.makeDirectories path.parts.dropLast
  let place ← disk.locate? path
  if disk.isDirectoryAt place then none
  else if place.getLast?.all isStorable then some (disk.set place (.file []), place)
  else none

/-- `content` with `piece` written over it from `position` on; a gap before it is filled with
zeros. -/
def overwrite (content : Bytes) (position : Nat) (piece : Bytes) : Bytes :=
  content.take position ++ List.replicate (position - content.length) 0 ++ piece
    ++ content.drop (position + piece.length)

theorem overwrite_length_self (content piece : Bytes) :
    overwrite content content.length piece = content ++ piece := by
  simp [overwrite]

/-- Writes into the file at `place`, if there is one. -/
def writeAt (disk : Disk) (place : Place) (position : Nat) (piece : Bytes) : Disk :=
  match disk.contentAt? place with
  | some content => disk.set place (.file (overwrite content position piece))
  | none => disk

/-- Puts a file with the given content at `path`, if one can stand there. -/
def writeFile (disk : Disk) (path : Path) (content : Bytes) : Option Disk :=
  (disk.create path).map fun (disk, place) => disk.writeAt place 0 content

/-- Removes the file that `path` leads to, if it leads to one. -/
def removeFile (disk : Disk) (path : Path) : Disk :=
  match disk.locate? path with
  | some place => if (disk.contentAt? place).isSome then disk.erase (· == place) else disk
  | none => disk

/-- Removes what `path` leads to and everything below it. -/
def removeTree (disk : Disk) (path : Path) : Disk :=
  match disk.locate? path with
  | some place => disk.erase place.isPrefixOf
  | none => disk

/-! ### Listing -/

/-- The files below a place, with the names from there on, in the order of a walk. -/
def filesBelow (disk : Disk) (place : Place) : List (Place × Bytes) :=
  let found := disk.entries.filterMap fun (p, node) =>
    match node with
    | .file content => if place.isPrefixOf p then some (p.drop place.length, content) else none
    | .directory => none
  found.mergeSort fun a b => Place.le a.1 b.1

end Disk

end TemplateCompiler
