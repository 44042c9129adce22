import TemplateCompiler.Text.Blank

/-!
# Paths

Paths are texts whose parts are separated by slashes. `Path.clean` resolves `.` and `..` without
looking at a disk, and `Path.below` joins a requested name onto a base directory and refuses every
name that would leave it. Two paths are the same if they have the same parts, however they are
spelled.
-/
namespace TemplateCompiler

/-- A path as it is written. -/
structure Path where
  text : String
  deriving DecidableEq, Repr, Inhabited

namespace Path

/-- A part of a path. -/
inductive Part where
  /-- The leading slash. -/
  | root
  /-- A leading `.`; elsewhere a `.` is no part. -/
  | here
  /-- `..` -/
  | up
  | name (text : String)
  deriving DecidableEq, Repr

/-- The part that a piece between slashes stands for; an empty piece and `.` stand for none. -/
def Part.ofPiece (piece : List Char) : Option Part :=
  if piece = [] ∨ piece = ['.'] then none
  else if piece = ['.', '.'] then some .up
  else some (.name (String.ofList piece))

/-- Whether a path starts at the root. -/
def isAbsolute (path : Path) : Bool :=
  path.text.toList.head? == some '/'

/-- The pieces between the slashes, empty ones included. -/
def pieces (path : Path) : List (List Char) :=
  path.text.toList.splitOn '/'

/-- The parts of a path. Repeated and trailing slashes and inner `.` pieces leave no trace. -/
def parts (path : Path) : List Part :=
  let rest := path.pieces.filterMap Part.ofPiece
  if path.isAbsolute then .root :: rest
  else if path.pieces.head? = some ['.'] then .here :: rest
  else rest

/-- The text of a part, the root being written by the slash that follows it. -/
def Part.text : Part → String
  | root => ""
  | here => "."
  | up => ".."
  | name text => text

/-- The path with the given parts, one slash between two of them. -/
def ofParts : List Part → Path
  | [.root] => ⟨"/"⟩
  | parts => ⟨String.intercalate "/" (parts.map Part.text)⟩

/-- Whether two paths have the same parts. -/
def same (a b : Path) : Bool :=
  a.parts == b.parts

/-- Whether the parts of `base` begin those of `path`. -/
def startsWith (path base : Path) : Bool :=
  base.parts.isPrefixOf path.parts

/-- `path` seen from `base`: an absolute path stands for itself, any other follows after a slash. -/
def join (base : Path) (path : String) : Path :=
  if path.toList.head? = some '/' ∨ base.text = "" then ⟨path⟩
  else if base.text.toList.getLast? = some '/' then ⟨base.text ++ path⟩
  else ⟨base.text ++ "/" ++ path⟩

/-! ### Cleaning -/

/-- Adds a part to a cleaned path, whose parts are given from the last to the first. -/
def pushPart (reversed : List Part) (part : Part) : List Part :=
  match part, reversed with
  | .here, _ => reversed
  | .up, .root :: _ => reversed
  | .up, .name _ :: rest => rest
  | _, _ => part :: reversed

/-- The parts that remain once `.` and `..` are resolved; `..` at the root stays there. -/
def cleanParts (parts : List Part) : List Part :=
  (parts.foldl pushPart []).reverse

/-- Resolves `.` and `..` lexically. A path with no parts left is the current directory. -/
def clean (path : Path) : Path :=
  match cleanParts path.parts with
  | [] => ⟨"."⟩
  | parts => ofParts parts

/-! ### Names below a base -/

/-- Why a requested name has no place below a base. -/
inductive Refusal where
  | outsideBase (base : Path) (attempted : String) (resolved : Path)
  | empty (base : Path)
  deriving DecidableEq, Repr

/-- The wording of a refusal. -/
def Refusal.message : Refusal → String
  | outsideBase base attempted resolved =>
    "Path '" ++ attempted ++ "' would resolve to '" ++ resolved.text
      ++ "' which is outside base '" ++ base.text ++ "'"
  | empty base => "Empty path requested below '" ++ base.text ++ "'"

/-- The cleaned path of `name` below `base`, slashes around the name set aside. A name that leads
to the base itself or out of it is refused. -/
def below (base : Path) (name : String) : Except Refusal Path :=
  let trimmed := Text.trimSlashes name
  if trimmed = "" then .error (.empty base)
  else
    let base := base.clean
    let cleaned := (base.join trimmed).clean
    if cleaned.startsWith base && !cleaned.same base then .ok cleaned
    else .error (.outsideBase base name cleaned)

end Path

end TemplateCompiler
