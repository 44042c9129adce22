import TemplateCompiler.Diagnostics
import TemplateCompiler.Disk

/-!
# Destinations

A destination is one artifact being written. What is written is held back until enough has come
together, so the file lags behind until the destination is closed; `Writer.flush` brings it up to
date. A temporary artifact that is already there is left as it is.
-/
namespace TemplateCompiler

/-- How many bytes a destination holds back at most. -/
def holdLimit : Nat := 8192

/-- An open file and what has not reached it yet. -/
structure Writer where
  place : Place
  /-- Where in the file the next byte goes. -/
  position : Nat
  held : Bytes
  deriving DecidableEq, Repr

namespace Writer

/-- Sends `piece` to the file, past what is held. -/
def send (writer : Writer) (disk : Disk) (piece : Bytes) : Writer × Disk :=
  ({ writer with position := writer.position + piece.length },
    disk.writeAt writer.place writer.position piece)

/-- Sends what is held to the file. -/
def flush (writer : Writer) (disk : Disk) : Writer × Disk :=
  let (sent, disk) := writer.send disk writer.held
  ({ sent with held := [] }, disk)

/-- Writes `piece`: it is held if there is room for it, after what was held has been sent if need
be; a piece that would fill the room by itself is sent at once. -/
def write (writer : Writer) (disk : Disk) (piece : Bytes) : Writer × Disk :=
  let (writer, disk) :=
    if holdLimit < writer.held.length + piece.length then writer.flush disk else (writer, disk)
  if holdLimit ≤ piece.length then writer.send disk piece
  else ({ writer with held := writer.held ++ piece }, disk)

end Writer

/-- One artifact being written. -/
structure Destination where
  name : String
  path : Path
  /-- Absent if nothing is to be written: a temporary artifact was already there. -/
  writer : Option Writer
  /-- While set, what is written is dropped. -/
  paused : Bool
  /-- Whether the artifact is deleted when its session succeeds. -/
  temporary : Bool
  /-- Whether the artifact was there when the destination was opened. -/
  existed : Bool
  deriving DecidableEq, Repr

namespace Destination

/-- Opens `path` for writing, and empties it unless it is a temporary artifact that is there. -/
def open? (disk : Disk) (name : String) (path : Path) (temporary : Bool) :
    Except CompileError (Destination × Disk) :=
  let existed := disk.isFile path
  if existed && temporary then .ok (⟨name, path, none, false, temporary, existed⟩, disk)
  else
    match disk.create path with
    | some (disk, place) =>
      .ok (⟨name, path, some ⟨place, 0, []⟩, false, temporary, existed⟩, disk)
    | none => .error (.destinationOpen path)

/-- Writes `piece`, unless the destination is paused or keeps what was there. -/
def write (d : Destination) (disk : Disk) (piece : Bytes) : Destination × Disk :=
  match d.paused, d.writer with
  | false, some writer =>
    let (writer, disk) := writer.write disk piece
    ({ d with writer := some writer }, disk)
  | _, _ => (d, disk)

/-- The disk once everything written has reached it. -/
def close (d : Destination) (disk : Disk) : Disk :=
  match d.writer with
  | some writer => (writer.flush disk).2
  | none => disk

/-- The path to be deleted when the session succeeds. -/
def leftover? (d : Destination) : Option Path :=
  if d.temporary then some d.path else none

/-- Sets whether what is written is dropped. -/
def setPaused (d : Destination) (paused : Bool) : Destination :=
  { d with paused }

/-- Writes `piece` to each destination, in order. -/
def writeAll (disk : Disk) (piece : Bytes) : List Destination → List Destination × Disk
  | [] => ([], disk)
  | d :: rest =>
    let (d, disk) := d.write disk piece
    let (rest, disk) := writeAll disk piece rest
    (d :: rest, disk)

end Destination

/-- The pause flags of a session's destinations at some moment. -/
structure PauseState where
  main : Bool
  /-- The flags of the extra destinations, by name. -/
  others : List (String × Bool)
  deriving DecidableEq, Repr

end TemplateCompiler
