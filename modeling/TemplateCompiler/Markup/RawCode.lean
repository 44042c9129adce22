import TemplateCompiler.Code.Statement
import TemplateCompiler.Text.Utf8

/-!
# Raw code markers

A template must not open code of its own. A line with an executable marker (`<?php`, `<? `, `<% `
or one at the end of its line) is refused; any other `<?name` or `<%name` is replaced by a segment
that prints it. `RawCode.pieces` finds the markers, `RawCode.check` replaces them.
-/
namespace TemplateCompiler.Markup.RawCode

/-- Part of a line: a byte that is no part of a marker, or a whole marker. -/
inductive Piece where
  | byte (b : UInt8)
  | marker (text : Bytes)
  deriving DecidableEq

/-- The bytes of the line that a piece stands for. -/
def Piece.source : Piece → Bytes
  | byte b => [b]
  | marker text => text

/-- What a piece becomes: a marker is printed by a segment of its own. -/
def Piece.defused : Piece → Bytes
  | byte b => [b]
  | marker text => Utf8.encode (Code.Statement.print (Utf8.decode text)).render

/-- Whether the piece is a marker. -/
def Piece.isMarker : Piece → Bool
  | byte _ => false
  | marker _ => true

/-- Two bytes that start a marker: `<?` or `<%`. -/
def startsMarker (first : UInt8) (second : Option UInt8) : Bool :=
  first == 0x3c && (second == some 0x3f || second == some 0x25)

/-- What makes a marker executable when it follows it: `php`, a space or a line feed. -/
def isExecutable (after : Bytes) : Bool :=
  [0x70, 0x68, 0x70].isPrefixOf after || after.head? == some 0x20 || after.head? == some 0x0a

theorem length_dropWhile_tail_lt (p : UInt8 → Bool) (b : UInt8) (rest : Bytes) :
    (rest.tail.dropWhile p).length < (b :: rest).length := by
  have h1 := (List.dropWhile_sublist (l := rest.tail) p).length_le
  have h2 : rest.tail.length ≤ rest.length := by simp
  simp only [List.length_cons]
  omega

/-- The pieces of a line whose first byte has the given offset, or the offset of its first
executable marker. -/
def pieces (offset : Nat) : Bytes → Except Nat (List Piece)
  | [] => .ok []
  | b :: rest =>
    if startsMarker b rest.head? then
      if isExecutable rest.tail then .error offset
      else
        let letters := rest.tail.takeWhile Byte.isLetter
        (pieces (offset + 2 + letters.length) (rest.tail.dropWhile Byte.isLetter)).map
          (.marker (b :: (rest.take 1 ++ letters)) :: ·)
    else (pieces (offset + 1) rest).map (.byte b :: ·)
termination_by line => line.length
decreasing_by
  · exact length_dropWhile_tail_lt Byte.isLetter b rest
  · exact Nat.lt_succ_self rest.length

/-- What a line holds. -/
inductive Verdict where
  /-- An executable marker at this offset. -/
  | executable (offset : Nat)
  /-- No marker at all. -/
  | clean
  /-- Markers, which this line prints instead. -/
  | defused (line : Bytes)
  deriving DecidableEq

/-- Judges a line by its pieces. -/
def check (line : Bytes) : Verdict :=
  match pieces 0 line with
  | .error offset => .executable offset
  | .ok found => if found.any Piece.isMarker then .defused (found.flatMap Piece.defused) else .clean

end TemplateCompiler.Markup.RawCode
