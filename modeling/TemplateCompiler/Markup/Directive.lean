import TemplateCompiler.Text.Quotes
import TemplateCompiler.Text.Utf8

/-!
# Directives

A directive is an opener (`{{` or `{%`), optional spaces, a name, a blob of parameter text and a
closer. Lines are read as bytes and only the text of a directive is decoded. A closer inside quotes
does not count, and a directive that reaches the end of its line is still reported.

`Directive.all` lists the directives of a line from left to right; `Directive.findMarker?` looks
for one given tag in text whose own quotes and braces mean nothing.
-/
namespace TemplateCompiler.Markup

/-- What a directive does: run a tag, or write a variable. -/
inductive Kind where
  | tag
  | variable
  deriving DecidableEq, Repr

/-- How a directive ended. -/
inductive Closer where
  /-- `%}` -/
  | tag
  /-- `}}` -/
  | variable
  /-- The line ran out first. -/
  | lineEnd
  deriving DecidableEq, Repr

/-- How many bytes the closer takes; a line break is not part of a directive. -/
def Closer.width : Closer → Nat
  | .tag => 2
  | .variable => 2
  | .lineEnd => 0

/-- One directive of a line, its extent given as byte offsets into the line. -/
structure Directive where
  start : Nat
  stop : Nat
  opener : Kind
  closer : Closer
  name : String
  /-- The text after the name, without blanks at its ends. -/
  params : String
  /-- All the text between opener and closer, without blanks at its ends. -/
  content : String
  start_lt_stop : start < stop

namespace Directive

/-- The closer decides what a directive is; without one it is what its opener promised. -/
def kind (d : Directive) : Kind :=
  match d.closer with
  | .tag => .tag
  | .variable => .variable
  | .lineEnd => d.opener

/-- Whether a closer was found. -/
def isTerminated (d : Directive) : Bool :=
  d.closer != .lineEnd

/-- The bytes a name is made of: letters, digits, apostrophe, underscore, `#` and the point. -/
def isNameByte (b : UInt8) : Bool :=
  Byte.isLetter b || Byte.isDigit b || b == 0x27 || b == 0x5f || b == 0x23 || b == 0x2e

/-- Drops leading spaces; other blanks stay. -/
def skipSpaces (line : Bytes) : Bytes :=
  line.dropWhile (· == 0x20)

/-- A line ends at its end, at a line feed, or at a carriage return and line feed. -/
def atLineEnd : Bytes → Bool
  | [] => true
  | b :: rest => b == 0x0a || (b == 0x0d && rest.head? == some 0x0a)

/-- The blob before the closer, and the closer, where `quote` is the quote open now. The end of the
line ends the blob even inside quotes. -/
def blob (quote : Option UInt8) : Bytes → Bytes × Closer
  | [] => ([], .lineEnd)
  | b :: rest =>
    if atLineEnd (b :: rest) then ([], .lineEnd)
    else if quote.isNone && b == 0x25 && rest.head? == some 0x7d then ([], .tag)
    else if quote.isNone && b == 0x7d && rest.head? == some 0x7d then ([], .variable)
    else
      let (more, closer) := blob (Text.quoteAfter Byte.isQuote quote b) rest
      (b :: more, closer)

/-- The quote left open by a name: an apostrophe, if the name has an odd number of them. -/
def quoteOfName (name : Bytes) : Option UInt8 :=
  if name.count 0x27 % 2 = 1 then some 0x27 else none

/-- Reads a directive whose opener stands at `start`, `text` being what follows the opener. There
is none without a name. -/
def read? (start : Nat) (opener : Kind) (text : Bytes) : Option Directive :=
  let spaces := text.length - (skipSpaces text).length
  let name := (skipSpaces text).takeWhile isNameByte
  if name.isEmpty then none
  else
    let (blob, closer) := blob (quoteOfName name) ((skipSpaces text).dropWhile isNameByte)
    some {
      start
      stop := start + 2 + spaces + name.length + blob.length + closer.width
      opener
      closer
      name := Utf8.decode name
      params := Utf8.decode (Bytes.trim blob)
      content := Utf8.decode (Bytes.trimEnd (name ++ blob))
      start_lt_stop := by omega }

theorem start_eq_of_read? {start : Nat} {opener : Kind} {text : Bytes} {d : Directive}
    (h : read? start opener text = some d) : d.start = start := by
  dsimp only [read?] at h
  split at h
  · simp at h
  · rw [← Option.some.inj h]

/-- What two bytes open, if they are an opener. -/
def opener? (first : UInt8) (second : Option UInt8) : Option Kind :=
  if first != 0x7b then none
  else if second == some 0x25 then some .tag
  else if second == some 0x7b then some .variable
  else none

/-- The first directive of `line`, whose first byte has the given offset. An opener without a name
is text, and a directive may start one byte after it. -/
def firstFrom (offset : Nat) : Bytes → Option Directive
  | [] => none
  | b :: rest =>
    match (opener? b rest.head?).bind (read? offset · rest.tail) with
    | some d => some d
    | none => firstFrom (offset + 1) rest

/-- The first directive of a line. -/
def first? (line : Bytes) : Option Directive :=
  firstFrom 0 line

theorem offset_le_start {offset : Nat} {line : Bytes} {d : Directive}
    (h : firstFrom offset line = some d) : offset ≤ d.start := by
  induction line generalizing offset with
  | nil => simp [firstFrom] at h
  | cons b rest ih =>
    unfold firstFrom at h
    split at h
    · next e heq =>
      obtain rfl := Option.some.inj h
      obtain ⟨k, -, hread⟩ := Option.bind_eq_some_iff.1 heq
      exact Nat.le_of_eq (start_eq_of_read? hread).symm
    · exact Nat.le_of_succ_le (ih h)

theorem ne_nil_of_firstFrom {offset : Nat} {line : Bytes} {d : Directive}
    (h : firstFrom offset line = some d) : line ≠ [] := by
  rintro rfl
  simp [firstFrom] at h

theorem length_sub_stop_lt {offset : Nat} {line : Bytes} {d : Directive}
    (h : firstFrom offset line = some d) : line.length - (d.stop - offset) < line.length := by
  have hle := offset_le_start h
  have hlt := d.start_lt_stop
  have := List.length_pos_iff.2 (ne_nil_of_firstFrom h)
  omega

/-- Every directive of a line, `line` being what is left of it from the given offset on. -/
def allFrom (offset : Nat) (line : Bytes) : List Directive :=
  match h : firstFrom offset line with
  | none => []
  | some d =>
    have := length_sub_stop_lt h
    d :: allFrom d.stop (line.drop (d.stop - offset))
termination_by line.length

/-- Every directive of a line, from left to right. -/
def all (line : Bytes) : List Directive :=
  allFrom 0 line

/-- Reads `{% marker %}` at `start`, `text` being what follows the opener: spaces, exactly the
marker, spaces and the closer. -/
def readMarker? (marker : String) (start : Nat) (text : Bytes) : Option Directive :=
  let name := Utf8.encode marker
  let spaces := text.length - (skipSpaces text).length
  let after := (skipSpaces text).drop name.length
  let gap := after.length - (skipSpaces after).length
  if name.isPrefixOf (skipSpaces text) && !(after.head?.any isNameByte)
      && [0x25, 0x7d].isPrefixOf (skipSpaces after) then
    some {
      start
      stop := start + 2 + spaces + name.length + gap + 2
      opener := .tag
      closer := .tag
      name := marker
      params := ""
      content := marker
      start_lt_stop := by omega }
  else none

/-- The first `{% marker %}` of `line`, whose first byte has the given offset. -/
def findMarkerFrom (marker : String) (offset : Nat) : Bytes → Option Directive
  | [] => none
  | b :: rest =>
    let found :=
      if opener? b rest.head? = some .tag then readMarker? marker offset rest.tail else none
    match found with
    | some d => some d
    | none => findMarkerFrom marker (offset + 1) rest

/-- The first `{% marker %}` of a line. Nothing else on the line is read. -/
def findMarker? (marker : String) (line : Bytes) : Option Directive :=
  findMarkerFrom marker 0 line

theorem ne_nil_of_findMarkerFrom {marker : String} {offset : Nat} {line : Bytes} {d : Directive}
    (h : findMarkerFrom marker offset line = some d) : line ≠ [] := by
  rintro rfl
  simp [findMarkerFrom] at h

end Directive

end TemplateCompiler.Markup
