/-!
# Bytes

Template text is handled as raw bytes, so that it reaches an artifact in whatever encoding it was
written. This module holds the byte classes, trimming of ASCII blanks and the split into lines;
`flatten_lines` says that splitting loses nothing.
-/
namespace TemplateCompiler

/-- A run of raw bytes. -/
abbrev Bytes := List UInt8

namespace Byte

/-- A letter `a` to `z` or `A` to `Z`. -/
def isLetter (b : UInt8) : Bool :=
  (0x61 ≤ b && b ≤ 0x7a) || (0x41 ≤ b && b ≤ 0x5a)

/-- A digit `0` to `9`. -/
def isDigit (b : UInt8) : Bool :=
  0x30 ≤ b && b ≤ 0x39

/-- The ASCII blanks: space, tab, line feed, form feed and carriage return. -/
def isBlank (b : UInt8) : Bool :=
  b == 0x20 || b == 0x09 || b == 0x0a || b == 0x0c || b == 0x0d

/-- A single or double quote. -/
def isQuote (b : UInt8) : Bool :=
  b == 0x27 || b == 0x22

end Byte

namespace Bytes

/-- Drops the ASCII blanks at the end. -/
def trimEnd (bytes : Bytes) : Bytes :=
  (bytes.reverse.dropWhile Byte.isBlank).reverse

/-- Drops the ASCII blanks at both ends. -/
def trim (bytes : Bytes) : Bytes :=
  trimEnd (bytes.dropWhile Byte.isBlank)

/-- Cuts after each line feed; only the last line may lack one. -/
def lines : Bytes → List Bytes
  | [] => []
  | b :: rest =>
    if b = 0x0a then [b] :: lines rest
    else
      match lines rest with
      | [] => [[b]]
      | line :: more => (b :: line) :: more

@[simp] theorem lines_nil : lines [] = [] := rfl

theorem flatten_lines (bytes : Bytes) : (lines bytes).flatten = bytes := by
  induction bytes with
  | nil => rfl
  | cons b rest ih =>
    unfold lines
    split
    · simp [ih]
    · split <;> simp_all

theorem ne_nil_of_mem_lines {bytes line : Bytes} (h : line ∈ lines bytes) : line ≠ [] := by
  induction bytes generalizing line with
  | nil => simp at h
  | cons b rest ih =>
    unfold lines at h
    split at h
    · rcases List.mem_cons.1 h with rfl | h
      · simp
      · exact ih h
    · split at h
      · simp_all
      · next first more heq =>
        rcases List.mem_cons.1 h with rfl | h
        · simp
        · exact ih (by rw [heq]; exact List.mem_cons_of_mem _ h)

end Bytes

end TemplateCompiler
