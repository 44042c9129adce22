import TemplateCompiler.Text.Bytes

/-!
# UTF-8

Writing text as UTF-8, and reading bytes that need not be UTF-8. The reader walks the octets with
the state of the character in progress; where no well-formed character can go on, each maximal
ill-formed run of octets becomes one replacement character and reading resumes at the octet that
broke it.
-/
namespace TemplateCompiler.Utf8

/-- The UTF-8 octets of a text. -/
def encode (text : String) : Bytes :=
  text.toList.flatMap String.utf8EncodeChar

@[simp] theorem encode_append (a b : String) : encode (a ++ b) = encode a ++ encode b := by
  simp [encode]

@[simp] theorem encode_empty : encode "" = [] := rfl

/-- A character of which some octets are still to come. -/
structure Pending where
  /-- How many continuation octets are owed, less one. -/
  owed : Nat
  /-- The least octet that may come next. -/
  low : UInt8
  /-- The greatest octet that may come next. -/
  high : UInt8
  /-- The code point bits read so far. -/
  bits : Nat

/-- What one octet leads to. -/
inductive Step where
  /-- It completes a character. -/
  | done (c : Char)
  /-- More octets are owed. -/
  | more (rest : Pending)
  /-- No character has it here. -/
  | refused

/-- The first octet of a character; the ranges of the second exclude overlong forms, surrogates
and everything above U+10FFFF. -/
def Step.lead (b : UInt8) : Step :=
  let n := b.toNat
  if n < 0x80 then .done (Char.ofNat n)
  else if n < 0xc2 then .refused
  else if n < 0xe0 then .more ⟨0, 0x80, 0xbf, n - 0xc0⟩
  else if n = 0xe0 then .more ⟨1, 0xa0, 0xbf, 0⟩
  else if n = 0xed then .more ⟨1, 0x80, 0x9f, 0xd⟩
  else if n < 0xf0 then .more ⟨1, 0x80, 0xbf, n - 0xe0⟩
  else if n = 0xf0 then .more ⟨2, 0x90, 0xbf, 0⟩
  else if n < 0xf4 then .more ⟨2, 0x80, 0xbf, n - 0xf0⟩
  else if n = 0xf4 then .more ⟨2, 0x80, 0x8f, 4⟩
  else .refused

/-- A continuation octet of the character in progress. -/
def Step.next (p : Pending) (b : UInt8) : Step :=
  if p.low ≤ b && b ≤ p.high then
    let bits := p.bits * 64 + (b.toNat - 0x80)
    match p.owed with
    | 0 => .done (Char.ofNat bits)
    | owed + 1 => .more ⟨owed, 0x80, 0xbf, bits⟩
  else .refused

/-- What an ill-formed run of octets is read as. -/
def replacement : Char := '\ufffd'

/-- The characters of `bytes`, read on from the character in progress. -/
def decodeFrom : Option Pending → Bytes → List Char
  | none, [] => []
  | some _, [] => [replacement]
  | none, b :: rest =>
    match Step.lead b with
    | .done c => c :: decodeFrom none rest
    | .more p => decodeFrom (some p) rest
    | .refused => replacement :: decodeFrom none rest
  | some p, b :: rest =>
    match Step.next p b with
    | .done c => c :: decodeFrom none rest
    | .more q => decodeFrom (some q) rest
    | .refused =>
      match Step.lead b with
      | .done c => replacement :: c :: decodeFrom none rest
      | .more q => replacement :: decodeFrom (some q) rest
      | .refused => replacement :: replacement :: decodeFrom none rest

/-- The text of `bytes`, with one replacement character per maximal ill-formed run. -/
def decode (bytes : Bytes) : String :=
  String.ofList (decodeFrom none bytes)

end TemplateCompiler.Utf8
