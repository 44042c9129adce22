import Mathlib.Algebra.Group.Nat.Defs
import Mathlib.Data.List.Basic
import TemplateCompiler.Text.Utf8

/-!
# ASCII in text that is read

An octet below 128 is a character of its own wherever it stands, so it parts the text that is read
(`decodeFrom_append_cons`). No other octets are read as such a character, NUL apart: a text begins
with ASCII characters exactly if its octets do (`ascii_prefix_iff`).
-/
namespace TemplateCompiler.Utf8

/-- The character that an octet is by itself. -/
def ascii (b : UInt8) : Char :=
  Char.ofNat b.toNat

/-- A code point is the character's own, or there is no such character. -/
theorem toNat_ofNat (n : Nat) : (Char.ofNat n).toNat = n ∨ (Char.ofNat n).toNat = 0 := by
  by_cases h : n.isValidChar
  · left
    rw [Char.ofNat, dif_pos h]
    rfl
  · right
    rw [Char.ofNat, dif_neg h]
    rfl

theorem toNat_ascii {b : UInt8} (h : b.toNat < 128) : (ascii b).toNat = b.toNat := by
  have hvalid : b.toNat.isValidChar := .inl (by omega)
  rw [ascii, Char.ofNat, dif_pos hvalid]
  rfl

theorem lead_ascii {b : UInt8} (h : b.toNat < 128) : Step.lead b = .done (ascii b) :=
  if_pos h

theorem lt_of_lead_done {b : UInt8} {c : Char} (h : Step.lead b = .done c) : b.toNat < 128 := by
  dsimp only [Step.lead] at h
  split_ifs at h
  assumption

/-! ## Characters in progress -/

/-- A character in progress is none of ASCII: no ASCII octet goes on with it, and whatever goes on
with it makes its code point 128 or more. -/
structure Pending.IsWide (p : Pending) : Prop where
  low : 0x80 ≤ p.low.toNat
  wide : 0x80 ≤ (p.bits * 64 + (p.low.toNat - 0x80)) * 64 ^ p.owed

variable {p q : Pending} {b : UInt8} {c : Char}

theorem isWide_lead (h : Step.lead b = .more p) : p.IsWide := by
  dsimp only [Step.lead] at h
  -- each branch fixes what is owed, and what was excluded before it bounds the bits
  split_ifs at h <;> cases h <;> constructor <;> simp <;> omega

/-- What it takes for an octet to go on with a character. -/
theorem next_eq_done_or_more (h : Step.next p b ≠ .refused) :
    p.low.toNat ≤ b.toNat ∧ Step.next p b =
      match p.owed with
      | 0 => .done (Char.ofNat (p.bits * 64 + (b.toNat - 0x80)))
      | owed + 1 => .more ⟨owed, 0x80, 0xbf, p.bits * 64 + (b.toNat - 0x80)⟩ := by
  unfold Step.next at h ⊢
  split at h
  · next hin =>
    rw [if_pos hin]
    exact ⟨by simpa [UInt8.le_iff_toNat_le] using (Bool.and_eq_true_iff.1 hin).1, rfl⟩
  · exact absurd rfl h

theorem Pending.IsWide.next (hp : p.IsWide) (h : Step.next p b = .more q) : q.IsWide := by
  obtain ⟨hlow, hwide⟩ := hp
  obtain ⟨hle, hnext⟩ := next_eq_done_or_more (p := p) (b := b) (by simp [h])
  rw [h] at hnext
  obtain ⟨owed, low, high, bits⟩ := p
  cases owed with
  | zero => cases hnext
  | succ owed =>
    obtain rfl := Step.more.inj hnext
    dsimp only at hlow hwide hle
    have hbits : bits * 64 + (low.toNat - 128) ≤ bits * 64 + (b.toNat - 128) := by omega
    have hpower := Nat.mul_le_mul_right (64 ^ (owed + 1)) hbits
    rw [Nat.pow_succ', ← Nat.mul_assoc, ← Nat.mul_assoc] at hpower
    rw [Nat.pow_succ', ← Nat.mul_assoc] at hwide
    exact ⟨by simp, Nat.le_trans hwide (by simpa using hpower)⟩

/-- A character that has taken several octets is none of ASCII. -/
theorem Pending.IsWide.done (hp : p.IsWide) (h : Step.next p b = .done c) :
    c.toNat = 0 ∨ 128 ≤ c.toNat := by
  obtain ⟨hlow, hwide⟩ := hp
  obtain ⟨hle, hnext⟩ := next_eq_done_or_more (p := p) (b := b) (by simp [h])
  rw [h] at hnext
  obtain ⟨owed, low, high, bits⟩ := p
  cases owed with
  | zero =>
    have hchar := Step.done.inj hnext
    dsimp only at hlow hle hchar
    have hleast : 128 ≤ bits * 64 + (low.toNat - 128) := by simpa using hwide
    rcases toNat_ofNat (bits * 64 + (b.toNat - 128)) with hvalue | hvalue
    · rw [hchar, hvalue]
      right
      omega
    · rw [hchar]
      exact .inl hvalue
  | succ owed => cases hnext

theorem Pending.IsWide.refused (hp : p.IsWide) (h : b.toNat < 128) : Step.next p b = .refused := by
  by_contra hnext
  have hle := (next_eq_done_or_more hnext).1
  have hlow := hp.low
  omega

/-! ## Reading -/

variable {bytes : Bytes}

/-- **An ASCII octet** parts what is read. -/
theorem decodeFrom_append_cons {pending : Option Pending} (hpending : ∀ p ∈ pending, p.IsWide)
    (hb : b.toNat < 128) (rest : Bytes) :
    decodeFrom pending (bytes ++ b :: rest) =
      decodeFrom pending bytes ++ ascii b :: decodeFrom none rest := by
  induction bytes generalizing pending with
  | nil =>
    cases pending with
    | none => simp [decodeFrom, lead_ascii hb]
    | some p =>
      have hp := hpending p rfl
      simp [decodeFrom, hp.refused hb, lead_ascii hb]
  | cons a bytes ih =>
    have hnone : ∀ p ∈ (none : Option Pending), p.IsWide := by simp
    have hlead {q : Pending} (h : Step.lead a = .more q) : ∀ p ∈ some q, p.IsWide := by
      rintro p ⟨⟩
      exact isWide_lead h
    cases pending with
    | none =>
      simp only [List.cons_append, decodeFrom]
      cases hstep : Step.lead a with
      | done c => simp [ih hnone]
      | more q => simp [ih (hlead hstep)]
      | refused => simp [ih hnone]
    | some p =>
      have hp := hpending p rfl
      simp only [List.cons_append, decodeFrom]
      cases hnext : Step.next p a with
      | done c => simp [ih hnone]
      | more q =>
        have hq : ∀ p ∈ some q, p.IsWide := by
          rintro p ⟨⟩
          exact hp.next hnext
        simp [ih hq]
      | refused =>
        cases hstep : Step.lead a with
        | done c => simp [ih hnone]
        | more q => simp [ih (hlead hstep)]
        | refused => simp [ih hnone]

/-- What is read on from a character in progress begins with none of ASCII. -/
theorem Pending.IsWide.head {cs : List Char} (hp : p.IsWide)
    (h : decodeFrom (some p) bytes = c :: cs) : c.toNat = 0 ∨ 128 ≤ c.toNat := by
  have hreplacement : 128 ≤ replacement.toNat := by decide
  induction bytes generalizing p with
  | nil =>
    obtain ⟨rfl, -⟩ := List.cons.inj h
    exact .inr hreplacement
  | cons b rest ih =>
    simp only [decodeFrom] at h
    cases hnext : Step.next p b with
    | done c' =>
      rw [hnext] at h
      obtain ⟨rfl, -⟩ := List.cons.inj h
      exact hp.done hnext
    | more q =>
      rw [hnext] at h
      exact ih (hp.next hnext) h
    | refused =>
      rw [hnext] at h
      cases hstep : Step.lead b <;> rw [hstep] at h <;> obtain ⟨rfl, -⟩ := List.cons.inj h <;>
        exact .inr hreplacement

/-- A text begins with an ASCII character exactly if it begins with its octet. -/
theorem decodeFrom_eq_cons {cs : List Char} (hb : 0 < b.toNat ∧ b.toNat < 128) :
    decodeFrom none bytes = ascii b :: cs ↔ ∃ rest, bytes = b :: rest ∧ decodeFrom none rest = cs := by
  have hvalue := toNat_ascii hb.2
  constructor
  · intro h
    cases bytes with
    | nil => cases h
    | cons a rest =>
      simp only [decodeFrom] at h
      cases hstep : Step.lead a with
      | done c =>
        rw [hstep] at h
        obtain ⟨rfl, hrest⟩ := List.cons.inj h
        have ha := lt_of_lead_done hstep
        rw [lead_ascii ha] at hstep
        have heq : (ascii a).toNat = (ascii b).toNat := by rw [Step.done.inj hstep]
        rw [hvalue, toNat_ascii ha] at heq
        exact ⟨rest, by rw [UInt8.toNat_inj.1 heq], hrest⟩
      | more p =>
        rw [hstep] at h
        have hwide := (isWide_lead hstep).head h
        omega
      | refused =>
        rw [hstep] at h
        have hreplacement : (128 : Nat) ≤ replacement.toNat := by decide
        rw [(List.cons.inj h).1] at hreplacement
        omega
  · rintro ⟨rest, rfl, rfl⟩
    simp [decodeFrom, lead_ascii hb.2]

/-- **ASCII at the beginning**: a text begins with ASCII characters exactly if its octets do. -/
theorem ascii_prefix_iff {word : Bytes} (h : ∀ b ∈ word, 0 < b.toNat ∧ b.toNat < 128) :
    word.map ascii <+: decodeFrom none bytes ↔ word <+: bytes := by
  induction word generalizing bytes with
  | nil => simp
  | cons b word ih =>
    obtain ⟨hb, hword⟩ := List.forall_mem_cons.1 h
    constructor
    · rintro ⟨more, hmore⟩
      obtain ⟨rest, rfl, hrest⟩ := (decodeFrom_eq_cons hb).1 hmore.symm
      exact (List.prefix_cons_inj b).2 ((ih hword).1 ⟨more, hrest.symm⟩)
    · rintro ⟨more, rfl⟩
      obtain ⟨text, htext⟩ := (ih hword).2 ⟨more, rfl⟩
      exact ⟨text, ((decodeFrom_eq_cons hb).2 ⟨word ++ more, rfl, htext.symm⟩).symm⟩

end TemplateCompiler.Utf8
