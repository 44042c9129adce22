import TemplateCompiler.Proofs.Text.Ascii
import TemplateCompiler.Proofs.Text.Quoting

/-!
# Quotes in text that is read

Text is read from octets that need not be UTF-8, and its ASCII characters are those octets that are
ASCII, in order (`decodeFrom_eq_append_cons`). So quotes can be counted in the octets or in the text
(`quoteOpen_decodeFrom`).
-/
namespace TemplateCompiler.Utf8

/-- A character that no ASCII octet is read as. -/
def IsForeign (c : Char) : Prop :=
  c.toNat = 0 ∨ 128 ≤ c.toNat

theorem isForeign_replacement : IsForeign replacement :=
  .inr (by decide)

variable {pending : Option Pending} {a b : UInt8} {bytes : Bytes}

theorem IsForeign.ne_ascii {c : Char} (h : IsForeign c) (hb : 0 < b.toNat ∧ b.toNat < 128) :
    c ≠ ascii b := by
  rintro rfl
  have hvalue := toNat_ascii hb.2
  rcases h with h | h <;> omega

theorem ascii_inj (ha : a.toNat < 128) (hb : b.toNat < 128) : ascii a = ascii b ↔ a = b := by
  refine ⟨fun h => ?_, congrArg ascii⟩
  have hvalue := congrArg Char.toNat h
  rw [toNat_ascii ha, toNat_ascii hb] at hvalue
  exact UInt8.toNat_inj.1 hvalue

theorem isWide_none : ∀ p ∈ (none : Option Pending), p.IsWide :=
  fun _ hp => nomatch hp

/-! ## One octet -/

/-- Where the octets end, only a replacement can be read. -/
theorem isForeign_of_mem_decodeFrom_nil {c : Char} (h : c ∈ decodeFrom pending []) : IsForeign c := by
  cases pending with
  | none => cases h
  | some p =>
    obtain rfl := List.mem_singleton.1 h
    exact isForeign_replacement

/-- **An octet that is not ASCII** is read as characters that are not, whatever follows. -/
theorem exists_decodeFrom_cons (hpending : ∀ p ∈ pending, p.IsWide) (ha : 128 ≤ a.toNat) :
    ∃ out next, (∀ q ∈ next, Pending.IsWide q) ∧ (∀ c ∈ out, IsForeign c) ∧
      ∀ rest, decodeFrom pending (a :: rest) = out ++ decodeFrom next rest := by
  have hsome {q : Pending} (hq : q.IsWide) : ∀ r ∈ some q, Pending.IsWide r := by
    rintro r ⟨⟩
    exact hq
  have hdone {c : Char} : Step.lead a ≠ .done c := fun h =>
    absurd (lt_of_lead_done h) (Nat.not_lt.2 ha)
  cases pending with
  | none =>
    cases hstep : Step.lead a with
    | done c => exact absurd hstep hdone
    | more q =>
      exact ⟨[], some q, hsome (isWide_lead hstep), by simp, fun rest => by simp [decodeFrom, hstep]⟩
    | refused =>
      exact ⟨[replacement], none, isWide_none, by simp [isForeign_replacement],
        fun rest => by simp [decodeFrom, hstep]⟩
  | some p =>
    have hp := hpending p rfl
    cases hnext : Step.next p a with
    | done c =>
      have hc : IsForeign c := hp.done hnext
      exact ⟨[c], none, isWide_none, by simp [hc], fun rest => by simp [decodeFrom, hnext]⟩
    | more q =>
      exact ⟨[], some q, hsome (hp.next hnext), by simp, fun rest => by simp [decodeFrom, hnext]⟩
    | refused =>
      cases hstep : Step.lead a with
      | done c => exact absurd hstep hdone
      | more q =>
        exact ⟨[replacement], some q, hsome (isWide_lead hstep), by simp [isForeign_replacement],
          fun rest => by simp [decodeFrom, hnext, hstep]⟩
      | refused =>
        exact ⟨[replacement, replacement], none, isWide_none, by simp [isForeign_replacement],
          fun rest => by simp [decodeFrom, hnext, hstep]⟩

/-- An ASCII octet is read as its character, and ends what was in progress. -/
theorem decodeFrom_cons_ascii (hpending : ∀ p ∈ pending, p.IsWide) (ha : a.toNat < 128)
    (rest : Bytes) :
    decodeFrom pending (a :: rest) = decodeFrom pending [] ++ ascii a :: decodeFrom none rest := by
  show decodeFrom pending ([] ++ a :: rest) = _
  exact decodeFrom_append_cons hpending ha rest

/-! ## ASCII characters -/

theorem eq_append_of_append_eq {α : Type} {out rest front back : List α} {c : α} (hc : c ∉ out)
    (h : out ++ rest = front ++ c :: back) : ∃ more, front = out ++ more ∧ rest = more ++ c :: back := by
  rcases List.append_eq_append_iff.1 h with ⟨more, hfront, hrest⟩ | ⟨more, hout, hrest⟩
  · exact ⟨more, hfront, hrest⟩
  · cases more with
    | nil =>
      rw [List.append_nil] at hout
      exact ⟨[], by rw [hout, List.append_nil], hrest.symm⟩
    | cons d more =>
      obtain ⟨rfl, -⟩ := List.cons.inj hrest
      exact absurd (hout ▸ List.mem_append_right front List.mem_cons_self) hc

/-- **Where an ASCII character is read, its octet stands**, and what is read before it and after it
are the octets before it and after it. -/
theorem decodeFrom_eq_append_cons (hpending : ∀ p ∈ pending, p.IsWide)
    (hb : 0 < b.toNat ∧ b.toNat < 128) {front back : List Char} :
    decodeFrom pending bytes = front ++ ascii b :: back ↔ ∃ before after,
      bytes = before ++ b :: after ∧ decodeFrom pending before = front ∧
        decodeFrom none after = back := by
  constructor
  · intro h
    induction bytes generalizing pending front with
    | nil =>
      have hmem : ascii b ∈ decodeFrom pending [] :=
        h ▸ List.mem_append_right front List.mem_cons_self
      exact absurd rfl ((isForeign_of_mem_decodeFrom_nil hmem).ne_ascii hb)
    | cons a rest ih =>
      by_cases ha : a.toNat < 128
      · have hnot : ascii b ∉ decodeFrom pending [] := fun hmem =>
          (isForeign_of_mem_decodeFrom_nil hmem).ne_ascii hb rfl
        rw [decodeFrom_cons_ascii hpending ha] at h
        obtain ⟨more, rfl, hmore⟩ := eq_append_of_append_eq hnot h
        cases more with
        | nil =>
          obtain ⟨hsame, rfl⟩ := List.cons.inj hmore
          obtain rfl := (ascii_inj ha hb.2).1 hsame
          exact ⟨[], rest, rfl, (List.append_nil _).symm, rfl⟩
        | cons c more =>
          obtain ⟨rfl, hrest⟩ := List.cons.inj hmore
          obtain ⟨before, after, rfl, rfl, rfl⟩ := ih isWide_none hrest
          exact ⟨a :: before, after, rfl, decodeFrom_cons_ascii hpending ha before, rfl⟩
      · obtain ⟨out, next, hnext, hout, heq⟩ := exists_decodeFrom_cons hpending (Nat.le_of_not_lt ha)
        have hnot : ascii b ∉ out := fun hmem => (hout _ hmem).ne_ascii hb rfl
        rw [heq] at h
        obtain ⟨more, rfl, hmore⟩ := eq_append_of_append_eq hnot h
        obtain ⟨before, after, rfl, rfl, rfl⟩ := ih hnext hmore
        exact ⟨a :: before, after, rfl, heq before, rfl⟩
  · rintro ⟨before, after, rfl, rfl, rfl⟩
    exact decodeFrom_append_cons hpending hb.2 after

/-! ## Quotes -/

theorem isQuote_ascii (ha : a.toNat < 128) : Text.isQuote (ascii a) = Byte.isQuote a := by
  have hsingle : ascii a = '\'' ↔ a = 0x27 := ascii_inj ha (b := 0x27) (by decide)
  have hdouble : ascii a = '"' ↔ a = 0x22 := ascii_inj ha (b := 0x22) (by decide)
  rw [Bool.eq_iff_iff]
  simp only [Text.isQuote, Byte.isQuote, Bool.or_eq_true, beq_iff_eq]
  exact or_congr hsingle hdouble

theorem lt_of_isQuote (h : Byte.isQuote a = true) : a.toNat < 128 := by
  simp only [Byte.isQuote, Bool.or_eq_true, beq_iff_eq] at h
  rcases h with rfl | rfl <;> decide

theorem isQuote_of_mem_map {current : Option UInt8}
    (hcurrent : ∀ q ∈ current, Byte.isQuote q = true) :
    ∀ c ∈ current.map ascii, Text.isQuote c = true := by
  intro c hc
  obtain ⟨q, rfl, rfl⟩ := Option.map_eq_some_iff.1 hc
  have hq := hcurrent q rfl
  rw [isQuote_ascii (lt_of_isQuote hq), hq]

theorem isQuote_of_isForeign {c : Char} (h : IsForeign c) : Text.isQuote c = false := by
  have hsingle : c ≠ '\'' := h.ne_ascii (b := 0x27) (by decide)
  have hdouble : c ≠ '"' := h.ne_ascii (b := 0x22) (by decide)
  simp [Text.isQuote, hsingle, hdouble]

/-- The automaton of quotes takes an ASCII octet as it takes its character. -/
theorem quoteAfter_ascii {current : Option UInt8} (hcurrent : ∀ q ∈ current, Byte.isQuote q = true)
    (ha : a.toNat < 128) : Text.quoteAfter Text.isQuote (current.map ascii) (ascii a) =
      (Text.quoteAfter Byte.isQuote current a).map ascii := by
  cases current with
  | none =>
    simp only [Text.quoteAfter, Option.map_none, isQuote_ascii ha]
    split <;> rfl
  | some q =>
    have hsame : (ascii a == ascii q) = (a == q) := by
      have hq := lt_of_isQuote (hcurrent q rfl)
      rw [Bool.eq_iff_iff, beq_iff_eq, beq_iff_eq, ascii_inj ha hq]
    simp only [Text.quoteAfter, Option.map_some, hsame]
    split <;> rfl

theorem isQuote_of_mem_quoteAfter {current : Option UInt8}
    (hcurrent : ∀ q ∈ current, Byte.isQuote q = true) :
    ∀ q ∈ Text.quoteAfter Byte.isQuote current a, Byte.isQuote q = true := by
  intro q hq
  cases current with
  | none =>
    simp only [Text.quoteAfter] at hq
    split at hq
    · next ha => exact Option.some.inj hq ▸ ha
    · cases hq
  | some quote =>
    simp only [Text.quoteAfter] at hq
    split at hq
    · cases hq
    · exact Option.some.inj hq ▸ hcurrent quote rfl

/-- **Quotes can be counted before reading**: what is open after the octets is what is open after
their text. -/
theorem quoteOpen_decodeFrom {current : Option UInt8} (hpending : ∀ p ∈ pending, p.IsWide)
    (hcurrent : ∀ q ∈ current, Byte.isQuote q = true) :
    Text.quoteOpen (current.map ascii) (decodeFrom pending bytes) =
      (bytes.foldl (Text.quoteAfter Byte.isQuote) current).map ascii := by
  have hforeign {current : Option UInt8} (hcurrent : ∀ q ∈ current, Byte.isQuote q = true)
      {out : List Char} (hout : ∀ c ∈ out, IsForeign c) :
      Text.quoteOpen (current.map ascii) out = current.map ascii :=
    Text.foldl_quoteAfter_plain (isQuote_of_mem_map hcurrent) fun c hc =>
      isQuote_of_isForeign (hout c hc)
  induction bytes generalizing pending current with
  | nil => exact hforeign hcurrent fun _ => isForeign_of_mem_decodeFrom_nil
  | cons a rest ih =>
    by_cases ha : a.toNat < 128
    · rw [decodeFrom_cons_ascii hpending ha, Text.quoteOpen_append,
        hforeign hcurrent fun _ => isForeign_of_mem_decodeFrom_nil, Text.quoteOpen_cons,
        quoteAfter_ascii hcurrent ha, ih isWide_none (isQuote_of_mem_quoteAfter hcurrent)]
      rfl
    · obtain ⟨out, next, hnext, hout, heq⟩ := exists_decodeFrom_cons hpending (Nat.le_of_not_lt ha)
      have hplain : Byte.isQuote a = false := by
        rw [Bool.eq_false_iff]
        exact fun hquote => ha (lt_of_isQuote hquote)
      have hstep : Text.quoteAfter Byte.isQuote current a = current :=
        Text.foldl_quoteAfter_plain hcurrent (List.forall_mem_singleton.2 hplain)
      rw [heq, Text.quoteOpen_append, hforeign hcurrent hout, ih hnext hcurrent, List.foldl_cons,
        hstep]

end TemplateCompiler.Utf8
