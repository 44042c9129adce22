import TemplateCompiler.Proofs.RawCode.Exact
import TemplateCompiler.Proofs.Scanning.Grammar
import TemplateCompiler.Proofs.Text.Ascii

/-!
# Directives of a checked line

A line is scanned after it has been checked, so its directives are read with every marker printed.
Markers that stand between directives make no difference to what is read, and any other one does
(`Directive.readings_eq_iff`): the segment that prints it is taken for a part of the directive.
-/
namespace TemplateCompiler.Markup

namespace Directive

/-- What is read as a directive, wherever it stands. -/
def reading (d : Directive) : Kind × Closer × String × String × String :=
  (d.opener, d.closer, d.name, d.params, d.content)

/-- What is read of a line. -/
def readings (line : Bytes) : List (Kind × Closer × String × String × String) :=
  (all line).map reading

/-- No marker of a line stands in one of its directives. -/
def MarkersOutside (line : Bytes) : Prop :=
  ∀ d ∈ all line, ∀ i < d.stop, d.start ≤ i → ¬ RawCode.MarkerAt line i

instance (line : Bytes) : Decidable (MarkersOutside line) :=
  inferInstanceAs (Decidable (∀ d ∈ all line, _))

/-! ## Reading on -/

variable {b : UInt8} {line rest text after : Bytes} {d : Directive}

@[simp] theorem reading_shift (d : Directive) (bytes : Nat) : (d.shift bytes).reading = d.reading := rfl

theorem shift_zero (d : Directive) : d.shift 0 = d := by
  simp [shift]

theorem shift_shift (d : Directive) (first second : Nat) :
    (d.shift first).shift second = d.shift (second + first) := by
  simp [shift, Nat.add_assoc]

theorem allFrom_shift (offset : Nat) (line : Bytes) :
    allFrom offset line = (all line).map (·.shift offset) := by
  cases hfirst : first? line with
  | none => rw [all, allFrom_of_none hfirst, allFrom_of_none hfirst, List.map_nil]
  | some d =>
    have := length_sub_stop_lt hfirst
    rw [all, allFrom_of_some hfirst, allFrom_of_some hfirst, allFrom_shift (offset + d.stop),
      allFrom_shift (0 + d.stop)]
    simp [shift_shift, shift_zero]
termination_by line.length
decreasing_by
  all_goals
    rw [List.length_drop]
    exact this

theorem all_of_first? (h : first? line = some d) :
    all line = d :: (all (line.drop d.stop)).map (·.shift d.stop) := by
  rw [all, allFrom_of_some h, shift_zero, Nat.zero_add, allFrom_shift]

theorem first?_of_readAt? (h : readAt? 0 line = some d) : first? line = some d := by
  cases line with
  | nil => cases h
  | cons b rest =>
    rw [first?, firstFrom, show (opener? b rest.head?).bind (read? 0 · rest.tail) = some d from h]

theorem first?_of_not_begins (h : ¬ Begins (b :: rest)) :
    first? (b :: rest) = (first? rest).map (·.shift 1) := by
  have hread : readAt? 0 (b :: rest) = none := by
    rw [begins_iff 0, not_exists] at h
    exact Option.eq_none_iff_forall_ne_some.2 h
  rw [first?, firstFrom, show (opener? b rest.head?).bind (read? 0 · rest.tail) = none from hread]
  exact firstFrom_eq 1 rest

theorem all_of_not_begins (h : ¬ Begins (b :: rest)) :
    all (b :: rest) = (all rest).map (·.shift 1) := by
  have hfirst := first?_of_not_begins h
  cases hrest : first? rest with
  | none =>
    rw [hrest] at hfirst
    rw [all, all, allFrom_of_none hfirst, allFrom_of_none hrest, List.map_nil]
  | some d =>
    rw [hrest] at hfirst
    have hdrop : (b :: rest).drop (d.shift 1).stop = rest.drop d.stop := by
      rw [show (d.shift 1).stop = d.stop + 1 from Nat.add_comm 1 d.stop, List.drop_succ_cons]
    rw [all_of_first? hfirst, all_of_first? hrest, hdrop]
    simp [shift, Nat.add_assoc]

theorem readings_of_readAt? (h : readAt? 0 line = some d) :
    readings line = d.reading :: readings (line.drop d.stop) := by
  rw [readings, readings, all_of_first? (first?_of_readAt? h)]
  simp

theorem readings_of_not_begins (h : ¬ Begins (b :: rest)) : readings (b :: rest) = readings rest := by
  rw [readings, readings, all_of_not_begins h]
  simp

/-- Directives that are moved with the bytes they are read from have the same markers in them. -/
theorem forall_shift (front rest : Bytes) (ds : List Directive) :
    (∀ d ∈ ds.map (·.shift front.length), ∀ i < d.stop, d.start ≤ i →
        ¬ RawCode.MarkerAt (front ++ rest) i) ↔
      ∀ d ∈ ds, ∀ i < d.stop, d.start ≤ i → ¬ RawCode.MarkerAt rest i := by
  rw [List.forall_mem_map]
  refine forall₂_congr fun d _ => ⟨fun h i hlt hle => ?_, fun h i hlt hle => ?_⟩
  · rw [← RawCode.markerAt_append front]
    exact h (front.length + i) (Nat.add_lt_add_left hlt _) (Nat.add_le_add_left hle _)
  · obtain ⟨k, rfl⟩ := Nat.exists_eq_add_of_le (Nat.le_of_add_right_le hle)
    rw [RawCode.markerAt_append]
    exact h k (Nat.lt_of_add_lt_add_left hlt) (Nat.le_of_add_le_add_left hle)

theorem markersOutside_of_readAt? (h : readAt? 0 line = some d) (hstop : d.stop ≤ line.length) :
    MarkersOutside line ↔
      (∀ i < d.stop, ¬ RawCode.MarkerAt line i) ∧ MarkersOutside (line.drop d.stop) := by
  have hrest := forall_shift (line.take d.stop) (line.drop d.stop) (all (line.drop d.stop))
  rw [List.take_append_drop, List.length_take_of_le hstop] at hrest
  rw [MarkersOutside, all_of_first? (first?_of_readAt? h), List.forall_mem_cons, hrest,
    (readAt?_eq_some_iff.1 h).1]
  simp [MarkersOutside]

theorem markersOutside_of_not_begins (h : ¬ Begins (b :: rest)) :
    MarkersOutside (b :: rest) ↔ MarkersOutside rest := by
  rw [MarkersOutside, all_of_not_begins h]
  exact forall_shift [b] rest (all rest)

theorem Begins.head? (h : Begins text) : text.head? = some 0x7b := by
  obtain ⟨opener, spaces, b, rest, -, -, rfl⟩ := h
  cases opener <;> rfl

/-- Where there is no brace, nothing is read. -/
theorem readings_append {front : Bytes} (h : ∀ b ∈ front, b ≠ 0x7b) (rest : Bytes) :
    readings (front ++ rest) = readings rest ∧
      (MarkersOutside (front ++ rest) ↔ MarkersOutside rest) := by
  induction front with
  | nil => exact ⟨rfl, Iff.rfl⟩
  | cons b front ih =>
    obtain ⟨hb, hfront⟩ := List.forall_mem_cons.1 h
    obtain ⟨hreadings, houtside⟩ := ih hfront
    have hnot : ¬ Begins (b :: (front ++ rest)) := fun hbegins => hb (Option.some.inj hbegins.head?)
    rw [List.cons_append, readings_of_not_begins hnot, markersOutside_of_not_begins hnot]
    exact ⟨hreadings, houtside⟩

end Directive

/-! ## What a check keeps -/

namespace RawCode

variable {line after x y z : Bytes}

theorem accepted?_skip_of_not_markerAt (h : ∀ i < x.length, ¬ MarkerAt (x ++ y) i) :
    accepted? (x ++ y) = (accepted? y).map (x ++ ·) := by
  induction x with
  | nil => exact Option.map_id'.symm
  | cons b x ih =>
    have hstarts : ¬ startsMarker b (x ++ y).head? = true := by
      rw [← markerAt_zero]
      exact h 0 (Nat.zero_lt_succ _)
    have hrest : ∀ i < x.length, ¬ MarkerAt (x ++ y) i := by
      intro i hi
      rw [← markerAt_append [b], Nat.add_comm]
      exact h (i + 1) (Nat.succ_lt_succ hi)
    rw [List.cons_append, accepted?_cons, if_neg hstarts, ih hrest, Option.map_map]
    rfl

/-- What a check makes of a marker: a text that begins as no marker does that it lets through. -/
theorem accepted?_of_markerAt (h : MarkerAt y 0) (hz : accepted? y = some z) :
    Utf8.encode "<?php" <+: z ∧ ¬ Utf8.encode "<?php" <+: y := by
  have hopen : Utf8.encode "<?php" = 0x3c :: 0x3f :: [0x70, 0x68, 0x70] := by decide
  cases y with
  | nil => exact absurd h not_markerAt_nil
  | cons b rest =>
    have hstarts := markerAt_zero.1 h
    rw [accepted?_cons, if_pos hstarts] at hz
    by_cases hexecutable : isExecutable rest.tail = true
    · rw [if_pos hexecutable] at hz
      cases hz
    · rw [if_neg hexecutable] at hz
      obtain ⟨more, -, rfl⟩ := Option.map_eq_some_iff.1 hz
      refine ⟨?_, fun hphp => hexecutable ?_⟩
      · rw [(split_marker hstarts).1.defused, List.append_assoc, List.append_assoc]
        exact List.IsPrefix.trans (by decide) (List.prefix_append printOpen _)
      · obtain ⟨tail, htail⟩ := hphp
        rw [hopen] at htail
        obtain ⟨-, rfl⟩ := List.cons.inj htail
        simp [isExecutable]

theorem accepted?_eq_cons {b : UInt8} (hb : b ≠ 0x3c) (h : accepted? line = some (b :: z)) :
    ∃ rest, line = b :: rest ∧ accepted? rest = some z := by
  cases line with
  | nil =>
    rw [accepted?_nil] at h
    cases h
  | cons a rest =>
    rw [accepted?_cons] at h
    split at h
    · next hstarts =>
      split at h
      · cases h
      · obtain ⟨more, -, hmore⟩ := Option.map_eq_some_iff.1 h
        rw [(split_marker hstarts).1.defused] at hmore
        exact absurd (List.cons.inj hmore).1.symm hb
    · obtain ⟨more, hmore, hcons⟩ := Option.map_eq_some_iff.1 h
      obtain ⟨rfl, rfl⟩ := List.cons.inj hcons
      exact ⟨rest, rfl, hmore⟩

/-- Bytes in which no marker begins were there before. -/
theorem accepted?_eq_append (hx : ∀ b ∈ x, b ≠ 0x3c) (h : accepted? line = some (x ++ z)) :
    ∃ rest, line = x ++ rest ∧ accepted? rest = some z := by
  induction x generalizing line with
  | nil => exact ⟨line, rfl, h⟩
  | cons b x ih =>
    obtain ⟨hb, hx⟩ := List.forall_mem_cons.1 hx
    obtain ⟨rest, rfl, hrest⟩ := accepted?_eq_cons hb h
    obtain ⟨rest, rfl, hz⟩ := ih hx hrest
    exact ⟨rest, rfl, hz⟩

theorem head?_accepted (h : accepted? line = some after) : after.head? = line.head? := by
  cases line with
  | nil =>
    rw [accepted?_nil] at h
    obtain rfl := Option.some.inj h
    rfl
  | cons b rest =>
    rw [accepted?_cons] at h
    split at h
    · next hstarts =>
      split at h
      · cases h
      · obtain ⟨more, -, rfl⟩ := Option.map_eq_some_iff.1 h
        obtain ⟨rfl, -⟩ := startsMarker_eq_true hstarts
        rw [(split_marker hstarts).1.defused]
        rfl
    · obtain ⟨more, -, rfl⟩ := Option.map_eq_some_iff.1 h
      rfl

end RawCode

namespace Directive

open RawCode

variable {line after : Bytes}

theorem ne_of_mem_opener (opener : Kind) : ∀ b ∈ opener.bytes, b ≠ 0x3c := by
  cases opener <;> simp [Kind.bytes]

theorem ne_of_isNameByte {b : UInt8} (h : isNameByte b = true) : b ≠ 0x3c := by
  rintro rfl
  exact absurd h (by decide)

/-- A directive may begin with what is accepted where one might begin before. -/
theorem begins_accepted (h : accepted? line = some after) : Begins after ↔ Begins line := by
  have hplain {opener : Kind} {spaces : Bytes} {b : UInt8} (hspaces : ∀ s ∈ spaces, s = 0x20)
      (hb : isNameByte b = true) : ∀ c ∈ opener.bytes ++ (spaces ++ [b]), c ≠ 0x3c := by
    simp only [List.forall_mem_append, List.forall_mem_singleton]
    refine ⟨ne_of_mem_opener opener, fun s hs => ?_, ne_of_isNameByte hb⟩
    rw [hspaces s hs]
    decide
  constructor
  · rintro ⟨opener, spaces, b, rest, hspaces, hb, rfl⟩
    rw [List.append_cons, ← List.append_assoc] at h
    obtain ⟨rest, rfl, -⟩ := accepted?_eq_append (hplain hspaces hb) h
    exact ⟨opener, spaces, b, rest, hspaces, hb, by simp⟩
  · rintro ⟨opener, spaces, b, rest, hspaces, hb, rfl⟩
    rw [List.append_cons, ← List.append_assoc, accepted?_skip (hplain hspaces hb)] at h
    obtain ⟨rest, -, rfl⟩ := Option.map_eq_some_iff.1 h
    exact ⟨opener, spaces, b, rest, hspaces, hb, by simp⟩

/-! ## Directives without markers -/

section

variable {quote : Option UInt8} {closer : Closer} {text rest rest' blob : Bytes}

/-- Whether something ends a directive is seen from two bytes. -/
theorem ends_take : Ends quote (text.take 2) closer ↔ Ends quote text closer := by
  cases closer <;> rcases text with _ | ⟨a, _ | ⟨b, text⟩⟩ <;> simp [Ends, LineEnds, Closer.bytes]

theorem take_two_of_head? {more : Bytes} (hmore : more ≠ []) (h : rest'.head? = rest.head?) :
    (more ++ rest').take 2 = (more ++ rest).take 2 := by
  obtain ⟨b, more, rfl⟩ := List.exists_cons_of_ne_nil hmore
  show b :: (more ++ rest').take 1 = b :: (more ++ rest).take 1
  rw [List.take_one, List.take_one, List.head?_append, List.head?_append, h]

theorem take_two_append (more : Bytes) (h : rest'.take 2 = rest.take 2) :
    (more ++ rest').take 2 = (more ++ rest).take 2 := by
  have htake (k : Nat) : rest'.take (2 - k) = rest.take (2 - k) := by
    have hle : min (2 - k) 2 = 2 - k := by omega
    rw [← hle, ← List.take_take, ← List.take_take, h]
  rw [List.take_append, List.take_append, htake]

theorem IsBlob.congr (h : IsBlob quote blob closer rest)
    (htake : (closer.bytes ++ rest').take 2 = (closer.bytes ++ rest).take 2) :
    IsBlob quote blob closer rest' where
  ends := by
    rw [← ends_take, htake, ends_take]
    exact h.ends
  first := by
    intro read more heq hmore other
    rw [← ends_take, take_two_append more htake, ends_take]
    exact h.first read more heq hmore other

/-- What is written stays so before another rest that begins alike. -/
theorem Written.congr {d : Directive} {spaces name : Bytes} (h : d.Written text spaces name blob rest)
    (htake : (d.closer.bytes ++ rest').take 2 = (d.closer.bytes ++ rest).take 2) :
    d.Written (d.opener.bytes ++ (spaces ++ (name ++ (blob ++ (d.closer.bytes ++ rest')))))
      spaces name blob rest' where
  text_eq := rfl
  stop_eq := h.stop_eq
  spaces_eq := h.spaces_eq
  name_ne_nil := h.name_ne_nil
  name_bytes := h.name_bytes
  maximal := by
    have hhead : (blob ++ (d.closer.bytes ++ rest')).head? = (blob ++ (d.closer.bytes ++ rest)).head? := by
      have htwo := congrArg List.head? (take_two_append blob htake)
      rwa [List.head?_take, List.head?_take, if_neg (by decide)] at htwo
    rw [hhead]
    exact h.maximal
  delimited := h.delimited.congr htake
  reads_name := h.reads_name
  reads_params := h.reads_params
  reads_content := h.reads_content

/-- A check leaves the end of a line where it is. -/
theorem take_two_accepted (h : accepted? rest = some rest')
    (hends : Ends quote (closer.bytes ++ rest) closer) :
    (closer.bytes ++ rest').take 2 = (closer.bytes ++ rest).take 2 := by
  cases closer with
  | tag | «variable» => rfl
  | lineEnd =>
    rcases hends with rfl | ⟨more, rfl⟩ | ⟨more, rfl⟩
    · rw [accepted?_nil] at h
      rw [← Option.some.inj h]
    · rw [accepted?_skip (by simp)] at h
      obtain ⟨more', hmore, rfl⟩ := Option.map_eq_some_iff.1 h
      show 0x0a :: more'.take 1 = 0x0a :: more.take 1
      rw [List.take_one, List.take_one, head?_accepted hmore]
    · rw [accepted?_skip (by simp)] at h
      obtain ⟨more', -, rfl⟩ := Option.map_eq_some_iff.1 h
      rfl

end

/-- **A directive without markers** is read as before. -/
theorem readAt?_of_not_markerAt {d : Directive} (hread : readAt? 0 line = some d)
    (hmarkers : ∀ i < d.stop, ¬ MarkerAt line i) (h : accepted? line = some after) :
    readAt? 0 after = some d ∧ accepted? (line.drop d.stop) = some (after.drop d.stop) := by
  obtain ⟨hstart, spaces, name, blob, rest, hwritten⟩ := readAt?_eq_some_iff.1 hread
  have hline : line = (d.opener.bytes ++ spaces ++ name ++ blob ++ d.closer.bytes) ++ rest := by
    rw [hwritten.text_eq]
    simp
  have hstop := hwritten.stop_eq
  rw [hstart, Nat.zero_add] at hstop
  rw [hstop, hline] at hmarkers
  rw [hline, accepted?_skip_of_not_markerAt hmarkers] at h
  obtain ⟨rest', hrest, rfl⟩ := Option.map_eq_some_iff.1 h
  constructor
  · refine readAt?_eq_some_iff.2 ⟨hstart, spaces, name, blob, rest', ?_⟩
    simpa using hwritten.congr (take_two_accepted hrest hwritten.delimited.ends)
  · rw [hline, hstop, List.drop_left, List.drop_left]
    exact hrest

/-! ## Directives with markers -/

theorem trimEnd_append_cons {c : UInt8} (hc : Byte.isBlank c = false) (x y : Bytes) :
    Bytes.trimEnd (x ++ c :: y) = x ++ c :: Bytes.trimEnd y := by
  unfold Bytes.trimEnd
  rw [List.reverse_append, List.reverse_cons, List.append_assoc, List.singleton_append,
    dropWhile_append_cons hc]
  simp

theorem prefix_trimEnd (x : Bytes) : Bytes.trimEnd x <+: x := by
  have hsuffix := List.dropWhile_suffix Byte.isBlank (l := x.reverse)
  rwa [← List.reverse_prefix, List.reverse_reverse] at hsuffix

/-- Texts are told apart if only one of them goes on with `<?php` after what they have in common. -/
theorem decode_trimEnd_ne {front printed plain : Bytes} (hprinted : Utf8.encode "<?php" <+: printed)
    (hplain : plain.head? = some 0x3c) (hnot : ¬ Utf8.encode "<?php" <+: plain) :
    Utf8.decode (Bytes.trimEnd (front ++ printed)) ≠ Utf8.decode (Bytes.trimEnd (front ++ plain)) := by
  intro heq
  have hopen : Utf8.encode "<?php" = 0x3c :: [0x3f, 0x70, 0x68, 0x70] := by decide
  obtain ⟨rest, rfl⟩ : ∃ rest, plain = 0x3c :: rest := ⟨_, List.eq_cons_of_mem_head? hplain⟩
  obtain ⟨more, rfl⟩ := hprinted
  rw [hopen, List.prefix_cons_inj] at hnot
  have hascii : ∀ b ∈ ([0x3f, 0x70, 0x68, 0x70] : Bytes), 0 < b.toNat ∧ b.toNat < 128 := by simp
  have hchars := String.ofList_injective heq
  have hpending : ∀ p ∈ (none : Option Utf8.Pending), p.IsWide := by simp
  rw [hopen, List.cons_append, trimEnd_append_cons (by decide), trimEnd_append_cons (by decide),
    Utf8.decodeFrom_append_cons hpending (by decide), Utf8.decodeFrom_append_cons hpending (by decide)]
    at hchars
  have htails := (List.cons.inj (List.append_cancel_left hchars)).2
  have hkept : Bytes.trimEnd ([0x3f, 0x70, 0x68, 0x70] ++ more) =
      [0x3f, 0x70, 0x68, 0x70] ++ Bytes.trimEnd more :=
    trimEnd_append_cons (by decide) [0x3f, 0x70, 0x68] more
  have hstarts : ([0x3f, 0x70, 0x68, 0x70] : Bytes) <+: Bytes.trimEnd rest := by
    rw [← Utf8.ascii_prefix_iff hascii, ← htails, Utf8.ascii_prefix_iff hascii, hkept]
    exact List.prefix_append _ _
  exact hnot (hstarts.trans (prefix_trimEnd rest))

/-- A blob goes on as long as nothing ends it. -/
theorem blob_append {quote : Option UInt8} {front rest : Bytes}
    (h : ∀ read more, front = read ++ more → more ≠ [] → ∀ other,
      ¬ Ends (quoteAfter quote read) (more ++ rest) other) :
    Directive.blob quote (front ++ rest) =
      (front ++ (Directive.blob (quoteAfter quote front) rest).1,
        (Directive.blob (quoteAfter quote front) rest).2) := by
  induction front generalizing quote with
  | nil => rfl
  | cons b front ih =>
    have hnot : ∀ other, ¬ Ends quote (b :: (front ++ rest)) other :=
      h [] (b :: front) rfl (List.cons_ne_nil b front)
    rw [List.cons_append, blob_of_not_ends hnot, ih]
    · rfl
    · rintro read more rfl hmore
      exact h (b :: read) more rfl hmore

theorem Ends.mem {quote : Option UInt8} {b : UInt8} {text : Bytes} {closer : Closer}
    (h : Ends quote (b :: text) closer) : b ∈ ([0x25, 0x7d, 0x0a, 0x0d] : Bytes) := by
  cases closer with
  | tag | «variable» =>
    obtain ⟨rfl, -⟩ := List.cons_prefix_cons.1 h.2
    decide
  | lineEnd =>
    rcases h with h | h | h
    · cases h
    · obtain ⟨rfl, -⟩ := List.cons_prefix_cons.1 h
      decide
    · obtain ⟨rfl, -⟩ := List.cons_prefix_cons.1 h
      decide

/-- What prints a marker does not end a directive. -/
theorem prefix_blob {quote : Option UInt8} {printed : Bytes} (h : Utf8.encode "<?php" <+: printed) :
    Utf8.encode "<?php" <+: (Directive.blob quote printed).1 := by
  obtain ⟨rest, rfl⟩ := h
  have hopen : Utf8.encode "<?php" = [0x3c, 0x3f, 0x70, 0x68, 0x70] := by decide
  have hplain : ∀ b ∈ Utf8.encode "<?php", b ∉ ([0x25, 0x7d, 0x0a, 0x0d] : Bytes) := by
    simp [hopen]
  rw [blob_append]
  · exact List.prefix_append _ _
  · intro read more heq hmore other hends
    obtain ⟨b, more, rfl⟩ := List.exists_cons_of_ne_nil hmore
    refine hplain b ?_ hends.mem
    rw [heq]
    exact List.mem_append_right _ List.mem_cons_self

variable {d : Directive} {spaces name blob rest : Bytes} {i : Nat}

/-- What is read after an opener, spaces and a name. -/
theorem exists_readAt? (opener : Kind) (hspaces : ∀ b ∈ spaces, b = 0x20) (hne : name ≠ [])
    (hname : ∀ b ∈ name, isNameByte b = true) (hrest : ∀ b ∈ rest.head?, isNameByte b = false) :
    ∃ d, readAt? 0 (opener.bytes ++ (spaces ++ (name ++ rest))) = some d ∧
      d.content = Utf8.decode (Bytes.trimEnd (name ++ (Directive.blob (quoteAfter none name) rest).1)) := by
  rcases hblob : Directive.blob (quoteAfter none name) rest with ⟨blob, closer⟩
  obtain ⟨after, rfl, hdelimited⟩ := blob_eq_iff.1 hblob
  have hpos : 0 < (opener.bytes ++ spaces ++ name ++ blob ++ closer.bytes).length := by
    simp only [List.length_append, Kind.length_bytes]
    omega
  let d : Directive :=
    { start := 0, stop := (opener.bytes ++ spaces ++ name ++ blob ++ closer.bytes).length,
      opener, closer, name := Utf8.decode name, params := Utf8.decode (Bytes.trim blob),
      content := Utf8.decode (Bytes.trimEnd (name ++ blob)), start_lt_stop := hpos }
  refine ⟨d, readAt?_eq_some_iff.2 ⟨rfl, spaces, name, blob, after, ?_⟩, rfl⟩
  exact ⟨rfl, (Nat.zero_add _).symm, hspaces, hne, hname, hrest, hdelimited, rfl, rfl, rfl⟩

theorem ne_of_mem_closer (closer : Closer) : ∀ b ∈ closer.bytes, b ≠ 0x3c := by
  cases closer <;> simp [Closer.bytes]

theorem Written.ne_of_mem_front (h : d.Written line spaces name blob rest) :
    ∀ b ∈ d.opener.bytes ++ (spaces ++ name), b ≠ 0x3c := by
  simp only [List.forall_mem_append]
  refine ⟨ne_of_mem_opener d.opener, fun b hb => ?_, fun b hb => ne_of_isNameByte (h.name_bytes b hb)⟩
  rw [h.spaces_eq b hb]
  decide

/-- A marker in a directive stands in its blob. -/
theorem Written.split_blob (h : d.Written line spaces name blob rest) (hstart : d.start = 0)
    (hi : i < d.stop) (hmarker : MarkerAt line i) :
    ∃ front back, blob = front ++ back ∧ back.head? = some 0x3c ∧
      i = (d.opener.bytes ++ (spaces ++ (name ++ front))).length := by
  have hbyte := hmarker.byte
  have hstop := h.stop_eq
  have hline : line = (d.opener.bytes ++ (spaces ++ name)) ++ (blob ++ (d.closer.bytes ++ rest)) := by
    rw [h.text_eq]
    simp
  simp only [List.length_append, hstart] at hstop
  obtain ⟨k, rfl⟩ : ∃ k, i = (d.opener.bytes ++ (spaces ++ name)).length + k := by
    refine Nat.exists_eq_add_of_le (Nat.le_of_not_lt fun hlt => ?_)
    rw [hline, List.getElem?_append_left hlt] at hbyte
    exact h.ne_of_mem_front _ (List.mem_of_getElem? hbyte) rfl
  rw [hline, List.getElem?_append_right (Nat.le_add_right _ _), Nat.add_sub_cancel_left] at hbyte
  have hk : k < blob.length := by
    by_contra hge
    have hcloser : k - blob.length < d.closer.bytes.length := by
      simp only [List.length_append] at hi
      omega
    rw [List.getElem?_append_right (Nat.le_of_not_lt hge), List.getElem?_append_left hcloser] at hbyte
    exact ne_of_mem_closer d.closer _ (List.mem_of_getElem? hbyte) rfl
  rw [List.getElem?_append_left hk] at hbyte
  refine ⟨blob.take k, blob.drop k, (List.take_append_drop k blob).symm, ?_, ?_⟩
  · rw [List.head?_drop, hbyte]
  · simp only [List.length_append, List.length_take]
    omega

/-- **A directive with a marker** is read differently: what prints the marker is read as well. -/
theorem exists_readAt?_of_markerAt (hread : readAt? 0 line = some d) (hi : i < d.stop)
    (hmarker : MarkerAt line i) (hbefore : ∀ j < i, ¬ MarkerAt line j)
    (h : accepted? line = some after) :
    ∃ d', readAt? 0 after = some d' ∧ d'.content ≠ d.content := by
  obtain ⟨hstart, spaces, name, blob, rest, hwritten⟩ := readAt?_eq_some_iff.1 hread
  obtain ⟨front, back, rfl, hback, rfl⟩ := hwritten.split_blob hstart hi hmarker
  have hline : line = (d.opener.bytes ++ (spaces ++ (name ++ front))) ++
      (back ++ (d.closer.bytes ++ rest)) := by
    rw [hwritten.text_eq]
    simp
  rw [hline] at hbefore
  have hthere : MarkerAt (back ++ (d.closer.bytes ++ rest)) 0 := by
    rw [← markerAt_append (d.opener.bytes ++ (spaces ++ (name ++ front))), ← hline]
    exact hmarker
  rw [hline, accepted?_skip_of_not_markerAt hbefore] at h
  obtain ⟨printed, hprinted, rfl⟩ := Option.map_eq_some_iff.1 h
  obtain ⟨hphp, hnot⟩ := accepted?_of_markerAt hthere hprinted
  have hhead : printed.head? = (back ++ (d.closer.bytes ++ rest)).head? := head?_accepted hprinted
  have hfront : ∀ read more, front = read ++ more → more ≠ [] → ∀ other,
      ¬ Ends (quoteAfter (quoteAfter none name) read) (more ++ printed) other := by
    rintro read more rfl hmore other
    have hfirst := hwritten.delimited.first read (more ++ back) (List.append_assoc ..)
      (List.append_ne_nil_of_left_ne_nil hmore back) other
    rwa [List.append_assoc, ← ends_take, ← take_two_of_head? hmore hhead, ends_take] at hfirst
  have hmaximal : ∀ b ∈ (front ++ printed).head?, isNameByte b = false := by
    rw [List.head?_append, hhead, ← List.head?_append, ← List.append_assoc]
    exact hwritten.maximal
  obtain ⟨d', hd', hcontent⟩ := exists_readAt? d.opener hwritten.spaces_eq hwritten.name_ne_nil
    hwritten.name_bytes hmaximal
  refine ⟨d', by simpa using hd', ?_⟩
  rw [hcontent, hwritten.reads_content, blob_append hfront, ← List.append_assoc, ← List.append_assoc]
  refine decode_trimEnd_ne (prefix_blob hphp) hback fun hback => hnot ?_
  exact hback.trans (List.prefix_append _ _)

/-! ## Lines -/

theorem not_brace_of_isMarker {text : Bytes} (h : IsMarker text) :
    (∀ b ∈ text, b ≠ 0x7b) ∧ ∀ b ∈ (Piece.marker text).defused, b ≠ 0x7b := by
  constructor
  · rintro b hb rfl
    exact absurd (isEdge_of_isMarkerByte (h.isMarkerByte _ hb)) (by decide)
  · rintro b hb rfl
    exact absurd (h.isEdge_defused hb) (by decide)

/-- **One step** over what no directive begins with: a marker or another byte. -/
theorem exists_step {b : UInt8} {rest after : Bytes} (hbegins : ¬ Begins (b :: rest))
    (h : accepted? (b :: rest) = some after) :
    ∃ rest' after', rest'.length < (b :: rest).length ∧ accepted? rest' = some after' ∧
      readings after = readings after' ∧ readings (b :: rest) = readings rest' ∧
      (MarkersOutside (b :: rest) ↔ MarkersOutside rest') := by
  have haccepted := h
  rw [accepted?_cons] at h
  by_cases hstarts : startsMarker b rest.head? = true
  · rw [if_pos hstarts] at h
    split at h
    · cases h
    · obtain ⟨more, hmore, rfl⟩ := Option.map_eq_some_iff.1 h
      obtain ⟨hmarker, hsplit, -⟩ := split_marker hstarts
      obtain ⟨htext, hprinted⟩ := not_brace_of_isMarker hmarker
      obtain ⟨hreadings, houtside⟩ := readings_append htext (rest.tail.dropWhile Byte.isLetter)
      rw [← hsplit] at hreadings houtside
      exact ⟨_, more, length_dropWhile_tail_lt Byte.isLetter b rest, hmore,
        (readings_append hprinted more).1, hreadings, houtside⟩
  · rw [if_neg hstarts] at h
    obtain ⟨more, hmore, rfl⟩ := Option.map_eq_some_iff.1 h
    have hnot : ¬ Begins (b :: more) := (begins_accepted haccepted).not.2 hbegins
    exact ⟨rest, more, Nat.lt_succ_self rest.length, hmore, readings_of_not_begins hnot,
      readings_of_not_begins hbegins, markersOutside_of_not_begins hbegins⟩

/-- **Checking and scanning**: of a checked line the same is read as of the line itself exactly if no
marker stands in a directive. -/
theorem readings_eq_iff {line after : Bytes} (h : accepted? line = some after) :
    readings after = readings line ↔ MarkersOutside line := by
  induction hlength : line.length using Nat.strongRecOn generalizing line after with
  | ind n ih =>
    subst hlength
    cases line with
    | nil =>
      rw [accepted?_nil] at h
      obtain rfl := Option.some.inj h
      have hall : all [] = [] := allFrom_of_none rfl
      simp [MarkersOutside, hall]
    | cons b rest =>
      by_cases hbegins : Begins (b :: rest)
      · obtain ⟨d, hread⟩ := (begins_iff 0).1 hbegins
        have hstop : d.stop ≤ (b :: rest).length := (first?_stands (first?_of_readAt? hread)).1
        rw [readings_of_readAt? hread, markersOutside_of_readAt? hread hstop]
        by_cases hmarkers : ∀ i < d.stop, ¬ MarkerAt (b :: rest) i
        · obtain ⟨hafter, hrest⟩ := readAt?_of_not_markerAt hread hmarkers h
          have hshorter : ((b :: rest).drop d.stop).length < (b :: rest).length := by
            have hlt := d.start_lt_stop
            rw [List.length_drop]
            omega
          rw [readings_of_readAt? hafter, List.cons_inj_right, ih _ hshorter hrest rfl]
          exact (and_iff_right hmarkers).symm
        · -- the first marker tells the directives apart
          have hsome : ∃ i, i < d.stop ∧ MarkerAt (b :: rest) i := by
            simpa using hmarkers
          classical
          obtain ⟨hi, hmarker⟩ := Nat.find_spec hsome
          have hbefore : ∀ j < Nat.find hsome, ¬ MarkerAt (b :: rest) j := fun j hj hat =>
            Nat.find_min hsome hj ⟨hj.trans hi, hat⟩
          obtain ⟨d', hread', hcontent⟩ := exists_readAt?_of_markerAt hread hi hmarker hbefore h
          rw [readings_of_readAt? hread']
          refine iff_of_false (fun heq => hcontent ?_) fun hall => hmarkers hall.1
          exact congrArg (·.2.2.2.2) (List.cons.inj heq).1
      · obtain ⟨rest', after', hshorter, haccepted, hafter, hline, houtside⟩ := exists_step hbegins h
        rw [hafter, hline, houtside]
        exact ih _ hshorter haccepted rfl

/-- A marker before a variable. -/
def prolog : Bytes :=
  Utf8.encode "<?xml \x7b\x7b a \x7d\x7d"

/-- It is printed, and the variable is as it was. -/
theorem readings_prolog : ∃ after, accepted? prolog = some after ∧
    after = Utf8.encode "<?php print '<?xml'; ?> \x7b\x7b a \x7d\x7d" ∧
    readings after = readings prolog := by
  have haccepted : accepted? prolog =
      some (Utf8.encode "<?php print '<?xml'; ?> \x7b\x7b a \x7d\x7d") := by
    decide +kernel
  have houtside : MarkersOutside prolog := by
    decide +kernel
  exact ⟨_, haccepted, rfl, (readings_eq_iff haccepted).2 houtside⟩

/-- A marker in a literal. -/
def quotedProlog : Bytes :=
  Utf8.encode "\x7b\x7b '<?xml' \x7d\x7d"

/-- What prints it becomes a part of the variable. -/
theorem exists_readings_ne : ∃ after, accepted? quotedProlog = some after ∧
    after = Utf8.encode "\x7b\x7b '<?php print '<?xml'; ?>' \x7d\x7d" ∧
    readings after ≠ readings quotedProlog := by
  refine ⟨_, ?_, rfl, ?_⟩
  · decide +kernel
  · decide +kernel

end Directive

end TemplateCompiler.Markup
