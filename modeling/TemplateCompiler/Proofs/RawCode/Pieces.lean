import Mathlib.Data.List.Chain
import Mathlib.Data.List.TakeWhile
import TemplateCompiler.Markup.RawCode

/-!
# Checked lines

A line that has been checked consists of bytes in which no marker begins and of segments that print
one (`Defused`). Where it is cut next to a byte that no segment has, a brace or a line break, both
parts are of this kind (`Defused.split`).
-/
namespace TemplateCompiler

theorem Bytes.singleton_prefix_iff {b : UInt8} {text : Bytes} : [b] <+: text ↔ text.head? = some b := by
  cases text <;> simp [eq_comm]

/-! ## ASCII -/

namespace Utf8

theorem utf8EncodeChar_ofNat : ∀ n < 128, String.utf8EncodeChar (Char.ofNat n) = [UInt8.ofNat n] := by
  decide

/-- ASCII octets are read as characters of their own. -/
theorem decodeFrom_ascii {bytes : Bytes} (h : ∀ b ∈ bytes, b.toNat < 128) :
    decodeFrom none bytes = bytes.map fun b => Char.ofNat b.toNat := by
  induction bytes with
  | nil => rfl
  | cons b rest ih =>
    have hb : b.toNat < 0x80 := h b List.mem_cons_self
    have hlead : Step.lead b = .done (Char.ofNat b.toNat) := if_pos hb
    rw [decodeFrom, hlead, List.map_cons, ← ih fun c hc => h c (List.mem_cons_of_mem _ hc)]

end Utf8

namespace Markup.RawCode

/-! ## Markers -/

/-- What a marker consists of: `<?` or `<%`, and letters. -/
def IsMarker (text : Bytes) : Prop :=
  ∃ second letters, text = 0x3c :: second :: letters ∧ startsMarker 0x3c (some second) = true ∧
    ∀ b ∈ letters, Byte.isLetter b = true

/-- A byte that a marker may have. -/
def isMarkerByte (b : UInt8) : Bool :=
  b == 0x3c || b == 0x3f || b == 0x25 || Byte.isLetter b

/-- What stands before a marker in the segment that prints it. -/
def printOpen : Bytes :=
  Utf8.encode "<?php print '"

/-- What stands after a marker in the segment that prints it. -/
def printClose : Bytes :=
  Utf8.encode "'; ?>"

/-- A byte that no segment has which prints a marker: a brace or part of a line break. -/
def isEdge (b : UInt8) : Bool :=
  b == 0x7b || b == 0x7d || b == 0x0a || b == 0x0d

/-- A marker is written as it is between quotes. -/
theorem escaped_of_isMarkerByte {b : UInt8} (h : isMarkerByte b = true) :
    b.toNat < 128 ∧ Code.escapeChar (Char.ofNat b.toNat) = [Char.ofNat b.toNat] := by
  have hall : ∀ n < 256, isMarkerByte (UInt8.ofNat n) = true →
      n < 128 ∧ Code.escapeChar (Char.ofNat n) = [Char.ofNat n] := by decide +kernel
  exact hall b.toNat b.toNat_lt (by rwa [UInt8.ofNat_toNat])

theorem isEdge_of_isMarkerByte {b : UInt8} (h : isMarkerByte b = true) : isEdge b = false := by
  have hall : ∀ n < 256, isMarkerByte (UInt8.ofNat n) = true →
      isEdge (UInt8.ofNat n) = false := by decide +kernel
  have hb := hall b.toNat b.toNat_lt
  rw [UInt8.ofNat_toNat] at hb
  exact hb h

variable {text : Bytes} {b : UInt8}

theorem IsMarker.isMarkerByte (h : IsMarker text) : ∀ b ∈ text, isMarkerByte b = true := by
  obtain ⟨second, letters, rfl, hstarts, hletters⟩ := h
  have hsecond : RawCode.isMarkerByte second = true := by
    simp only [startsMarker, Bool.and_eq_true, Bool.or_eq_true, beq_iff_eq] at hstarts
    rcases hstarts.2 with hsecond | hsecond
    · rw [Option.some.inj hsecond]
      decide
    · rw [Option.some.inj hsecond]
      decide
  intro b hb
  rcases List.mem_cons.1 hb with rfl | hb
  · decide
  · rcases List.mem_cons.1 hb with rfl | hb
    · exact hsecond
    · rw [RawCode.isMarkerByte, hletters b hb, Bool.or_true]

/-- **The segment that prints a marker** has it between quotes. -/
theorem IsMarker.defused (h : IsMarker text) :
    (Piece.marker text).defused = printOpen ++ text ++ printClose := by
  have hbytes := h.isMarkerByte
  have hchars : (Utf8.decode text).toList = text.map fun b => Char.ofNat b.toNat := by
    rw [Utf8.decode, String.toList_ofList,
      Utf8.decodeFrom_ascii fun b hb => (escaped_of_isMarkerByte (hbytes b hb)).1]
  have hquoted : (text.map fun b => Char.ofNat b.toNat).flatMap Code.escapeChar =
      text.map fun b => Char.ofNat b.toNat := by
    rw [List.flatMap_map]
    refine (List.flatMap_congr fun b hb => (escaped_of_isMarkerByte (hbytes b hb)).2).trans ?_
    exact List.flatMap_pure_eq_map _ _
  have hencoded : (text.map fun b => Char.ofNat b.toNat).flatMap String.utf8EncodeChar = text := by
    rw [List.flatMap_map]
    refine (List.flatMap_congr fun b hb => ?_).trans (List.flatMap_singleton' text)
    rw [Utf8.utf8EncodeChar_ofNat _ (escaped_of_isMarkerByte (hbytes b hb)).1, UInt8.ofNat_toNat]
  have hliteral : Utf8.encode (Code.stringLiteral (Utf8.decode text)) = 0x27 :: (text ++ [0x27]) := by
    rw [Code.stringLiteral, Utf8.encode, String.toList_ofList, hchars, hquoted, List.flatMap_append,
      List.flatMap_append, hencoded]
    rfl
  show Utf8.encode (Code.segmentOpen ++ ("print " ++ _ ++ ";") ++ Code.segmentClose) = _
  simp only [Utf8.encode_append, hliteral, List.append_assoc]
  have hopen : printOpen = Utf8.encode Code.segmentOpen ++ (Utf8.encode "print " ++ [0x27]) := by
    decide
  have hclose : printClose = 0x27 :: (Utf8.encode ";" ++ Utf8.encode Code.segmentClose) := by
    decide
  rw [hopen, hclose]
  simp only [List.append_assoc, List.cons_append, List.nil_append]

theorem IsMarker.isEdge_defused (h : IsMarker text) (hb : b ∈ (Piece.marker text).defused) :
    isEdge b = false := by
  have hall : (printOpen ++ printClose).all (!isEdge ·) = true := by decide
  have hends : ∀ b ∈ printOpen ++ printClose, isEdge b = false := by
    simpa only [List.all_eq_true, Bool.not_eq_true'] using hall
  rw [h.defused, List.mem_append, List.mem_append] at hb
  rcases hb with (hb | hb) | hb
  · exact hends b (List.mem_append_left _ hb)
  · exact isEdge_of_isMarkerByte (h.isMarkerByte b hb)
  · exact hends b (List.mem_append_right _ hb)

/-! ## Lines that have been checked -/

/-- Whether two pieces that follow each other are not a marker between them. -/
def Apart (first second : Piece) : Prop :=
  ∀ a b, first = .byte a → second = .byte b → startsMarker a (some b) = false

/-- Pieces as they are found in a line: no marker begins in the bytes. -/
structure IsClean (found : List Piece) : Prop where
  apart : found.IsChain Apart
  markers : ∀ text, .marker text ∈ found → IsMarker text

/-- What a line consists of, once its markers are printed. -/
def Defused (line : Bytes) : Prop :=
  ∃ found, IsClean found ∧ line = found.flatMap Piece.defused

/-- The line is the text with its markers printed. -/
def Prints (text line : Bytes) : Prop :=
  ∃ found, IsClean found ∧ found.flatMap Piece.source = text ∧ line = found.flatMap Piece.defused

variable {first second found : List Piece}

theorem IsClean.nil : IsClean [] :=
  ⟨.nil, fun _ hmem => nomatch hmem⟩

theorem IsClean.left (h : IsClean (first ++ second)) : IsClean first :=
  ⟨h.apart.left_of_append, fun text hmem => h.markers text (List.mem_append_left _ hmem)⟩

theorem IsClean.right (h : IsClean (first ++ second)) : IsClean second :=
  ⟨h.apart.right_of_append, fun text hmem => h.markers text (List.mem_append_right _ hmem)⟩

theorem IsClean.tail {piece : Piece} (h : IsClean (piece :: found)) : IsClean found :=
  ⟨h.apart.tail, fun text hmem => h.markers text (List.mem_cons_of_mem _ hmem)⟩

theorem startsMarker_eq_true {a : UInt8} {next : Option UInt8} (h : startsMarker a next = true) :
    a = 0x3c ∧ ∃ second, next = some second ∧ startsMarker 0x3c (some second) = true := by
  simp only [startsMarker, Bool.and_eq_true, Bool.or_eq_true, beq_iff_eq] at h
  obtain ⟨rfl, hnext | hnext⟩ := h
  · exact ⟨rfl, 0x3f, hnext, by decide⟩
  · exact ⟨rfl, 0x25, hnext, by decide⟩

/-- The marker that a line begins with, taken off. -/
theorem split_marker {rest : Bytes} (h : startsMarker b rest.head? = true) :
    IsMarker (b :: (rest.take 1 ++ rest.tail.takeWhile Byte.isLetter)) ∧
      b :: rest = b :: (rest.take 1 ++ rest.tail.takeWhile Byte.isLetter) ++
        rest.tail.dropWhile Byte.isLetter ∧
      (b :: (rest.take 1 ++ rest.tail.takeWhile Byte.isLetter)).length =
        2 + (rest.tail.takeWhile Byte.isLetter).length := by
  obtain ⟨rfl, second, hnext, hsecond⟩ := startsMarker_eq_true h
  obtain ⟨after, rfl⟩ : ∃ after, rest = second :: after := ⟨_, List.eq_cons_of_mem_head? hnext⟩
  refine ⟨⟨second, _, rfl, hsecond, fun b hb => List.mem_takeWhile_imp hb⟩, by simp, ?_⟩
  simp only [List.length_cons, List.length_append, List.length_take]
  omega

/-- A marker may stand before anything. -/
theorem IsClean.cons_marker (h : IsClean found) (htext : IsMarker text) :
    IsClean (.marker text :: found) where
  apart := by
    refine List.isChain_cons.2 ⟨?_, h.apart⟩
    rintro _ _ _ _ ⟨⟩
  markers := by
    intro other hmem
    rcases List.mem_cons.1 hmem with heq | hmem
    · rwa [Piece.marker.inj heq]
    · exact h.markers other hmem

/-- A byte may stand before what makes no marker of it. -/
theorem IsClean.cons_byte (h : IsClean found)
    (hstarts : ∀ c, found.head? = some (.byte c) → startsMarker b (some c) = false) :
    IsClean (.byte b :: found) where
  apart := by
    refine List.isChain_cons.2 ⟨?_, h.apart⟩
    rintro next hnext a c ha rfl
    rw [← Piece.byte.inj ha]
    exact hstarts c hnext
  markers := fun other hmem =>
    h.markers other ((List.mem_cons.1 hmem).resolve_left Piece.noConfusion)

theorem map_cons_eq_ok {ε α : Type} {result : Except ε (List α)} {a : α} {all : List α}
    (h : result.map (a :: ·) = .ok all) : ∃ more, result = .ok more ∧ all = a :: more := by
  cases result with
  | error error => cases h
  | ok more => exact ⟨more, rfl, (Except.ok.inj h).symm⟩

/-- The pieces of a line are clean, and they are all of it. -/
theorem isClean_of_pieces {offset : Nat} {line : Bytes} (h : pieces offset line = .ok found) :
    IsClean found ∧ found.flatMap Piece.source = line ∧
      ∀ b, found.head? = some (.byte b) → line.head? = some b := by
  fun_induction pieces offset line generalizing found with
  | case1 =>
    obtain rfl := Except.ok.inj h
    exact ⟨.nil, rfl, nofun⟩
  | case2 => cases h
  | case3 offset b rest hstarts hexecutable letters =>
    rename_i ih
    obtain ⟨more, hmore, rfl⟩ := map_cons_eq_ok h
    obtain ⟨hclean, hsource, -⟩ := ih hmore
    obtain ⟨hmarker, hsplit, -⟩ := split_marker hstarts
    refine ⟨hclean.cons_marker hmarker, ?_, nofun⟩
    rw [List.flatMap_cons, hsource]
    exact hsplit.symm
  | case4 offset b rest hstarts ih =>
    obtain ⟨more, hmore, rfl⟩ := map_cons_eq_ok h
    obtain ⟨hclean, hsource, hhead⟩ := ih hmore
    refine ⟨hclean.cons_byte fun c hc => ?_, ?_, ?_⟩
    · rw [← hhead c hc]
      exact Bool.eq_false_iff.2 hstarts
    · rw [List.flatMap_cons, hsource]
      rfl
    · rintro c hc
      exact congrArg some (Piece.byte.inj (Option.some.inj hc))

/-- **Checking**: a line that is let through is printed, as it is if it has no markers. -/
theorem prints_of_check {line after : Bytes}
    (h : check line = .clean ∧ after = line ∨ check line = .defused after) : Prints line after := by
  unfold check at h
  cases hpieces : pieces 0 line with
  | error offset =>
    rw [hpieces] at h
    rcases h with ⟨h, -⟩ | h <;> cases h
  | ok found =>
    rw [hpieces] at h
    obtain ⟨hclean, hsource, -⟩ := isClean_of_pieces hpieces
    refine ⟨found, hclean, hsource, ?_⟩
    dsimp only at h
    split at h
    · rcases h with ⟨h, -⟩ | h
      · cases h
      · exact (Verdict.defused.inj h).symm
    · next hmarker =>
      rcases h with ⟨-, rfl⟩ | h
      · rw [← hsource]
        refine List.flatMap_congr fun piece hmem => ?_
        cases piece with
        | byte b => rfl
        | marker text => exact absurd (List.any_eq_true.2 ⟨_, hmem, rfl⟩) hmarker
      · cases h

theorem defused_of_check {line after : Bytes}
    (h : check line = .clean ∧ after = line ∨ check line = .defused after) : Defused after := by
  obtain ⟨found, hclean, -, hline⟩ := prints_of_check h
  exact ⟨found, hclean, hline⟩

/-! ## Cutting -/

/-- Within a piece there is no edge. -/
theorem IsClean.not_edge {piece : Piece} {rest : List Piece} (h : IsClean (piece :: rest))
    {before inside after : Bytes} (heq : piece.defused = before ++ inside) (hbefore : before ≠ [])
    (hinside : inside ≠ []) :
    ¬ ((∃ e ∈ before.getLast?, isEdge e = true) ∨
      ∀ e ∈ (inside ++ after).head?, isEdge e = true) := by
  cases piece with
  | byte b =>
    have hlength := congrArg List.length heq
    have := List.length_pos_iff.2 hbefore
    have := List.length_pos_iff.2 hinside
    rw [List.length_append] at hlength
    change 1 = _ at hlength
    omega
  | marker text =>
    have hmarker := h.markers text List.mem_cons_self
    rw [not_or]
    constructor
    · rintro ⟨e, he, hedge⟩
      have hmem : e ∈ (Piece.marker text).defused :=
        heq ▸ List.mem_append_left _ (List.mem_of_getLast? he)
      rw [hmarker.isEdge_defused hmem] at hedge
      cases hedge
    · intro hedge
      obtain ⟨e, more, rfl⟩ := List.exists_cons_of_ne_nil hinside
      have hmem : e ∈ (Piece.marker text).defused :=
        heq ▸ List.mem_append_right _ List.mem_cons_self
      have he := hedge e rfl
      rw [hmarker.isEdge_defused hmem] at he
      cases he

/-- Pieces fall into two where their bytes are cut next to an edge. -/
theorem IsClean.split (h : IsClean found) {before after : Bytes}
    (heq : found.flatMap Piece.defused = before ++ after)
    (hedge : (∃ e ∈ before.getLast?, isEdge e = true) ∨ ∀ e ∈ after.head?, isEdge e = true) :
    ∃ first second, found = first ++ second ∧ first.flatMap Piece.defused = before ∧
      second.flatMap Piece.defused = after := by
  induction found generalizing before with
  | nil =>
    obtain ⟨rfl, rfl⟩ := List.append_eq_nil_iff.1 heq.symm
    exact ⟨[], [], rfl, rfl, rfl⟩
  | cons piece rest ih =>
    by_cases hnil : before = []
    · subst hnil
      exact ⟨[], piece :: rest, rfl, rfl, heq⟩
    · have hrest : IsClean rest := h.tail
      rw [List.flatMap_cons] at heq
      rcases List.append_eq_append_iff.1 heq with ⟨more, rfl, hmore⟩ | ⟨inside, hpiece, rfl⟩
      · by_cases hend : more = []
        · subst hend
          exact ⟨[piece], rest, rfl, by simp, hmore⟩
        · rw [List.getLast?_append_of_ne_nil _ hend] at hedge
          obtain ⟨first, second, rfl, rfl, hsecond⟩ := ih hrest hmore hedge
          exact ⟨piece :: first, second, rfl, rfl, hsecond⟩
      · by_cases hend : inside = []
        · subst hend
          rw [List.append_nil] at hpiece
          exact ⟨[piece], rest, rfl, by simp [hpiece], rfl⟩
        · exact absurd hedge (h.not_edge hpiece hnil hend)

/-- **Cutting**: both parts of a line that is cut next to an edge are defused. -/
theorem Defused.split {before after : Bytes} (h : Defused (before ++ after))
    (hedge : (∃ e ∈ before.getLast?, isEdge e = true) ∨ ∀ e ∈ after.head?, isEdge e = true) :
    Defused before ∧ Defused after := by
  obtain ⟨found, hclean, heq⟩ := h
  obtain ⟨first, second, rfl, rfl, rfl⟩ := hclean.split heq.symm hedge
  exact ⟨⟨first, hclean.left, rfl⟩, ⟨second, hclean.right, rfl⟩⟩

/-- What is printed is cut where the line is. -/
theorem Prints.split {text before after : Bytes} (h : Prints text (before ++ after))
    (hedge : (∃ e ∈ before.getLast?, isEdge e = true) ∨ ∀ e ∈ after.head?, isEdge e = true) :
    ∃ front back, text = front ++ back ∧ Prints front before ∧ Prints back after := by
  obtain ⟨found, hclean, rfl, heq⟩ := h
  obtain ⟨first, second, rfl, rfl, rfl⟩ := hclean.split heq.symm hedge
  exact ⟨_, _, List.flatMap_append, ⟨first, hclean.left, rfl, rfl⟩, ⟨second, hclean.right, rfl, rfl⟩⟩

/-- A byte that begins no marker is itself. -/
theorem Prints.cons {text line : Bytes} (h : Prints text (b :: line)) (hb : b ≠ 0x3c) :
    ∃ rest, text = b :: rest ∧ Prints rest line := by
  obtain ⟨found, hclean, rfl, heq⟩ := h
  cases found with
  | nil => cases heq
  | cons piece found =>
    cases piece with
    | byte c =>
      obtain ⟨rfl, rfl⟩ := List.cons.inj heq
      exact ⟨_, rfl, found, hclean.tail, rfl, rfl⟩
    | marker text =>
      rw [List.flatMap_cons, (hclean.markers text List.mem_cons_self).defused] at heq
      exact absurd (List.cons.inj heq).1 hb

end Markup.RawCode

end TemplateCompiler
