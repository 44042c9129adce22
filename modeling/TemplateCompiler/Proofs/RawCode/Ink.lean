import TemplateCompiler.Proofs.RawCode.Pieces
import TemplateCompiler.Proofs.Transcript.Passage

/-!
# Passed-through text and code

Every byte of an artifact is text that was passed through or belongs to a segment that the compiler
wrote (`Ink`). No marker stands in the passed-through text of a line that has been checked
(`covered_ofText`), so one can only come from two passages that meet
(`Passage.covered_flatMap_inks`).
-/
namespace TemplateCompiler

open Markup.RawCode

/-- A byte of an artifact, and whether it belongs to a segment that the compiler wrote. -/
structure Ink where
  byte : UInt8
  isCode : Bool
  deriving DecidableEq, Repr

namespace Ink

/-- A marker that two neighbours make belongs to the compiler. -/
def Agree (first second : Ink) : Prop :=
  startsMarker first.byte (some second.byte) = true → first.isCode = true ∧ second.isCode = true

/-- Every marker lies in a segment that the compiler wrote. -/
def Covered (inks : List Ink) : Prop :=
  inks.IsChain Agree

instance (first second : Ink) : Decidable (Agree first second) :=
  inferInstanceAs (Decidable (_ → _))

instance (inks : List Ink) : Decidable (Covered inks) :=
  inferInstanceAs (Decidable (List.IsChain _ _))

/-- Passed-through bytes. -/
def plain (bytes : Bytes) : List Ink :=
  bytes.map (⟨·, false⟩)

/-- The bytes of a segment. -/
def code (bytes : Bytes) : List Ink :=
  bytes.map (⟨·, true⟩)

/-- How many bytes a segment takes that prints a marker, if one stands at the start of a text. -/
def printedLength (text : Bytes) : Nat :=
  match text.drop printOpen.length with
  | first :: second :: rest =>
    let segment := printOpen ++ (first :: second :: rest.takeWhile Byte.isLetter) ++ printClose
    if startsMarker first (some second) && segment.isPrefixOf text then segment.length else 0
  | _ => 0

/-- Tells the segments that print markers from the bytes of a text, so many bytes being left of
one that has begun. -/
def ofTextFrom : Nat → Bytes → List Ink
  | _, [] => []
  | left + 1, b :: rest => ⟨b, true⟩ :: ofTextFrom left rest
  | 0, b :: rest =>
    match printedLength (b :: rest) with
    | left + 1 => ⟨b, true⟩ :: ofTextFrom left rest
    | 0 => ⟨b, false⟩ :: ofTextFrom 0 rest

/-- The bytes of a text, and which of them are segments that print markers. -/
def ofText (text : Bytes) : List Ink :=
  ofTextFrom 0 text

theorem map_byte_ofTextFrom (left : Nat) (text : Bytes) :
    (ofTextFrom left text).map (·.byte) = text := by
  induction text generalizing left with
  | nil => cases left <;> rfl
  | cons b rest ih =>
    cases left with
    | succ left => exact congrArg (b :: ·) (ih left)
    | zero =>
      rw [ofTextFrom]
      split
      · exact congrArg (b :: ·) (ih _)
      · exact congrArg (b :: ·) (ih _)

/-! ## Segments that print markers -/

theorem ofTextFrom_length (written rest : Bytes) :
    ofTextFrom written.length (written ++ rest) = code written ++ ofTextFrom 0 rest := by
  induction written with
  | nil => rfl
  | cons b written ih => exact congrArg (⟨b, true⟩ :: ·) ih

/-- A segment that prints a marker is found. -/
theorem printedLength_defused {marker : Bytes} (h : IsMarker marker) (rest : Bytes) :
    printedLength ((Piece.marker marker).defused ++ rest) = (Piece.marker marker).defused.length := by
  have hdefused := h.defused
  obtain ⟨second, letters, rfl, hstarts, hletters⟩ := h
  rw [hdefused]
  have hdrop : (printOpen ++ (0x3c :: second :: letters) ++ printClose ++ rest).drop
      printOpen.length = 0x3c :: second :: (letters ++ (printClose ++ rest)) := by
    rw [List.append_assoc, List.append_assoc, List.drop_left]
    rfl
  have htake : (letters ++ (printClose ++ rest)).takeWhile Byte.isLetter = letters := by
    rw [List.takeWhile_append_of_pos hletters]
    exact List.append_nil letters
  have hstands : (printOpen ++ (0x3c :: second :: letters) ++ printClose).isPrefixOf
      (printOpen ++ (0x3c :: second :: letters) ++ printClose ++ rest) = true :=
    List.isPrefixOf_iff_prefix.2 (List.prefix_append _ _)
  unfold printedLength
  rw [hdrop]
  dsimp only
  rw [htake, hstarts, hstands]
  rfl

/-- Where no marker begins, no segment does. -/
theorem printedLength_eq_zero {b : UInt8} {rest : Bytes}
    (h : startsMarker b rest.head? = false) : printedLength (b :: rest) = 0 := by
  unfold printedLength
  split
  · next first second after hdrop =>
    dsimp only
    split
    · next hstands =>
      -- a segment would begin with a marker
      rw [Bool.and_eq_true] at hstands
      obtain ⟨more, hmore⟩ := List.isPrefixOf_iff_prefix.1 hstands.2
      have hopen : printOpen = 0x3c :: 0x3f :: printOpen.drop 2 := by decide
      rw [hopen] at hmore
      obtain ⟨rfl, hrest⟩ := List.cons.inj hmore
      rw [← hrest] at h
      cases h
    · rfl
  · rfl

/-! ## Checked text -/

/-- A byte is passed through, and the segment of a marker is code. -/
def ofPiece : Piece → List Ink
  | .byte b => [⟨b, false⟩]
  | .marker text => code (Piece.marker text).defused

theorem defused_eq_cons {marker : Bytes} (h : IsMarker marker) :
    ∃ tail, (Piece.marker marker).defused = 0x3c :: tail ∧ tail.getLast? = some 0x3e := by
  have hopen : printOpen = 0x3c :: printOpen.tail := by decide
  have hclose : printClose.getLast? = some 0x3e := by decide
  rw [h.defused, hopen]
  refine ⟨printOpen.tail ++ marker ++ printClose, rfl, ?_⟩
  rw [List.getLast?_append, hclose]
  rfl

theorem head?_ne_second (b : UInt8) {found : List Piece} (h : IsClean (.byte b :: found)) :
    startsMarker b (found.flatMap Piece.defused).head? = false := by
  cases found with
  | nil =>
    show startsMarker b none = false
    simp [startsMarker]
  | cons next rest =>
    cases next with
    | byte c => exact (List.isChain_cons_cons.1 h.apart).1 b c rfl rfl
    | marker text =>
      have hmarker := h.tail.markers text List.mem_cons_self
      have hopen : printOpen = 0x3c :: printOpen.tail := by decide
      rw [List.flatMap_cons, hmarker.defused, hopen]
      simp [startsMarker]

/-- What a checked line consists of is found again in its bytes. -/
theorem ofText_eq {found : List Piece} (h : IsClean found) :
    ofText (found.flatMap Piece.defused) = found.flatMap ofPiece := by
  induction found with
  | nil => rfl
  | cons piece rest ih =>
    have hrest := ih h.tail
    unfold ofText at hrest ⊢
    rw [List.flatMap_cons, List.flatMap_cons, ← hrest]
    cases piece with
    | byte b =>
      show ofTextFrom 0 (b :: rest.flatMap Piece.defused) = _
      rw [ofTextFrom, printedLength_eq_zero (head?_ne_second b h)]
      rfl
    | marker text =>
      have hmarker := h.markers text List.mem_cons_self
      have hlength := printedLength_defused hmarker (rest.flatMap Piece.defused)
      obtain ⟨tail, htail, -⟩ := defused_eq_cons hmarker
      rw [ofPiece]
      rw [htail] at hlength ⊢
      rw [List.cons_append] at hlength ⊢
      rw [ofTextFrom, hlength]
      exact congrArg (⟨0x3c, true⟩ :: ·) (ofTextFrom_length tail _)

theorem covered_code (bytes : Bytes) : Covered (code bytes) := by
  unfold Covered code
  rw [List.isChain_map]
  induction bytes with
  | nil => exact .nil
  | cons b rest ih => exact List.isChain_cons.2 ⟨fun _ _ _ => ⟨rfl, rfl⟩, ih⟩

/-- **Checked text is covered**: every marker in it is printed by a segment. -/
theorem covered_ofText {text : Bytes} (h : Defused text) : Covered (ofText text) := by
  obtain ⟨found, hclean, rfl⟩ := h
  rw [ofText_eq hclean]
  unfold Covered
  induction found with
  | nil => exact .nil
  | cons piece rest ih =>
    rw [List.flatMap_cons, List.isChain_append]
    refine ⟨?_, ih hclean.tail, ?_⟩
    · cases piece with
      | byte b => exact .singleton _
      | marker text => exact covered_code _
    · intro x hx y hy hstarts
      cases piece with
      | byte b =>
        obtain rfl : x = ⟨b, false⟩ := (Option.some.inj hx).symm
        have hbytes := map_byte_ofTextFrom 0 (rest.flatMap Piece.defused)
        rw [show ofTextFrom 0 _ = _ from ofText_eq hclean.tail] at hbytes
        have hhead : (rest.flatMap Piece.defused).head? = some y.byte := by
          rw [← hbytes, List.head?_map, hy]
          rfl
        have hapart := head?_ne_second b hclean
        rw [hhead] at hapart
        exact absurd hstarts (by rw [hapart]; decide)
      | marker text =>
        obtain ⟨tail, htail, hlast⟩ := defused_eq_cons (hclean.markers text List.mem_cons_self)
        rw [ofPiece, htail, code, List.getLast?_map, List.getLast?_cons, hlast] at hx
        obtain rfl := Option.some.inj hx
        cases hstarts

end Ink

/-! ## Passages -/

namespace Passage

open Ink

/-- The bytes of a passage: what it shows and what its tag does is code, and so are the markers
that are printed in its text. -/
def inks : Passage → List Ink
  | text chunk => ofText chunk
  | verbatim chunk => plain chunk
  | copied content => plain content
  | shown value filterings => code (bytes (shown value filterings))
  | tagged fills statement => code (bytes (tagged fills statement))

/-- Whether a passage was taken over without being checked. -/
def isForeign : Passage → Bool
  | verbatim _ => true
  | copied _ => true
  | _ => false

theorem map_byte_inks (passage : Passage) : passage.inks.map (·.byte) = passage.bytes := by
  cases passage with
  | text chunk => exact map_byte_ofTextFrom 0 chunk
  | verbatim chunk | copied chunk => exact (List.map_map).trans (List.map_id _)
  | shown value filterings => exact (List.map_map).trans (List.map_id _)
  | tagged fills statement => exact (List.map_map).trans (List.map_id _)

/-- Code begins as a segment opens, if there is any. -/
def Opens (code : String) : Prop :=
  code = "" ∨ ∃ rest, code = Code.segmentOpen ++ rest

theorem Opens.append {first second : String} (h : Opens first) (h' : Opens second) :
    Opens (first ++ second) := by
  rcases h with rfl | ⟨rest, rfl⟩
  · rwa [String.empty_append]
  · exact .inr ⟨rest ++ second, String.append_assoc⟩

theorem Opens.join {codes : List String} (h : ∀ code ∈ codes, Opens code) :
    Opens (String.join codes) := by
  induction codes with
  | nil => exact .inl rfl
  | cons code codes ih =>
    rw [String.join_cons]
    exact (h code List.mem_cons_self).append (ih fun c hc => h c (List.mem_cons_of_mem _ hc))

theorem opens_statement (statement : Code.Statement) : Opens statement.render :=
  .inr ⟨_, String.append_assoc⟩

theorem opens_chain (value : Code.Expr) (filterings : List Code.Filtering) :
    Opens (chain value filterings) := by
  refine .inr ⟨Code.setSlot value.render ++
    (String.join (filterings.map (·.render)) ++ Code.chainClose), ?_⟩
  rw [chain, Code.chainOpen, String.append_assoc, String.append_assoc]

theorem opens_showing (value : Code.Expr) (filterings : List Code.Filtering) :
    Opens (showing value filterings) := by
  unfold showing
  split
  · exact opens_statement _
  · exact (opens_chain _ _).append (opens_statement _)

theorem opens_tagged (fills : List Fill) (statement : Option Code.Statement) :
    Opens (String.join (fills.map (·.render)) ++ stating statement) := by
  refine (Opens.join fun code hcode => ?_).append ?_
  · obtain ⟨fill, -, rfl⟩ := List.mem_map.1 hcode
    exact (opens_chain _ _).append (opens_statement _)
  · cases statement with
    | none => exact .inl rfl
    | some statement => exact opens_statement statement

theorem Opens.head {text : String} {b : UInt8} (h : Opens text)
    (hb : b ∈ (Utf8.encode text).head?) : b = 0x3c := by
  have hopen : Utf8.encode Code.segmentOpen = 0x3c :: (Utf8.encode Code.segmentOpen).tail := by
    decide
  rcases h with rfl | ⟨rest, rfl⟩
  · cases hb
  · rw [Utf8.encode_append, hopen] at hb
    exact (Option.some.inj hb).symm

/-- Code at the beginning of a passage is the sign that a segment opens with. -/
theorem byte_of_isCode {passage : Passage} {ink : Ink} (h : ink ∈ passage.inks.head?)
    (hcode : ink.isCode = true) : ink.byte = 0x3c := by
  have hmem {bytes : Bytes} (hhead : ink ∈ (code bytes).head?) : ink.byte ∈ bytes.head? := by
    rw [code, List.head?_map] at hhead
    obtain ⟨b, hb, rfl⟩ := Option.map_eq_some_iff.1 hhead
    exact hb
  have hplain {bytes : Bytes} (hhead : ink ∈ (plain bytes).head?) : False := by
    rw [plain, List.head?_map] at hhead
    obtain ⟨b, -, rfl⟩ := Option.map_eq_some_iff.1 hhead
    cases hcode
  cases passage with
  | verbatim chunk | copied chunk => exact (hplain h).elim
  | shown value filterings => exact (opens_showing _ _).head (hmem h)
  | tagged fills statement => exact (opens_tagged _ _).head (hmem h)
  | text chunk =>
    cases chunk with
    | nil => cases h
    | cons b rest =>
      by_contra hne
      have hb : startsMarker ink.byte rest.head? = false := by
        rw [startsMarker, beq_false_of_ne hne, Bool.false_and]
      have hfirst : ink.byte = b := by
        have hbytes := congrArg List.head? (map_byte_ofTextFrom 0 (b :: rest))
        rw [List.head?_map, show (ofTextFrom 0 (b :: rest)).head? = some ink from h] at hbytes
        exact Option.some.inj hbytes
      rw [hfirst] at hb
      change ink ∈ (ofTextFrom 0 (b :: rest)).head? at h
      rw [ofTextFrom, printedLength_eq_zero hb] at h
      obtain rfl := Option.some.inj h
      cases hcode

/-- Where one passage ends and the next one that is not empty begins, no marker comes about. -/
def Seamless (passages : List Passage) : Prop :=
  (passages.filter (!·.bytes.isEmpty)).IsChain fun first second =>
    ∀ b ∈ first.bytes.getLast?, startsMarker b second.bytes.head? = false

instance (passages : List Passage) : Decidable (Seamless passages) :=
  inferInstanceAs (Decidable (List.IsChain _ _))

/-- Where two passages meet, a marker is not covered, for what a segment begins with makes none. -/
theorem agree_iff (first second : Passage) :
    (∀ x ∈ first.inks.getLast?, ∀ y ∈ second.inks.head?, Agree x y) ↔
      ∀ b ∈ first.bytes.getLast?, startsMarker b second.bytes.head? = false := by
  rw [← map_byte_inks first, ← map_byte_inks second, List.getLast?_map, List.head?_map]
  constructor
  · intro h b hb
    obtain ⟨x, hx, rfl⟩ := Option.map_eq_some_iff.1 hb
    cases hhead : second.inks.head? with
    | none => simp [startsMarker]
    | some y =>
      rw [Option.map_some, Bool.eq_false_iff]
      intro hstarts
      have hbyte := byte_of_isCode hhead (h x hx y hhead hstarts).2
      rw [hbyte] at hstarts
      simp [startsMarker] at hstarts
  · intro h x hx y hy hstarts
    have hnone := h x.byte (Option.map_eq_some_iff.2 ⟨x, hx, rfl⟩)
    rw [show second.inks.head? = some y from hy, Option.map_some, hstarts] at hnone
    cases hnone

/-- **Markers come from seams**: passages that are covered are covered together exactly if no marker
comes about where they meet. -/
theorem covered_flatMap_inks (passages : List Passage) :
    Covered (passages.flatMap inks) ↔ (∀ p ∈ passages, Covered p.inks) ∧ Seamless passages := by
  have hempty (p : Passage) : p.inks = [] ↔ p.bytes.isEmpty = true := by
    rw [← map_byte_inks, List.isEmpty_iff, List.map_eq_nil_iff]
  -- a passage without bytes keeps no two others apart
  have hflatten : passages.flatMap inks =
      ((passages.filter (!·.bytes.isEmpty)).map inks).flatten := by
    induction passages with
    | nil => rfl
    | cons p passages ih =>
      rw [List.flatMap_cons, List.filter_cons, ih]
      by_cases hp : p.bytes.isEmpty = true
      · rw [hp, (hempty p).2 hp]
        rfl
      · rw [if_pos (by rw [Bool.eq_false_iff.2 hp]; rfl)]
        rfl
  have hnil : [] ∉ (passages.filter (!·.bytes.isEmpty)).map inks := by
    intro hmem
    obtain ⟨p, hp, hinks⟩ := List.mem_map.1 hmem
    have hsome := (List.mem_filter.1 hp).2
    rw [(hempty p).1 hinks] at hsome
    cases hsome
  rw [Covered, hflatten, List.isChain_flatten hnil, List.isChain_map]
  refine and_congr ⟨fun h p hp => ?_, fun h inks hmem => ?_⟩ ?_
  · by_cases hbytes : p.bytes.isEmpty = true
    · rw [(hempty p).2 hbytes]
      exact .nil
    · refine h p.inks (List.mem_map_of_mem (List.mem_filter.2 ⟨hp, ?_⟩))
      rw [Bool.eq_false_iff.2 hbytes]
      rfl
  · obtain ⟨p, hp, rfl⟩ := List.mem_map.1 hmem
    exact h p (List.mem_filter.1 hp).1
  · exact ⟨fun h => h.imp fun p q => (agree_iff p q).1, fun h => h.imp fun p q => (agree_iff p q).2⟩

/-- A passage that was not taken over is covered. -/
theorem covered_inks {passage : Passage} (hforeign : passage.isForeign = false)
    (htext : ∀ chunk, passage = .text chunk → Defused chunk) : Covered passage.inks := by
  cases passage with
  | text chunk => exact covered_ofText (htext chunk rfl)
  | verbatim chunk | copied chunk => cases hforeign
  | shown value filterings => exact covered_code _
  | tagged fills statement => exact covered_code _

end Passage

end TemplateCompiler
