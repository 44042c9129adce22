import TemplateCompiler.Proofs.Rendering.Draining

/-!
# Where markers stand

Text that is copied verbatim ends at a tag that is looked for (`Directive.findMarker?`). A byte that
no such tag has parts the search (`findMarkerFrom_append`), and so does it part the check for raw
code (`RawCode.accepted?_append`); a line whose raw code is printed has the tag where it had it
before (`findMarkerFrom_defused`).
-/
namespace TemplateCompiler.Markup

namespace Directive

variable {marker : String} {start offset : Nat} {c : UInt8} {d : Directive}

/-! ## Tags that are looked for -/

/-- A text that may be the name of a tag. -/
structure IsTagName (name : String) : Prop where
  ne_nil : Utf8.encode name ≠ []
  bytes : ∀ b ∈ Utf8.encode name, isNameByte b = true

/-- The text of a tag after its opener, with so many spaces around the name. -/
def tagText (name : String) (before after : Nat) : Bytes :=
  List.replicate before 0x20 ++ (Utf8.encode name ++ (List.replicate after 0x20 ++ [0x25, 0x7d]))

/-- The tag that is looked for, where it is found. -/
def marked (marker : String) (start : Nat) (inner : Bytes) : Directive where
  start
  stop := start + 2 + inner.length
  opener := .tag
  closer := .tag
  name := marker
  params := ""
  content := marker
  start_lt_stop := by omega

theorem skipSpaces_replicate (n : Nat) {text : Bytes} (h : text.head? ≠ some 0x20) :
    skipSpaces (List.replicate n 0x20 ++ text) = text := by
  have htext : skipSpaces text = text := by
    cases text with
    | nil => rfl
    | cons b rest =>
      refine List.dropWhile_cons_of_neg fun hb => h ?_
      rw [List.head?_cons, eq_of_beq hb]
  unfold skipSpaces at htext ⊢
  rw [List.dropWhile_append, List.dropWhile_replicate]
  exact htext

theorem IsTagName.head? (h : IsTagName marker) (text : Bytes) :
    (Utf8.encode marker ++ text).head? ≠ some 0x20 := by
  obtain ⟨b, rest, hbytes⟩ := List.exists_cons_of_ne_nil h.ne_nil
  have hb := h.bytes b (by rw [hbytes]; exact List.mem_cons_self)
  rw [hbytes, List.cons_append, List.head?_cons]
  intro heq
  obtain rfl := Option.some.inj heq
  exact absurd hb (by decide)

/-- A tag that is looked for is read. -/
theorem readMarker?_tagText (h : IsTagName marker) (start before after : Nat) (rest : Bytes) :
    readMarker? marker start (tagText marker before after ++ rest) =
      some (marked marker start (tagText marker before after)) := by
  have htext : tagText marker before after ++ rest = List.replicate before 0x20 ++
      (Utf8.encode marker ++ (List.replicate after 0x20 ++ 0x25 :: 0x7d :: rest)) := by
    unfold tagText
    rw [List.append_assoc, List.append_assoc, List.append_assoc]
    rfl
  have hcloser : (0x25 :: 0x7d :: rest : Bytes).head? ≠ some 0x20 := by
    rw [List.head?_cons]
    decide
  have hname : ((List.replicate after 0x20 ++ 0x25 :: 0x7d :: rest).head?.any isNameByte) = false := by
    cases after <;> rfl
  unfold readMarker?
  dsimp only
  simp only [htext, skipSpaces_replicate before (h.head? _), List.drop_left,
    skipSpaces_replicate after hcloser, hname]
  rw [if_pos (by
    rw [List.isPrefixOf_iff_prefix.2 (List.prefix_append _ _)]
    rfl)]
  rw [Option.some.injEq, marked, Directive.mk.injEq]
  refine ⟨rfl, ?_, rfl, rfl, rfl, rfl, rfl⟩
  unfold tagText
  simp only [List.length_append, List.length_replicate, List.length_cons, List.length_nil]
  omega

/-- What is read as the tag that is looked for is its text. -/
theorem exists_of_readMarker? {text : Bytes} (h : readMarker? marker start text = some d) :
    ∃ before after rest, text = tagText marker before after ++ rest := by
  have hspaces (text : Bytes) : ∃ n, text = List.replicate n 0x20 ++ skipSpaces text := by
    refine ⟨(text.takeWhile (· == 0x20)).length, ?_⟩
    have hall : text.takeWhile (· == 0x20) = List.replicate (text.takeWhile (· == 0x20)).length 0x20 :=
      List.eq_replicate_of_mem fun b hb => by
        simpa using List.mem_takeWhile_imp (p := (· == 0x20)) hb
    rw [← hall]
    exact List.takeWhile_append_dropWhile.symm
  unfold readMarker? at h
  dsimp only at h
  split at h
  · next hmarker =>
    simp only [Bool.and_eq_true] at hmarker
    obtain ⟨⟨hname, -⟩, hcloser⟩ := hmarker
    obtain ⟨gapped, hgapped⟩ := List.isPrefixOf_iff_prefix.1 hname
    rw [← hgapped, List.drop_left] at hcloser
    obtain ⟨rest, hrest⟩ := List.isPrefixOf_iff_prefix.1 hcloser
    obtain ⟨before, htext⟩ := hspaces text
    obtain ⟨after, hgap⟩ := hspaces gapped
    refine ⟨before, after, rest, ?_⟩
    unfold tagText
    rw [List.append_assoc, List.append_assoc, List.append_assoc, hrest, ← hgap, hgapped]
    exact htext
  · cases h

/-! ## Parting bytes -/

/-- A byte that no tag that is looked for has after its opener. -/
structure Parts (c : UInt8) : Prop where
  space : c ≠ 0x20
  percent : c ≠ 0x25
  brace : c ≠ 0x7d
  name : isNameByte c = false

theorem Parts.not_mem_tagText (hc : Parts c) (h : IsTagName marker) (before after : Nat) :
    c ∉ tagText marker before after := by
  unfold tagText
  simp only [List.mem_append, List.mem_cons, List.not_mem_nil, not_or]
  refine ⟨fun hmem => hc.space (List.eq_of_mem_replicate hmem), fun hmem => ?_,
    fun hmem => hc.space (List.eq_of_mem_replicate hmem), hc.percent, hc.brace, not_false⟩
  exact Bool.false_ne_true (hc.name.symm.trans (h.bytes c hmem))

theorem readMarker?_append (h : IsTagName marker) (hc : Parts c) (start : Nat) (x y : Bytes) :
    readMarker? marker start (x ++ c :: y) = readMarker? marker start x := by
  have hsplit {before after : Nat} {rest : Bytes}
      (heq : x ++ c :: y = tagText marker before after ++ rest) :
      ∃ more, x = tagText marker before after ++ more := by
    rcases List.append_eq_append_iff.1 heq with ⟨more, htext, hrest⟩ | ⟨more, htext, -⟩
    · cases more with
      | nil => exact ⟨[], by rw [htext, List.append_nil, List.append_nil]⟩
      | cons b more =>
        obtain ⟨rfl, -⟩ := List.cons.inj hrest
        refine absurd ?_ (hc.not_mem_tagText h before after)
        rw [htext]
        exact List.mem_append_right x List.mem_cons_self
    · exact ⟨more, htext⟩
  cases hx : readMarker? marker start x with
  | some d =>
    obtain ⟨before, after, rest, rfl⟩ := exists_of_readMarker? hx
    rw [readMarker?_tagText h] at hx
    rw [List.append_assoc, readMarker?_tagText h, hx]
  | none =>
    cases hboth : readMarker? marker start (x ++ c :: y) with
    | none => rfl
    | some d =>
      obtain ⟨before, after, rest, heq⟩ := exists_of_readMarker? hboth
      obtain ⟨more, rfl⟩ := hsplit heq
      rw [readMarker?_tagText h] at hx
      cases hx

theorem opener?_ne_tag {b : UInt8} (hc : c ≠ 0x25) : opener? b (some c) ≠ some .tag := by
  unfold opener?
  split
  · nofun
  · rw [if_neg (by simpa using hc)]
    split <;> nofun

/-- **A byte that parts** the search for a tag: what is found stands before it or from it on. -/
theorem findMarkerFrom_append (h : IsTagName marker) (hc : Parts c) (offset : Nat) (x y : Bytes) :
    findMarkerFrom marker offset (x ++ c :: y) =
      (findMarkerFrom marker offset x).or (findMarkerFrom marker (offset + x.length) (c :: y)) := by
  induction x generalizing offset with
  | nil => rfl
  | cons b rest ih =>
    have hnext : findMarkerFrom marker (offset + (b :: rest).length) (c :: y) =
        findMarkerFrom marker (offset + 1 + rest.length) (c :: y) := by
      rw [List.length_cons, Nat.add_assoc, Nat.add_comm rest.length]
    rw [List.cons_append, findMarkerFrom, findMarkerFrom, hnext]
    cases rest with
    | nil =>
      have hlast : opener? b ([] : Bytes).head? ≠ some .tag := by
        unfold opener?
        split
        · simp
        · simp
      have hfirst : opener? b ([] ++ c :: y).head? ≠ some .tag := opener?_ne_tag hc.percent
      rw [if_neg hfirst, if_neg hlast]
      exact ih (offset + 1)
    | cons b' rest =>
      rw [List.cons_append, List.head?_cons, List.tail_cons, List.head?_cons, List.tail_cons,
        readMarker?_append h hc]
      by_cases hopener : opener? b (some b') = some .tag
      · rw [if_pos hopener]
        cases readMarker? marker offset rest with
        | some d => rfl
        | none => exact ih (offset + 1)
      · rw [if_neg hopener]
        exact ih (offset + 1)

theorem readMarker?_shift (bytes start : Nat) (text : Bytes) :
    readMarker? marker (bytes + start) text = (readMarker? marker start text).map (·.shift bytes) := by
  unfold readMarker?
  dsimp only
  split
  · simp only [Option.map_some, shift, Nat.add_assoc]
  · rfl

theorem findMarkerFrom_shift (marker : String) (bytes offset : Nat) (line : Bytes) :
    findMarkerFrom marker (bytes + offset) line =
      (findMarkerFrom marker offset line).map (·.shift bytes) := by
  induction line generalizing offset with
  | nil => rfl
  | cons b rest ih =>
    rw [findMarkerFrom, findMarkerFrom, readMarker?_shift]
    by_cases hopener : opener? b rest.head? = some .tag
    · rw [if_pos hopener, if_pos hopener]
      cases readMarker? marker offset rest.tail with
      | some d => rfl
      | none => exact ih (offset + 1)
    · rw [if_neg hopener, if_neg hopener]
      exact ih (offset + 1)

theorem findMarkerFrom_eq_none {line : Bytes} :
    findMarkerFrom marker offset line = none ↔ findMarker? marker line = none := by
  have hshift := findMarkerFrom_shift marker offset 0 line
  rw [Nat.add_zero] at hshift
  rw [hshift, Option.map_eq_none_iff]
  rfl

/-- Where no tag is found, none is found further on. -/
theorem findMarker?_right {x y : Bytes} (h : findMarker? marker (x ++ y) = none) :
    findMarker? marker y = none := by
  induction x with
  | nil => exact h
  | cons b rest ih =>
    refine ih ?_
    unfold findMarker? at h
    rw [List.cons_append, findMarkerFrom] at h
    split at h
    · cases h
    · exact findMarkerFrom_eq_none.1 h

/-- Before a brace nothing is found. -/
theorem findMarker?_skip {x : Bytes} (hx : ∀ b ∈ x, b ≠ 0x7b) (y : Bytes) :
    findMarker? marker (x ++ y) = none ↔ findMarker? marker y = none := by
  induction x with
  | nil => rfl
  | cons b rest ih =>
    obtain ⟨hb, hrest⟩ := List.forall_mem_cons.1 hx
    have hopener : opener? b (rest ++ y).head? ≠ some .tag := by
      unfold opener?
      rw [if_pos (bne_iff_ne.2 hb)]
      nofun
    rw [← ih hrest, List.cons_append, findMarker?, findMarkerFrom, if_neg hopener]
    exact findMarkerFrom_eq_none

/-- A tag that is looked for, in a text. -/
def tag (name : String) : Bytes :=
  0x7b :: 0x25 :: tagText name 1 1

/-- **The first tag** that is looked for is found behind text that has none. -/
theorem findMarker?_append_tag (h : IsTagName marker) {x : Bytes} (hx : findMarker? marker x = none)
    (rest : Bytes) : findMarker? marker (x ++ (tag marker ++ rest)) =
      some (marked marker x.length (tagText marker 1 1)) := by
  have hparts : Parts 0x7b := ⟨by decide, by decide, by decide, by decide⟩
  unfold findMarker? at hx ⊢
  rw [tag, List.cons_append, findMarkerFrom_append h hparts, hx, Option.none_or, Nat.zero_add,
    findMarkerFrom]
  have hopener : opener? 0x7b (0x25 :: tagText marker 1 1 ++ rest).head? = some .tag := rfl
  rw [if_pos hopener, List.cons_append, List.tail_cons, readMarker?_tagText h]

/-! ## Lines whose raw code is printed -/

open RawCode in
/-- A line whose raw code is printed has no tag that it did not have. -/
theorem findMarker?_defused (h : IsTagName marker) {found : List Piece} (hclean : IsClean found)
    (hnone : findMarker? marker (found.flatMap Piece.source) = none) :
    findMarker? marker (found.flatMap Piece.defused) = none := by
  suffices ∀ bytes, findMarker? marker (bytes ++ found.flatMap Piece.source) = none →
      findMarker? marker (bytes ++ found.flatMap Piece.defused) = none from this [] hnone
  clear hnone
  have hparts : Parts 0x3c := ⟨by decide, by decide, by decide, by decide⟩
  induction found with
  | nil =>
    intro bytes hnone
    rw [List.flatMap_nil] at hnone ⊢
    exact hnone
  | cons piece rest ih =>
    intro bytes hnone
    cases piece with
    | byte b =>
      have hrest := ih hclean.tail (bytes ++ [b])
      rw [List.append_assoc, List.append_assoc] at hrest
      rw [List.flatMap_cons, Piece.source] at hnone
      rw [List.flatMap_cons, Piece.defused]
      exact hrest hnone
    | marker text =>
      have hmarker := hclean.markers text List.mem_cons_self
      -- a marker parts the line, and so does the segment that prints it
      obtain ⟨second, letters, htext, -⟩ := id hmarker
      have hsource : bytes ++ (Piece.marker text :: rest).flatMap Piece.source =
          bytes ++ 0x3c :: (second :: letters ++ rest.flatMap Piece.source) := by
        rw [List.flatMap_cons, Piece.source, htext, List.cons_append, List.cons_append]
      obtain ⟨more, hdefused⟩ : ∃ more, (Piece.marker text).defused = 0x3c :: more := by
        rw [hmarker.defused, List.append_assoc]
        exact ⟨printOpen.tail ++ (text ++ printClose), rfl⟩
      have hprinted : bytes ++ (Piece.marker text :: rest).flatMap Piece.defused =
          bytes ++ 0x3c :: (more ++ rest.flatMap Piece.defused) := by
        rw [List.flatMap_cons, hdefused, List.cons_append]
      rw [hsource, findMarker?, findMarkerFrom_append h hparts, Option.or_eq_none_iff] at hnone
      rw [hprinted, findMarker?, findMarkerFrom_append h hparts, Option.or_eq_none_iff]
      refine ⟨hnone.1, ?_⟩
      have hsecond : findMarker? marker (0x3c :: second :: letters ++ rest.flatMap Piece.source) = none :=
        findMarkerFrom_eq_none.1 hnone.2
      have hrest := ih hclean.tail [] (findMarker?_right hsecond)
      have hbraces : ∀ b ∈ 0x3c :: more, b ≠ 0x7b := by
        rw [← hdefused]
        rintro b hb rfl
        exact absurd (hmarker.isEdge_defused hb) (by decide)
      exact findMarkerFrom_eq_none.2 ((findMarker?_skip hbraces _).2 hrest)

end Directive

/-! ## Checking parts of a line -/

namespace RawCode

variable {found : List Piece}

theorem toOption_map {ε α β : Type} (f : α → β) (e : Except ε α) :
    (e.map f).toOption = e.toOption.map f := by
  cases e <;> rfl

/-- Which pieces a line has does not depend on where it begins. -/
theorem toOption_pieces (offset offset' : Nat) (line : Bytes) :
    (pieces offset line).toOption = (pieces offset' line).toOption := by
  fun_induction pieces offset line generalizing offset' with
  | case1 => rw [pieces]
  | case2 offset b rest hstarts hexecutable =>
    rw [pieces, if_pos hstarts, if_pos hexecutable]
    rfl
  | case3 offset b rest hstarts hexecutable letters =>
    rename_i ih
    rw [pieces, if_pos hstarts, if_neg hexecutable, toOption_map, toOption_map, ih]
  | case4 offset b rest hstarts ih =>
    rw [pieces, if_neg hstarts, toOption_map, toOption_map, ih]

theorem flatMap_defused (hnone : found.any Piece.isMarker = false) :
    found.flatMap Piece.defused = found.flatMap Piece.source := by
  refine List.flatMap_congr fun piece hpiece => ?_
  cases piece with
  | byte b => rfl
  | marker text =>
    rw [List.any_eq_false] at hnone
    exact absurd rfl (hnone _ hpiece)

/-- What is accepted of a line are its pieces, with raw code printed. -/
theorem accepted?_eq (offset : Nat) (line : Bytes) :
    accepted? line = (pieces offset line).toOption.map (List.flatMap Piece.defused) := by
  rw [toOption_pieces offset 0]
  unfold accepted? check
  cases hpieces : pieces 0 line with
  | error offset => rfl
  | ok found =>
    obtain ⟨-, hsource, -⟩ := isClean_of_pieces hpieces
    dsimp only
    cases hany : found.any Piece.isMarker with
    | true => rfl
    | false =>
      have heq := (flatMap_defused hany).trans hsource
      exact congrArg some heq.symm

/-- How a line is accepted, from its first byte on. -/
theorem accepted?_cons (b : UInt8) (rest : Bytes) :
    accepted? (b :: rest) =
      if startsMarker b rest.head? then
        if isExecutable rest.tail then none
        else (accepted? (rest.tail.dropWhile Byte.isLetter)).map
          ((Piece.marker (b :: (rest.take 1 ++ rest.tail.takeWhile Byte.isLetter))).defused ++ ·)
      else (accepted? rest).map (b :: ·) := by
  rw [accepted?_eq 0, pieces]
  split
  · split
    · rfl
    · rw [toOption_map, accepted?_eq, Option.map_map, Option.map_map]
      rfl
  · rw [toOption_map, accepted?_eq, Option.map_map, Option.map_map]
    rfl

theorem accepted?_nil : accepted? [] = some [] := by
  rw [accepted?_eq 0, pieces]
  rfl

/-- Bytes in which no raw code begins are accepted. -/
theorem accepted?_skip {x : Bytes} (hx : ∀ b ∈ x, b ≠ 0x3c) (y : Bytes) :
    accepted? (x ++ y) = (accepted? y).map (x ++ ·) := by
  induction x with
  | nil => exact Option.map_id'.symm
  | cons b rest ih =>
    obtain ⟨hb, hrest⟩ := List.forall_mem_cons.1 hx
    have hstarts : startsMarker b (rest ++ y).head? = false := by
      unfold startsMarker
      rw [beq_eq_false_iff_ne.2 hb, Bool.false_and]
    rw [List.cons_append, accepted?_cons, hstarts, if_neg Bool.false_ne_true, ih hrest, Option.map_map]
    rfl

theorem isPrefixOf_append {name : Bytes} {c : UInt8} (hc : c ∉ name) (x y : Bytes) :
    name.isPrefixOf (x ++ c :: y) = name.isPrefixOf x := by
  induction name generalizing x with
  | nil => rw [List.isPrefixOf_nil_left, List.isPrefixOf_nil_left]
  | cons b name ih =>
    obtain ⟨hb, hname⟩ := not_or.1 (List.mem_cons.not.1 hc)
    cases x with
    | nil =>
      rw [List.nil_append, List.isPrefixOf_cons_cons, beq_eq_false_iff_ne.2 (Ne.symm hb)]
      rfl
    | cons b' x => rw [List.cons_append, List.isPrefixOf_cons_cons, List.isPrefixOf_cons_cons, ih hname]

theorem isExecutable_append (x y : Bytes) : isExecutable (x ++ 0x7b :: y) = isExecutable x := by
  unfold isExecutable
  rw [isPrefixOf_append (by decide)]
  cases x <;> rfl

theorem startsMarker_none (b : UInt8) : startsMarker b none = false := by
  unfold startsMarker
  rw [Bool.and_eq_false_imp]
  exact fun _ => rfl

theorem dropWhile_append_cons {p : UInt8 → Bool} {c : UInt8} (hc : p c = false) (x y : Bytes) :
    (x ++ c :: y).dropWhile p = x.dropWhile p ++ c :: y := by
  rw [List.dropWhile_append]
  split
  · next hempty =>
    rw [List.isEmpty_iff.1 hempty, List.nil_append, List.dropWhile_cons_of_neg]
    rw [hc]
    exact Bool.false_ne_true
  · rfl

theorem takeWhile_append_cons {p : UInt8 → Bool} {c : UInt8} (hc : p c = false) (x y : Bytes) :
    (x ++ c :: y).takeWhile p = x.takeWhile p := by
  have hsplit := List.takeWhile_append_dropWhile (p := p) (l := x ++ c :: y)
  rw [dropWhile_append_cons hc, ← List.append_assoc] at hsplit
  have hleft := List.append_cancel_right hsplit
  exact List.append_cancel_right (hleft.trans List.takeWhile_append_dropWhile.symm)

theorem startsMarker_brace (b : UInt8) : startsMarker b (some 0x7b) = false := by
  unfold startsMarker
  rw [Bool.and_eq_false_imp]
  exact fun _ => rfl

/-- **A brace** parts the check of a line. -/
theorem accepted?_append (x y : Bytes) :
    accepted? (x ++ 0x7b :: y) =
      (accepted? x).bind fun first => (accepted? (0x7b :: y)).map (first ++ ·) := by
  induction hlength : x.length using Nat.strongRecOn generalizing x with
  | ind n ih =>
    subst hlength
    cases x with
    | nil =>
      rw [accepted?_nil]
      exact Option.map_id'.symm
    | cons b rest =>
      have hprefix (front : Bytes) (first second : Option Bytes) :
          (first.bind fun text => second.map (text ++ ·)).map (front ++ ·) =
            (first.map (front ++ ·)).bind fun text => second.map (text ++ ·) := by
        cases first with
        | none => rfl
        | some text =>
          rw [Option.map_some, Option.bind_some, Option.bind_some, Option.map_map]
          refine Option.map_congr fun more _ => ?_
          exact (List.append_assoc _ _ _).symm
      cases rest with
      | nil =>
        have hlast : accepted? [b] = some [b] := by
          rw [accepted?_cons, List.head?_nil, startsMarker_none, if_neg Bool.false_ne_true, accepted?_nil]
          rfl
        rw [List.singleton_append, accepted?_cons, List.head?_cons, startsMarker_brace,
          if_neg Bool.false_ne_true, hlast]
        rfl
      | cons b' rest =>
        have hletter : Byte.isLetter 0x7b = false := by decide
        rw [List.cons_append, List.cons_append, accepted?_cons, accepted?_cons b, List.head?_cons,
          List.head?_cons, List.tail_cons, List.tail_cons, isExecutable_append]
        split
        · split
          · rfl
          · have hlt : (rest.dropWhile Byte.isLetter).length < (b :: b' :: rest).length :=
              length_dropWhile_tail_lt Byte.isLetter b (b' :: rest)
            rw [dropWhile_append_cons hletter, takeWhile_append_cons hletter, ih _ hlt _ rfl]
            exact hprefix _ _ _
        · have hrest := ih _ (Nat.lt_succ_self _) (b' :: rest) rfl
          rw [List.cons_append] at hrest
          rw [hrest]
          exact hprefix [b] _ _

theorem exists_of_accepted? {line after : Bytes} (h : accepted? line = some after) :
    ∃ found, IsClean found ∧ found.flatMap Piece.source = line ∧
      found.flatMap Piece.defused = after ∧ pieces 0 line = .ok found := by
  rw [accepted?_eq 0] at h
  cases hpieces : pieces 0 line with
  | error offset =>
    rw [hpieces] at h
    cases h
  | ok found =>
    rw [hpieces] at h
    obtain ⟨hclean, hsource, -⟩ := isClean_of_pieces hpieces
    exact ⟨found, hclean, hsource, Option.some.inj h, rfl⟩

/-- Printing raw code takes more bytes than the raw code. -/
theorem IsClean.length_lt (h : IsClean found) :
    (found.flatMap Piece.source).length ≤ (found.flatMap Piece.defused).length ∧
      (found.any Piece.isMarker = true →
        (found.flatMap Piece.source).length < (found.flatMap Piece.defused).length) := by
  induction found with
  | nil =>
    rw [List.flatMap_nil, List.flatMap_nil]
    exact ⟨le_rfl, nofun⟩
  | cons piece rest ih =>
    obtain ⟨hle, hlt⟩ := ih h.tail
    simp only [List.flatMap_cons, List.length_append, List.any_cons, Bool.or_eq_true]
    cases piece with
    | byte b =>
      rw [Piece.source, Piece.defused, Piece.isMarker]
      exact ⟨Nat.add_le_add_left hle _,
        fun hany => Nat.add_lt_add_left (hlt (hany.resolve_left Bool.false_ne_true)) _⟩
    | marker text =>
      have hopen : 0 < printOpen.length := by decide
      rw [(h.markers text List.mem_cons_self).defused, Piece.source]
      simp only [List.length_append]
      omega

/-- Nothing is accepted for nothing only. -/
theorem isEmpty_accepted {line after : Bytes} (h : accepted? line = some after) :
    after.isEmpty = line.isEmpty := by
  cases line with
  | nil =>
    rw [accepted?_nil] at h
    obtain rfl := Option.some.inj h
    rfl
  | cons b rest =>
    obtain ⟨found, hclean, hsource, hdefused, -⟩ := exists_of_accepted? h
    have hle := hclean.length_lt.1
    rw [hsource, hdefused, List.length_cons] at hle
    cases after with
    | nil => exact absurd hle (Nat.not_succ_le_zero _)
    | cons b' after => rfl

/-- A line is clean just if it is accepted as it is. -/
theorem check_eq_clean {line : Bytes} : check line = .clean ↔ accepted? line = some line := by
  unfold accepted?
  cases hcheck : check line with
  | executable offset => exact ⟨nofun, nofun⟩
  | clean => exact ⟨fun _ => rfl, fun _ => rfl⟩
  | defused after =>
    refine ⟨nofun, fun heq => ?_⟩
    obtain rfl := Option.some.inj heq
    have haccepted : accepted? after = some after := by
      unfold accepted?
      rw [hcheck]
    obtain ⟨found, hclean, hsource, hdefused, hpieces⟩ := exists_of_accepted? haccepted
    unfold check at hcheck
    rw [hpieces] at hcheck
    cases hany : found.any Piece.isMarker with
    | false =>
      dsimp only at hcheck
      rw [hany] at hcheck
      cases hcheck
    | true =>
      have hlt := hclean.length_lt.2 hany
      rw [hsource, hdefused] at hlt
      exact absurd hlt (lt_irrefl _)

theorem check_ne_executable {line : Bytes} :
    (∀ offset, check line ≠ .executable offset) ↔ accepted? line ≠ none := by
  unfold accepted?
  cases check line with
  | executable offset => exact ⟨fun h => absurd rfl (h offset), fun h => absurd rfl h⟩
  | clean => exact ⟨fun _ => nofun, fun _ _ => nofun⟩
  | defused after => exact ⟨fun _ => nofun, fun _ _ => nofun⟩

end RawCode

/-- A line that is accepted has no tag that it did not have. -/
theorem Directive.findMarker?_accepted {marker : String} (h : IsTagName marker) {line after : Bytes}
    (haccepted : RawCode.accepted? line = some after) (hnone : findMarker? marker line = none) :
    findMarker? marker after = none := by
  obtain ⟨found, hclean, rfl, rfl, -⟩ := RawCode.exists_of_accepted? haccepted
  exact findMarker?_defused h hclean hnone

end TemplateCompiler.Markup
