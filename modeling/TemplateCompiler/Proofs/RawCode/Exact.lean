import Mathlib.Order.Bounds.Basic
import Mathlib.Order.Nat
import TemplateCompiler.Proofs.RawCode.Ink
import TemplateCompiler.Proofs.Rendering.Markers

/-!
# What is refused, and what is printed

A check of a line is exact: it refuses the first executable marker that there is and touches no line
without markers. It can be undone, too: the segments that it writes are told from all other text, and
with the markers put back for them (`RawCode.restore`) the line is as it was.
-/
namespace TemplateCompiler.Markup.RawCode

/-- A marker stands at a place of a line. -/
def MarkerAt (line : Bytes) (i : Nat) : Prop :=
  Utf8.encode "<?" <+: line.drop i ∨ Utf8.encode "<%" <+: line.drop i

/-- A marker stands there that must not: `php`, a space or a line feed follows it. -/
def ExecutableAt (line : Bytes) (i : Nat) : Prop :=
  MarkerAt line i ∧ (Utf8.encode "php" <+: line.drop (i + 2) ∨ Utf8.encode " " <+: line.drop (i + 2) ∨
    Utf8.encode "\n" <+: line.drop (i + 2))

instance (line : Bytes) (i : Nat) : Decidable (MarkerAt line i) :=
  inferInstanceAs (Decidable (_ ∨ _))

instance (line : Bytes) (i : Nat) : Decidable (ExecutableAt line i) :=
  inferInstanceAs (Decidable (_ ∧ _))

/-- Puts the markers back for the segments that print them, so many bytes being left of one that has
begun. -/
def restoreFrom : Nat → Bytes → Bytes
  | _, [] => []
  | left + 1, _ :: rest => restoreFrom left rest
  | 0, b :: rest =>
    match Ink.printedLength (b :: rest) with
    | left + 1 =>
      ((b :: rest).drop printOpen.length).take (left + 1 - (printOpen.length + printClose.length)) ++
        restoreFrom left rest
    | 0 => b :: restoreFrom 0 rest

/-- A text with each `<?php print 'm'; ?>` replaced by the marker `m` that it prints. -/
def restore (text : Bytes) : Bytes :=
  restoreFrom 0 text

/-! ## Places of markers -/

variable {b : UInt8} {line rest : Bytes} {i : Nat}

theorem markerAt_zero : MarkerAt (b :: rest) 0 ↔ startsMarker b rest.head? = true := by
  have hquestion : Utf8.encode "<?" = [0x3c, 0x3f] := by decide
  have hpercent : Utf8.encode "<%" = [0x3c, 0x25] := by decide
  simp [MarkerAt, hquestion, hpercent, startsMarker, Bytes.singleton_prefix_iff, eq_comm (a := b),
    and_or_left]

theorem executableAt_zero : ExecutableAt (b :: rest) 0 ↔
    startsMarker b rest.head? = true ∧ isExecutable rest.tail = true := by
  have hname : Utf8.encode "php" = [0x70, 0x68, 0x70] := by decide
  have hspace : Utf8.encode " " = [0x20] := by decide
  have hfeed : Utf8.encode "\n" = [0x0a] := by decide
  have hdrop : (b :: rest).drop (0 + 2) = rest.tail := by simp
  rw [ExecutableAt, markerAt_zero, hdrop, hname, hspace, hfeed, Bytes.singleton_prefix_iff,
    Bytes.singleton_prefix_iff]
  simp [isExecutable, or_assoc]

theorem markerAt_append (front rest : Bytes) (i : Nat) :
    MarkerAt (front ++ rest) (front.length + i) ↔ MarkerAt rest i := by
  rw [MarkerAt, List.drop_length_add_append, MarkerAt]

theorem executableAt_append (front rest : Bytes) (i : Nat) :
    ExecutableAt (front ++ rest) (front.length + i) ↔ ExecutableAt rest i := by
  rw [ExecutableAt, markerAt_append, Nat.add_assoc, List.drop_length_add_append, ExecutableAt]

theorem MarkerAt.byte {text : Bytes} (h : MarkerAt text i) : text[i]? = some 0x3c := by
  rw [← List.head?_drop]
  rcases h with ⟨rest, h⟩ | ⟨rest, h⟩ <;> rw [← h] <;> rfl

theorem not_markerAt_nil : ¬ MarkerAt [] i := fun h => by
  simpa using h.byte

/-- Within a marker no other one begins. -/
theorem IsMarker.not_markerAt {text : Bytes} (h : IsMarker text) (hpos : 0 < i) (hlt : i < text.length) :
    ¬ MarkerAt (text ++ rest) i := by
  intro hat
  obtain ⟨second, letters, rfl, hsecond, hletters⟩ := h
  have hbyte := hat.byte
  rw [List.getElem?_append_left hlt] at hbyte
  obtain ⟨k, rfl⟩ := Nat.exists_eq_add_of_lt hpos
  have hmem : (0x3c : UInt8) ∈ second :: letters :=
    List.mem_of_getElem? (i := k) (by simpa using hbyte)
  rcases List.mem_cons.1 hmem with rfl | hmem
  · exact absurd hsecond (by decide)
  · exact absurd (hletters _ hmem) (by decide)

/-! ## Verdicts -/

/-- What the pieces of a line report: where its first executable marker stands, or that it has none,
and whether it has any other. -/
def Reports (offset : Nat) (line : Bytes) : Except Nat (List Piece) → Prop
  | .error stop => ∃ i, stop = offset + i ∧ IsLeast {i | ExecutableAt line i} i
  | .ok found => (∀ i, ¬ ExecutableAt line i) ∧
      (found.any Piece.isMarker = true ↔ ∃ i, MarkerAt line i)

theorem exists_markerAt_append (front rest : Bytes) : (∃ i, MarkerAt (front ++ rest) i) ↔
    (∃ i < front.length, MarkerAt (front ++ rest) i) ∨ ∃ i, MarkerAt rest i := by
  constructor
  · rintro ⟨i, hi⟩
    rcases Nat.lt_or_ge i front.length with hlt | hge
    · exact .inl ⟨i, hlt, hi⟩
    · obtain ⟨k, rfl⟩ := Nat.exists_eq_add_of_le hge
      exact .inr ⟨k, (markerAt_append front rest k).1 hi⟩
  · rintro (⟨i, -, hi⟩ | ⟨i, hi⟩)
    · exact ⟨i, hi⟩
    · exact ⟨front.length + i, (markerAt_append front rest i).2 hi⟩

/-- Places of executable markers are shifted by a front that has none. -/
theorem exists_eq_add_of_executableAt {front : Bytes}
    (hnone : ∀ i < front.length, ¬ ExecutableAt (front ++ rest) i)
    (h : ExecutableAt (front ++ rest) i) : ∃ k, i = front.length + k ∧ ExecutableAt rest k := by
  obtain ⟨k, rfl⟩ := Nat.exists_eq_add_of_le (Nat.le_of_not_lt fun hlt => hnone i hlt h)
  exact ⟨k, rfl, (executableAt_append front rest k).1 h⟩

variable {offset : Nat} {result : Except Nat (List Piece)}

/-- **One more piece**: it is reported with what follows it, unless a marker that must not stand
begins in it. -/
theorem Reports.cons (piece : Piece) (front : Bytes)
    (hnone : ∀ i < front.length, ¬ ExecutableAt (front ++ rest) i)
    (hpiece : piece.isMarker = true ↔ ∃ i < front.length, MarkerAt (front ++ rest) i)
    (h : Reports (offset + front.length) rest result) :
    Reports offset (front ++ rest) (result.map (piece :: ·)) := by
  cases result with
  | error stop =>
    obtain ⟨i, rfl, hi, hleast⟩ := h
    refine ⟨front.length + i, Nat.add_assoc _ _ _, (executableAt_append front rest i).2 hi, ?_⟩
    intro j hj
    obtain ⟨k, rfl, hk⟩ := exists_eq_add_of_executableAt hnone hj
    exact Nat.add_le_add_left (hleast hk) _
  | ok more =>
    obtain ⟨hmore, hany⟩ := h
    refine ⟨fun i hi => ?_, ?_⟩
    · obtain ⟨k, -, hk⟩ := exists_eq_add_of_executableAt hnone hi
      exact hmore k hk
    · rw [List.any_cons, Bool.or_eq_true, hpiece, hany, exists_markerAt_append]

/-- A marker that is let stand is one piece. -/
theorem Reports.marker {text : Bytes} (htext : IsMarker text) (hat : MarkerAt (text ++ rest) 0)
    (hnot : ¬ ExecutableAt (text ++ rest) 0) (h : Reports (offset + text.length) rest result) :
    Reports offset (text ++ rest) (result.map (.marker text :: ·)) := by
  refine Reports.cons (.marker text) text (fun i hi hexecutable => ?_) ⟨fun _ => ?_, fun _ => rfl⟩ h
  · rcases Nat.eq_zero_or_pos i with rfl | hpos
    · exact hnot hexecutable
    · exact htext.not_markerAt hpos hi hexecutable.1
  · obtain ⟨second, letters, rfl, -⟩ := htext
    exact ⟨0, Nat.succ_pos _, hat⟩

/-- A byte where no marker begins is one piece. -/
theorem Reports.byte (hnot : ¬ MarkerAt (b :: rest) 0) (h : Reports (offset + 1) rest result) :
    Reports offset (b :: rest) (result.map (.byte b :: ·)) := by
  have hnone : ∀ i < [b].length, ¬ MarkerAt ([b] ++ rest) i := by
    intro i hi hat
    obtain rfl : i = 0 := Nat.lt_one_iff.1 hi
    exact hnot hat
  refine Reports.cons (.byte b) [b] (fun i hi hat => hnone i hi hat.1) ⟨nofun, ?_⟩ h
  rintro ⟨i, hi, hat⟩
  exact absurd hat (hnone i hi)

theorem reports_pieces (offset : Nat) (line : Bytes) : Reports offset line (pieces offset line) := by
  fun_induction pieces offset line with
  | case1 offset => exact ⟨fun i h => not_markerAt_nil h.1, by simp [not_markerAt_nil]⟩
  | case2 offset b rest hstarts hexecutable =>
    exact ⟨0, rfl, executableAt_zero.2 ⟨hstarts, hexecutable⟩, fun _ _ => Nat.zero_le _⟩
  | case3 offset b rest hstarts hexecutable letters =>
    rename_i ih
    have hat : MarkerAt (b :: rest) 0 := markerAt_zero.2 hstarts
    have hnot : ¬ ExecutableAt (b :: rest) 0 := fun h => hexecutable (executableAt_zero.1 h).2
    obtain ⟨htext, hsplit, hlength⟩ := split_marker hstarts
    rw [hsplit] at hat hnot
    have hmarker := Reports.marker htext hat hnot (by rwa [hlength, ← Nat.add_assoc])
    rwa [← hsplit] at hmarker
  | case4 offset b rest hstarts ih =>
    exact .byte (fun hat => hstarts (markerAt_zero.1 hat)) ih

theorem check_eq_executable :
    check line = .executable offset ↔ IsLeast {i | ExecutableAt line i} offset := by
  have hspec := reports_pieces 0 line
  unfold check
  cases hpieces : pieces 0 line with
  | error stop =>
    rw [hpieces] at hspec
    obtain ⟨i, rfl, hi⟩ := hspec
    rw [Nat.zero_add]
    constructor
    · intro h
      rwa [← Verdict.executable.inj h]
    · intro h
      rw [hi.unique h]
  | ok found =>
    rw [hpieces] at hspec
    constructor
    · dsimp only
      split <;> exact nofun
    · intro h
      exact absurd h.1 (hspec.1 offset)

theorem check_eq_clean_iff : check line = .clean ↔ ∀ i, ¬ MarkerAt line i := by
  have hspec := reports_pieces 0 line
  unfold check
  cases hpieces : pieces 0 line with
  | error stop =>
    rw [hpieces] at hspec
    obtain ⟨i, -, hi⟩ := hspec
    exact ⟨nofun, fun h => absurd hi.1.1 (h i)⟩
  | ok found =>
    rw [hpieces] at hspec
    rw [← not_exists, ← hspec.2]
    by_cases hany : found.any Piece.isMarker = true <;> simp [hany]

/-! ## Restoring -/

theorem restoreFrom_length (written rest : Bytes) :
    restoreFrom written.length (written ++ rest) = restoreFrom 0 rest := by
  induction written with
  | nil => rfl
  | cons b written ih => exact ih

variable {found : List Piece}

/-- **Restoring**: what the markers of a line became is what they are restored from. -/
theorem restore_defused (h : IsClean found) :
    restore (found.flatMap Piece.defused) = found.flatMap Piece.source := by
  induction found with
  | nil => rfl
  | cons piece rest ih =>
    have hrest := ih h.tail
    unfold restore at hrest ⊢
    rw [List.flatMap_cons, List.flatMap_cons, ← hrest]
    cases piece with
    | byte b =>
      show restoreFrom 0 (b :: rest.flatMap Piece.defused) = _
      rw [restoreFrom, Ink.printedLength_eq_zero (Ink.head?_ne_second b h)]
      rfl
    | marker text =>
      have hmarker := h.markers text List.mem_cons_self
      have hlength := Ink.printedLength_defused hmarker (rest.flatMap Piece.defused)
      have hinner : ((Piece.marker text).defused ++ rest.flatMap Piece.defused).drop printOpen.length =
          text ++ (printClose ++ rest.flatMap Piece.defused) := by
        rw [hmarker.defused, List.append_assoc, List.append_assoc, List.drop_left]
      have hwidth : (Piece.marker text).defused.length - (printOpen.length + printClose.length) =
          text.length := by
        rw [hmarker.defused, List.length_append, List.length_append]
        omega
      obtain ⟨tail, htail, -⟩ := Ink.defused_eq_cons hmarker
      rw [htail] at hlength hinner hwidth ⊢
      rw [List.cons_append] at hlength hinner ⊢
      rw [restoreFrom, hlength, List.length_cons]
      dsimp only
      rw [hinner, restoreFrom_length, ← List.length_cons, hwidth, List.take_left]
      rfl

/-- **A check is exact**: it refuses the first executable marker, if there is one; it lets a line
through as it is just if there is no marker; and else it puts a segment that prints it in place of
each marker, from which the line can be restored and outside of which no marker stands. -/
theorem check_exact (line : Bytes) :
    (∀ offset, check line = .executable offset ↔ IsLeast {i | ExecutableAt line i} offset) ∧
    ((∃ offset, check line = .executable offset) ↔ ∃ i, ExecutableAt line i) ∧
    (check line = .clean ↔ ∀ i, ¬ MarkerAt line i) ∧
    (accepted? line = some line ↔ ∀ i, ¬ MarkerAt line i) ∧
    ∀ text, check line = .defused text → ∃ found : List Piece,
      (∀ marker, .marker marker ∈ found → IsMarker marker ∧
        (Piece.marker marker).defused = Utf8.encode "<?php print '" ++ marker ++ Utf8.encode "'; ?>") ∧
      found.flatMap Piece.source = line ∧ found.flatMap Piece.defused = text ∧
      Ink.ofText text = found.flatMap Ink.ofPiece ∧
      restore text = line ∧ Ink.Covered (Ink.ofText text) := by
  refine ⟨fun offset => check_eq_executable, ?_, check_eq_clean_iff, ?_, ?_⟩
  · constructor
    · rintro ⟨offset, h⟩
      exact ⟨offset, (check_eq_executable.1 h).1⟩
    · rintro ⟨i, hi⟩
      classical
      have hleast : IsLeast {i | ExecutableAt line i} (Nat.find ⟨i, hi⟩) :=
        ⟨Nat.find_spec ⟨i, hi⟩, fun j hj => Nat.find_min' ⟨i, hi⟩ hj⟩
      exact ⟨_, check_eq_executable.2 hleast⟩
  · rw [← check_eq_clean, check_eq_clean_iff]
  · intro text h
    have haccepted : accepted? line = some text := by
      unfold accepted?
      rw [h]
    obtain ⟨found, hclean, rfl, rfl, -⟩ := exists_of_accepted? haccepted
    refine ⟨found, fun marker hmem => ?_, rfl, rfl, Ink.ofText_eq hclean, restore_defused hclean,
      Ink.covered_ofText ⟨found, hclean, rfl⟩⟩
    have hmarker := hclean.markers marker hmem
    exact ⟨hmarker, hmarker.defused⟩

end TemplateCompiler.Markup.RawCode
