import TemplateCompiler.Feed
import TemplateCompiler.Proofs.RawCode.Pieces

/-!
# Extents of directives

A directive begins with a brace, and it ends with a brace or before a line break, so a line that has
been checked is cut at edges wherever a directive is taken out of it (`Feed.defused_of_directive`).
-/
namespace TemplateCompiler

namespace Markup.Directive

/-! ## The text of a directive -/

/-- Where text ends that is taken out of a line: after a brace, or before a line break. -/
def EndsAtEdge (written after : Bytes) : Prop :=
  written.getLast? = some 0x7d ∨ ∀ e ∈ after.head?, RawCode.isEdge e = true

theorem EndsAtEdge.prepend {written after : Bytes} (h : EndsAtEdge written after) (front : Bytes) :
    EndsAtEdge (front ++ written) after := by
  rcases h with h | h
  · refine .inl ?_
    rw [List.getLast?_append, h]
    rfl
  · exact .inr h

theorem endsAtEdge_of_atLineEnd {written after : Bytes} (h : atLineEnd after = true) :
    EndsAtEdge written after := by
  refine .inr fun e he => ?_
  cases after with
  | nil => cases he
  | cons b rest =>
    obtain rfl := Option.some.inj he
    simp only [atLineEnd, Bool.or_eq_true, Bool.and_eq_true, beq_iff_eq] at h
    rcases h with rfl | ⟨rfl, -⟩
    · decide
    · decide

/-- A blob ends before its closer or, if it has none, before a line break. -/
theorem blob_eq (quote : Option UInt8) (text : Bytes) :
    ∃ closing after, text = (blob quote text).1 ++ (closing ++ after) ∧
      closing.length = (blob quote text).2.width ∧ EndsAtEdge closing after ∧
      ((blob quote text).2 = .lineEnd → atLineEnd after = true) := by
  induction text generalizing quote with
  | nil => exact ⟨[], [], rfl, rfl, endsAtEdge_of_atLineEnd rfl, fun _ => rfl⟩
  | cons b rest ih =>
    rw [blob]
    by_cases hend : atLineEnd (b :: rest) = true
    · rw [if_pos hend]
      exact ⟨[], b :: rest, rfl, rfl, endsAtEdge_of_atLineEnd hend, fun _ => hend⟩
    · rw [if_neg hend]
      by_cases htag : (quote.isNone && b == 0x25 && rest.head? == some 0x7d) = true
      · rw [if_pos htag]
        simp only [Bool.and_eq_true, beq_iff_eq] at htag
        cases rest with
        | nil => cases htag.2
        | cons c after =>
          obtain rfl := Option.some.inj htag.2
          exact ⟨[b, 0x7d], after, rfl, rfl, .inl rfl, nofun⟩
      · rw [if_neg htag]
        by_cases hvariable : (quote.isNone && b == 0x7d && rest.head? == some 0x7d) = true
        · rw [if_pos hvariable]
          simp only [Bool.and_eq_true, beq_iff_eq] at hvariable
          cases rest with
          | nil => cases hvariable.2
          | cons c after =>
            obtain rfl := Option.some.inj hvariable.2
            exact ⟨[b, 0x7d], after, rfl, rfl, .inl rfl, nofun⟩
        · rw [if_neg hvariable]
          obtain ⟨closing, after, htext, hwidth, hends⟩ := ih (Text.quoteAfter Byte.isQuote quote b)
          refine ⟨closing, after, ?_, hwidth, hends⟩
          exact congrArg (b :: ·) htext

/-- What a directive takes of the text after its opener. -/
theorem read?_eq_some {start : Nat} {opener : Kind} {text : Bytes} {d : Directive}
    (h : read? start opener text = some d) :
    ∃ inner after, text = inner ++ after ∧ d.start = start ∧
      d.stop = start + 2 + inner.length ∧ EndsAtEdge inner after ∧
      (d.closer = .lineEnd → atLineEnd after = true) := by
  have hspaces := List.takeWhile_append_dropWhile (p := (· == 0x20)) (l := text)
  have hname := List.takeWhile_append_dropWhile (p := isNameByte) (l := skipSpaces text)
  dsimp only [read?] at h
  split at h
  · cases h
  · obtain ⟨closing, after, hblob, hwidth, hends, hbroken⟩ := blob_eq
      (quoteOfName ((skipSpaces text).takeWhile isNameByte)) ((skipSpaces text).dropWhile isNameByte)
    obtain rfl := Option.some.inj h
    have hsplit : text = text.takeWhile (· == 0x20) ++ (skipSpaces text).takeWhile isNameByte ++
        (blob (quoteOfName ((skipSpaces text).takeWhile isNameByte))
          ((skipSpaces text).dropWhile isNameByte)).1 ++ closing ++ after := by
      rw [List.append_assoc, List.append_assoc, ← hblob, List.append_assoc, hname]
      exact hspaces.symm
    refine ⟨_, after, hsplit, rfl, ?_, hends.prepend _, hbroken⟩
    have hlength := congrArg List.length hspaces
    rw [List.length_append] at hlength
    simp only [List.length_append, hwidth]
    unfold skipSpaces
    omega

/-- What a tag that is looked for takes of the text after its opener. -/
theorem readMarker?_eq_some {marker : String} {start : Nat} {text : Bytes} {d : Directive}
    (h : readMarker? marker start text = some d) :
    ∃ inner after, text = inner ++ after ∧ d.start = start ∧
      d.stop = start + 2 + inner.length ∧ EndsAtEdge inner after ∧
      (d.closer = .lineEnd → atLineEnd after = true) := by
  have hspaces := List.takeWhile_append_dropWhile (p := (· == 0x20)) (l := text)
  dsimp only [readMarker?] at h
  split at h
  · next hmarker =>
    obtain rfl := Option.some.inj h
    simp only [Bool.and_eq_true] at hmarker
    obtain ⟨⟨hname, -⟩, hcloser⟩ := hmarker
    obtain ⟨gapped, hgapped⟩ := List.isPrefixOf_iff_prefix.1 hname
    have hdrop : (skipSpaces text).drop (Utf8.encode marker).length = gapped := by
      rw [← hgapped, List.drop_left]
    rw [hdrop] at hcloser
    obtain ⟨after, hafter⟩ := List.isPrefixOf_iff_prefix.1 hcloser
    have hgap := List.takeWhile_append_dropWhile (p := (· == 0x20)) (l := gapped)
    have hsplit : text = text.takeWhile (· == 0x20) ++ Utf8.encode marker ++
        gapped.takeWhile (· == 0x20) ++ [0x25, 0x7d] ++ after := by
      have hall : gapped.takeWhile (· == 0x20) ++ skipSpaces gapped = gapped := hgap
      rw [List.append_assoc, hafter, List.append_assoc, hall, List.append_assoc, hgapped]
      exact hspaces.symm
    refine ⟨_, after, hsplit, rfl, ?_, EndsAtEdge.prepend (.inl rfl) _, Closer.noConfusion⟩
    have hlength := congrArg List.length hspaces
    have hlength' := congrArg List.length hgap
    rw [List.length_append] at hlength hlength'
    simp only [hdrop, List.length_append, List.length_cons, List.length_nil]
    unfold skipSpaces
    omega
  · cases h

/-! ## Where directives stand -/

/-- A directive stands between two parts of a line whose first byte has the given offset. -/
structure Stands (d : Directive) (offset : Nat) (before written after : Bytes) : Prop where
  start : d.start = offset + before.length
  stop : d.stop = d.start + written.length
  opens : written.head? = some 0x7b
  closes : EndsAtEdge written after
  broken : d.closer = .lineEnd → atLineEnd after = true

theorem stands_of_opener {d : Directive} {offset : Nat} {before inner after : Bytes} {b c : UInt8}
    {kind : Kind} (hopener : opener? b (some c) = some kind) (hstart : d.start = offset + before.length)
    (hstop : d.stop = offset + before.length + 2 + inner.length) (hends : EndsAtEdge inner after)
    (hbroken : d.closer = .lineEnd → atLineEnd after = true) :
    d.Stands offset before (b :: c :: inner) after where
  start := hstart
  stop := by
    rw [hstop, hstart, List.length_cons, List.length_cons]
    omega
  opens := by
    unfold opener? at hopener
    split at hopener
    · cases hopener
    · next hb => simpa using hb
  closes := hends.prepend [b, c]
  broken := hbroken

theorem opener?_eq_some {b : UInt8} {next : Option UInt8} {kind : Kind}
    (h : opener? b next = some kind) : ∃ c, next = some c := by
  cases next with
  | none =>
    unfold opener? at h
    split at h <;> cases h
  | some c => exact ⟨c, rfl⟩

/-- The first directive is read behind an opener of the line. -/
theorem firstFrom_reads {offset : Nat} {line : Bytes} {d : Directive}
    (h : firstFrom offset line = some d) :
    ∃ before b c rest kind, line = before ++ b :: c :: rest ∧ opener? b (some c) = some kind ∧
      read? (offset + before.length) kind rest = some d := by
  induction line generalizing offset with
  | nil => cases h
  | cons b rest ih =>
    rw [firstFrom] at h
    split at h
    · next e heq =>
      obtain rfl := Option.some.inj h
      obtain ⟨kind, hopener, hread⟩ := Option.bind_eq_some_iff.1 heq
      obtain ⟨c, hnext⟩ := opener?_eq_some hopener
      rw [hnext] at hopener
      refine ⟨[], b, c, rest.tail, kind, ?_, hopener, hread⟩
      rw [List.nil_append, ← List.eq_cons_of_mem_head? hnext]
    · obtain ⟨before, c, next, more, kind, rfl, hopener, hread⟩ := ih h
      refine ⟨b :: before, c, next, more, kind, rfl, hopener, ?_⟩
      rwa [List.length_cons, Nat.add_comm before.length, ← Nat.add_assoc]

/-- What is looked for is read behind the opener of a tag. -/
theorem findMarkerFrom_reads {marker : String} {offset : Nat} {line : Bytes} {d : Directive}
    (h : findMarkerFrom marker offset line = some d) :
    ∃ before b c rest, line = before ++ b :: c :: rest ∧ opener? b (some c) = some .tag ∧
      readMarker? marker (offset + before.length) rest = some d := by
  induction line generalizing offset with
  | nil => cases h
  | cons b rest ih =>
    rw [findMarkerFrom] at h
    split at h
    · next e heq =>
      obtain rfl := Option.some.inj h
      split at heq
      · next hopener =>
        obtain ⟨c, hnext⟩ := opener?_eq_some hopener
        rw [hnext] at hopener
        refine ⟨[], b, c, rest.tail, ?_, hopener, heq⟩
        rw [List.nil_append, ← List.eq_cons_of_mem_head? hnext]
      · cases heq
    · obtain ⟨before, c, next, more, rfl, hopener, hread⟩ := ih h
      refine ⟨b :: before, c, next, more, rfl, hopener, ?_⟩
      rwa [List.length_cons, Nat.add_comm before.length, ← Nat.add_assoc]

theorem firstFrom_eq_some {offset : Nat} {line : Bytes} {d : Directive}
    (h : firstFrom offset line = some d) :
    ∃ before written after, line = before ++ (written ++ after) ∧
      d.Stands offset before written after := by
  obtain ⟨before, b, c, rest, kind, rfl, hopener, hread⟩ := firstFrom_reads h
  obtain ⟨inner, after, rfl, hstart, hstop, hends, hbroken⟩ := read?_eq_some hread
  exact ⟨before, b :: c :: inner, after, rfl, stands_of_opener hopener hstart hstop hends hbroken⟩

theorem findMarkerFrom_stands {marker : String} {offset : Nat} {line : Bytes} {d : Directive}
    (h : findMarkerFrom marker offset line = some d) :
    ∃ before written after, line = before ++ (written ++ after) ∧
      d.Stands offset before written after := by
  obtain ⟨before, b, c, rest, rfl, hopener, hread⟩ := findMarkerFrom_reads h
  obtain ⟨inner, after, rfl, hstart, hstop, hends, hbroken⟩ := readMarker?_eq_some hread
  exact ⟨before, b :: c :: inner, after, rfl, stands_of_opener hopener hstart hstop hends hbroken⟩

end Markup.Directive

theorem Reading.find?_stands {reading : Reading} {line : Bytes} {d : Markup.Directive}
    (h : reading.find? line = some d) :
    ∃ before written after, line = before ++ (written ++ after) ∧
      d.Stands 0 before written after := by
  unfold Reading.find? at h
  split at h
  · exact Markup.Directive.firstFrom_eq_some h
  · exact Markup.Directive.findMarkerFrom_stands h
  · cases h

open Markup.RawCode

/-- A directive stands between edges. -/
theorem Markup.Directive.Stands.edges {d : Markup.Directive} {offset : Nat}
    {before written after : Bytes} (h : d.Stands offset before written after) :
    (∀ e ∈ (written ++ after).head?, isEdge e = true) ∧
      ((∃ e ∈ written.getLast?, isEdge e = true) ∨ ∀ e ∈ after.head?, isEdge e = true) := by
  constructor
  · intro e he
    rw [List.head?_append, h.opens] at he
    obtain rfl := Option.some.inj he
    decide
  · rcases h.closes with hlast | hafter
    · exact .inl ⟨0x7d, hlast, by decide⟩
    · exact .inr hafter

/-- **Taking a directive out** of a line that has been checked leaves two lines of that kind. -/
theorem Reading.defused_of_find? {reading : Reading} {line : Bytes} {d : Markup.Directive}
    (h : reading.find? line = some d) (hline : Defused line) :
    Defused (line.take d.start) ∧ Defused (line.drop d.stop) := by
  obtain ⟨before, written, after, rfl, hstands⟩ := Reading.find?_stands h
  have hstart : d.start = before.length := hstands.start.trans (Nat.zero_add _)
  have hstop : d.stop = (before ++ written).length := by
    rw [hstands.stop, hstart, List.length_append]
  obtain ⟨hopen, hclose⟩ := hstands.edges
  obtain ⟨hbefore, hrest⟩ := hline.split (.inr hopen)
  rw [hstart, List.take_left, hstop, ← List.append_assoc, List.drop_left]
  exact ⟨hbefore, (hrest.split hclose).2⟩

/-! ## Feeds -/

/-- Whether the current line of a feed has been checked, if it is taken to have been. -/
def Feed.IsChecked (feed : Feed) : Prop :=
  feed.unchecked = false → Defused feed.line

/-- Whether a step gives out no raw code where directives are read, and leaves the feed checked. -/
def Feed.Step.IsChecked (reading : Reading) : Feed.Step → Prop
  | .done => True
  | .forbidden => True
  | .newLine after => after.IsChecked
  | .checked after => after.IsChecked
  | .text content after => (reading = .directives → Defused content) ∧ after.IsChecked
  | .directive before _ after => (reading = .directives → Defused before) ∧ after.IsChecked

/-- **One step** of a feed that is checked. -/
theorem Feed.IsChecked.step {reading : Reading} {feed : Feed} {step : Feed.Step}
    (h : feed.IsChecked) (hstep : feed.step reading = step) : step.IsChecked reading := by
  subst hstep
  unfold Feed.step
  split
  · trivial
  · exact fun hunchecked => nomatch hunchecked
  · split
    · split
      · trivial
      · next hcheck => exact fun _ => defused_of_check (.inl ⟨hcheck, rfl⟩)
      · next hcheck => exact fun _ => defused_of_check (.inr hcheck)
    · next hdirectives =>
      -- a line in which directives are looked for has been checked
      have hchecked (hreading : reading = .directives) : feed.unchecked = false :=
        Bool.eq_false_iff.2 fun hunchecked => hdirectives ⟨hreading, hunchecked⟩
      split
      · exact ⟨fun hreading => h (hchecked hreading), fun _ => ⟨[], .nil, rfl⟩⟩
      · next d hfind =>
        refine ⟨fun hreading => ?_, fun hunchecked => ?_⟩
        · exact (Reading.defused_of_find? hfind (h (hchecked hreading))).1
        · exact (Reading.defused_of_find? hfind (h hunchecked)).2

end TemplateCompiler
