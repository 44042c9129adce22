import TemplateCompiler.Proofs.Scanning.Balance
import TemplateCompiler.Proofs.Scanning.Defusing

/-!
# Looking for one tag

Text that is copied verbatim is searched for one tag, and nothing else on its lines is read. The search
stops at the leftmost place where that tag begins (`BeginsTag`), also behind what only looks like its
beginning, and it finds there what a scan of the line from that place on finds first
(`search_agrees`).
-/
namespace TemplateCompiler

/-! ## Names in bytes -/

/-- A text is read as it was written if it was written in ASCII octets. -/
theorem Utf8.decode_encode {text : String} (h : ∀ b ∈ encode text, b.toNat < 128) :
    decode (encode text) = text := by
  have hascii : ∀ c ∈ text.toList, c.toNat < 128 := by
    intro c hc
    by_contra hlarge
    have hcode : ¬ c.val.toNat ≤ 127 := fun hle => hlarge (Nat.lt_succ_of_le hle)
    -- the first octet of any other character is 128 or more
    obtain ⟨b, hb, hle⟩ : ∃ b ∈ String.utf8EncodeChar c, 128 ≤ b.toNat := by
      unfold String.utf8EncodeChar
      simp only [hcode, if_false]
      split_ifs
      all_goals
        refine ⟨_, List.mem_cons_self, ?_⟩
        simp only [UInt8.toNat_ofNat']
        omega
    exact absurd (h b (List.mem_flatMap.2 ⟨c, hc, hb⟩)) (Nat.not_lt.2 hle)
  have hwritten : encode text = text.toList.map fun c => UInt8.ofNat c.toNat := by
    rw [encode, List.map_eq_flatMap]
    refine List.flatMap_congr fun c hc => ?_
    have hchar := utf8EncodeChar_ofNat c.toNat (hascii c hc)
    rwa [Char.ofNat_toNat] at hchar
  rw [decode, decodeFrom_ascii h, hwritten, List.map_map]
  refine (congrArg String.ofList (List.map_congr_left fun c hc => ?_)).trans
    ((congrArg String.ofList (List.map_id text.toList)).trans String.ofList_toList)
  have hsmall : c.toNat % 256 = c.toNat := Nat.mod_eq_of_lt (Nat.lt_trans (hascii c hc) (by decide))
  show Char.ofNat (UInt8.ofNat c.toNat).toNat = c
  rw [UInt8.toNat_ofNat', hsmall, Char.ofNat_toNat]

namespace Markup.Directive

variable {name : String} {start offset before after : Nat} {line text rest : Bytes} {d : Directive}

/-- The name of a tag that leaves no quote open behind it. -/
structure IsPlainName (name : String) : Prop extends IsTagName name where
  noQuote : 0x27 ∉ Utf8.encode name

/-- A text begins with `{%`, spaces, exactly the name, spaces and `%}`. -/
def BeginsTag (name : String) (text : Bytes) : Prop :=
  ∃ before after rest, text = Kind.tag.bytes ++ (tagText name before after ++ rest)

/-- The directive stands at the leftmost place of a line where the tag begins, and it is what a scan
from there on finds first. -/
structure IsFirstTag (name : String) (line : Bytes) (d : Directive) : Prop where
  begins : BeginsTag name (line.drop d.start)
  leftmost : ∀ i < d.start, ¬ BeginsTag name (line.drop i)
  scanned : (first? (line.drop d.start)).map (·.shift d.start) = some d

/-! ## Scanning a tag -/

theorem isBlob_spaces (n : Nat) (rest : Bytes) :
    IsBlob none (List.replicate n 0x20) .tag rest := by
  induction n with
  | zero => exact .nil ⟨rfl, List.prefix_append _ _⟩
  | succ n ih =>
    rw [List.replicate_succ, isBlob_cons]
    refine ⟨fun other h => ?_, ih⟩
    cases other with
    | lineEnd => rcases h with h | ⟨_, h⟩ | ⟨_, h⟩ <;> cases h
    | tag =>
      obtain ⟨-, _, h⟩ := h
      cases h
    | «variable» =>
      obtain ⟨-, _, h⟩ := h
      cases h

theorem trim_spaces (n : Nat) : Bytes.trim (List.replicate n 0x20) = [] := by
  rw [Bytes.trim, List.dropWhile_replicate]
  rfl

theorem trimEnd_append_spaces (h : IsTagName name) (n : Nat) :
    Bytes.trimEnd (Utf8.encode name ++ List.replicate n 0x20) = Utf8.encode name := by
  obtain ⟨front, b, hbytes⟩ := (List.eq_nil_or_concat (Utf8.encode name)).resolve_left h.ne_nil
  rw [List.concat_eq_append] at hbytes
  have hb : isNameByte b = true := h.bytes b (by rw [hbytes]; simp)
  have hblank : Byte.isBlank b = false := by
    by_contra hblank
    simp only [Byte.isBlank, Bool.not_eq_false, Bool.or_eq_true, beq_iff_eq] at hblank
    rcases hblank with (((rfl | rfl) | rfl) | rfl) | rfl <;> exact absurd hb (by decide)
  have hspaces : Bytes.trimEnd (List.replicate n 0x20) = [] := by
    rw [Bytes.trimEnd, List.reverse_replicate, List.dropWhile_replicate]
    rfl
  rw [hbytes, List.append_assoc, List.singleton_append, trimEnd_append_cons hblank, hspaces]

/-- **A tag** of a plain name is written as a directive without parameters. -/
theorem written_marked (h : IsPlainName name) (start before after : Nat) (rest : Bytes) :
    (marked name start (tagText name before after)).Written
      (Kind.tag.bytes ++ (tagText name before after ++ rest)) (List.replicate before 0x20)
      (Utf8.encode name) (List.replicate after 0x20) rest where
  text_eq := by
    simp only [tagText, List.append_assoc]
    rfl
  stop_eq := by
    simp only [marked, tagText, List.length_append, Kind.length_bytes, Closer.length_bytes,
      Closer.width, List.length_cons, List.length_nil]
    omega
  spaces_eq _ := List.eq_of_mem_replicate
  name_ne_nil := h.ne_nil
  name_bytes := h.bytes
  maximal b hb := by
    cases after <;> obtain rfl := Option.some.inj hb <;> rfl
  delimited := by
    have hquote : quoteAfter none (Utf8.encode name) = none := by
      rw [quoteAfter_name h.bytes, quoteOfName, List.count_eq_zero.2 h.noQuote]
      rfl
    rw [hquote]
    exact isBlob_spaces after rest
  reads_name := (Utf8.decode_encode fun b hb => lt_of_isNameByte (h.bytes b hb)).symm
  reads_params := by
    rw [trim_spaces]
    rfl
  reads_content := by
    rw [trimEnd_append_spaces h.toIsTagName]
    exact (Utf8.decode_encode fun b hb => lt_of_isNameByte (h.bytes b hb)).symm

theorem scanned_marked (h : IsPlainName name)
    (htext : line.drop start = Kind.tag.bytes ++ (tagText name before after ++ rest)) :
    (first? (line.drop start)).map (·.shift start) =
      some (marked name start (tagText name before after)) := by
  have hread := readAt?_eq_some_iff.2 ⟨rfl, _, _, _, _, written_marked h 0 before after rest⟩
  rw [htext, first?_of_readAt? hread, Option.map_some, shift, marked, marked]
  simp only [Nat.add_zero, Nat.zero_add, Nat.add_assoc]

/-! ## Searching for a tag -/

/-- The tag that begins with a text, if it is the one that is looked for. -/
def markerAt? (name : String) (start : Nat) : Bytes → Option Directive
  | [] => none
  | b :: rest => if opener? b rest.head? = some .tag then readMarker? name start rest.tail else none

theorem findMarkerFrom_cons (name : String) (offset : Nat) (b : UInt8) (rest : Bytes) :
    findMarkerFrom name offset (b :: rest) =
      (markerAt? name offset (b :: rest)).or (findMarkerFrom name (offset + 1) rest) := by
  rw [findMarkerFrom, markerAt?]
  cases (if opener? b rest.head? = some .tag then readMarker? name offset rest.tail else none) <;> rfl

/-- **Reading one tag**: it is read where it begins, and nowhere else. -/
theorem markerAt?_eq_some_iff (h : IsTagName name) : markerAt? name start text = some d ↔
    ∃ before after rest, text = Kind.tag.bytes ++ (tagText name before after ++ rest) ∧
      d = marked name start (tagText name before after) := by
  constructor
  · intro hread
    cases text with
    | nil => cases hread
    | cons b rest =>
      rw [markerAt?] at hread
      split at hread
      · next hopener =>
        obtain ⟨c, hnext, hbytes⟩ := opener?_eq_some_iff.1 hopener
        obtain ⟨before, after, more, htail⟩ := exists_of_readMarker? hread
        rw [htail, readMarker?_tagText h] at hread
        refine ⟨before, after, more, ?_, (Option.some.inj hread).symm⟩
        rw [← htail, hbytes, List.eq_cons_of_mem_head? hnext]
        rfl
      · cases hread
  · rintro ⟨before, after, rest, rfl, rfl⟩
    exact readMarker?_tagText h start before after rest

theorem markerAt?_eq_none_iff (h : IsTagName name) :
    markerAt? name start text = none ↔ ¬ BeginsTag name text := by
  rw [Option.eq_none_iff_forall_ne_some]
  constructor
  · rintro hnone ⟨before, after, rest, htext⟩
    exact hnone _ ((markerAt?_eq_some_iff h).2 ⟨before, after, rest, htext, rfl⟩)
  · intro hnot d hread
    obtain ⟨before, after, rest, htext, -⟩ := (markerAt?_eq_some_iff h).1 hread
    exact hnot ⟨before, after, rest, htext⟩

/-- **The search** from an offset on stops at the first place where the tag begins. -/
theorem findMarkerFrom_spec (h : IsTagName name) (htext : line.drop offset = text) :
    match findMarkerFrom name offset text with
    | none => ∀ i, offset ≤ i → ¬ BeginsTag name (line.drop i)
    | some d => offset ≤ d.start ∧ markerAt? name d.start (line.drop d.start) = some d ∧
        ∀ i, offset ≤ i → i < d.start → ¬ BeginsTag name (line.drop i) := by
  induction text generalizing offset with
  | nil =>
    rintro i hi ⟨before, after, rest, hbegins⟩
    rw [List.drop_eq_nil_of_le ((List.drop_eq_nil_iff.1 htext).trans hi)] at hbegins
    cases hbegins
  | cons b rest ih =>
    have hrest : line.drop (offset + 1) = rest := by
      rw [← List.drop_drop, htext]
      rfl
    have ih := ih hrest
    rw [findMarkerFrom_cons]
    cases hread : markerAt? name offset (b :: rest) with
    | some d =>
      obtain ⟨_, _, _, -, rfl⟩ := (markerAt?_eq_some_iff h).1 hread
      rw [← htext] at hread
      exact ⟨le_rfl, hread, fun i hle hlt => absurd hlt (Nat.not_lt.2 hle)⟩
    | none =>
      have hnot : ¬ BeginsTag name (line.drop offset) := by
        rw [htext]
        exact (markerAt?_eq_none_iff h).1 hread
      have hlater {i : Nat} (hi : offset ≤ i) (hne : i ≠ offset) : offset + 1 ≤ i :=
        Nat.lt_of_le_of_ne hi hne.symm
      rw [Option.none_or]
      cases hfound : findMarkerFrom name (offset + 1) rest with
      | none =>
        rw [hfound] at ih
        intro i hi
        rcases eq_or_ne i offset with rfl | hne
        · exact hnot
        · exact ih i (hlater hi hne)
      | some d =>
        rw [hfound] at ih
        obtain ⟨hle, hreads, hbefore⟩ := ih
        refine ⟨Nat.le_of_succ_le hle, hreads, fun i hi hlt => ?_⟩
        rcases eq_or_ne i offset with rfl | hne
        · exact hnot
        · exact hbefore i (hlater hi hne) hlt

/-- There is one leftmost place, and one directive is found there. -/
theorem IsFirstTag.unique {other : Directive} (hd : IsFirstTag name line d)
    (hother : IsFirstTag name line other) : d = other := by
  have hstart : d.start = other.start := by
    rcases Nat.lt_trichotomy d.start other.start with hlt | heq | hlt
    · exact absurd hd.begins (hother.leftmost _ hlt)
    · exact heq
    · exact absurd hother.begins (hd.leftmost _ hlt)
  have hscanned := hd.scanned
  rw [hstart, hother.scanned] at hscanned
  exact (Option.some.inj hscanned).symm

/-- **The search and the scan agree**: the search for a tag finds the directive at the leftmost place
where the tag begins, which is the one that a scan from there on finds first, and it finds nothing if
the tag begins nowhere. -/
theorem search_agrees (h : IsPlainName name) (line : Bytes) :
    (∀ d, findMarker? name line = some d ↔ IsFirstTag name line d) ∧
      (findMarker? name line = none ↔ ∀ i, ¬ BeginsTag name (line.drop i)) := by
  have hspec := @findMarkerFrom_spec name 0 line line h.toIsTagName rfl
  rw [show findMarkerFrom name 0 line = findMarker? name line from rfl] at hspec
  cases hfound : findMarker? name line with
  | none =>
    rw [hfound] at hspec
    have hnone : ∀ i, ¬ BeginsTag name (line.drop i) := fun i => hspec i (Nat.zero_le i)
    exact ⟨fun d => ⟨nofun, fun hd => absurd hd.begins (hnone _)⟩, fun _ => hnone, fun _ => rfl⟩
  | some found =>
    rw [hfound] at hspec
    obtain ⟨-, hreads, hbefore⟩ := hspec
    obtain ⟨before, after, rest, htext, hmarked⟩ := (markerAt?_eq_some_iff h.toIsTagName).1 hreads
    have hfirst : IsFirstTag name line found :=
      { begins := ⟨before, after, rest, htext⟩
        leftmost := fun i => hbefore i (Nat.zero_le i)
        scanned := (scanned_marked h htext).trans (congrArg some hmarked.symm) }
    refine ⟨fun d => ⟨?_, fun hd => congrArg some (hfirst.unique hd)⟩, nofun,
      fun hnone => absurd hfirst.begins (hnone _)⟩
    rintro ⟨⟩
    exact hfirst

/-- The text of the line `{% {% ends %}{%end  %}`: a longer name and a lone opener hide the tag. -/
def hidingLine : Bytes :=
  Utf8.encode "\x7b% \x7b% ends %\x7d\x7b%end  %\x7d"

/-- The tag is found behind what only begins like it. -/
theorem search_agrees_hidingLine : IsPlainName "end" ∧
    (findMarker? "end" hidingLine).map (·.start) = some 13 ∧
    ∃ d, findMarker? "end" hidingLine = some d ∧ IsFirstTag "end" hidingLine d := by
  have hname : IsPlainName "end" := ⟨⟨by decide, by decide +kernel⟩, by decide +kernel⟩
  have hstart : (findMarker? "end" hidingLine).map (·.start) = some 13 := by decide +kernel
  obtain ⟨d, hd, -⟩ := Option.map_eq_some_iff.1 hstart
  exact ⟨hname, hstart, d, hd, ((search_agrees hname hidingLine).1 d).1 hd⟩

end Markup.Directive

end TemplateCompiler
