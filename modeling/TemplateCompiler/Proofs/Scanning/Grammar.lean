import TemplateCompiler.Proofs.Rendering.Scanning

/-!
# The grammar of directives

Which directives a line has, said without scanning it: one is written as an opener, spaces, a name
and a blob up to the first end (`Directive.IsWritten`), and none could begin at another place of the
line (`Directive.Begins`). A scan finds exactly these (`Directive.all_eq_iff`).
-/
namespace TemplateCompiler.Markup

/-- The bytes of an opener: `{%` or `{{`. -/
def Kind.bytes : Kind → Bytes
  | .tag => [0x7b, 0x25]
  | .variable => [0x7b, 0x7b]

/-- The bytes of a closer: `%}`, `}}`, or none at the end of the line. -/
def Closer.bytes : Closer → Bytes
  | .tag => [0x25, 0x7d]
  | .variable => [0x7d, 0x7d]
  | .lineEnd => []

theorem Kind.length_bytes (kind : Kind) : kind.bytes.length = 2 := by
  cases kind <;> rfl

theorem Closer.length_bytes (closer : Closer) : closer.bytes.length = closer.width := by
  cases closer <;> rfl

namespace Directive

/-- The quote that is open after some bytes, if `quote` was open before them. -/
def quoteAfter (quote : Option UInt8) (read : Bytes) : Option UInt8 :=
  read.foldl (Text.quoteAfter Byte.isQuote) quote

/-- A line ends where nothing follows, or a line feed, or a carriage return and a line feed. -/
def LineEnds (rest : Bytes) : Prop :=
  rest = [] ∨ [0x0a] <+: rest ∨ [0x0d, 0x0a] <+: rest

/-- What ends a directive before `rest`: the end of the line in any case, a closer outside quotes
only. -/
def Ends (quote : Option UInt8) (rest : Bytes) : Closer → Prop
  | .lineEnd => LineEnds rest
  | closer => quote = none ∧ closer.bytes <+: rest

/-- The blob and the closer of a directive, the quotes being counted from its name on: nothing ends
the directive before its closer does. -/
structure IsBlob (quote : Option UInt8) (blob : Bytes) (closer : Closer) (after : Bytes) : Prop where
  ends : Ends (quoteAfter quote blob) (closer.bytes ++ after) closer
  first : ∀ read more, blob = read ++ more → more ≠ [] → ∀ other,
    ¬ Ends (quoteAfter quote read) (more ++ (closer.bytes ++ after)) other

/-- A directive as it is written at the beginning of a text, part by part. -/
structure Written (d : Directive) (text spaces name blob after : Bytes) : Prop where
  text_eq : text = d.opener.bytes ++ (spaces ++ (name ++ (blob ++ (d.closer.bytes ++ after))))
  stop_eq : d.stop =
    d.start + (d.opener.bytes ++ spaces ++ name ++ blob ++ d.closer.bytes).length
  spaces_eq : ∀ b ∈ spaces, b = 0x20
  name_ne_nil : name ≠ []
  name_bytes : ∀ b ∈ name, isNameByte b = true
  maximal : ∀ b ∈ (blob ++ (d.closer.bytes ++ after)).head?, isNameByte b = false
  delimited : IsBlob (quoteAfter none name) blob d.closer after
  reads_name : d.name = Utf8.decode name
  reads_params : d.params = Utf8.decode (Bytes.trim blob)
  reads_content : d.content = Utf8.decode (Bytes.trimEnd (name ++ blob))

/-- A directive stands in a line where it says. -/
def IsWritten (line : Bytes) (d : Directive) : Prop :=
  ∃ spaces name blob after, d.Written (line.drop d.start) spaces name blob after

/-- A directive could begin with a text: an opener, spaces and a byte of a name. -/
def Begins (text : Bytes) : Prop :=
  ∃ (opener : Kind) (spaces : Bytes) (b : UInt8) (rest : Bytes), (∀ s ∈ spaces, s = 0x20) ∧
    isNameByte b = true ∧ text = opener.bytes ++ (spaces ++ b :: rest)

/-- The directives of a line from an offset on: they stand one after another in it, and none could
begin outside of them. -/
structure AreAll (offset : Nat) (line : Bytes) (ds : List Directive) : Prop where
  ordered : ds.Pairwise fun d e => d.stop ≤ e.start
  inside : ∀ d ∈ ds, offset ≤ d.start ∧ d.start < d.stop ∧ d.stop ≤ line.length
  written : ∀ d ∈ ds, d.IsWritten line
  complete : ∀ i, offset ≤ i → Begins (line.drop i) → ∃ d ∈ ds, d.start ≤ i ∧ i < d.stop

/-! ## Ends -/

section

variable {quote : Option UInt8} {b : UInt8} {rest text : Bytes} {closer : Closer}

theorem lineEnds_iff : LineEnds text ↔ atLineEnd text = true := by
  cases text with
  | nil => simp [LineEnds, atLineEnd]
  | cons b rest => simp [LineEnds, atLineEnd, Bytes.singleton_prefix_iff, eq_comm (a := b)]

theorem ends_tag_iff : Ends quote (b :: rest) .tag ↔
    (quote.isNone && b == 0x25 && rest.head? == some 0x7d) = true := by
  simp [Ends, Closer.bytes, Bytes.singleton_prefix_iff, eq_comm (a := b), and_assoc]

theorem ends_variable_iff : Ends quote (b :: rest) .variable ↔
    (quote.isNone && b == 0x7d && rest.head? == some 0x7d) = true := by
  simp [Ends, Closer.bytes, Bytes.singleton_prefix_iff, eq_comm (a := b), and_assoc]

/-- The byte that begins an end tells which one it is. -/
theorem Ends.closer_eq (h : Ends quote text closer) :
    closer = if text.head? = some 0x25 then .tag
      else if text.head? = some 0x7d then .variable else .lineEnd := by
  cases closer with
  | lineEnd => rcases h with rfl | ⟨rest, rfl⟩ | ⟨rest, rfl⟩ <;> rfl
  | tag =>
    obtain ⟨-, rest, rfl⟩ := h
    rfl
  | «variable» =>
    obtain ⟨-, rest, rfl⟩ := h
    rfl

theorem Ends.unique {other : Closer} (h : Ends quote text closer) (h' : Ends quote text other) :
    closer = other :=
  h.closer_eq.trans h'.closer_eq.symm

theorem Ends.split (h : Ends quote text closer) : ∃ after, text = closer.bytes ++ after := by
  cases closer with
  | lineEnd => exact ⟨text, rfl⟩
  | _ => exact h.2.imp fun _ => Eq.symm

theorem blob_of_ends (h : Ends quote text closer) : Directive.blob quote text = ([], closer) := by
  cases text with
  | nil =>
    obtain rfl : closer = .lineEnd := h.unique (.inl rfl)
    rfl
  | cons b rest =>
    rw [Directive.blob]
    split
    · next hline =>
      have hlineEnd : Ends quote (b :: rest) .lineEnd := lineEnds_iff.2 hline
      rw [h.unique hlineEnd]
    · next hline =>
      split
      · next htag => rw [h.unique (ends_tag_iff.2 htag)]
      · next htag =>
        split
        · next hvariable => rw [h.unique (ends_variable_iff.2 hvariable)]
        · next hvariable =>
          cases closer with
          | lineEnd => exact absurd (lineEnds_iff.1 h) hline
          | tag => exact absurd (ends_tag_iff.1 h) htag
          | «variable» => exact absurd (ends_variable_iff.1 h) hvariable

theorem blob_of_not_ends (h : ∀ closer, ¬ Ends quote (b :: rest) closer) :
    Directive.blob quote (b :: rest) =
      (b :: (Directive.blob (Text.quoteAfter Byte.isQuote quote b) rest).1,
        (Directive.blob (Text.quoteAfter Byte.isQuote quote b) rest).2) := by
  rw [Directive.blob, if_neg fun hline => h .lineEnd (lineEnds_iff.2 hline),
    if_neg fun htag => h .tag (ends_tag_iff.2 htag),
    if_neg fun hvariable => h .variable (ends_variable_iff.2 hvariable)]

/-! ## Blobs -/

variable {blob after : Bytes}

theorem IsBlob.nil (h : Ends quote (closer.bytes ++ after) closer) : IsBlob quote [] closer after where
  ends := h
  first := by
    intro read more heq hmore
    exact absurd (List.append_eq_nil_iff.1 heq.symm).2 hmore

theorem isBlob_cons : IsBlob quote (b :: blob) closer after ↔
    (∀ other, ¬ Ends quote (b :: (blob ++ (closer.bytes ++ after))) other) ∧
      IsBlob (Text.quoteAfter Byte.isQuote quote b) blob closer after := by
  constructor
  · rintro ⟨hends, hfirst⟩
    refine ⟨hfirst [] (b :: blob) rfl (by simp), hends, ?_⟩
    rintro read more rfl hmore
    exact hfirst (b :: read) more rfl hmore
  · rintro ⟨hnot, hends, hfirst⟩
    refine ⟨hends, ?_⟩
    intro read more heq hmore
    cases read with
    | nil =>
      obtain rfl : more = b :: blob := heq.symm
      exact hnot
    | cons a read =>
      obtain ⟨rfl, rfl⟩ := List.cons.inj heq
      exact hfirst read more rfl hmore

/-- **Blobs**: what is read as a blob and a closer is all before the first end, and that end. -/
theorem blob_eq_iff : Directive.blob quote text = (blob, closer) ↔
    ∃ after, text = blob ++ (closer.bytes ++ after) ∧ IsBlob quote blob closer after := by
  induction text generalizing quote blob with
  | nil =>
    constructor
    · intro h
      obtain ⟨rfl, rfl⟩ := Prod.mk.inj h
      exact ⟨[], rfl, .nil (.inl rfl)⟩
    · rintro ⟨after, htext, -⟩
      obtain ⟨rfl, hrest⟩ := List.append_eq_nil_iff.1 htext.symm
      have hcloser := (List.append_eq_nil_iff.1 hrest).1
      cases closer with
      | lineEnd => rfl
      | _ => cases hcloser
  | cons b rest ih =>
    by_cases hends : ∃ other, Ends quote (b :: rest) other
    · obtain ⟨other, hother⟩ := hends
      rw [blob_of_ends hother]
      constructor
      · intro h
        obtain ⟨rfl, rfl⟩ := Prod.mk.inj h
        obtain ⟨after, hafter⟩ := hother.split
        exact ⟨after, hafter, .nil (hafter ▸ hother)⟩
      · rintro ⟨after, htext, hblob⟩
        cases blob with
        | nil =>
          have hcloser := hblob.ends
          rw [List.nil_append] at htext
          rw [← htext] at hcloser
          rw [hother.unique hcloser]
        | cons a blob =>
          obtain ⟨rfl, hrest⟩ := List.cons.inj htext
          rw [hrest] at hother
          exact absurd hother ((isBlob_cons.1 hblob).1 other)
    · rw [not_exists] at hends
      rw [blob_of_not_ends hends]
      constructor
      · intro h
        obtain ⟨rfl, hcloser⟩ := Prod.mk.inj h
        obtain ⟨after, hrest, hblob⟩ := ih.1 (Prod.ext rfl hcloser)
        refine ⟨after, congrArg (b :: ·) hrest, isBlob_cons.2 ⟨?_, hblob⟩⟩
        rw [← hrest]
        exact hends
      · rintro ⟨after, htext, hblob⟩
        cases blob with
        | nil =>
          have hcloser := hblob.ends
          rw [List.nil_append] at htext
          rw [← htext] at hcloser
          exact absurd hcloser (hends closer)
        | cons a blob =>
          obtain ⟨rfl, hrest⟩ := List.cons.inj htext
          rw [ih.2 ⟨after, hrest, (isBlob_cons.1 hblob).2⟩]

end

/-! ## Names -/

/-- The only quotes that a name has are apostrophes, and every second one closes what the one before
it opened. -/
theorem quoteAfter_name {name : Bytes} (h : ∀ b ∈ name, isNameByte b = true) :
    quoteAfter none name = quoteOfName name := by
  suffices quoteAfter none name = quoteOfName name ∧
      quoteAfter (some 0x27) name = if name.count 0x27 % 2 = 1 then none else some 0x27 from this.1
  induction name with
  | nil => exact ⟨rfl, rfl⟩
  | cons b name ih =>
    obtain ⟨hb, hname⟩ := List.forall_mem_cons.1 h
    obtain ⟨hnone, hsome⟩ := ih hname
    unfold quoteAfter quoteOfName at *
    by_cases hquote : b = 0x27
    · subst hquote
      simp only [List.foldl_cons, List.count_cons_self]
      rw [show Text.quoteAfter Byte.isQuote none 0x27 = some 0x27 from rfl,
        show Text.quoteAfter Byte.isQuote (some 0x27) 0x27 = none from rfl, hnone, hsome]
      constructor <;> split <;> split <;> first | rfl | omega
    · have hplain : Byte.isQuote b = false := by
        have hdouble : b ≠ 0x22 := by
          rintro rfl
          exact absurd hb (by decide)
        simp [Byte.isQuote, hquote, hdouble]
      simp only [List.foldl_cons, List.count_cons_of_ne hquote]
      rw [show Text.quoteAfter Byte.isQuote none b = none by simp [Text.quoteAfter, hplain],
        show Text.quoteAfter Byte.isQuote (some 0x27) b = some 0x27 by simp [Text.quoteAfter, hquote]]
      exact ⟨hnone, hsome⟩

theorem span_append {p : UInt8 → Bool} {front rest : Bytes} (hfront : ∀ b ∈ front, p b = true)
    (hrest : ∀ b ∈ rest.head?, p b = false) :
    (front ++ rest).takeWhile p = front ∧ (front ++ rest).dropWhile p = rest := by
  rw [List.takeWhile_append_of_pos hfront, List.dropWhile_append_of_pos hfront]
  cases rest with
  | nil => simp
  | cons b rest => simp [hrest b rfl]

theorem isNameByte_head {name : Bytes} (hne : name ≠ []) (h : ∀ b ∈ name, isNameByte b = true)
    (rest : Bytes) : ∀ b ∈ (name ++ rest).head?, (b == 0x20) = false := by
  obtain ⟨c, name, rfl⟩ := List.exists_cons_of_ne_nil hne
  intro b hb
  obtain rfl : c = b := Option.some.inj hb
  have hc := h c List.mem_cons_self
  refine beq_eq_false_iff_ne.2 ?_
  rintro rfl
  exact absurd hc (by decide)

/-! ## Reading at a place -/

/-- Reads the directive that begins with a text, if one does. -/
def readAt? (start : Nat) : Bytes → Option Directive
  | [] => none
  | b :: rest => (opener? b rest.head?).bind (read? start · rest.tail)

variable {offset start : Nat} {line text : Bytes} {d : Directive}

theorem opener?_eq_some_iff {b : UInt8} {next : Option UInt8} {kind : Kind} :
    opener? b next = some kind ↔ ∃ c, next = some c ∧ kind.bytes = [b, c] := by
  constructor
  · intro h
    obtain ⟨c, rfl⟩ := opener?_eq_some h
    refine ⟨c, rfl, ?_⟩
    unfold opener? at h
    split at h
    · cases h
    · next hb =>
      obtain rfl : b = 0x7b := by simpa using hb
      split at h
      · next hc =>
        obtain rfl : c = 0x25 := by simpa using hc
        obtain rfl := Option.some.inj h
        rfl
      · split at h
        · next hc =>
          obtain rfl : c = 0x7b := by simpa using hc
          obtain rfl := Option.some.inj h
          rfl
        · cases h
  · rintro ⟨c, rfl, hbytes⟩
    cases kind with
    | tag =>
      obtain ⟨rfl, rfl⟩ : 0x7b = b ∧ 0x25 = c := by simpa [Kind.bytes] using hbytes
      rfl
    | «variable» =>
      obtain ⟨rfl, rfl⟩ : 0x7b = b ∧ 0x7b = c := by simpa [Kind.bytes] using hbytes
      rfl

/-- What is read at a place after an opener. -/
theorem readAt?_opener (start : Nat) (opener : Kind) (text : Bytes) :
    readAt? start (opener.bytes ++ text) = read? start opener text := by
  cases opener <;> rfl

theorem exists_of_readAt? (h : readAt? start text = some d) :
    ∃ opener rest, text = Kind.bytes opener ++ rest ∧ read? start opener rest = some d := by
  cases text with
  | nil => cases h
  | cons b rest =>
    obtain ⟨opener, hopener, hread⟩ := Option.bind_eq_some_iff.1 h
    obtain ⟨c, hnext, hbytes⟩ := opener?_eq_some_iff.1 hopener
    refine ⟨opener, rest.tail, ?_, hread⟩
    rw [hbytes, List.eq_cons_of_mem_head? hnext]
    rfl

/-- What is read behind an opener is written there. -/
theorem written_of_read? {opener : Kind} {rest : Bytes} (h : read? start opener rest = some d) :
    d.start = start ∧ ∃ spaces name blob after,
      d.Written (opener.bytes ++ rest) spaces name blob after := by
  have hspaces := List.takeWhile_append_dropWhile (p := (· == 0x20)) (l := rest)
  have hname := List.takeWhile_append_dropWhile (p := isNameByte) (l := skipSpaces rest)
  have hmaximal := List.head?_dropWhile_not isNameByte (skipSpaces rest)
  have hbytes : ∀ b ∈ (skipSpaces rest).takeWhile isNameByte, isNameByte b = true :=
    fun b hb => List.mem_takeWhile_imp hb
  obtain ⟨after, hafter, hblob⟩ := blob_eq_iff.1 (Prod.eta (Directive.blob
    (quoteOfName ((skipSpaces rest).takeWhile isNameByte))
    ((skipSpaces rest).dropWhile isNameByte))).symm
  dsimp only [read?] at h
  split at h
  · cases h
  · next hempty =>
    obtain rfl := Option.some.inj h
    refine ⟨rfl, rest.takeWhile (· == 0x20), _, _, after, ?_, ?_, ?_, ?_, hbytes, ?_, ?_, rfl, rfl,
      rfl⟩
    · dsimp only
      rw [← hafter, hname]
      exact congrArg _ hspaces.symm
    · have hlength := congrArg List.length hspaces
      simp only [List.length_append, Kind.length_bytes, Closer.length_bytes] at hlength ⊢
      unfold skipSpaces
      omega
    · intro b hb
      simpa using List.mem_takeWhile_imp hb
    · simpa using hempty
    · dsimp only
      rw [← hafter]
      intro b hb
      rw [hb] at hmaximal
      simpa using hmaximal
    · rw [quoteAfter_name hbytes]
      exact hblob

/-- What is written at the beginning of a text is read there. -/
theorem Written.readAt?_eq {spaces name blob after : Bytes}
    (h : d.Written text spaces name blob after) : readAt? d.start text = some d := by
  have hblank : ∀ b ∈ spaces, (b == 0x20) = true := fun b hb => beq_iff_eq.2 (h.spaces_eq b hb)
  obtain ⟨hspaces, hafter⟩ := span_append hblank (isNameByte_head h.name_ne_nil h.name_bytes
    (blob ++ (d.closer.bytes ++ after)))
  obtain ⟨hname, hrest⟩ := span_append h.name_bytes h.maximal
  have hblob := blob_eq_iff.2 ⟨after, rfl, h.delimited⟩
  rw [quoteAfter_name h.name_bytes] at hblob
  have hempty : name.isEmpty = false := by simpa using h.name_ne_nil
  have hstop := h.stop_eq
  rw [h.text_eq, readAt?_opener]
  dsimp only [read?]
  unfold skipSpaces
  simp only [hafter, hname, hrest, hblob, hempty]
  obtain ⟨dstart, dstop, dopener, dcloser, dname, dparams, dcontent, hlt⟩ := d
  obtain rfl : dname = _ := h.reads_name
  obtain rfl : dparams = _ := h.reads_params
  obtain rfl : dcontent = _ := h.reads_content
  simp only [List.length_append, Kind.length_bytes, Closer.length_bytes] at hstop
  have hlength : dstart + 2 + ((spaces ++ (name ++ (blob ++ (dcloser.bytes ++ after)))).length -
      (name ++ (blob ++ (dcloser.bytes ++ after))).length) + name.length + blob.length +
      dcloser.width = dstop := by
    simp only [List.length_append, Closer.length_bytes]
    omega
  rw [if_neg Bool.false_ne_true]
  simp only [hlength]

/-- **Reading**: a directive is read at the beginning of a text exactly if it is written there. -/
theorem readAt?_eq_some_iff : readAt? start text = some d ↔
    d.start = start ∧ ∃ spaces name blob after, d.Written text spaces name blob after := by
  constructor
  · intro h
    obtain ⟨opener, rest, rfl, hread⟩ := exists_of_readAt? h
    exact written_of_read? hread
  · rintro ⟨rfl, spaces, name, blob, after, h⟩
    exact h.readAt?_eq

/-- Whether a directive can begin is said by what is read. -/
theorem begins_iff (start : Nat) : Begins text ↔ ∃ d, readAt? start text = some d := by
  constructor
  · rintro ⟨opener, spaces, b, rest, hspaces, hb, rfl⟩
    rw [readAt?_opener]
    have hafter : skipSpaces (spaces ++ b :: rest) = b :: rest :=
      (span_append (fun s hs => beq_iff_eq.2 (hspaces s hs))
        (isNameByte_head (List.cons_ne_nil b []) (by simpa using hb) rest)).2
    have hname : ¬ ((skipSpaces (spaces ++ b :: rest)).takeWhile isNameByte).isEmpty = true := by
      rw [hafter, List.takeWhile_cons_of_pos hb]
      simp
    exact ⟨_, if_neg hname⟩
  · rintro ⟨d, hd⟩
    obtain ⟨-, spaces, name, blob, after, h⟩ := readAt?_eq_some_iff.1 hd
    obtain ⟨b, name, rfl⟩ := List.exists_cons_of_ne_nil h.name_ne_nil
    exact ⟨d.opener, spaces, b, _, h.spaces_eq, h.name_bytes b List.mem_cons_self, h.text_eq⟩

/-! ## Scanning -/

theorem isWritten_iff : d.IsWritten line ↔ readAt? d.start (line.drop d.start) = some d := by
  rw [readAt?_eq_some_iff]
  exact ⟨fun h => ⟨rfl, h⟩, fun h => h.2⟩

theorem IsWritten.begins (h : d.IsWritten line) : Begins (line.drop d.start) :=
  (begins_iff d.start).2 ⟨d, isWritten_iff.1 h⟩

theorem IsWritten.stop_le (h : d.IsWritten line) (hstart : d.start ≤ line.length) :
    d.stop ≤ line.length := by
  obtain ⟨spaces, name, blob, after, h⟩ := h
  have hlength := congrArg List.length h.text_eq
  have hstop := h.stop_eq
  simp only [List.length_append, List.length_drop] at hlength hstop
  omega

/-- What the first directive from an offset on is: the one written at the first place where one
could begin. -/
theorem firstFrom_spec (h : line.drop offset = text) :
    match firstFrom offset text with
    | none => ∀ i, offset ≤ i → ¬ Begins (line.drop i)
    | some d => offset ≤ d.start ∧ d.IsWritten line ∧
        ∀ i, offset ≤ i → i < d.start → ¬ Begins (line.drop i) := by
  induction text generalizing offset with
  | nil =>
    rintro i hi ⟨opener, spaces, b, rest, -, -, htext⟩
    rw [List.drop_eq_nil_of_le ((List.drop_eq_nil_iff.1 h).trans hi)] at htext
    cases opener <;> cases htext
  | cons b rest ih =>
    have hrest : line.drop (offset + 1) = rest := by
      rw [← List.drop_drop, h]
      rfl
    rw [firstFrom]
    cases hread : readAt? offset (b :: rest) with
    | some d =>
      rw [show (opener? b rest.head?).bind (read? offset · rest.tail) = some d from hread]
      obtain rfl := (readAt?_eq_some_iff.1 hread).1
      rw [← h] at hread
      exact ⟨le_rfl, isWritten_iff.2 hread, fun i hle hlt => absurd hlt (by omega)⟩
    | none =>
      rw [show (opener? b rest.head?).bind (read? offset · rest.tail) = none from hread]
      have hnot : ¬ Begins (line.drop offset) := by
        rw [h, begins_iff offset, hread]
        simp
      have hlater : ∀ i, offset ≤ i → i ≠ offset → offset + 1 ≤ i := by omega
      have ih := ih hrest
      dsimp only
      cases hfirst : firstFrom (offset + 1) rest with
      | none =>
        rw [hfirst] at ih
        intro i hi
        rcases eq_or_ne i offset with rfl | hne
        · exact hnot
        · exact ih i (hlater i hi hne)
      | some d =>
        rw [hfirst] at ih
        obtain ⟨hle, hwritten, hbefore⟩ := ih
        refine ⟨Nat.le_of_succ_le hle, hwritten, ?_⟩
        intro i hi hlt
        rcases eq_or_ne i offset with rfl | hne
        · exact hnot
        · exact hbefore i (hlater i hi hne) hlt

variable {ds : List Directive}

theorem areAll_nil (h : ∀ i, offset ≤ i → ¬ Begins (line.drop i)) :
    AreAll offset line ds ↔ ds = [] := by
  constructor
  · intro hall
    refine List.eq_nil_iff_forall_not_mem.2 fun d hd => ?_
    exact h d.start (hall.inside d hd).1 (hall.written d hd).begins
  · rintro rfl
    exact ⟨.nil, by simp, by simp, fun i hi hbegins => absurd hbegins (h i hi)⟩

/-- A list of all directives begins with the first one, and goes on with all that come after it. -/
theorem areAll_cons (hle : offset ≤ d.start) (hwritten : d.IsWritten line)
    (hfirst : ∀ i, offset ≤ i → i < d.start → ¬ Begins (line.drop i)) :
    AreAll offset line ds ↔ ∃ es, ds = d :: es ∧ AreAll d.stop line es := by
  have hlater : ∀ i, offset ≤ i → Begins (line.drop i) → d.start ≤ i := fun i hi hbegins =>
    Nat.le_of_not_lt fun hlt => hfirst i hi hlt hbegins
  have hinside : d.start < d.stop ∧ d.stop ≤ line.length := by
    refine ⟨d.start_lt_stop, hwritten.stop_le (Nat.le_of_not_lt fun hlt => ?_)⟩
    obtain ⟨opener, spaces, b, rest, -, -, htext⟩ := hwritten.begins
    rw [List.drop_eq_nil_of_le (Nat.le_of_lt hlt)] at htext
    cases opener <;> cases htext
  constructor
  · intro h
    obtain ⟨e, he, hstart, hstop⟩ := h.complete d.start hle hwritten.begins
    cases ds with
    | nil => cases he
    | cons a es =>
      obtain ⟨hbefore, hordered⟩ := List.pairwise_cons.1 h.ordered
      obtain ⟨⟨ha, hlt, -⟩, hes⟩ := List.forall_mem_cons.1 h.inside
      obtain ⟨hawritten, heswritten⟩ := List.forall_mem_cons.1 h.written
      have hastart := hlater a.start ha hawritten.begins
      -- another one than the first of the list would begin too late
      have heq : a.start = d.start := by
        rcases List.mem_cons.1 he with rfl | he
        · exact hstart.antisymm hastart
        · have := hbefore e he
          omega
      obtain rfl : a = d := by
        have hread := isWritten_iff.1 hawritten
        rw [heq, isWritten_iff.1 hwritten] at hread
        exact (Option.some.inj hread).symm
      refine ⟨es, rfl, hordered, fun b hb => ⟨hbefore b hb, (hes b hb).2⟩, heswritten, ?_⟩
      intro i hi hbegins
      obtain ⟨b, hb, hbstart, hbstop⟩ := h.complete i (by omega) hbegins
      rcases List.mem_cons.1 hb with rfl | hb
      · omega
      · exact ⟨b, hb, hbstart, hbstop⟩
  · rintro ⟨es, rfl, h⟩
    refine ⟨.cons (fun e he => (h.inside e he).1) h.ordered, ?_, ?_, ?_⟩
    · refine List.forall_mem_cons.2 ⟨⟨hle, hinside⟩, fun e he => ?_⟩
      obtain ⟨hestart, hinside⟩ := h.inside e he
      exact ⟨by omega, hinside⟩
    · exact List.forall_mem_cons.2 ⟨hwritten, h.written⟩
    · intro i hi hbegins
      by_cases hlt : i < d.stop
      · exact ⟨d, List.mem_cons_self, hlater i hi hbegins, hlt⟩
      · obtain ⟨e, he, hmem⟩ := h.complete i (by omega) hbegins
        exact ⟨e, List.mem_cons_of_mem d he, hmem⟩

theorem allFrom_eq_iff (offset : Nat) (line : Bytes) (ds : List Directive) :
    allFrom offset (line.drop offset) = ds ↔ AreAll offset line ds := by
  have hspec := firstFrom_spec (rfl : line.drop offset = line.drop offset)
  rw [allFrom]
  split
  · next hfirst =>
    rw [hfirst] at hspec
    rw [areAll_nil hspec]
    exact eq_comm
  · next d hfirst =>
    rw [hfirst] at hspec
    obtain ⟨hle, hwritten, hbefore⟩ := hspec
    have := length_sub_stop_lt hfirst
    have hlt := d.start_lt_stop
    rw [areAll_cons hle hwritten hbefore, List.drop_drop,
      show offset + (d.stop - offset) = d.stop by omega]
    constructor
    · rintro rfl
      exact ⟨_, rfl, (allFrom_eq_iff d.stop line _).1 rfl⟩
    · rintro ⟨es, rfl, hes⟩
      rw [(allFrom_eq_iff d.stop line es).2 hes]
termination_by line.length - offset
decreasing_by
  all_goals
    rw [List.length_drop] at this
    omega

/-- **The grammar of a line**: scanning a line finds the directives that are written in it, in
order, where each goes on to its first end, and none could begin anywhere else. -/
theorem all_eq_iff (line : Bytes) (ds : List Directive) : all line = ds ↔ AreAll 0 line ds :=
  allFrom_eq_iff 0 line ds

end Directive

end TemplateCompiler.Markup
