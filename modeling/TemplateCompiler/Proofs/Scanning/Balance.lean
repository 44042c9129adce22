import TemplateCompiler.Proofs.Parameters.Splitting
import TemplateCompiler.Proofs.Scanning.Grammar
import TemplateCompiler.Proofs.Text.Decoded

/-!
# Quotes in directives

Quotes are counted by three: by the scanner in the octets of a directive, from its name on, and in
the decoded and trimmed text by the lexers of parameters and of filters. They agree on a directive
that has its closer (`Directive.balanced_of_mem_all`), but for one thing: an apostrophe in the name
of a tag counts for the scanner, and the parameters of the tag do not have it.
-/
namespace TemplateCompiler

/-! ## Trimmed bytes -/

namespace Bytes

theorem exists_trimEnd (bytes : Bytes) :
    ∃ back, bytes = trimEnd bytes ++ back ∧ ∀ b ∈ back, Byte.isBlank b = true := by
  have hsplit := congrArg List.reverse
    (List.takeWhile_append_dropWhile (p := Byte.isBlank) (l := bytes.reverse))
  rw [List.reverse_append, List.reverse_reverse] at hsplit
  exact ⟨_, hsplit.symm, fun b hb => List.mem_takeWhile_imp (List.mem_reverse.1 hb)⟩

end Bytes

namespace Markup.Directive

variable {line name blob after : Bytes} {d : Directive}

/-! ## What directives hand on -/

/-- What a directive hands to the lexers of parameters and of filters: its parameters and each one of
them, or its content. -/
def handed (d : Directive) : List (List Char) :=
  match d.kind with
  | .tag => d.params.toList ::
      ((Lexeme.lex d.params.toList).filterMap Lexeme.parameter?).map String.toList
  | .variable => [d.content.toList]

/-- A directive hands on a text in which a quote is left open. -/
def HandsOpenQuote (d : Directive) : Prop :=
  ∃ text ∈ d.handed, Text.quoteOpen none text ≠ none

/-- In the content of a directive each quote is closed and each closer is quoted, and no value of its
parameters runs away if there is no apostrophe in its name. -/
structure IsBalanced (d : Directive) : Prop where
  closed : Text.quoteOpen none d.content.toList = none
  tag_closer : ∀ front back, d.content.toList = front ++ '%' :: '}' :: back →
    Text.quoteOpen none front ≠ none
  variable_closer : ∀ front back, d.content.toList = front ++ '}' :: '}' :: back →
    Text.quoteOpen none front ≠ none
  params : d.kind = .tag → '\'' ∉ d.name.toList →
    ∀ value ∈ Lexeme.valuesRead d.params.toList, ¬ RunsAway value

/-! ## Quotes in bytes and in text -/

theorem quoteAfter_append (quote : Option UInt8) (read more : Bytes) :
    quoteAfter quote (read ++ more) = quoteAfter (quoteAfter quote read) more :=
  List.foldl_append

theorem isQuote_of_mem_quoteAfter {quote : Option UInt8}
    (hquote : ∀ q ∈ quote, Byte.isQuote q = true) (read : Bytes) :
    ∀ q ∈ quoteAfter quote read, Byte.isQuote q = true := by
  induction read generalizing quote with
  | nil => exact hquote
  | cons b read ih => exact ih (Utf8.isQuote_of_mem_quoteAfter hquote)

theorem isQuote_of_mem_none : ∀ q ∈ (none : Option UInt8), Byte.isQuote q = true :=
  fun _ hq => nomatch hq

theorem quoteAfter_blanks {blanks : Bytes} {quote : Option UInt8}
    (hquote : ∀ q ∈ quote, Byte.isQuote q = true) (h : ∀ b ∈ blanks, Byte.isBlank b = true) :
    quoteAfter quote blanks = quote := by
  refine Text.foldl_quoteAfter_plain hquote fun b hb => ?_
  have hblank := h b hb
  simp only [Byte.isBlank, Bool.or_eq_true, beq_iff_eq] at hblank
  rcases hblank with (((rfl | rfl) | rfl) | rfl) | rfl <;> rfl

theorem quoteAfter_trimEnd (bytes : Bytes) :
    quoteAfter none (Bytes.trimEnd bytes) = quoteAfter none bytes := by
  obtain ⟨back, hbytes, hback⟩ := Bytes.exists_trimEnd bytes
  have hopen := isQuote_of_mem_quoteAfter isQuote_of_mem_none (Bytes.trimEnd bytes)
  conv => rhs; rw [hbytes]
  rw [quoteAfter_append, quoteAfter_blanks hopen hback]

theorem quoteAfter_trim (bytes : Bytes) :
    quoteAfter none (Bytes.trim bytes) = quoteAfter none bytes := by
  rw [Bytes.trim, quoteAfter_trimEnd]
  have hsplit := List.takeWhile_append_dropWhile (p := Byte.isBlank) (l := bytes)
  conv => rhs; rw [← hsplit]
  rw [quoteAfter_append, quoteAfter_blanks isQuote_of_mem_none fun _ => List.mem_takeWhile_imp]

theorem quoteOpen_decodeFrom (bytes : Bytes) :
    Text.quoteOpen none (Utf8.decodeFrom none bytes) = (quoteAfter none bytes).map Utf8.ascii := by
  show Text.quoteOpen ((none : Option UInt8).map Utf8.ascii) (Utf8.decodeFrom none bytes) = _
  exact Utf8.quoteOpen_decodeFrom Utf8.isWide_none isQuote_of_mem_none

/-! ## Names -/

theorem lt_of_isNameByte {b : UInt8} (h : isNameByte b = true) : b.toNat < 128 := by
  simp only [isNameByte, Byte.isLetter, Byte.isDigit, Bool.or_eq_true, Bool.and_eq_true,
    decide_eq_true_eq, beq_iff_eq, UInt8.le_iff_toNat_le] at h
  rcases h with (((((⟨-, h⟩ | ⟨-, h⟩) | ⟨-, h⟩) | rfl) | rfl) | rfl) | rfl
  · exact Nat.lt_of_le_of_lt h (by decide)
  · exact Nat.lt_of_le_of_lt h (by decide)
  · exact Nat.lt_of_le_of_lt h (by decide)
  all_goals decide

/-- The apostrophes of a name are those of its bytes. -/
theorem count_decode_name (h : ∀ b ∈ name, isNameByte b = true) :
    (Utf8.decode name).toList.count '\'' = name.count 0x27 := by
  rw [Utf8.decode, String.toList_ofList]
  induction name with
  | nil => rfl
  | cons b name ih =>
    obtain ⟨hb, hname⟩ := List.forall_mem_cons.1 h
    have hlt := lt_of_isNameByte hb
    have hsame : Utf8.ascii b = '\'' ↔ b = 0x27 := Utf8.ascii_inj hlt (b := 0x27) (by decide)
    have hstep : Utf8.decodeFrom none (b :: name) = Utf8.ascii b :: Utf8.decodeFrom none name :=
      Utf8.decodeFrom_cons_ascii Utf8.isWide_none hlt name
    rw [hstep, List.count_cons, List.count_cons, ih hname]
    simp only [beq_iff_eq, hsame]

/-! ## Parts of a directive -/

variable {text spaces : Bytes}

theorem Written.quoteOpen_content (h : d.Written text spaces name blob after) :
    Text.quoteOpen none d.content.toList = (quoteAfter none (name ++ blob)).map Utf8.ascii := by
  rw [h.reads_content, Utf8.decode, String.toList_ofList, quoteOpen_decodeFrom, quoteAfter_trimEnd]

theorem Written.quoteOpen_params (h : d.Written text spaces name blob after) :
    Text.quoteOpen none d.params.toList = (quoteAfter none blob).map Utf8.ascii := by
  rw [h.reads_params, Utf8.decode, String.toList_ofList, quoteOpen_decodeFrom, quoteAfter_trim]

/-- A closer stands outside quotes. -/
theorem Written.quoteAfter_of_isTerminated (h : d.Written text spaces name blob after)
    (hterminated : d.isTerminated = true) : quoteAfter none (name ++ blob) = none := by
  have hends := h.delimited.ends
  rw [quoteAfter_append]
  cases hcloser : d.closer with
  | lineEnd =>
    rw [isTerminated, hcloser] at hterminated
    cases hterminated
  | tag =>
    rw [hcloser] at hends
    exact hends.1
  | «variable» =>
    rw [hcloser] at hends
    exact hends.1

/-- A name with no apostrophe too many opens no quote for what follows it. -/
theorem Written.quoteAfter_blob (h : d.Written text spaces name blob after)
    (hterminated : d.isTerminated = true) (heven : d.name.toList.count '\'' % 2 ≠ 1) :
    quoteAfter none blob = none := by
  rw [h.reads_name, count_decode_name h.name_bytes] at heven
  have hname : quoteAfter none name = none := by
    rw [quoteAfter_name h.name_bytes, quoteOfName, if_neg heven]
  have hall := h.quoteAfter_of_isTerminated hterminated
  rwa [quoteAfter_append, hname] at hall

/-- **A closer in the content is quoted**, since the directive would have ended there. -/
theorem Written.quoteOpen_ne (h : d.Written text spaces name blob after) (closer : Closer) {b : UInt8}
    (hcloser : closer.bytes = [b, 0x7d]) (hend : closer ≠ .lineEnd) (hb : isNameByte b = false)
    (hlt : 0 < b.toNat ∧ b.toNat < 128) {front back : List Char}
    (hcontent : d.content.toList = front ++ Utf8.ascii b :: '}' :: back) :
    Text.quoteOpen none front ≠ none := by
  obtain ⟨blanks, hbytes, -⟩ := Bytes.exists_trimEnd (name ++ blob)
  rw [h.reads_content, Utf8.decode, String.toList_ofList] at hcontent
  obtain ⟨before, rest, htrim, rfl, hrest⟩ :=
    (Utf8.decodeFrom_eq_append_cons Utf8.isWide_none hlt).1 hcontent
  obtain ⟨rest, rfl, -⟩ := (Utf8.decodeFrom_eq_cons (b := 0x7d) (by decide)).1 hrest
  rw [htrim, List.append_assoc] at hbytes
  -- the closer begins after the name, which has no such byte
  have hnot : b ∉ name := fun hmem => by
    rw [h.name_bytes b hmem] at hb
    cases hb
  obtain ⟨read, rfl, hblob⟩ := Utf8.eq_append_of_append_eq hnot hbytes
  have hfirst := h.delimited.first read _ hblob (List.cons_ne_nil _ _) closer
  rw [quoteOpen_decodeFrom, quoteAfter_append]
  intro hnone
  refine hfirst ?_
  have hopen := Option.map_eq_none_iff.1 hnone
  cases closer with
  | lineEnd => exact absurd rfl hend
  | tag => exact ⟨hopen, hcloser ▸ ⟨_, rfl⟩⟩
  | «variable» => exact ⟨hopen, hcloser ▸ ⟨_, rfl⟩⟩

/-! ## Directives of a line -/

/-- **The scanner and the lexers agree on quotes.** A directive that has its closer is balanced, and
one that hands on an open quote has no closer, or it is a tag with an odd number of apostrophes in
its name. -/
theorem balanced_of_mem_all (h : d ∈ all line) : (d.isTerminated = true → d.IsBalanced) ∧
    (d.HandsOpenQuote → d.isTerminated = false ∨
      d.kind = .tag ∧ d.name.toList.count '\'' % 2 = 1) := by
  obtain ⟨spaces, name, blob, after, hwritten⟩ := ((all_eq_iff line _).1 rfl).written d h
  have hclosed (hterminated : d.isTerminated = true) : Text.quoteOpen none d.content.toList = none := by
    rw [hwritten.quoteOpen_content, hwritten.quoteAfter_of_isTerminated hterminated]
    rfl
  have hparams (hterminated : d.isTerminated = true) (heven : d.name.toList.count '\'' % 2 ≠ 1) :
      Text.quoteOpen none d.params.toList = none := by
    rw [hwritten.quoteOpen_params, hwritten.quoteAfter_blob hterminated heven]
    rfl
  constructor
  · intro hterminated
    refine ⟨hclosed hterminated, fun front back hcontent => ?_, fun front back hcontent => ?_, ?_⟩
    · exact hwritten.quoteOpen_ne .tag (b := 0x25) rfl (by decide) (by decide) (by decide)
        hcontent
    · exact hwritten.quoteOpen_ne .variable (b := 0x7d) rfl (by decide) (by decide)
        (by decide) hcontent
    · intro _ hname
      refine (Lexeme.quoteOpen_iff _).1 (hparams hterminated ?_)
      rw [List.count_eq_zero.2 hname]
      decide
  · rintro ⟨text, htext, hopen⟩
    by_contra hother
    obtain ⟨hterminated, heven⟩ := not_or.1 hother
    rw [Bool.not_eq_false] at hterminated
    cases hkind : d.kind with
    | «variable» =>
      rw [handed, hkind] at htext
      obtain rfl := List.mem_singleton.1 htext
      exact hopen (hclosed hterminated)
    | tag =>
      have hparams := hparams hterminated fun hodd => heven ⟨hkind, hodd⟩
      rw [handed, hkind] at htext
      rcases List.mem_cons.1 htext with rfl | htext
      · exact hopen hparams
      · obtain ⟨raw, hraw, rfl⟩ := List.mem_map.1 htext
        exact hopen (quoteOpen_of_mem_lex hparams hraw)

theorem balanced_of_mem_all_emphasis :
    ∃ d ∈ all (Utf8.encode "<b>\x7b% em 'a %\x7d b'|default:\"it's\" %\x7d</b>"),
      d.isTerminated = true ∧ d.IsBalanced := by
  have hone : ∃ d ∈ all (Utf8.encode "<b>\x7b% em 'a %\x7d b'|default:\"it's\" %\x7d</b>"),
      d.isTerminated = true := by decide +kernel
  obtain ⟨d, hd, hterminated⟩ := hone
  exact ⟨d, hd, hterminated, (balanced_of_mem_all hd).1 hterminated⟩

/-- An apostrophe in the name of a tag is closed by one in its parameters, which opens a quote for
their lexer. -/
theorem handsOpenQuote_of_apostrophe : ¬ ∀ line, ∀ d ∈ all line, d.HandsOpenQuote →
    d.isTerminated = false := by
  have hone : ∃ d ∈ all (Utf8.encode "\x7b% 'a b' %\x7d"), d.isTerminated = true ∧ d.kind = .tag ∧
      Text.quoteOpen none d.params.toList ≠ none := by decide +kernel
  obtain ⟨d, hd, hterminated, hkind, hopen⟩ := hone
  intro hall
  have hhands : d.HandsOpenQuote := by
    refine ⟨d.params.toList, ?_, hopen⟩
    rw [handed, hkind]
    exact List.mem_cons_self
  rw [hall _ d hd hhands] at hterminated
  cases hterminated

end Markup.Directive

end TemplateCompiler
