import TemplateCompiler.Proofs.Text.Quoting

/-!
# Cutting at a delimiter

A text is cut at exactly those places where the delimiter stands outside quotes, with nothing lost
between the pieces, and the search finds the first of these places (`splitUnquoted_exact`). What
stands outside quotes is told by an automaton of four rules (`QuoteStep`), and what splitting does is
said once, by the shape of its pieces (`Pieces`).
-/
namespace TemplateCompiler.Text

/-! ## The quote automaton -/

/-- One character changes which quote is open: a quote opens when none is open, and only the same
quote closes it. -/
inductive QuoteStep : Option Char → Char → Option Char → Prop
  | opens {quote : Char} (h : quote = '\'' ∨ quote = '"') : QuoteStep none quote (some quote)
  | outside {c : Char} (h : ¬ (c = '\'' ∨ c = '"')) : QuoteStep none c none
  | closes {quote : Char} : QuoteStep (some quote) quote none
  | inside {quote c : Char} (h : c ≠ quote) : QuoteStep (some quote) c (some quote)

/-- The automaton reads a text, from the quote that is open before it to the one that is open after
it. -/
inductive QuoteRun : Option Char → List Char → Option Char → Prop
  | nil {current : Option Char} : QuoteRun current [] current
  | cons {current next last : Option Char} {c : Char} {text : List Char}
    (hstep : QuoteStep current c next) (hrun : QuoteRun next text last) :
    QuoteRun current (c :: text) last

/-- The delimiter stands behind `n` characters, and no quote is open before it. -/
def IsUnquoted (delimiter : Char) (current : Option Char) (text : List Char) (n : Nat) : Prop :=
  text[n]? = some delimiter ∧ QuoteRun current (text.take n) none

/-- Where a text was cut into these pieces: one character was dropped between each two of them. -/
def cuts : List (List Char) → List Nat
  | [] => []
  | [_] => []
  | piece :: next :: more => piece.length :: (cuts (next :: more)).map (piece.length + 1 + ·)

/-- Splitting and searching do what they should: the pieces joined are the text, the cuts are the
places of the delimiter outside quotes, in order, every piece but the last closes its quotes, a
delimiter that is left in a piece is quoted, and the search finds the first cut. -/
structure SplitsExactly (delimiter : Char) (text : List Char) : Prop where
  joins : [delimiter].intercalate (splitUnquoted delimiter text) = text
  cuts_iff : ∀ n, n ∈ cuts (splitUnquoted delimiter text) ↔ IsUnquoted delimiter none text n
  ascending : (cuts (splitUnquoted delimiter text)).Pairwise (· < ·)
  balanced : ∀ piece ∈ (splitUnquoted delimiter text).dropLast, QuoteRun none piece none
  quoted : ∀ piece ∈ splitUnquoted delimiter text, ∀ n, piece[n]? = some delimiter →
    ∃ quote, QuoteRun none (piece.take n) (some quote)
  found : ∀ n, findUnquoted? delimiter text = some n ↔
    IsUnquoted delimiter none text n ∧ ∀ m < n, ¬ IsUnquoted delimiter none text m
  missing : findUnquoted? delimiter text = none ↔ ∀ n, ¬ IsUnquoted delimiter none text n

variable {delimiter c : Char} {current next last : Option Char} {text rest piece : List Char}
  {pieces more : List (List Char)} {n : Nat}

theorem isQuote_iff : isQuote c = true ↔ c = '\'' ∨ c = '"' := by
  rw [isQuote, Bool.or_eq_true, beq_iff_eq, beq_iff_eq]

theorem isQuote_eq_false_iff : isQuote c = false ↔ ¬ (c = '\'' ∨ c = '"') := by
  rw [← isQuote_iff, Bool.not_eq_true]

theorem quoteStep_quoteAfter (current : Option Char) (c : Char) :
    QuoteStep current c (quoteAfter isQuote current c) := by
  cases current with
  | none =>
    cases hc : isQuote c with
    | true =>
      rw [quoteAfter_of_isQuote hc]
      exact .opens (isQuote_iff.1 hc)
    | false =>
      rw [quoteAfter_none hc]
      exact .outside (isQuote_eq_false_iff.1 hc)
  | some quote =>
    by_cases hc : c = quote
    · rw [hc, quoteAfter_self]
      exact .closes
    · rw [quoteAfter_ne hc]
      exact .inside hc

theorem QuoteStep.quoteAfter_eq (h : QuoteStep current c next) :
    quoteAfter isQuote current c = next := by
  cases h with
  | opens hquote => exact quoteAfter_of_isQuote (isQuote_iff.2 hquote)
  | outside hplain => exact quoteAfter_none (isQuote_eq_false_iff.2 hplain)
  | closes => exact quoteAfter_self
  | inside hne => exact quoteAfter_ne hne

theorem quoteRun_iff : QuoteRun current text last ↔ quoteOpen current text = last := by
  constructor
  · intro h
    induction h with
    | nil => rfl
    | cons hstep _ ih => rw [quoteOpen_cons, hstep.quoteAfter_eq, ih]
  · rintro rfl
    induction text generalizing current with
    | nil => exact .nil
    | cons c text ih => exact .cons (quoteStep_quoteAfter _ _) ih

/-! ## Delimiters outside quotes -/

theorem isUnquoted_zero :
    IsUnquoted delimiter current (c :: text) 0 ↔ c = delimiter ∧ current = none := by
  rw [IsUnquoted, quoteRun_iff, List.getElem?_cons_zero, Option.some_inj]
  rfl

theorem isUnquoted_succ : IsUnquoted delimiter current (c :: text) (n + 1) ↔
    IsUnquoted delimiter (quoteAfter isQuote current c) text n := by
  rw [IsUnquoted, IsUnquoted, quoteRun_iff, quoteRun_iff, List.getElem?_cons_succ,
    List.take_succ_cons, quoteOpen_cons]

theorem not_isUnquoted_nil : ¬ IsUnquoted delimiter current [] n :=
  fun h => nomatch h.1

/-- Behind a piece the places count on from its end. -/
theorem isUnquoted_append : IsUnquoted delimiter current (piece ++ rest) n ↔
    IsUnquoted delimiter current piece n ∨
      ∃ m, n = piece.length + m ∧ IsUnquoted delimiter (quoteOpen current piece) rest m := by
  induction piece generalizing current n with
  | nil =>
    constructor
    · exact fun h => .inr ⟨n, (Nat.zero_add n).symm, h⟩
    · rintro (h | ⟨m, rfl, h⟩)
      · exact absurd h not_isUnquoted_nil
      · rwa [List.length_nil, Nat.zero_add]
  | cons c piece ih =>
    cases n with
    | zero =>
      rw [List.cons_append, isUnquoted_zero, isUnquoted_zero, List.length_cons]
      refine (or_iff_left ?_).symm
      rintro ⟨m, hm, -⟩
      omega
    | succ n =>
      rw [List.cons_append, isUnquoted_succ, isUnquoted_succ, ih, quoteOpen_cons]
      refine or_congr_right (exists_congr fun m => and_congr_left fun _ => ?_)
      rw [List.length_cons]
      omega

/-! ## Cuts -/

theorem cuts_cons (h : more ≠ []) :
    cuts (piece :: more) = piece.length :: (cuts more).map (piece.length + 1 + ·) := by
  cases more with
  | nil => exact absurd rfl h
  | cons next more => rfl

theorem cuts_consFirst (c : Char) (pieces : List (List Char)) :
    cuts (consFirst c pieces) = (cuts pieces).map (· + 1) := by
  cases pieces with
  | nil => rfl
  | cons piece more =>
    cases more with
    | nil => rfl
    | cons next more =>
      rw [consFirst, cuts, cuts, List.map_cons, List.map_map]
      refine congrArg _ (List.map_congr_left fun n _ => ?_)
      simp only [Function.comp_apply, List.length_cons]
      omega

theorem pairwise_cuts (pieces : List (List Char)) : (cuts pieces).Pairwise (· < ·) := by
  induction pieces with
  | nil => exact .nil
  | cons piece more ih =>
    by_cases hmore : more = []
    · subst hmore
      exact .nil
    · rw [cuts_cons hmore, List.pairwise_cons, List.forall_mem_map]
      exact ⟨fun n _ => by omega, ih.map _ fun m n hlt => Nat.add_lt_add_left hlt _⟩

/-! ## Pieces -/

/-- What a text is cut into: in no piece does the delimiter stand outside quotes, and at each cut no
quote is open. -/
inductive Pieces (delimiter : Char) : Option Char → List Char → List (List Char) → Prop
  | last {current : Option Char} {piece : List Char}
    (hpiece : ∀ n, ¬ IsUnquoted delimiter current piece n) : Pieces delimiter current piece [piece]
  | cut {current : Option Char} {piece rest : List Char} {more : List (List Char)}
    (hpiece : ∀ n, ¬ IsUnquoted delimiter current piece n) (hopen : QuoteRun current piece none)
    (hmore : Pieces delimiter none rest more) :
    Pieces delimiter current (piece ++ delimiter :: rest) (piece :: more)

/-- A character that is not cut at goes to the first piece. -/
theorem Pieces.cons (hc : ¬ (c = delimiter ∧ current = none))
    (h : Pieces delimiter (quoteAfter isQuote current c) text pieces) :
    Pieces delimiter current (c :: text) (consFirst c pieces) := by
  have hpiece {piece : List Char}
      (hrest : ∀ n, ¬ IsUnquoted delimiter (quoteAfter isQuote current c) piece n) :
      ∀ n, ¬ IsUnquoted delimiter current (c :: piece) n
    | 0 => fun hzero => hc (isUnquoted_zero.1 hzero)
    | n + 1 => fun hsucc => hrest n (isUnquoted_succ.1 hsucc)
  cases h with
  | last hrest => exact .last (hpiece hrest)
  | cut hrest hopen hmore =>
    exact .cut (hpiece hrest) (.cons (quoteStep_quoteAfter _ _) hopen) hmore

/-- **Splitting** gives such pieces. -/
theorem pieces_splitUnquotedFrom (hdelimiter : isQuote delimiter = false) (current : Option Char)
    (text : List Char) : Pieces delimiter current text (splitUnquotedFrom delimiter current text) := by
  induction text generalizing current with
  | nil => exact .last fun _ => not_isUnquoted_nil
  | cons c text ih =>
    rw [splitUnquotedFrom]
    split
    · next hcut =>
      simp only [Bool.and_eq_true, Option.isNone_iff_eq_none, beq_iff_eq] at hcut
      obtain ⟨⟨rfl, -⟩, rfl⟩ := hcut
      exact .cut (fun _ => not_isUnquoted_nil) .nil (ih none)
    · next hkeep =>
      refine (ih _).cons ?_
      rintro ⟨rfl, rfl⟩
      exact hkeep (by simp [hdelimiter])

namespace Pieces

theorem ne_nil (h : Pieces delimiter current text pieces) : pieces ≠ [] := by
  cases h <;> exact List.cons_ne_nil _ _

theorem intercalate_eq (h : Pieces delimiter current text pieces) :
    [delimiter].intercalate pieces = text := by
  induction h with
  | last => exact List.intercalate_singleton
  | cut _ _ hmore ih =>
    rw [List.intercalate_cons_of_ne_nil hmore.ne_nil, ih, List.append_assoc]
    rfl

/-- **The cuts** of the pieces are the places of the delimiter outside quotes. -/
theorem mem_cuts_iff (hdelimiter : isQuote delimiter = false)
    (h : Pieces delimiter current text pieces) :
    n ∈ cuts pieces ↔ IsUnquoted delimiter current text n := by
  induction h generalizing n with
  | last hpiece => exact iff_of_false List.not_mem_nil (hpiece n)
  | @cut current piece rest more hpiece hopen hmore ih =>
    have hbehind (m : Nat) : IsUnquoted delimiter none (delimiter :: rest) (m + 1) ↔ m ∈ cuts more := by
      rw [isUnquoted_succ, quoteAfter_none hdelimiter, ih]
    rw [cuts_cons hmore.ne_nil, isUnquoted_append, or_iff_right (hpiece n), quoteRun_iff.1 hopen,
      List.mem_cons, List.mem_map]
    constructor
    · rintro (rfl | ⟨m, hm, rfl⟩)
      · exact ⟨0, rfl, isUnquoted_zero.2 ⟨rfl, rfl⟩⟩
      · exact ⟨m + 1, by omega, (hbehind m).2 hm⟩
    · rintro ⟨m, rfl, hm⟩
      cases m with
      | zero => exact .inl rfl
      | succ m => exact .inr ⟨m, (hbehind m).1 hm, by omega⟩

/-- Each piece begins outside quotes, and only the last may leave one open. -/
theorem outside (h : Pieces delimiter none text pieces) :
    (∀ piece ∈ pieces.dropLast, QuoteRun none piece none) ∧
      ∀ piece ∈ pieces, ∀ n, ¬ IsUnquoted delimiter none piece n := by
  generalize hcurrent : (none : Option Char) = current at h
  induction h with
  | last hpiece =>
    subst hcurrent
    exact ⟨nofun, List.forall_mem_singleton.2 hpiece⟩
  | cut hpiece hopen hmore ih =>
    subst hcurrent
    obtain ⟨hbalanced, hquoted⟩ := ih rfl
    rw [List.dropLast_cons_of_ne_nil hmore.ne_nil]
    exact ⟨List.forall_mem_cons.2 ⟨hopen, hbalanced⟩, List.forall_mem_cons.2 ⟨hpiece, hquoted⟩⟩

end Pieces

/-! ## Searching -/

/-- **The search** finds the first cut. -/
theorem findUnquotedFrom_eq (delimiter : Char) (current : Option Char) (text : List Char) :
    findUnquotedFrom delimiter current text =
      (cuts (splitUnquotedFrom delimiter current text)).head? := by
  induction text generalizing current with
  | nil => rfl
  | cons c text ih =>
    rw [findUnquotedFrom, splitUnquotedFrom]
    split
    · rw [cuts_cons (splitUnquotedFrom_ne_nil _ _ _)]
      rfl
    · rw [ih, cuts_consFirst, List.head?_map]

/-- The first of the places at which something holds, in a list of them all in order. -/
theorem head?_eq_some_iff_of_ascending {places : List Nat} {holds : Nat → Prop}
    (hmem : ∀ n, n ∈ places ↔ holds n) (hplaces : places.Pairwise (· < ·)) :
    places.head? = some n ↔ holds n ∧ ∀ m < n, ¬ holds m := by
  cases places with
  | nil => exact ⟨nofun, fun h => nomatch (hmem n).2 h.1⟩
  | cons first places =>
    obtain ⟨hfirst, -⟩ := List.pairwise_cons.1 hplaces
    rw [List.head?_cons, Option.some_inj]
    constructor
    · rintro rfl
      refine ⟨(hmem _).1 List.mem_cons_self, fun m hlt hm => ?_⟩
      rcases List.mem_cons.1 ((hmem m).2 hm) with rfl | hlater
      · exact Nat.lt_irrefl _ hlt
      · exact Nat.lt_asymm hlt (hfirst m hlater)
    · rintro ⟨hn, hleast⟩
      rcases List.mem_cons.1 ((hmem n).2 hn) with rfl | hlater
      · rfl
      · exact absurd ((hmem first).1 List.mem_cons_self) (hleast first (hfirst n hlater))

/-- **Splitting at a delimiter is exact**, and so is the search for one. -/
theorem splitUnquoted_exact (h : ¬ (delimiter = '\'' ∨ delimiter = '"')) (text : List Char) :
    SplitsExactly delimiter text := by
  have hdelimiter : isQuote delimiter = false := isQuote_eq_false_iff.2 h
  have hpieces : Pieces delimiter none text (splitUnquoted delimiter text) :=
    pieces_splitUnquotedFrom hdelimiter none text
  have hmem (n : Nat) := hpieces.mem_cuts_iff (n := n) hdelimiter
  have hascending := pairwise_cuts (splitUnquoted delimiter text)
  have hfind : findUnquoted? delimiter text = (cuts (splitUnquoted delimiter text)).head? :=
    findUnquotedFrom_eq delimiter none text
  obtain ⟨hbalanced, houtside⟩ := hpieces.outside
  refine ⟨hpieces.intercalate_eq, hmem, hascending, hbalanced, fun piece hpiece n hn => ?_,
    fun n => ?_, ?_⟩
  · cases hopen : quoteOpen none (piece.take n) with
    | none => exact absurd ⟨hn, quoteRun_iff.2 hopen⟩ (houtside piece hpiece n)
    | some quote => exact ⟨quote, quoteRun_iff.2 hopen⟩
  · rw [hfind]
    exact head?_eq_some_iff_of_ascending hmem hascending
  · rw [hfind, List.head?_eq_none_iff, List.eq_nil_iff_forall_not_mem]
    exact forall_congr' fun n => not_congr (hmem n)

/-- Quotes of the one kind do not close those of the other, and one that is left open hides what
follows. -/
theorem splitUnquoted_exact_mixed : ¬ ('|' = '\'' ∨ '|' = '"') ∧
    splitUnquoted '|' "a|\"it's|x\"|'b|".toList = ["a".toList, "\"it's|x\"".toList, "'b|".toList] ∧
    SplitsExactly '|' "a|\"it's|x\"|'b|".toList :=
  ⟨by decide, by decide, splitUnquoted_exact (by decide) _⟩

end TemplateCompiler.Text
