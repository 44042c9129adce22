import Mathlib.Data.List.Infix
import Mathlib.Data.List.TakeWhile
import TemplateCompiler.Proofs.Parameters.Reading
import TemplateCompiler.Proofs.Value.Literal

/-!
# Quotes in tag parameters

Tag parameters are cut into tokens, and a token into a value and its filters. A quote that closes in
a token is followed by a filter or by nothing (`Lexeme.closesAt_of_mem_lex`), so whatever begins
with a quote in the end does not have that quote inside (`Markup.not_mem_of_mem_texts`).
-/
namespace TemplateCompiler

/-! ## Where quotes close -/

namespace Text

variable {ends : List Char → Prop} {current : Option Char} {quote : Char}
  {text rest body : List Char}

/-- What follows each quote that closes satisfies `ends`, `current` being the quote open now. -/
def ClosesAt (ends : List Char → Prop) : Option Char → List Char → Prop
  | _, [] => True
  | current, c :: rest =>
    (current.isSome = true → quoteAfter isQuote current c = none → ends rest) ∧
      ClosesAt ends (quoteAfter isQuote current c) rest

/-- Text without quotes closes none. -/
theorem closesAt_plain (h : ∀ c ∈ text, isQuote c = false) :
    ClosesAt ends none (text ++ rest) ↔ ClosesAt ends none rest := by
  induction text with
  | nil => rfl
  | cons c text ih =>
    rw [List.cons_append, ClosesAt, quoteAfter_none (h c List.mem_cons_self),
      ih fun d hd => h d (List.mem_cons_of_mem _ hd)]
    simp

/-- Quoted text closes where its quote stands next. -/
theorem closesAt_quoted (h : quote ∉ body) :
    ClosesAt ends (some quote) (body ++ quote :: rest) ↔ ends rest ∧ ClosesAt ends none rest := by
  induction body with
  | nil =>
    rw [List.nil_append, ClosesAt, quoteAfter_self]
    simp
  | cons c body ih =>
    have hne : c ≠ quote := fun heq => h (heq ▸ List.mem_cons_self)
    rw [List.cons_append, ClosesAt, quoteAfter_ne hne,
      ih fun hmem => h (List.mem_cons_of_mem _ hmem)]
    simp

/-- Text in which the open quote does not stand closes nothing. -/
theorem closesAt_open (h : quote ∉ text) : ClosesAt ends (some quote) text := by
  induction text with
  | nil => trivial
  | cons c text ih =>
    have hne : c ≠ quote := fun heq => h (heq ▸ List.mem_cons_self)
    rw [ClosesAt, quoteAfter_ne hne]
    exact ⟨fun _ hnone => (nomatch hnone), ih fun hmem => h (List.mem_cons_of_mem _ hmem)⟩

/-- At the beginning of a text, and of what is left of it, quotes close at the end only. -/
theorem ClosesAt.take (h : ClosesAt (· = []) current (text ++ rest)) :
    ClosesAt (· = []) current text := by
  induction text generalizing current with
  | nil => trivial
  | cons c text ih =>
    obtain ⟨hends, hrest⟩ := h
    exact ⟨fun hsome hnone => (List.append_eq_nil_iff.1 (hends hsome hnone)).1, ih hrest⟩

/-- Trimming leaves quotes closing at the end only. -/
theorem ClosesAt.trim (h : ClosesAt (· = []) none text) :
    ClosesAt (· = []) none (Text.trim text) := by
  obtain ⟨-, front, back, htext, hfront, -⟩ := exists_trim text
  rw [htext] at h
  exact ((closesAt_plain fun c hc => isQuote_of_isBlank (hfront c hc)).1 h).take

/-- What begins with a quote does not have it inside, if quotes close at the end only. -/
theorem ClosesAt.not_mem (h : ClosesAt (· = []) none (quote :: text)) (hquote : isQuote quote = true) :
    quote ∉ text.dropLast := by
  intro hmem
  obtain ⟨body, after, hsplit, hnot⟩ := List.eq_append_cons_of_mem (List.mem_of_mem_dropLast hmem)
  obtain ⟨-, hrest⟩ := h
  rw [quoteAfter_of_isQuote hquote, hsplit] at hrest
  obtain rfl := ((closesAt_quoted hnot).1 hrest).1
  rw [hsplit, List.dropLast_concat] at hmem
  exact hnot hmem

end Text

/-! ## Splitting -/

namespace Text

variable {ends : List Char → Prop} {current : Option Char} {delimiter : Char} {text : List Char}

/-- A text in which quotes close before the delimiter or at the end is split into pieces in which
they close at the end. -/
theorem closesAt_splitUnquotedFrom (hdelimiter : isQuote delimiter = false)
    (h : ClosesAt (fun rest => rest = [] ∨ rest.head? = some delimiter) current text) :
    ∃ first more, splitUnquotedFrom delimiter current text = first :: more ∧
      (text = [] ∨ current = none ∧ text.head? = some delimiter → first = []) ∧
      ClosesAt (· = []) current first ∧ ∀ piece ∈ more, ClosesAt (· = []) none piece := by
  induction text generalizing current with
  | nil => exact ⟨[], [], rfl, fun _ => rfl, trivial, fun _ hmem => nomatch hmem⟩
  | cons c rest ih =>
    obtain ⟨hends, hrest⟩ := h
    obtain ⟨first, more, hsplit, hnil, hfirst, hmore⟩ := ih hrest
    rw [splitUnquotedFrom]
    by_cases hcut : (current.isNone && !isQuote c && c == delimiter) = true
    · rw [if_pos hcut]
      simp only [Bool.and_eq_true, Option.isNone_iff_eq_none, beq_iff_eq] at hcut
      obtain ⟨⟨rfl, -⟩, rfl⟩ := hcut
      rw [quoteAfter_none hdelimiter] at hsplit hfirst
      rw [hsplit]
      refine ⟨[], first :: more, rfl, fun _ => rfl, trivial, fun piece hmem => ?_⟩
      rcases List.mem_cons.1 hmem with rfl | hmem
      · exact hfirst
      · exact hmore piece hmem
    · rw [if_neg hcut, hsplit]
      refine ⟨c :: first, more, rfl, ?_, ⟨fun hsome hnone => ?_, hfirst⟩, hmore⟩
      · rintro (hnil | ⟨rfl, hhead⟩)
        · cases hnil
        · obtain rfl := Option.some.inj hhead
          simp [hdelimiter] at hcut
      · refine hnil ?_
        rcases hends hsome hnone with hnil | hhead
        · exact .inl hnil
        · exact .inr ⟨hnone, hhead⟩

/-- What follows a delimiter outside quotes begins outside quotes. -/
theorem closesAt_findUnquotedFrom {n : Nat} (hdelimiter : isQuote delimiter = false)
    (hfind : findUnquotedFrom delimiter current text = some n) (h : ClosesAt ends current text) :
    ClosesAt ends none (text.drop (n + 1)) := by
  induction text generalizing current n with
  | nil => cases hfind
  | cons c rest ih =>
    obtain ⟨-, hrest⟩ := h
    rw [findUnquotedFrom] at hfind
    split at hfind
    · next hcut =>
      obtain rfl := Option.some.inj hfind
      simp only [Bool.and_eq_true, Option.isNone_iff_eq_none, beq_iff_eq] at hcut
      obtain ⟨⟨rfl, -⟩, rfl⟩ := hcut
      rw [quoteAfter_none hdelimiter] at hrest
      exact hrest
    · obtain ⟨m, hm, rfl⟩ := Option.map_eq_some_iff.1 hfind
      exact ih hm hrest

end Text

/-! ## Tokens -/

namespace Markup.Lexeme

open Text

/-- What may follow a quote that closes in a token: nothing, or the next filter. -/
def AtFilter (rest : List Char) : Prop :=
  rest = [] ∨ rest.head? = some '|'

variable {rest more : List Char} {c : Char}

/-- A value closes its quote before what follows it. -/
theorem closesAt_value {value : List Char} (hvalue : IsValue value)
    (hmore : ClosesAt AtFilter none more) (hat : AtFilter more) :
    ClosesAt AtFilter none (value ++ more) := by
  rcases hvalue with hpath | ⟨quote, body, hquote, hbody, rfl⟩
  · exact (closesAt_plain fun c hc => isQuote_of_isPathChar (hpath c hc)).2 hmore
  · rw [List.cons_append, ClosesAt, quoteAfter_of_isQuote hquote, List.append_assoc,
      List.singleton_append]
    exact ⟨fun hsome => (nomatch hsome), (closesAt_quoted hbody).2 ⟨hat, hmore⟩⟩

/-- What a class without quotes takes of a text closes nothing. -/
theorem closesAt_takeWhile {ends : List Char → Prop} {p : Char → Bool}
    (hp : ∀ c, p c = true → isQuote c = false) (h : ClosesAt ends none more) :
    ClosesAt ends none (rest.take (rest.takeWhile p).length ++ more) := by
  rw [← List.prefix_iff_eq_take.1 ( List.takeWhile_prefix p)]
  exact (closesAt_plain fun c hc => hp c (List.mem_takeWhile_imp hc)).2 h

/-- The value at the start of a text, followed by filters or nothing. -/
theorem closesAt_valueLength (hmore : ClosesAt AtFilter none more) (hat : AtFilter more)
    (hnil : rest.drop (valueLength rest) = [] → more = []) :
    ClosesAt AtFilter none (rest.take (valueLength rest) ++ more) := by
  rcases value_cases rest with hvalue | ⟨⟨quote, body, hquote, hbody, hrest⟩, htake⟩
  · exact closesAt_value hvalue hmore hat
  · -- the quote is never closed, so nothing follows that could be a filter
    have hall : rest.drop (valueLength rest) = [] :=
      List.drop_eq_nil_of_le ((List.take_eq_self_iff rest).1 htake)
    rw [htake, hnil hall, List.append_nil, hrest, ClosesAt, quoteAfter_of_isQuote hquote]
    exact ⟨fun hsome => (nomatch hsome), closesAt_open hbody⟩

/-- The filter at the start of a text, followed by further filters or nothing. -/
theorem closesAt_filterLength (hmore : ClosesAt AtFilter none more) (hat : AtFilter more)
    (hnil : rest.drop (filterLength rest) = [] → more = []) :
    ClosesAt AtFilter none (rest.take (filterLength rest) ++ more) := by
  have hquote : ∀ d, isFilterNameChar d = true → isQuote d = false := fun _ hd =>
    isQuote_of_isPathChar (isPathChar_of_isFilterNameChar hd)
  by_cases hcolon : ∃ after, (rest.dropWhile isFilterNameChar).dropWhile isBlank = ':' :: after
  · obtain ⟨after, hcolon⟩ := hcolon
    obtain ⟨name, gap, space, value, -, hname, hgap, hspace, -, htake, hdrop⟩ :=
      readFilter_of_colon hcolon
    rw [hdrop] at hnil
    rw [htake, List.append_assoc, List.append_assoc, List.cons_append, List.append_assoc]
    refine (closesAt_plain fun c hc => hquote c (hname c hc)).2 ?_
    refine (closesAt_plain fun c hc => isQuote_of_isBlank (hgap c hc)).2 ?_
    refine ⟨fun hsome => (nomatch hsome), ?_⟩
    rw [quoteAfter_none (by decide)]
    refine (closesAt_plain fun c hc => isQuote_of_isBlank (hspace c hc)).2 ?_
    exact closesAt_valueLength hmore hat hnil
  · rw [(readFilter_of_plain (not_exists.1 hcolon)).2]
    exact closesAt_takeWhile hquote hmore

/-- The filters at the start of a text. -/
theorem closesAt_filtersLength (text : List Char) :
    ClosesAt AtFilter none (text.take (filtersLength text)) ∧
      AtFilter (text.take (filtersLength text)) := by
  fun_induction filtersLength text with
  | case1 rest ih =>
    obtain ⟨hclose, hat⟩ := ih
    rw [Nat.add_assoc, Nat.add_comm 1, List.take_succ_cons, List.take_add]
    refine ⟨⟨fun hsome => (nomatch hsome), ?_⟩, .inr rfl⟩
    rw [quoteAfter_none (by decide)]
    refine closesAt_filterLength hclose hat fun hnil => ?_
    rw [hnil]
    exact List.take_nil
  | case2 text hne => exact ⟨trivial, .inl rfl⟩

/-- A value and the filters after it. -/
theorem closesAt_readParameter (text : List Char) :
    ClosesAt AtFilter none (readParameter text).text := by
  obtain ⟨hclose, hat⟩ := closesAt_filtersLength (text.drop (valueLength text))
  rw [text_readParameter, parameterLength, List.take_add]
  refine closesAt_valueLength hclose hat fun hnil => ?_
  rw [hnil]
  exact List.take_nil

theorem closesAt_first {text : List Char} (h : (first c rest).1 = parameter text) :
    ClosesAt AtFilter none text := by
  cases hblank : isBlank c with
  | true =>
    rw [(first_of_isBlank rest hblank).1] at h
    cases h
  | false =>
  cases hquote : isQuote c with
  | true =>
    rw [(first_of_isQuote rest hblank hquote).1] at h
    cases h
    exact closesAt_readParameter _
  | false =>
  cases hoperator : operatorAt? (c :: rest) with
  | some operator =>
    have hmem : operator ∈ operators := List.mem_of_find?_eq_some hoperator
    rw [(first_of_operator hblank hquote hoperator).1] at h
    cases h
    rw [← List.append_nil operator.toList]
    exact (closesAt_plain fun d hd => isQuote_of_mem_operator hmem hd).2 trivial
  | none =>
  cases hpath : isPathChar c with
  | true =>
    rw [(first_of_isPathChar hblank hoperator hpath).1] at h
    cases h
    exact closesAt_readParameter _
  | false =>
    rw [(first_of_other hblank hquote hoperator hpath).1] at h
    cases h

/-- **In a parameter, a quote that closes is followed by a filter or by nothing.** -/
theorem closesAt_of_mem_lex {chars text : List Char} (h : parameter text ∈ lex chars) :
    ClosesAt AtFilter none text := by
  fun_induction lex chars with
  | case1 => cases h
  | case2 c rest ih =>
    rcases List.mem_cons.1 h with hfirst | hrest
    · exact closesAt_first hfirst.symm
    · exact ih hrest

end Markup.Lexeme

/-! ## The texts of a value -/

namespace Markup

/-- The texts that a value is read from: its base, and the arguments of its filters, in order. -/
def texts (raw : String) : List String :=
  (splitFilters raw).1 ::
    ((splitFilters raw).2.filter (·.name != "safe")).filterMap (·.argument)

/-- The argument of a filter begins outside quotes. -/
theorem closesAt_ofPiece {piece : List Char} {argument : String}
    (h : Text.ClosesAt (· = []) none piece)
    (hargument : (FilterText.ofPiece piece).argument = some argument) :
    Text.ClosesAt (· = []) none argument.toList := by
  unfold FilterText.ofPiece at hargument
  split at hargument
  · cases hargument
  · next n hfind =>
    dsimp only at hargument
    split at hargument
    · cases hargument
    · obtain rfl := Option.some.inj hargument
      rw [String.toList_ofList]
      exact (Text.closesAt_findUnquotedFrom (by decide) hfind h).trim

/-- **In the texts of a parameter, quotes close at the end only.** -/
theorem closesAt_of_mem_texts {chars raw : List Char} {text : String}
    (hraw : .parameter raw ∈ Lexeme.lex chars) (htext : text ∈ texts (String.ofList raw)) :
    Text.ClosesAt (· = []) none text.toList := by
  obtain ⟨first, more, hsplit, -, hfirst, hmore⟩ :=
    Text.closesAt_splitUnquotedFrom (by decide) (Lexeme.closesAt_of_mem_lex hraw)
  have hfilters : splitFilters (String.ofList raw) = (String.ofList (Text.trim first),
      ((more.map Text.trim).filter (!·.isEmpty)).map FilterText.ofPiece) := by
    unfold splitFilters
    rw [String.toList_ofList, Text.splitUnquoted, hsplit]
  rw [texts, hfilters] at htext
  rcases List.mem_cons.1 htext with rfl | htext
  · rw [String.toList_ofList]
    exact hfirst.trim
  · obtain ⟨filter, hfilter, hargument⟩ := List.mem_filterMap.1 htext
    obtain ⟨piece, hpiece, rfl⟩ := List.mem_map.1 (List.mem_filter.1 hfilter).1
    obtain ⟨written, hwritten, rfl⟩ := List.mem_map.1 (List.mem_filter.1 hpiece).1
    exact closesAt_ofPiece (hmore written hwritten).trim hargument

end Markup

end TemplateCompiler
