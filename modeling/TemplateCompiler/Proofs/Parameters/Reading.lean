import Mathlib.Data.List.Forall2
import Mathlib.Data.List.TakeWhile
import TemplateCompiler.Proofs.Text.Quoting
import TemplateCompiler.Proofs.Text.Words

/-!
# What is read of parameters

Each parameter that is no operator is read as a value with filters, part by part
(`Lexeme.readings`), and its text is what the parts are written as (`Lexeme.reads_lex`). A value runs
away, which is to say that its quote takes all the rest of the text, exactly if the text leaves a
quote open (`Lexeme.quoteOpen_iff`).
-/
namespace TemplateCompiler.Markup

/-! ## Values and filters as they are written -/

/-- A quote, and the same quote again at the end and nowhere between. -/
def IsQuotedString (text : List Char) : Prop :=
  ∃ quote body, Text.isQuote quote = true ∧ quote ∉ body ∧ text = quote :: (body ++ [quote])

/-- A path, which may be empty, or a quoted string. -/
def IsValue (text : List Char) : Prop :=
  (∀ c ∈ text, Lexeme.isPathChar c = true) ∨ IsQuotedString text

/-- A quote that does not stand again. -/
def RunsAway (text : List Char) : Prop :=
  ∃ quote rest, Text.isQuote quote = true ∧ quote ∉ rest ∧ text = quote :: rest

/-- The argument of a filter, with the blanks on both sides of its colon. -/
structure WrittenArgument where
  gap : List Char
  space : List Char
  value : List Char
  deriving DecidableEq, Repr

/-- A filter, its argument being there if a colon is. -/
structure WrittenFilter where
  name : List Char
  argument : Option WrittenArgument
  deriving DecidableEq, Repr

/-- A parameter that is no operator. -/
structure WrittenParameter where
  base : List Char
  filters : List WrittenFilter
  deriving DecidableEq, Repr

/-- What is written after the bar of a filter. -/
def WrittenFilter.body (filter : WrittenFilter) : List Char :=
  match filter.argument with
  | none => filter.name
  | some argument => filter.name ++ (argument.gap ++ ':' :: (argument.space ++ argument.value))

/-- The text of a filter. -/
def WrittenFilter.text (filter : WrittenFilter) : List Char :=
  '|' :: filter.body

/-- The text of a parameter. -/
def WrittenParameter.text (parameter : WrittenParameter) : List Char :=
  parameter.base ++ parameter.filters.flatMap WrittenFilter.text

/-- The arguments of filters. -/
def argumentsOf (filters : List WrittenFilter) : List (List Char) :=
  filters.filterMap (·.argument.map (·.value))

/-- The values of a parameter: its base, and the arguments of its filters. -/
def WrittenParameter.values (parameter : WrittenParameter) : List (List Char) :=
  parameter.base :: argumentsOf parameter.filters

/-- Only the characters of a name stand in the name of a filter, and only blanks stand around its
colon. -/
structure WrittenFilter.IsSpelled (filter : WrittenFilter) : Prop where
  name : ∀ c ∈ filter.name, Lexeme.isFilterNameChar c = true
  gap : ∀ argument ∈ filter.argument, ∀ c ∈ argument.gap, Text.isBlank c = true
  space : ∀ argument ∈ filter.argument, ∀ c ∈ argument.space, Text.isBlank c = true

namespace Lexeme

/-! ## Reading -/

/-- The filter after a bar. -/
def readFilter (text : List Char) : WrittenFilter :=
  let name := text.takeWhile isFilterNameChar
  let afterName := text.dropWhile isFilterNameChar
  match afterName.dropWhile Text.isBlank with
  | ':' :: afterColon =>
    let rest := afterColon.dropWhile Text.isBlank
    ⟨name, some ⟨afterName.takeWhile Text.isBlank, afterColon.takeWhile Text.isBlank,
      rest.take (valueLength rest)⟩⟩
  | _ => ⟨name, none⟩

/-- The filters at the start of a text. -/
def readFilters : List Char → List WrittenFilter
  | '|' :: rest => readFilter rest :: readFilters (rest.drop (filterLength rest))
  | _ => []
termination_by text => text.length

/-- The value at the start of a text, and the filters after it. -/
def readParameter (text : List Char) : WrittenParameter :=
  ⟨text.take (valueLength text), readFilters (text.drop (valueLength text))⟩

/-- How many characters a parameter at the start of a text takes, if it is no operator. -/
def parameterLength (text : List Char) : Nat :=
  valueLength text + filtersLength (text.drop (valueLength text))

/-- What is read at the start of a text, if a value is. -/
def reading? (c : Char) (rest : List Char) : Option WrittenParameter :=
  if Text.isBlank c then none
  else if Text.isQuote c then some (readParameter (c :: rest))
  else if (operatorAt? (c :: rest)).isSome then none
  else if isPathChar c then some (readParameter (c :: rest))
  else none

/-- What is read for each lexeme of a text; for blanks, operators and what is skipped it is
nothing. -/
def readings : List Char → List (Option WrittenParameter)
  | [] => []
  | c :: rest => reading? c rest :: readings (rest.drop (first c rest).2)
termination_by text => text.length

/-- The values of what is read for a lexeme. -/
def valuesOf : Option WrittenParameter → List (List Char)
  | none => []
  | some written => written.values

/-- The values that are read of a text, in order. -/
def valuesRead (text : List Char) : List (List Char) :=
  (readings text).flatMap valuesOf

/-- What a lexeme has to do with what is read for it. -/
inductive Reads : Lexeme → Option WrittenParameter → Prop
  | blank (c : Char) (hblank : Text.isBlank c = true) : Reads (.blank c) none
  | skipped (c : Char) (hblank : Text.isBlank c = false) (hquote : Text.isQuote c = false)
      (hpath : isPathChar c = false) : Reads (.skipped c) none
  | operator (operator : String) (hmem : operator ∈ operators) :
      Reads (.parameter operator.toList) none
  | value (written : WrittenParameter) (hne : written.base ≠ [])
      (hbase : IsValue written.base ∨ RunsAway written.base)
      (hfilters : ∀ filter ∈ written.filters, filter.IsSpelled) :
      Reads (.parameter written.text) (some written)

variable {text rest : List Char} {c : Char}

/-! ## Lengths -/

theorem drop_takeWhile_length (p : Char → Bool) (text : List Char) :
    text.drop (text.takeWhile p).length = text.dropWhile p := by
  have hsplit := List.takeWhile_append_dropWhile (p := p) (l := text)
  conv => lhs; arg 2; rw [← hsplit]
  rw [List.drop_left]

/-- A filter without an argument is its name. -/
theorem readFilter_of_plain (h : ∀ after, (text.dropWhile isFilterNameChar).dropWhile Text.isBlank ≠
    ':' :: after) : readFilter text = ⟨text.takeWhile isFilterNameChar, none⟩ ∧
      filterLength text = (text.takeWhile isFilterNameChar).length := by
  constructor
  · unfold readFilter
    dsimp only
    split
    · next after hcolon => exact absurd hcolon (h after)
    · rfl
  · unfold filterLength
    simp only [drop_takeWhile_length]

/-- A filter with an argument goes on to the end of it. -/
theorem readFilter_of_colon {after : List Char}
    (h : (text.dropWhile isFilterNameChar).dropWhile Text.isBlank = ':' :: after) :
    ∃ name gap space rest, text = name ++ (gap ++ ':' :: (space ++ rest)) ∧
      (∀ c ∈ name, isFilterNameChar c = true) ∧ (∀ c ∈ gap, Text.isBlank c = true) ∧
      (∀ c ∈ space, Text.isBlank c = true) ∧
      readFilter text = ⟨name, some ⟨gap, space, rest.take (valueLength rest)⟩⟩ ∧
      text.take (filterLength text) =
        name ++ (gap ++ ':' :: (space ++ rest.take (valueLength rest))) ∧
      text.drop (filterLength text) = rest.drop (valueLength rest) := by
  have hname := List.takeWhile_append_dropWhile (p := isFilterNameChar) (l := text)
  have hgap := List.takeWhile_append_dropWhile (p := Text.isBlank)
    (l := text.dropWhile isFilterNameChar)
  have hspace := List.takeWhile_append_dropWhile (p := Text.isBlank) (l := after)
  have hfilter : readFilter text = ⟨text.takeWhile isFilterNameChar,
      some ⟨(text.dropWhile isFilterNameChar).takeWhile Text.isBlank, after.takeWhile Text.isBlank,
        (after.dropWhile Text.isBlank).take (valueLength (after.dropWhile Text.isBlank))⟩⟩ := by
    simp only [readFilter, h]
  have hlength : filterLength text = (text.takeWhile isFilterNameChar).length +
      (((text.dropWhile isFilterNameChar).takeWhile Text.isBlank).length +
        ((after.takeWhile Text.isBlank).length +
          valueLength (after.dropWhile Text.isBlank) + 1)) := by
    simp only [filterLength, drop_takeWhile_length, h]
    omega
  have htext : text = text.takeWhile isFilterNameChar ++
      ((text.dropWhile isFilterNameChar).takeWhile Text.isBlank ++
        ':' :: (after.takeWhile Text.isBlank ++ after.dropWhile Text.isBlank)) := by
    rw [hspace, ← h, hgap, hname]
  refine ⟨_, _, _, _, htext, fun _ => List.mem_takeWhile_imp, fun _ => List.mem_takeWhile_imp,
    fun _ => List.mem_takeWhile_imp, hfilter, ?_, ?_⟩
  · conv => lhs; arg 2; rw [htext]
    rw [hlength, List.take_length_add_append, List.take_length_add_append, List.take_succ_cons,
      List.take_length_add_append]
  · conv => lhs; arg 2; rw [htext]
    rw [hlength, List.drop_length_add_append, List.drop_length_add_append, List.drop_succ_cons,
      List.drop_length_add_append]

theorem body_readFilter (text : List Char) :
    (readFilter text).body = text.take (filterLength text) := by
  by_cases hcolon : ∃ after, (text.dropWhile isFilterNameChar).dropWhile Text.isBlank = ':' :: after
  · obtain ⟨after, hcolon⟩ := hcolon
    obtain ⟨name, gap, space, rest, -, -, -, -, hfilter, htake, -⟩ := readFilter_of_colon hcolon
    rw [hfilter, htake, WrittenFilter.body]
  · obtain ⟨hfilter, hlength⟩ := readFilter_of_plain (not_exists.1 hcolon)
    rw [hfilter, hlength, WrittenFilter.body,
      ← List.prefix_iff_eq_take.1 ( List.takeWhile_prefix isFilterNameChar)]

theorem text_readFilters (text : List Char) :
    (readFilters text).flatMap WrittenFilter.text = text.take (filtersLength text) := by
  fun_induction readFilters text with
  | case1 rest ih =>
    rw [List.flatMap_cons, ih, WrittenFilter.text, body_readFilter, filtersLength, Nat.add_assoc,
      Nat.add_comm 1, List.take_succ_cons, List.take_add]
    rfl
  | case2 text hne =>
    rw [filtersLength]
    · rfl
    · exact hne

theorem text_readParameter (text : List Char) :
    (readParameter text).text = text.take (parameterLength text) := by
  rw [WrittenParameter.text, readParameter, text_readFilters, parameterLength, List.take_add]

/-! ## Values -/

/-- No operator has quotes in it. -/
theorem isQuote_of_mem_operator {operator : String} (h : operator ∈ operators)
    (hc : c ∈ operator.toList) : Text.isQuote c = false := by
  have hall : operators.all (·.toList.all (!Text.isQuote ·)) = true := by decide
  simp only [List.all_eq_true, Bool.not_eq_true'] at hall
  exact hall operator h c hc

theorem quotedLength_of_not_mem (h : c ∉ rest) : quotedLength c rest = rest.length := by
  have hall : rest.takeWhile (· != c) = rest :=
    List.takeWhile_eq_self_iff.2 fun d hd => bne_iff_ne.2 fun heq => h (heq ▸ hd)
  rw [quotedLength, hall]
  omega

theorem quotedLength_append {body after : List Char} (h : c ∉ body) :
    quotedLength c (body ++ c :: after) = body.length + 1 := by
  have hbody : (body ++ c :: after).takeWhile (· != c) = body := by
    have hne : ∀ d ∈ body, (d != c) = true := fun d hd => bne_iff_ne.2 fun heq => h (heq ▸ hd)
    rw [List.takeWhile_append_of_pos hne, List.takeWhile_cons_of_neg (by simp), List.append_nil]
  rw [quotedLength, hbody, List.length_append, List.length_cons]
  omega

theorem valueLength_of_isQuote (h : Text.isQuote c = true) :
    valueLength (c :: rest) = quotedLength c rest + 1 := by
  rw [valueLength, h, if_pos rfl, Nat.add_comm]

theorem take_valueLength_of_not_isQuote (h : Text.isQuote c = false) :
    (c :: rest).take (valueLength (c :: rest)) = (c :: rest).takeWhile isPathChar := by
  rw [valueLength, h, if_neg Bool.false_ne_true,
    ← List.prefix_iff_eq_take.1 ( List.takeWhile_prefix isPathChar)]

/-- What is taken as a value is one, or it is all the text, the quote at the start running away. -/
theorem value_cases (text : List Char) : IsValue (text.take (valueLength text)) ∨
    RunsAway text ∧ text.take (valueLength text) = text := by
  cases text with
  | nil => exact .inl (.inl fun _ hc => nomatch hc)
  | cons c rest =>
    cases hquote : Text.isQuote c with
    | false =>
      rw [take_valueLength_of_not_isQuote hquote]
      exact .inl (.inl fun _ => List.mem_takeWhile_imp)
    | true =>
      rw [valueLength_of_isQuote hquote, List.take_succ_cons]
      by_cases hmem : c ∈ rest
      · obtain ⟨body, after, rfl, hbody⟩ := List.eq_append_cons_of_mem hmem
        rw [quotedLength_append hbody, List.take_length_add_append, List.take_succ_cons,
          List.take_zero]
        exact .inl (.inr ⟨c, body, hquote, hbody, rfl⟩)
      · rw [quotedLength_of_not_mem hmem, List.take_length]
        exact .inr ⟨⟨c, rest, hquote, hmem, rfl⟩, rfl⟩

/-! ## Quotes that are left open -/

end Lexeme

/-- A value leaves no quote open. -/
theorem IsValue.quoteOpen {text : List Char} (h : IsValue text) : Text.quoteOpen none text = none := by
  rcases h with hpath | ⟨quote, body, hquote, hbody, rfl⟩
  · exact Text.quoteOpen_plain fun c hc => Lexeme.isQuote_of_isPathChar (hpath c hc)
  · exact Text.quoteOpen_quoted hquote hbody

theorem RunsAway.quoteOpen_ne {text : List Char} (h : RunsAway text) :
    Text.quoteOpen none text ≠ none := by
  obtain ⟨quote, rest, hquote, hrest, rfl⟩ := h
  rw [Text.quoteOpen_cons, Text.quoteAfter_of_isQuote hquote, Text.quoteOpen_of_not_mem hrest]
  exact Option.some_ne_none quote

/-- What the values read between two places of a text say of the quotes there: either they are
values, and no quote is opened that is not closed; or one of them runs away with a quote that is
open at the end. -/
def Tells (values : List (List Char)) (text rest : List Char) : Prop :=
  (∀ value ∈ values, IsValue value) ∧ Text.quoteOpen none text = Text.quoteOpen none rest ∨
    (∃ value ∈ values, RunsAway value) ∧ Text.quoteOpen none text ≠ none

namespace Tells

variable {values more : List (List Char)} {text middle rest : List Char}

theorem nil (h : Text.quoteOpen none text = Text.quoteOpen none rest) : Tells [] text rest :=
  .inl ⟨fun _ hvalue => (nomatch hvalue), h⟩

theorem append (hvalues : Tells values text middle) (hmore : Tells more middle rest) :
    Tells (values ++ more) text rest := by
  rcases hvalues with ⟨hare, htext⟩ | ⟨⟨value, hmem, hruns⟩, hopen⟩
  · rcases hmore with ⟨hmoreAre, hmiddle⟩ | ⟨⟨value, hmem, hruns⟩, hopen⟩
    · exact .inl ⟨List.forall_mem_append.2 ⟨hare, hmoreAre⟩, htext.trans hmiddle⟩
    · exact .inr ⟨⟨value, List.mem_append_right _ hmem, hruns⟩, htext ▸ hopen⟩
  · exact .inr ⟨⟨value, List.mem_append_left _ hmem, hruns⟩, hopen⟩

/-- Text without quotes may stand in front. -/
theorem plain_append {front : List Char} (hfront : ∀ c ∈ front, Text.isQuote c = false)
    (h : Tells values text rest) : Tells values (front ++ text) rest := by
  unfold Tells
  rw [Text.quoteOpen_append, Text.quoteOpen_plain hfront]
  exact h

theorem cons {c : Char} (hc : Text.isQuote c = false) (h : Tells values text rest) :
    Tells values (c :: text) rest := by
  show Tells values ([c] ++ text) rest
  exact plain_append (List.forall_mem_singleton.2 hc) h

/-- All are values exactly if no quote is left open. -/
theorem forall_isValue (h : Tells values text []) (hopen : Text.quoteOpen none text = none) :
    ∀ value ∈ values, IsValue value := by
  rcases h with ⟨hare, -⟩ | ⟨-, hne⟩
  · exact hare
  · exact absurd hopen hne

theorem quoteOpen_iff (h : Tells values text []) :
    Text.quoteOpen none text = none ↔ ∀ value ∈ values, ¬ RunsAway value := by
  constructor
  · intro hopen value hvalue hruns
    exact hruns.quoteOpen_ne (h.forall_isValue hopen value hvalue).quoteOpen
  · intro hruns
    rcases h with ⟨-, htext⟩ | ⟨⟨value, hmem, hvalue⟩, -⟩
    · exact htext
    · exact absurd hvalue (hruns value hmem)

end Tells

namespace Lexeme

variable {text rest : List Char} {c : Char}

theorem tells_value (text : List Char) :
    Tells [text.take (valueLength text)] text (text.drop (valueLength text)) := by
  rcases value_cases text with hvalue | ⟨hruns, htake⟩
  · refine .inl ⟨List.forall_mem_singleton.2 hvalue, ?_⟩
    conv => lhs; rw [← List.take_append_drop (valueLength text) text]
    rw [Text.quoteOpen_append, hvalue.quoteOpen]
  · rw [htake]
    exact .inr ⟨⟨text, List.mem_singleton_self text, hruns⟩, hruns.quoteOpen_ne⟩

theorem tells_filter (text : List Char) :
    Tells (argumentsOf [readFilter text]) text (text.drop (filterLength text)) := by
  by_cases hcolon : ∃ after, (text.dropWhile isFilterNameChar).dropWhile Text.isBlank = ':' :: after
  · obtain ⟨after, hcolon⟩ := hcolon
    obtain ⟨name, gap, space, rest, htext, hname, hgap, hspace, hfilter, -, hdrop⟩ :=
      readFilter_of_colon hcolon
    rw [hdrop, hfilter, htext]
    have hvalue : Tells (argumentsOf [⟨name, some ⟨gap, space, rest.take (valueLength rest)⟩⟩]) rest
      (rest.drop (valueLength rest)) := tells_value rest
    refine .plain_append (fun c hc => isQuote_of_isPathChar
      (isPathChar_of_isFilterNameChar (hname c hc))) ?_
    refine .plain_append (fun c hc => Text.isQuote_of_isBlank (hgap c hc)) ?_
    refine .cons (by decide) ?_
    exact .plain_append (fun c hc => Text.isQuote_of_isBlank (hspace c hc)) hvalue
  · obtain ⟨hfilter, hlength⟩ := readFilter_of_plain (not_exists.1 hcolon)
    rw [hfilter, hlength, drop_takeWhile_length]
    refine .nil ?_
    conv => lhs; rw [← List.takeWhile_append_dropWhile (p := isFilterNameChar) (l := text)]
    rw [Text.quoteOpen_append, Text.quoteOpen_plain fun c hc => isQuote_of_isPathChar
      (isPathChar_of_isFilterNameChar (List.mem_takeWhile_imp hc))]

theorem tells_filters (text : List Char) :
    Tells (argumentsOf (readFilters text)) text (text.drop (filtersLength text)) := by
  fun_induction readFilters text with
  | case1 rest ih =>
    rw [filtersLength, Nat.add_assoc, Nat.add_comm 1, List.drop_succ_cons, ← List.drop_drop]
    have hargs : argumentsOf (readFilter rest :: readFilters (rest.drop (filterLength rest))) =
        argumentsOf [readFilter rest] ++ argumentsOf (readFilters (rest.drop (filterLength rest))) :=
      List.filterMap_append (l := [readFilter rest])
    rw [hargs]
    exact ((tells_filter rest).append ih).cons (by decide)
  | case2 text hne =>
    rw [filtersLength]
    · exact .nil rfl
    · exact hne

theorem tells_parameter (text : List Char) :
    Tells (readParameter text).values text (text.drop (parameterLength text)) := by
  rw [parameterLength, ← List.drop_drop]
  exact (tells_value text).append (tells_filters _)

/-! ## Lexemes and what is read for them -/

theorem isSpelled_readFilter (text : List Char) : (readFilter text).IsSpelled := by
  by_cases hcolon : ∃ after, (text.dropWhile isFilterNameChar).dropWhile Text.isBlank = ':' :: after
  · obtain ⟨after, hcolon⟩ := hcolon
    obtain ⟨name, gap, space, rest, -, hname, hgap, hspace, hfilter, -, -⟩ :=
      readFilter_of_colon hcolon
    rw [hfilter]
    refine ⟨hname, fun argument hargument => ?_, fun argument hargument => ?_⟩
    · obtain rfl := Option.some.inj hargument
      exact hgap
    · obtain rfl := Option.some.inj hargument
      exact hspace
  · rw [(readFilter_of_plain (not_exists.1 hcolon)).1]
    exact ⟨fun _ => List.mem_takeWhile_imp, fun _ hargument => (nomatch hargument),
      fun _ hargument => (nomatch hargument)⟩

theorem isSpelled_of_mem_readFilters {filter : WrittenFilter} (h : filter ∈ readFilters text) :
    filter.IsSpelled := by
  fun_induction readFilters text with
  | case1 rest ih =>
    rcases List.mem_cons.1 h with rfl | h
    · exact isSpelled_readFilter rest
    · exact ih h
  | case2 text hne => cases h

theorem first_of_isBlank (rest : List Char) (hblank : Text.isBlank c = true) :
    first c rest = (.blank c, 0) ∧ reading? c rest = none := by
  simp [first, reading?, hblank]

/-- The lexeme at the start of a text where a quoted string begins. -/
theorem first_of_isQuote (rest : List Char) (hblank : Text.isBlank c = false)
    (hquote : Text.isQuote c = true) :
    (first c rest).1 = .parameter (readParameter (c :: rest)).text ∧
      rest.drop (first c rest).2 = (c :: rest).drop (parameterLength (c :: rest)) ∧
      reading? c rest = some (readParameter (c :: rest)) := by
  have hlength : parameterLength (c :: rest) =
      quotedLength c rest + filtersLength (rest.drop (quotedLength c rest)) + 1 := by
    rw [parameterLength, valueLength_of_isQuote hquote, List.drop_succ_cons]
    omega
  rw [text_readParameter, hlength, List.take_succ_cons, List.drop_succ_cons]
  simp [first, reading?, hblank, hquote]

/-- The lexeme at the start of a text where an operator begins. -/
theorem first_of_operator {operator : String} (hblank : Text.isBlank c = false)
    (hquote : Text.isQuote c = false) (hoperator : operatorAt? (c :: rest) = some operator) :
    (first c rest).1 = .parameter operator.toList ∧ reading? c rest = none := by
  have hstarts : operator.toList.isPrefixOf (c :: rest) = true :=
    List.find?_some (p := fun o : String => o.toList.isPrefixOf (c :: rest)) hoperator
  obtain ⟨after, hafter⟩ := List.isPrefixOf_iff_prefix.1 hstarts
  have htake : (c :: rest).take operator.length = operator.toList := by
    rw [← hafter, ← String.length_toList, List.take_left]
  simp [first, reading?, hblank, hquote, hoperator, htake]

/-- The lexeme at the start of a text where a path begins. -/
theorem first_of_isPathChar (hblank : Text.isBlank c = false)
    (hoperator : operatorAt? (c :: rest) = none) (hpath : isPathChar c = true) :
    (first c rest).1 = .parameter (readParameter (c :: rest)).text ∧
      rest.drop (first c rest).2 = (c :: rest).drop (parameterLength (c :: rest)) ∧
      reading? c rest = some (readParameter (c :: rest)) := by
  have hquote := isQuote_of_isPathChar hpath
  have hvalue : valueLength (c :: rest) = (rest.takeWhile isPathChar).length + 1 := by
    rw [valueLength, hquote, if_neg Bool.false_ne_true, List.takeWhile_cons_of_pos hpath,
      List.length_cons]
  have hlength : parameterLength (c :: rest) = (rest.takeWhile isPathChar).length +
      filtersLength (rest.drop (rest.takeWhile isPathChar).length) + 1 := by
    rw [parameterLength, hvalue, List.drop_succ_cons]
    omega
  rw [text_readParameter, hlength, List.take_succ_cons, List.drop_succ_cons]
  simp [first, reading?, hblank, hquote, hoperator, hpath]

/-- What begins nothing is skipped. -/
theorem first_of_other (hblank : Text.isBlank c = false) (hquote : Text.isQuote c = false)
    (hoperator : operatorAt? (c :: rest) = none) (hpath : isPathChar c = false) :
    first c rest = (.skipped c, 0) ∧ reading? c rest = none := by
  simp [first, reading?, hblank, hquote, hoperator, hpath]

theorem base_readParameter_ne_nil (h : Text.isQuote c = true ∨ isPathChar c = true) :
    (readParameter (c :: rest)).base ≠ [] := by
  cases hquote : Text.isQuote c with
  | true =>
    rw [readParameter, valueLength_of_isQuote hquote, List.take_succ_cons]
    exact List.cons_ne_nil _ _
  | false =>
    rw [hquote] at h
    have hpath := h.resolve_left Bool.false_ne_true
    rw [readParameter, take_valueLength_of_not_isQuote hquote, List.takeWhile_cons_of_pos hpath]
    exact List.cons_ne_nil _ _

theorem base_readParameter_cases (text : List Char) :
    IsValue (readParameter text).base ∨ RunsAway (readParameter text).base := by
  rcases value_cases text with hvalue | ⟨hruns, htake⟩
  · exact .inl hvalue
  · rw [readParameter, htake]
    exact .inr hruns

theorem reads_readParameter (h : Text.isQuote c = true ∨ isPathChar c = true) :
    Reads (.parameter (readParameter (c :: rest)).text) (some (readParameter (c :: rest))) :=
  .value _ (base_readParameter_ne_nil h) (base_readParameter_cases _) fun _ =>
    isSpelled_of_mem_readFilters

/-- One lexeme, what is read for it, and what is left of the text after it. -/
theorem reads_first (c : Char) (rest : List Char) :
    Reads (first c rest).1 (reading? c rest) ∧
      Tells (valuesOf (reading? c rest)) (c :: rest) (rest.drop (first c rest).2) := by
  cases hblank : Text.isBlank c with
  | true =>
    obtain ⟨hfirst, hreading⟩ := first_of_isBlank rest hblank
    rw [hfirst, hreading]
    exact ⟨.blank c hblank, (Tells.nil rfl).cons (Text.isQuote_of_isBlank hblank)⟩
  | false =>
  cases hquote : Text.isQuote c with
  | true =>
    obtain ⟨hfirst, hdrop, hreading⟩ := first_of_isQuote rest hblank hquote
    rw [hfirst, hdrop, hreading]
    exact ⟨reads_readParameter (.inl hquote), tells_parameter (c :: rest)⟩
  | false =>
  cases hoperator : operatorAt? (c :: rest) with
  | some operator =>
    have hmem : operator ∈ operators := List.mem_of_find?_eq_some hoperator
    obtain ⟨hfirst, hreading⟩ := first_of_operator hblank hquote hoperator
    have htext := text_first c rest
    rw [hfirst] at htext
    rw [hfirst, hreading, ← htext]
    exact ⟨.operator operator hmem,
      (Tells.nil rfl).plain_append fun d hd => isQuote_of_mem_operator hmem hd⟩
  | none =>
  cases hpath : isPathChar c with
  | true =>
    obtain ⟨hfirst, hdrop, hreading⟩ := first_of_isPathChar hblank hoperator hpath
    rw [hfirst, hdrop, hreading]
    exact ⟨reads_readParameter (.inr hpath), tells_parameter (c :: rest)⟩
  | false =>
    obtain ⟨hfirst, hreading⟩ := first_of_other hblank hquote hoperator hpath
    rw [hfirst, hreading]
    exact ⟨.skipped c hblank hquote hpath, (Tells.nil rfl).cons hquote⟩

/-- **Lexemes are what is read**, one by one. -/
theorem reads_lex (text : List Char) : List.Forall₂ Reads (lex text) (readings text) := by
  fun_induction lex text with
  | case1 => rw [readings]; exact .nil
  | case2 c rest ih =>
    rw [readings]
    exact .cons (reads_first c rest).1 ih

theorem exists_reads_of_mem_lex {lexeme : Lexeme} (h : lexeme ∈ lex text) :
    ∃ reading ∈ readings text, Reads lexeme reading := by
  have hreads := reads_lex text
  generalize lex text = lexemes at h hreads
  generalize readings text = all at hreads ⊢
  induction hreads with
  | nil => cases h
  | cons hfirst _ ih =>
    rcases List.mem_cons.1 h with rfl | h
    · exact ⟨_, List.mem_cons_self, hfirst⟩
    · obtain ⟨reading, hmem, hreading⟩ := ih h
      exact ⟨reading, List.mem_cons_of_mem _ hmem, hreading⟩

theorem isSpelled_of_mem_readings {written : WrittenParameter} (h : some written ∈ readings text) :
    ∀ filter ∈ written.filters, filter.IsSpelled := by
  have hreads := reads_lex text
  generalize lex text = lexemes at hreads
  generalize readings text = all at h hreads
  induction hreads with
  | nil => cases h
  | cons hfirst _ ih =>
    rcases List.mem_cons.1 h with rfl | h
    · cases hfirst with
      | value _ _ _ hfilters => exact hfilters
    · exact ih h

/-- No lexeme is empty. -/
theorem Reads.text_ne_nil {lexeme : Lexeme} {reading : Option WrittenParameter}
    (h : Reads lexeme reading) : lexeme.text ≠ [] := by
  cases h with
  | blank c _ => exact List.cons_ne_nil c []
  | skipped c _ _ _ => exact List.cons_ne_nil c []
  | operator operator hmem =>
    have hall : ∀ o ∈ operators, o.toList ≠ [] := by decide
    exact hall operator hmem
  | value written hne _ _ => exact fun hnil => hne (List.append_eq_nil_iff.1 hnil).1

theorem tells_lex (text : List Char) : Tells (valuesRead text) text [] := by
  fun_induction lex text with
  | case1 => rw [valuesRead, readings]; exact .nil rfl
  | case2 c rest ih =>
    rw [valuesRead, readings, List.flatMap_cons]
    exact (reads_first c rest).2.append ih

/-- **A quote is left open exactly if a value runs away with one.** -/
theorem quoteOpen_iff (text : List Char) :
    Text.quoteOpen none text = none ↔ ∀ value ∈ valuesRead text, ¬ RunsAway value :=
  (tells_lex text).quoteOpen_iff

theorem isValue_of_closed (h : Text.quoteOpen none text = none) {written : WrittenParameter}
    (hmem : some written ∈ readings text) : ∀ value ∈ written.values, IsValue value := by
  intro value hvalue
  exact (tells_lex text).forall_isValue h value (List.mem_flatMap.2 ⟨some written, hmem, hvalue⟩)

end Lexeme

end TemplateCompiler.Markup
