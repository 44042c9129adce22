import TemplateCompiler.Markup.FilterChain
import TemplateCompiler.Proofs.Parameters.Reading

/-!
# Splitting what was read

A parameter is read once by taking characters from its front, and its filters are found again by
splitting its text at the marks outside quotes. Both come to the same: the text of a parameter whose
values are values is split into its base and its filters (`Markup.splitFilters_text`), and the values
of a text in which each quote is closed are values.
-/
namespace TemplateCompiler.Markup

/-- A filter of which nothing is written after its bar. -/
def WrittenFilter.isEmpty (filter : WrittenFilter) : Bool :=
  filter.name.isEmpty && filter.argument.isNone

/-- The name of a filter and its argument, an empty argument being none. -/
def WrittenFilter.filterText (filter : WrittenFilter) : FilterText :=
  ⟨String.ofList filter.name, filter.argument.bind fun argument =>
    if argument.value.isEmpty then none else some (String.ofList argument.value)⟩

/-- The filters of a parameter in order, but for the empty ones. -/
def WrittenParameter.chain (written : WrittenParameter) : List FilterText :=
  (written.filters.filter (!·.isEmpty)).map WrittenFilter.filterText

variable {text value : List Char} {filter : WrittenFilter} {filters : List WrittenFilter}
  {written : WrittenParameter}

/-! ## Marks outside quotes -/

/-- A value has no mark of a filter outside its quotes. -/
theorem IsValue.splitUnquotedFrom {delimiter : Char} (h : IsValue value)
    (hdelimiter : Lexeme.isPathChar delimiter = false) :
    Text.splitUnquotedFrom delimiter none value = [value] := by
  rcases h with hpath | ⟨quote, body, hquote, hbody, rfl⟩
  · exact Text.splitUnquotedFrom_plain fun c hc =>
      ⟨Lexeme.isQuote_of_isPathChar (hpath c hc), Lexeme.ne_of_isPathChar (hpath c hc) hdelimiter⟩
  · exact Text.splitUnquotedFrom_quoted hquote hbody

/-- A value neither begins nor ends with a blank. -/
theorem IsValue.isTrimmed (h : IsValue value) : Text.IsTrimmed value := by
  rcases h with hpath | ⟨quote, body, hquote, -, rfl⟩
  · exact .of_forall fun c hc => Lexeme.isBlank_of_isPathChar (hpath c hc)
  · have hblank := Text.isBlank_of_isQuote hquote
    refine ⟨fun c hc => ?_, fun c hc => ?_⟩
    · obtain rfl := Option.some.inj hc
      exact hblank
    · rw [← List.cons_append, List.getLast?_concat] at hc
      obtain rfl := Option.some.inj hc
      exact hblank

/-! ## Filters -/

/-- Reading a piece in which the first colon outside quotes follows `front`. -/
theorem FilterText.ofPiece_colon {front : List Char}
    (hfront : ∀ c ∈ front, Text.isQuote c = false ∧ c ≠ ':') (back : List Char) :
    FilterText.ofPiece (front ++ ':' :: back) = ⟨String.ofList (Text.trim front),
      if (Text.trim back).isEmpty then none else some (String.ofList (Text.trim back))⟩ := by
  have hdrop : (front ++ ':' :: back).drop (front.length + 1) = back := by
    rw [List.drop_length_add_append, List.drop_succ_cons, List.drop_zero]
  rw [FilterText.ofPiece, Text.findUnquoted?_append (by decide) hfront]
  simp only [List.take_left, hdrop]

namespace WrittenFilter

theorem IsSpelled.name_isTrimmed (h : filter.IsSpelled) : Text.IsTrimmed filter.name :=
  .of_forall fun c hc => Lexeme.isBlank_of_isPathChar
    (Lexeme.isPathChar_of_isFilterNameChar (h.name c hc))

/-- In the name of a filter there are neither quotes nor marks. -/
theorem IsSpelled.name_plain (h : filter.IsSpelled) {mark : Char}
    (hmark : Lexeme.isPathChar mark = false) :
    ∀ c ∈ filter.name, Text.isQuote c = false ∧ c ≠ mark := fun c hc =>
  have hpath := Lexeme.isPathChar_of_isFilterNameChar (h.name c hc)
  ⟨Lexeme.isQuote_of_isPathChar hpath, Lexeme.ne_of_isPathChar hpath hmark⟩

/-- Neither are there in the name and the blanks after it. -/
theorem IsSpelled.front_plain (h : filter.IsSpelled) {argument : WrittenArgument}
    (hargument : argument ∈ filter.argument) {mark : Char} (hpath : Lexeme.isPathChar mark = false)
    (hblank : Text.isBlank mark = false) :
    ∀ c ∈ filter.name ++ argument.gap, Text.isQuote c = false ∧ c ≠ mark := by
  intro c hc
  rcases List.mem_append.1 hc with hname | hgap
  · exact h.name_plain hpath c hname
  · have hc := h.gap argument hargument c hgap
    refine ⟨Text.isQuote_of_isBlank hc, ?_⟩
    rintro rfl
    rw [hblank] at hc
    cases hc

theorem body_of_none (h : filter.argument = none) : filter.body = filter.name := by
  rw [body, h]

theorem body_of_mem {argument : WrittenArgument} (h : argument ∈ filter.argument) :
    filter.body = (filter.name ++ argument.gap) ++ ':' :: (argument.space ++ argument.value) := by
  rw [body, Option.mem_def.1 h, List.append_assoc]

/-- The text of a filter is not split, and it leaves no quote open. -/
theorem IsSpelled.splitUnquotedFrom (h : filter.IsSpelled)
    (hvalue : ∀ argument ∈ filter.argument, IsValue argument.value) :
    Text.splitUnquotedFrom '|' none filter.body = [filter.body] ∧
      Text.quoteOpen none filter.body = none := by
  cases hargument : filter.argument with
  | none =>
    have hplain := h.name_plain (by decide : Lexeme.isPathChar '|' = false)
    rw [body_of_none hargument]
    exact ⟨Text.splitUnquotedFrom_plain hplain, Text.quoteOpen_plain fun c hc => (hplain c hc).1⟩
  | some argument =>
    have hplain : ∀ c ∈ (filter.name ++ argument.gap) ++ ':' :: argument.space,
        Text.isQuote c = false ∧ c ≠ '|' := by
      intro c hc
      rcases List.mem_append.1 hc with hfront | hspace
      · exact h.front_plain hargument (by decide) (by decide) c hfront
      · rcases List.mem_cons.1 hspace with rfl | hspace
        · decide
        · have hc := h.space argument hargument c hspace
          refine ⟨Text.isQuote_of_isBlank hc, ?_⟩
          rintro rfl
          revert hc
          decide
    have hopen := Text.quoteOpen_plain fun c hc => (hplain c hc).1
    have hvalue := hvalue argument hargument
    have hbody : filter.body =
        ((filter.name ++ argument.gap) ++ ':' :: argument.space) ++ argument.value := by
      rw [body_of_mem hargument, List.append_assoc _ (':' :: _), List.cons_append]
    rw [hbody, Text.splitUnquotedFrom_append (Text.splitUnquotedFrom_plain hplain), hopen,
      hvalue.splitUnquotedFrom (by decide), Text.foldr_consFirst, Text.quoteOpen_append, hopen]
    exact ⟨rfl, hvalue.quoteOpen⟩

/-- **A filter is read back from its text**, and only an empty one is dropped. -/
theorem IsSpelled.ofPiece (h : filter.IsSpelled)
    (hvalue : ∀ argument ∈ filter.argument, IsValue argument.value) :
    (Text.trim filter.body).isEmpty = filter.isEmpty ∧
      FilterText.ofPiece (Text.trim filter.body) = filter.filterText := by
  cases hargument : filter.argument with
  | none =>
    have hfind := Text.findUnquoted?_plain
      (h.name_plain (by decide : Lexeme.isPathChar ':' = false))
    rw [body_of_none hargument, h.name_isTrimmed.trim, FilterText.ofPiece, hfind, isEmpty,
      filterText, hargument]
    exact ⟨(Bool.and_true _).symm, rfl⟩
  | some argument =>
    obtain ⟨left, right, htrim, hleft, hname, hright⟩ := Text.exists_trim_mark
      (by decide : Text.isBlank ':' = false) (filter.name ++ argument.gap)
      (argument.space ++ argument.value)
    have hplain : ∀ c ∈ left, Text.isQuote c = false ∧ c ≠ ':' := fun c hc =>
      h.front_plain hargument (by decide) (by decide) c (hleft.mem hc)
    rw [Text.trim_append_blanks (h.gap argument hargument), h.name_isTrimmed.trim] at hname
    rw [Text.trim_blanks_append (h.space argument hargument),
      (hvalue argument hargument).isTrimmed.trim] at hright
    rw [body_of_mem hargument, htrim, FilterText.ofPiece_colon hplain, hname, hright, isEmpty,
      filterText, hargument]
    exact ⟨by simp, rfl⟩

end WrittenFilter

/-! ## Parameters -/

theorem mem_argumentsOf {argument : WrittenArgument} (h : argument ∈ filter.argument)
    (hmem : filter ∈ filters) : argument.value ∈ argumentsOf filters := by
  refine List.mem_filterMap.2 ⟨filter, hmem, ?_⟩
  rw [Option.mem_def.1 h]
  rfl

/-- Filters are split at their bars. -/
theorem splitUnquotedFrom_filters (hspelled : ∀ filter ∈ filters, filter.IsSpelled)
    (hvalues : ∀ value ∈ argumentsOf filters, IsValue value) :
    Text.splitUnquotedFrom '|' none (filters.flatMap WrittenFilter.text) =
      [] :: filters.map WrittenFilter.body := by
  induction filters with
  | nil => rfl
  | cons filter filters ih =>
    have hmore : ∀ value ∈ argumentsOf filters, IsValue value := fun value hvalue => by
      obtain ⟨other, hother, hargument⟩ := List.mem_filterMap.1 hvalue
      exact hvalues value (List.mem_filterMap.2 ⟨other, List.mem_cons_of_mem _ hother, hargument⟩)
    obtain ⟨hbody, hopen⟩ := (hspelled filter List.mem_cons_self).splitUnquotedFrom
      fun argument hargument => hvalues _ (mem_argumentsOf hargument List.mem_cons_self)
    rw [List.flatMap_cons, WrittenFilter.text, List.cons_append,
      Text.splitUnquotedFrom_delimiter (by decide), Text.splitUnquotedFrom_append hbody, hopen,
      ih (fun other hother => hspelled other (List.mem_cons_of_mem _ hother)) hmore,
      Text.foldr_consFirst, List.append_nil, List.map_cons]

/-- Values leave no quote open in the text of their parameter. -/
theorem quoteOpen_text (hspelled : ∀ filter ∈ written.filters, filter.IsSpelled)
    (hvalues : ∀ value ∈ written.values, IsValue value) : Text.quoteOpen none written.text = none := by
  obtain ⟨hbase, harguments⟩ := List.forall_mem_cons.1 hvalues
  have hfilters : ∀ filter ∈ written.filters, Text.quoteOpen none filter.text = none := by
    intro filter hfilter
    have hbody := (hspelled filter hfilter).splitUnquotedFrom fun argument hargument =>
      harguments _ (mem_argumentsOf hargument hfilter)
    rw [WrittenFilter.text, Text.quoteOpen_cons, Text.quoteAfter_none (by decide), hbody.2]
  rw [WrittenParameter.text, Text.quoteOpen_append, hbase.quoteOpen]
  generalize written.filters = filters at hfilters
  induction filters with
  | nil => rfl
  | cons filter filters ih =>
    obtain ⟨hfilter, hmore⟩ := List.forall_mem_cons.1 hfilters
    rw [List.flatMap_cons, Text.quoteOpen_append, hfilter, ih hmore]

/-- If each quote in a text is closed, each is closed in every one of its parameters. -/
theorem quoteOpen_of_mem_lex (hclosed : Text.quoteOpen none text = none) {raw : String}
    (hraw : raw ∈ (Lexeme.lex text).filterMap Lexeme.parameter?) :
    Text.quoteOpen none raw.toList = none := by
  obtain ⟨lexeme, hlexeme, hparameter⟩ := List.mem_filterMap.1 hraw
  obtain ⟨reading, hreading, hreads⟩ := Lexeme.exists_reads_of_mem_lex hlexeme
  cases hreads with
  | blank c hblank => cases hparameter
  | skipped c hblank hquote hpath => cases hparameter
  | operator operator hmem =>
    obtain rfl := Option.some.inj hparameter
    rw [String.ofList_toList]
    exact Text.quoteOpen_plain fun c hc => Lexeme.isQuote_of_mem_operator hmem hc
  | value written hne hbase hfilters =>
    obtain rfl := Option.some.inj hparameter
    rw [String.toList_ofList]
    exact quoteOpen_text hfilters (Lexeme.isValue_of_closed hclosed hreading)

/-- No filter is split from what stands before the first bar. -/
theorem exists_splitUnquotedFrom_filters (filters : List WrittenFilter) :
    ∃ pieces, Text.splitUnquotedFrom '|' none (filters.flatMap WrittenFilter.text) =
      [] :: pieces := by
  cases filters with
  | nil => exact ⟨[], rfl⟩
  | cons filter filters =>
    rw [List.flatMap_cons, WrittenFilter.text, List.cons_append,
      Text.splitUnquotedFrom_delimiter (by decide)]
    exact ⟨_, rfl⟩

/-- The base of a parameter is split off, whatever its filters are. -/
theorem splitFilters_text_fst (hbase : IsValue written.base) :
    (splitFilters (String.ofList written.text)).1 = String.ofList written.base := by
  obtain ⟨pieces, hpieces⟩ := exists_splitUnquotedFrom_filters written.filters
  have hsplit : Text.splitUnquoted '|' written.text = written.base :: pieces := by
    rw [Text.splitUnquoted, WrittenParameter.text,
      Text.splitUnquotedFrom_append (hbase.splitUnquotedFrom (by decide)), hbase.quoteOpen,
      hpieces, Text.foldr_consFirst, List.append_nil]
  rw [splitFilters, String.toList_ofList, hsplit]
  dsimp only
  rw [hbase.isTrimmed.trim]

/-- What begins with a quote has a base that begins with it. -/
theorem head?_splitFilters_fst {quote : Char} (hquote : Text.isQuote quote = true)
    (text : List Char) : (splitFilters (String.ofList (quote :: text))).1.toList.head? = some quote := by
  have hblank : Text.isBlank quote = false := Text.isBlank_of_isQuote hquote
  have hsplit : ∃ piece pieces, Text.splitUnquoted '|' (quote :: text) = (quote :: piece) :: pieces := by
    rw [Text.splitUnquoted, Text.splitUnquotedFrom, hquote]
    simp only [Option.isNone_none, Bool.not_true, Bool.and_false, Bool.false_and,
      Bool.false_eq_true, if_false]
    cases Text.splitUnquotedFrom '|' (Text.quoteAfter Text.isQuote none quote) text with
    | nil => exact ⟨[], [], rfl⟩
    | cons piece pieces => exact ⟨piece, pieces, rfl⟩
  obtain ⟨piece, pieces, hsplit⟩ := hsplit
  rw [splitFilters, String.toList_ofList, hsplit]
  dsimp only
  rw [String.toList_ofList]
  exact Text.head?_trim hblank piece

/-- The base of a text is trimmed. -/
theorem isTrimmed_splitFilters_fst (raw : String) : Text.IsTrimmed (splitFilters raw).1.toList := by
  unfold splitFilters
  split
  · exact .nil
  · rw [String.toList_ofList]
    exact Text.isTrimmed_trim _

theorem splitFilters_operator {operator : String} (h : operator ∈ operators) :
    splitFilters operator = (operator, []) := by
  have hall : ∀ o ∈ operators, splitFilters o = (o, []) := by decide
  exact hall operator h

/-- **Splitting a parameter gives what was read of it**: its base, and its filters in order. -/
theorem splitFilters_text (hspelled : ∀ filter ∈ written.filters, filter.IsSpelled)
    (hvalues : ∀ value ∈ written.values, IsValue value) :
    splitFilters (String.ofList written.text) = (String.ofList written.base, written.chain) := by
  obtain ⟨hbase, harguments⟩ := List.forall_mem_cons.1 hvalues
  have hsplit : Text.splitUnquoted '|' written.text =
      written.base :: written.filters.map WrittenFilter.body := by
    rw [Text.splitUnquoted, WrittenParameter.text,
      Text.splitUnquotedFrom_append (hbase.splitUnquotedFrom (by decide)), hbase.quoteOpen,
      splitUnquotedFrom_filters hspelled harguments, Text.foldr_consFirst, List.append_nil]
  have hpiece : ∀ filter ∈ written.filters,
      (Text.trim filter.body).isEmpty = filter.isEmpty ∧
        FilterText.ofPiece (Text.trim filter.body) = filter.filterText := fun filter hfilter =>
    (hspelled filter hfilter).ofPiece fun argument hargument =>
      harguments _ (mem_argumentsOf hargument hfilter)
  have hchain : (((written.filters.map WrittenFilter.body).map Text.trim).filter (!·.isEmpty)).map
      FilterText.ofPiece = written.chain := by
    have hkept : written.filters.filter ((!·.isEmpty) ∘ Text.trim ∘ WrittenFilter.body) =
        written.filters.filter (!·.isEmpty) :=
      List.filter_congr fun filter hfilter => congrArg (!·) (hpiece filter hfilter).1
    rw [WrittenParameter.chain, List.map_map, List.filter_map, List.map_map, hkept]
    exact List.map_congr_left fun filter hfilter => (hpiece filter (List.mem_filter.1 hfilter).1).2
  rw [splitFilters, String.toList_ofList, hsplit]
  dsimp only
  rw [hbase.isTrimmed.trim, hchain]

/-- **Reading parameters loses nothing and agrees with splitting them.** The lexemes of a text, none
of them empty, are the text in order: blanks, skipped characters, operators, and parameters whose
text is that of what was read. If each quote in the text is closed, what was read of a parameter are
values, and splitting it gives its base and its filters. -/
theorem splitFilters_lex (text : List Char) :
    (Lexeme.lex text).flatMap Lexeme.text = text ∧
      (∀ lexeme ∈ Lexeme.lex text, lexeme.text ≠ []) ∧
      List.Forall₂ Lexeme.Reads (Lexeme.lex text) (Lexeme.readings text) ∧
      (Text.quoteOpen none text = none → ∀ written, some written ∈ Lexeme.readings text →
        (∀ value ∈ written.values, IsValue value) ∧
          splitFilters (String.ofList written.text) =
            (String.ofList written.base, written.chain)) := by
  refine ⟨Lexeme.text_lex text, fun lexeme hlexeme => ?_, Lexeme.reads_lex text,
    fun hclosed written hwritten => ?_⟩
  · obtain ⟨reading, -, hreads⟩ := Lexeme.exists_reads_of_mem_lex hlexeme
    exact hreads.text_ne_nil
  · have hvalues := Lexeme.isValue_of_closed hclosed hwritten
    exact ⟨hvalues, splitFilters_text (Lexeme.isSpelled_of_mem_readings hwritten) hvalues⟩

theorem splitFilters_lex_default :
    Text.quoteOpen none "a|default : 'x|y'|| = ;".toList = none ∧
      splitFilters "a|default : 'x|y'||" = ("a", [⟨"default", some "'x|y'"⟩]) := by
  have hread : some ⟨['a'], [⟨"default".toList, some ⟨[' '], [' '], "'x|y'".toList⟩⟩, ⟨[], none⟩,
      ⟨[], none⟩]⟩ ∈ Lexeme.readings "a|default : 'x|y'|| = ;".toList := by decide +kernel
  have hclosed : Text.quoteOpen none "a|default : 'x|y'|| = ;".toList = none := by decide
  exact ⟨hclosed, ((splitFilters_lex _).2.2.2 hclosed _ hread).2⟩

end TemplateCompiler.Markup
