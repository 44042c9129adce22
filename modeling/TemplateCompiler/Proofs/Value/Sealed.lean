import TemplateCompiler.Proofs.Transcript.Diagnosed
import TemplateCompiler.Proofs.Value.Token

/-!
# What template text becomes

A text that begins with a quote is to become one string literal, a text that begins with `#` the
configuration value of that name, and any other text has only identifiers, numerals and operators
to contribute (`Code.Expr.Seals`). Reading looks at the first character alone, so what is accepted
is sealed exactly if the text is complete (`Variable.seals_iff_complete`).
-/
namespace TemplateCompiler

/-! ## Complete texts -/

/-- A quoted text is complete if it is one literal, a configuration name if it is an identifier. -/
def Text.isComplete : List Char → Bool
  | [] => true
  | c :: rest =>
    if isQuote c then isLiteral (c :: rest)
    else if c = '#' then Markup.isIdentifierChars (Markup.Element.trimHashes rest)
    else true

namespace Code

namespace Expr

/-! ## Terms that say no more than they may -/

/-- A term made of identifiers, numerals and operators, with nothing of the template's text in it
but quoted by the compiler. -/
inductive IsPlain : Expr → Prop
  | variables : IsPlain .variables
  | member {base : Expr} {name : String} (hname : Markup.isIdentifier name = true)
    (h : IsPlain base) : IsPlain (.member base name)
  | numeral {text : String} (h : Markup.isNumeral text = true) : IsPlain (.numeral text)
  | operator {symbol : String} (h : symbol ∈ Markup.operators) : IsPlain (.operator symbol)
  | absent : IsPlain .absent
  | escaped {value : Expr} {raw requested : String} {line : Nat} (h : IsPlain value) :
    IsPlain (.escaped value raw requested line)

/-- What a term may be that was read from a text that begins as this one does: a literal with the
same quote, the configuration value of an identifier, or plain. -/
def Seals (expr : Expr) : List Char → Prop
  | [] => expr.IsPlain
  | c :: _ =>
    if Text.isQuote c then
      Text.isLiteral expr.render.toList = true ∧ expr.render.toList.head? = some c
    else if c = '#' then
      ∃ name, Markup.isIdentifier name = true ∧ expr.render = Code.config name
    else expr.IsPlain

end Expr

end Code

/-! ## Elements -/

namespace Markup.Element

/-- An element that gives a plain term, or none. -/
def IsPlain : Element → Prop
  | .literal _ => False
  | .config _ => False
  | .value expr => expr.IsPlain
  | .misplacedOperator => True
  | .invalid => True

theorem isPlain_readParts (allowOperators : Bool) (text : String) {expr : Code.Expr}
    (parts : List (List Char)) (h : expr.IsPlain) :
    (readParts allowOperators text expr parts).IsPlain := by
  induction parts generalizing expr with
  | nil => exact h
  | cons part rest ih =>
    rw [readParts]
    split
    · next hname =>
      refine ih (.member ?_ h)
      rw [isIdentifier, String.toList_ofList]
      exact hname
    · split
      · next hoperator =>
        split
        · exact ih (.operator (List.contains_iff_mem.1 hoperator))
        · trivial
      · split
        · next hnumeral => exact .numeral hnumeral
        · trivial

variable {allowOperators : Bool} {text : String} {c : Char} {rest : List Char}

theorem read_of_isQuote (hlist : text.toList = c :: rest) (h : Text.isQuote c = true) :
    read allowOperators text = .literal text := by
  simp only [Text.isQuote, Bool.or_eq_true, beq_iff_eq] at h
  rcases h with rfl | rfl
  · rw [read, hlist]
    rfl
  · rw [read, hlist]
    rfl

theorem read_of_hash (hlist : text.toList = '#' :: rest) :
    read allowOperators text = .config (String.ofList (trimHashes rest)) := by
  rw [read, hlist]
  rfl

/-- What begins with neither a quote nor `#` is plain. -/
theorem isPlain_read (allowOperators : Bool) {text : String}
    (h : ∀ c ∈ text.toList.head?, Text.isQuote c = false ∧ c ≠ '#') :
    (read allowOperators text).IsPlain := by
  rw [read]
  split
  · next hlist => exact absurd (h '\'' (by rw [hlist]; rfl)).1 (by decide)
  · next hlist => exact absurd (h '"' (by rw [hlist]; rfl)).1 (by decide)
  · next hlist => exact absurd rfl (h '#' (by rw [hlist]; rfl)).2
  · exact isPlain_readParts _ _ _ .variables

end Markup.Element

/-! ## Values -/

namespace Scene

open Diagnosed Markup

variable {scene : Scene} {text : String} {escape : Bool} {expr : Code.Expr} {c : Char}
  {rest : List Char}

theorem resolve_of_isQuote (hlist : text.toList = c :: rest) (h : Text.isQuote c = true) :
    scene.resolve text escape = pure (.literal text) := by
  rw [resolve, Element.read_of_isQuote hlist h]

theorem resolve_of_hash (hlist : text.toList = '#' :: rest) :
    scene.resolve text escape = pure (.config (String.ofList (Element.trimHashes rest))) := by
  rw [resolve, Element.read_of_hash hlist]

theorem isPlain_of_resolve (hplain : ∀ c ∈ text.toList.head?, Text.isQuote c = false ∧ c ≠ '#')
    (h : (scene.resolve text escape).value? = some expr) : expr.IsPlain := by
  have hread := Element.isPlain_read (scene.options.allowsOperators scene.tag) hplain
  rw [resolve] at h
  cases helement : Element.read (scene.options.allowsOperators scene.tag) text with
  | literal text => exact (helement ▸ hread : Element.IsPlain (.literal text)).elim
  | config name => exact (helement ▸ hread : Element.IsPlain (.config name)).elim
  | value found =>
    have hfound : found.IsPlain := (helement ▸ hread : Element.IsPlain (.value found))
    rw [helement] at h
    dsimp only at h
    split at h
    · obtain rfl := value?_pure.1 h
      exact .escaped hfound
    · obtain rfl := value?_pure.1 h
      exact hfound
  | misplacedOperator =>
    rw [helement] at h
    obtain ⟨_, -, h⟩ := (value?_bind fun _ => appends_pure _).1 h
    obtain rfl := value?_pure.1 h
    exact .absent
  | invalid =>
    rw [helement] at h
    exact absurd h value?_throw

theorem config_inj {name other : String} (h : Code.config name = Code.config other) :
    name = other := by
  have hlist := congrArg String.toList h
  simp only [Code.config, Code.property, String.toList_append] at hlist
  exact String.toList_inj.1 (List.append_cancel_left hlist)

/-- **The first character decides**: what a text denotes is sealed exactly if the text is
complete. -/
theorem seals_iff (h : (scene.resolve text escape).value? = some expr) :
    expr.Seals text.toList ↔ Text.isComplete text.toList = true := by
  cases hlist : text.toList with
  | nil =>
    have hplain := isPlain_of_resolve (by simp [hlist]) h
    exact iff_of_true hplain rfl
  | cons c rest =>
    rw [Code.Expr.Seals, Text.isComplete]
    by_cases hquote : Text.isQuote c = true
    · rw [resolve_of_isQuote hlist hquote] at h
      obtain rfl := value?_pure.1 h
      rw [if_pos hquote, if_pos hquote, Code.Expr.render, hlist]
      exact and_iff_left rfl
    · rw [if_neg hquote, if_neg hquote]
      by_cases hhash : c = '#'
      · subst hhash
        rw [resolve_of_hash hlist] at h
        obtain rfl := value?_pure.1 h
        rw [if_pos rfl, if_pos rfl, Code.Expr.render]
        constructor
        · rintro ⟨name, hname, hrender⟩
          rw [← config_inj hrender, isIdentifier, String.toList_ofList] at hname
          exact hname
        · intro hname
          refine ⟨_, ?_, rfl⟩
          rw [isIdentifier, String.toList_ofList]
          exact hname
      · rw [if_neg hhash, if_neg hhash]
        refine iff_of_true (isPlain_of_resolve ?_ h) rfl
        intro d hd
        rw [hlist] at hd
        obtain rfl := Option.some.inj hd
        exact ⟨Bool.eq_false_iff.2 hquote, hhash⟩

end Scene

namespace Variable

open Diagnosed Markup

/-- The terms of a value: its own, and those of its filters. -/
def exprs (v : Variable) : List Code.Expr :=
  v.expr :: v.filters.filterMap (·.parameter)

/-- What a term does to the text that it was read from. -/
def SealsIfComplete (text : String) (expr : Code.Expr) : Prop :=
  expr.Seals text.toList ↔ Text.isComplete text.toList = true

theorem seals_readFilters {scene : Scene} {filters : List FilterText} {calls : List FilterCall}
    (h : (readFilters scene filters).value? = some calls) :
    List.Forall₂ SealsIfComplete (filters.filterMap (·.argument))
      (calls.filterMap (·.parameter)) := by
  induction filters generalizing calls with
  | nil =>
    obtain rfl := value?_pure.1 h
    exact .nil
  | cons filter rest ih =>
    obtain ⟨parameter, hparameter, h⟩ := (value?_bind fun _ =>
      (appends_readFilters scene rest).bind fun _ => appends_pure _).1 h
    obtain ⟨more, hmore, h⟩ := (value?_bind fun _ => appends_pure _).1 h
    obtain rfl := value?_pure.1 h
    cases hargument : filter.argument with
    | none =>
      rw [hargument] at hparameter
      obtain rfl := value?_pure.1 hparameter
      rw [List.filterMap_cons_none hargument]
      show List.Forall₂ SealsIfComplete _ (more.filterMap (·.parameter))
      exact ih hmore
    | some text =>
      rw [hargument] at hparameter
      obtain ⟨expr, hexpr, hsome⟩ := (value?_bind fun _ => appends_pure _).1 hparameter
      obtain rfl := value?_pure.1 hsome
      rw [List.filterMap_cons_some hargument]
      exact .cons (Scene.seals_iff hexpr) (ih hmore)

/-- The texts of a value, beside what they denote. -/
theorem seals_read {scene : Scene} {raw : String} {escape : Bool} {v : Variable}
    (h : (read scene raw escape).value? = some v) :
    List.Forall₂ SealsIfComplete (texts raw) v.exprs := by
  obtain ⟨calls, hcalls, h⟩ := (value?_bind fun _ => (appends_readEscape scene _ _).bind fun _ =>
    (scene.appends_resolve _ _).bind fun _ => appends_pure _).1 h
  obtain ⟨escape, -, h⟩ := (value?_bind fun _ =>
    (scene.appends_resolve _ _).bind fun _ => appends_pure _).1 h
  obtain ⟨expr, hexpr, h⟩ := (value?_bind fun _ => appends_pure _).1 h
  obtain rfl := value?_pure.1 h
  exact .cons (Scene.seals_iff hexpr) (seals_readFilters hcalls)

end Variable

/-! ## Parameters -/

namespace Tag

open Diagnosed Markup

/-- What a value does to the texts of `raw`, which it was read from. -/
theorem seals_readParams {scene : Scene} {raws : List String} {params : List Variable}
    (h : (readParams scene raws).value? = some params) :
    List.Forall₂ (fun raw v => List.Forall₂ Variable.SealsIfComplete (texts raw) v.exprs)
      raws params := by
  induction raws generalizing params with
  | nil =>
    obtain rfl := value?_pure.1 h
    exact .nil
  | cons raw rest ih =>
    obtain ⟨v, hv, h⟩ := (value?_bind fun _ =>
      (appends_readParams scene rest).bind fun _ => appends_pure _).1 h
    obtain ⟨more, hmore, h⟩ := (value?_bind fun _ => appends_pure _).1 h
    obtain rfl := value?_pure.1 h
    exact .cons (Variable.seals_read hv) (ih hmore)

theorem seals_read {scene : Scene} {name text : String} {tag : Tag}
    (h : (read scene name text).value? = some tag) :
    List.Forall₂ (fun raw v => List.Forall₂ Variable.SealsIfComplete (texts raw) v.exprs)
      ((Lexeme.lex text.toList).filterMap Lexeme.parameter?) tag.params := by
  obtain ⟨_, -, h⟩ := (value?_bind fun _ => (appends_readParams scene _).bind fun _ =>
    appends_pure _).1 h
  obtain ⟨params, hparams, h⟩ := (value?_bind fun _ => appends_pure _).1 h
  obtain rfl := value?_pure.1 h
  exact seals_readParams hparams

end Tag

/-- In a parameter, a quoted text is complete if it ends in its quote, unescaped. -/
theorem Markup.isComplete_iff {chars rest : List Char} {raw : String} {quote : Char}
    (hraw : raw ∈ (Lexeme.lex chars).filterMap Lexeme.parameter?)
    (htext : String.ofList (quote :: rest) ∈ texts raw) (hquote : Text.isQuote quote = true) :
    Text.isComplete (quote :: rest) = true ↔
      rest.getLast? = some quote ∧ Text.endsEscaping rest.dropLast = false := by
  obtain ⟨lexeme, hlexeme, hparameter⟩ := List.mem_filterMap.1 hraw
  cases lexeme with
  | blank c => cases hparameter
  | skipped c => cases hparameter
  | parameter written =>
    obtain rfl := Option.some.inj hparameter
    have hcloses := closesAt_of_mem_texts hlexeme htext
    rw [String.toList_ofList] at hcloses
    rw [Text.isComplete, if_pos hquote, Text.isLiteral_cons hquote (hcloses.not_mem hquote)]
    simp

/-- **What an accepted value seals.** Each term of an interpolation or a tag parameter seals the
text that it was read from exactly if that text is complete: a literal if it begins with a quote,
an identifier if it begins with `#`. A parameter is cut so that only the end of a quoted text can
be wrong. -/
theorem Variable.seals_iff_complete (scene : Scene) :
    (∀ raw v, (interpolation scene raw).value? = some v →
      List.Forall₂ SealsIfComplete (Markup.texts raw) v.exprs) ∧
    ∀ name text tag, (Tag.read scene name text).value? = some tag →
      List.Forall₂ (fun raw v => List.Forall₂ SealsIfComplete (Markup.texts raw) v.exprs)
        ((Markup.Lexeme.lex text.toList).filterMap Markup.Lexeme.parameter?) tag.params ∧
      ∀ raw ∈ (Markup.Lexeme.lex text.toList).filterMap Markup.Lexeme.parameter?,
        ∀ quote rest, String.ofList (quote :: rest) ∈ Markup.texts raw →
          Text.isQuote quote = true →
          (Text.isComplete (quote :: rest) = true ↔
            rest.getLast? = some quote ∧ Text.endsEscaping rest.dropLast = false) := by
  constructor
  · intro raw v h
    exact seals_read h
  · intro name text tag h
    refine ⟨Tag.seals_read h, ?_⟩
    intro raw hraw quote rest htext hquote
    exact Markup.isComplete_iff hraw htext hquote

/-- The first line of a page, outside of tags. -/
def Scene.ofPage : Scene :=
  ⟨.default, none, "page", ⟨⟨"view/page"⟩, 1⟩⟩

/-- A configuration value with a default and a quoted path are sealed, their texts being
complete. -/
theorem Variable.seals_limit :
    (∃ v, (interpolation .ofPage "#limit|default:'none'").value? = some v ∧
      v.exprs = [.config "limit", .literal "'none'"] ∧
      List.Forall₂ (fun text expr => expr.Seals text.toList) ["#limit", "'none'"] v.exprs) ∧
    ∃ tag v, (Tag.read .ofPage "include" "'head'").value? = some tag ∧ tag.params = [v] ∧
      v.expr.Seals "'head'".toList := by
  constructor
  · have hread : (interpolation .ofPage "#limit|default:'none'").value? =
        some ⟨"#limit|default:'none'", "#limit", .config "limit",
          [⟨"default", some (.literal "'none'")⟩], true⟩ := by decide
    have htexts : Markup.texts "#limit|default:'none'" = ["#limit", "'none'"] := by decide
    have hseals := (Variable.seals_iff_complete .ofPage).1 "#limit|default:'none'" _ hread
    rw [htexts] at hseals
    refine ⟨_, hread, rfl, ?_⟩
    cases hseals with
    | cons hlimit hrest =>
      cases hrest with
      | cons hnone hrest => exact .cons (hlimit.2 (by decide)) (.cons (hnone.2 (by decide)) .nil)
  · have hread : (Tag.read .ofPage "include" "'head'").value? = some ⟨"include", "'head'",
        [⟨"'head'", "'head'", .literal "'head'", [], false⟩]⟩ := by decide +kernel
    have hraws : (Markup.Lexeme.lex "'head'".toList).filterMap Markup.Lexeme.parameter? =
        ["'head'"] := by decide +kernel
    have htexts : Markup.texts "'head'" = ["'head'"] := by decide
    obtain ⟨hseals, hcomplete⟩ :=
      (Variable.seals_iff_complete .ofPage).2 "include" "'head'" _ hread
    rw [hraws] at hseals hcomplete
    refine ⟨_, _, hread, rfl, ?_⟩
    cases hseals with
    | cons hfirst _ =>
      rw [htexts] at hfirst
      cases hfirst with
      | cons hhead _ =>
        have hquote : "'head'" ∈ Markup.texts "'head'" := htexts ▸ List.mem_cons_self
        have hends := hcomplete "'head'" List.mem_cons_self '\'' "head'".toList hquote (by decide)
        exact hhead.2 (hends.2 (by decide))

/-- A quoted text may go on after its second quote, a configuration name after its identifier, and
a quoted parameter may lack its end: what is accepted then is not sealed. -/
theorem Variable.exists_not_seals :
    (∃ v, (interpolation .ofPage "'a' . system('id') . 'b'").value? = some v ∧
      v.expr.render = "'a' . system('id') . 'b'" ∧ ¬ v.expr.Seals v.base.toList) ∧
    (∃ v, (interpolation .ofPage "#limit; exit()").value? = some v ∧
      v.expr.render = "$this->config->limit; exit()" ∧ ¬ v.expr.Seals v.base.toList) ∧
    ∃ tag v, (Tag.read .ofPage "include" "'head").value? = some tag ∧ tag.params = [v] ∧
      v.expr.render = "'head" ∧ ¬ v.expr.Seals v.base.toList := by
  refine ⟨?_, ?_, ?_⟩
  · refine ⟨⟨"'a' . system('id') . 'b'", "'a' . system('id') . 'b'",
      .literal "'a' . system('id') . 'b'", [], true⟩, by decide, rfl, ?_⟩
    rintro ⟨hliteral, -⟩
    revert hliteral
    decide
  · refine ⟨⟨"#limit; exit()", "#limit; exit()", .config "limit; exit()", [], true⟩, by decide,
      by decide, ?_⟩
    have hread : (Scene.ofPage.resolve "#limit; exit()" true).value? =
        some (.config "limit; exit()") := by decide
    intro hseals
    have hcomplete := (Scene.seals_iff hread).1 hseals
    revert hcomplete
    decide
  · refine ⟨⟨"include", "'head", [⟨"'head", "'head", .literal "'head", [], false⟩]⟩, _,
      by decide +kernel, rfl, rfl, ?_⟩
    rintro ⟨hliteral, -⟩
    revert hliteral
    decide

end TemplateCompiler
