import TemplateCompiler.Proofs.Value.Resolution
import TemplateCompiler.Proofs.Value.Shielded

/-!
# The escaping policy

An interpolation is written as a call of the runtime that escapes it exactly if escaping is enabled,
the filter `safe` is not in its chain, its name is not a legacy one, and its base is a path or a
numeral (`Variable.escaping_policy`). The flag of a value does not know of the last condition
(`Variable.truthful_iff`).
-/
namespace TemplateCompiler

open Markup

variable {scene : Scene} {text raw : String} {escape : Bool} {v : Variable} {expr : Code.Expr}
  {before after : List Warning}

/-! ## Calls -/

/-- The call that escapes the value of a base, as it is written. -/
def Scene.escapeCall (scene : Scene) (base value : String) : String :=
  "$this->escape(" ++ value ++ ", " ++
    Code.stringLiteral ("Found in \x7b\x7b" ++ base ++ "\x7d\x7d for " ++ scene.requested ++ " / " ++
      toString scene.location.line ++ ".") ++ ")"

/-- The term is written as a call that escapes something. -/
def Code.Expr.IsCall (expr : Code.Expr) : Prop :=
  "$this->escape(".toList <+: expr.render.toList

/-- The beginnings of terms that are not escaped: one of the two roots, or no `$` at all. -/
inductive Code.BeginsBare : List Char → Prop
  | variables (rest : List Char) : BeginsBare ("$this->vars".toList ++ rest)
  | config (rest : List Char) : BeginsBare ("$this->config->".toList ++ rest)
  | other {c : Char} (rest : List Char) (h : c ≠ '$') : BeginsBare (c :: rest)

namespace Code

theorem BeginsBare.append {front : List Char} (h : BeginsBare front) (back : List Char) :
    BeginsBare (front ++ back) := by
  cases h with
  | «variables» rest => exact List.append_assoc _ _ _ ▸ .variables _
  | config rest => exact List.append_assoc _ _ _ ▸ .config _
  | other rest h => exact .other _ h

theorem BeginsBare.not_prefix {chars : List Char} (h : BeginsBare chars) :
    ¬ "$this->escape(".toList <+: chars := by
  rintro ⟨tail, htail⟩
  cases h with
  | «variables» rest => exact absurd (congrArg (List.take 8) htail) (by simp)
  | config rest => exact absurd (congrArg (List.take 8) htail) (by simp)
  | other rest h => exact h (List.cons.inj htail).1.symm

theorem BeginsBare.not_isCall {expr : Expr} (h : BeginsBare expr.render.toList) : ¬ expr.IsCall :=
  h.not_prefix

end Code

theorem Scene.isCall_escapeCall (base value : String) :
    "$this->escape(".toList <+: (scene.escapeCall base value).toList := by
  unfold escapeCall
  rw [String.toList_append, String.toList_append, String.toList_append, String.toList_append,
    List.append_assoc, List.append_assoc, List.append_assoc]
  exact List.prefix_append _ _

/-! ## What is resolved without escaping -/

namespace Markup

theorem ne_dollar_of_isNumeral (h : isNumeral text = true) :
    ∃ c rest, text.toList = c :: rest ∧ c ≠ '$' := by
  obtain ⟨-, front, back, htext, hfront, -⟩ := Text.exists_trim text.toList
  obtain ⟨c, rest, htrim, hc⟩ := head_of_accepts h
  cases front with
  | nil =>
    refine ⟨c, rest ++ back, by rw [htext, htrim]; rfl, ?_⟩
    rintro rfl
    revert hc
    decide
  | cons blank front =>
    refine ⟨blank, _, htext, ?_⟩
    rintro rfl
    exact absurd (hfront '$' List.mem_cons_self) (by decide)

theorem ne_dollar_of_mem_operators {operator : String} (h : operator ∈ operators) :
    ∃ c rest, operator.toList = c :: rest ∧ c ≠ '$' := by
  have hall : ∀ o ∈ operators, o.toList.head?.any (· != '$') = true := by decide
  obtain ⟨c, hc, hne⟩ := (Option.any_eq_true _ _).1 (hall operator h)
  exact ⟨c, _, (List.head?_eq_some_iff.1 hc).choose_spec, bne_iff_ne.1 hne⟩

theorem Element.beginsBare_readParts {allowOperators : Bool} {start : Code.Expr}
    {parts : List (List Char)} (hstart : Code.BeginsBare start.render.toList)
    (h : readParts allowOperators text start parts = .value expr) :
    Code.BeginsBare expr.render.toList := by
  induction parts generalizing start with
  | nil =>
    obtain rfl := Element.value.inj h
    exact hstart
  | cons part rest ih =>
    rw [readParts] at h
    split at h
    · refine ih ?_ h
      rw [Code.Expr.render, Code.property, String.toList_append, String.toList_append]
      exact (hstart.append _).append _
    · split at h
      · next hoperator =>
        split at h
        · obtain ⟨c, more, hlist, hc⟩ :=
            ne_dollar_of_mem_operators (List.contains_iff_mem.1 hoperator)
          refine ih ?_ h
          rw [Code.Expr.render, hlist]
          exact .other _ hc
        · cases h
      · split at h
        · next hnumeral =>
          obtain rfl := Element.value.inj h
          obtain ⟨c, more, hlist, hc⟩ := ne_dollar_of_isNumeral hnumeral
          rw [Code.Expr.render, hlist]
          exact .other _ hc
        · cases h

theorem Element.beginsBare_read {allowOperators : Bool}
    (h : read allowOperators text = .value expr) : Code.BeginsBare expr.render.toList := by
  rw [read] at h
  split at h
  · cases h
  · cases h
  · cases h
  · refine beginsBare_readParts ?_ h
    exact .variables []

end Markup

/-- The text is one that is escaped if it is to be. -/
def Scene.IsEscapable (scene : Scene) (text : String) : Prop :=
  ∃ expr, Element.read (scene.options.allowsOperators scene.tag) text = .value expr

/-- The text is kept as it is, or nothing stands for it: it begins with a quote or `#`, or it comes
to an operator where none is allowed. -/
def Scene.IsBare (scene : Scene) (text : String) : Prop :=
  (∃ c ∈ text.toList.head?, Text.isQuote c = true ∨ c = '#') ∨
    ComesToOperator text ∧ scene.options.allowsOperators scene.tag = false

namespace Scene

open Diagnosed

/-- **Resolving with escaping** gives the call for what is escapable, and what is resolved without
escaping otherwise. -/
theorem resolve_unescaped (h : scene.resolve text escape before = .ok expr after) :
    ∃ plain, (scene.resolve text false).value? = some plain ∧
      Code.BeginsBare plain.render.toList ∧
      (scene.IsEscapable text → after = before ∧ expr = scene.shield text escape plain) ∧
      (¬ scene.IsEscapable text → expr = plain) := by
  have hread : ∃ element,
      Element.read (scene.options.allowsOperators scene.tag) text = element := ⟨_, rfl⟩
  obtain ⟨element, hread⟩ := hread
  have hnot (hne : ∀ found, element ≠ .value found) : ¬ scene.IsEscapable text := by
    rintro ⟨found, hfound⟩
    exact hne found (hread.symm.trans hfound)
  rw [resolve, hread] at h
  unfold resolve
  rw [hread]
  cases element with
  | literal kept =>
    obtain ⟨rfl, rfl⟩ := pure_eq_ok.1 h
    refine ⟨_, value?_pure.2 rfl, ?_, (absurd · (hnot fun _ => Element.noConfusion)), fun _ => rfl⟩
    unfold Element.read at hread
    split at hread
    · next hlist =>
      obtain rfl := Element.literal.inj hread
      rw [Code.Expr.render, hlist]
      exact .other _ (by decide)
    · next hlist =>
      obtain rfl := Element.literal.inj hread
      rw [Code.Expr.render, hlist]
      exact .other _ (by decide)
    · cases hread
    · have hplain : (Element.literal kept).IsPlain :=
        hread ▸ Element.isPlain_readParts _ _ _ .variables
      exact hplain.elim
  | config name =>
    obtain ⟨rfl, rfl⟩ := pure_eq_ok.1 h
    refine ⟨_, value?_pure.2 rfl, ?_, (absurd · (hnot fun _ => Element.noConfusion)), fun _ => rfl⟩
    rw [Code.Expr.render, Code.config, Code.property, String.toList_append]
    exact .config _
  | value plain =>
    refine ⟨plain, value?_pure.2 rfl, Element.beginsBare_read hread, fun _ => ?_,
      fun hno => absurd ⟨plain, hread⟩ hno⟩
    have hvalue : scene.resolve text escape before = _ := resolve_value hread before
    rw [resolve, hread, h] at hvalue
    obtain ⟨rfl, rfl⟩ := EStateM.Result.ok.inj hvalue
    exact ⟨rfl, rfl⟩
  | misplacedOperator =>
    obtain ⟨_, _, -, hpure⟩ := bind_eq_ok.1 h
    obtain ⟨rfl, -⟩ := pure_eq_ok.1 hpure
    refine ⟨.absent, value?_eq_some.2 ⟨_, rfl⟩, .other _ (by decide), (absurd · (hnot fun _ => Element.noConfusion)),
      fun _ => rfl⟩
  | invalid => cases h

end Scene

/-! ## What is escapable -/

namespace Markup

/-- The base of a path or a numeral begins with neither a quote nor `#`. -/
theorem plain_of_isPath (h : IsPath text) :
    ∀ c ∈ text.toList.head?, Text.isQuote c = false ∧ c ≠ '#' := by
  intro c hc
  obtain ⟨rest, hlist⟩ := List.head?_eq_some_iff.1 hc
  by_cases hpoint : c = '.'
  · rw [hpoint]
    decide
  · obtain ⟨first, more, hsplit⟩ := exists_splitOn_cons hpoint rest
    have hpart := isPath_iff.1 h (c :: first) (by rw [hlist, hsplit]; exact List.mem_cons_self)
    have hstarts : startsIdentifier c = true := (Bool.and_eq_true_iff.1 hpart).1
    have hother : startsIdentifier '\'' = false ∧ startsIdentifier '"' = false ∧
        startsIdentifier '#' = false := by decide
    refine ⟨Bool.eq_false_iff.2 fun hquote => ?_, ?_⟩
    · rcases (Bool.or_eq_true_iff.1 hquote).imp beq_iff_eq.1 beq_iff_eq.1 with rfl | rfl
      · exact absurd hstarts (by rw [hother.1]; exact Bool.false_ne_true)
      · exact absurd hstarts (by rw [hother.2.1]; exact Bool.false_ne_true)
    · rintro rfl
      exact absurd hstarts (by rw [hother.2.2]; exact Bool.false_ne_true)

theorem plain_of_isNumeral (htrim : Text.IsTrimmed text.toList) (h : isNumeral text = true) :
    ∀ c ∈ text.toList.head?, Text.isQuote c = false ∧ c ≠ '#' := by
  rw [isNumeral, htrim.trim] at h
  obtain ⟨d, rest, hlist, hd⟩ := head_of_accepts h
  intro c hc
  rw [hlist] at hc
  obtain rfl := Option.some.inj hc
  refine ⟨Bool.eq_false_iff.2 fun hquote => ?_, ?_⟩
  · rcases (Bool.or_eq_true_iff.1 hquote).imp beq_iff_eq.1 beq_iff_eq.1 with rfl | rfl
    all_goals exact absurd hd (by decide)
  · rintro rfl
    exact absurd hd (by decide)

variable {allowOperators : Bool} {start : Code.Expr} {parts : List (List Char)}

theorem Element.cases_of_readParts_value
    (h : readParts false text start parts = .value expr) :
    (∀ part ∈ parts, isIdentifierChars part = true) ∨ isNumeral text = true := by
  induction parts generalizing start with
  | nil => exact .inl nofun
  | cons part rest ih =>
    rw [readParts] at h
    split at h
    · next hpart => exact (ih h).imp_left fun hrest => List.forall_mem_cons.2 ⟨hpart, hrest⟩
    · split at h
      · cases h
      · split at h
        · next hnumeral => exact .inr hnumeral
        · cases h

theorem Element.comesToOperator_of_readParts
    (h : readParts allowOperators text start parts = .misplacedOperator) :
    allowOperators = false ∧ ∃ before part after, parts = before ++ part :: after ∧
      (∀ part ∈ before, isIdentifierChars part = true) ∧ String.ofList part ∈ operators := by
  induction parts generalizing start with
  | nil => cases h
  | cons part rest ih =>
    rw [readParts] at h
    split at h
    · next hpart =>
      obtain ⟨hallow, before, operator, after, rfl, hbefore, hoperator⟩ := ih h
      exact ⟨hallow, part :: before, operator, after, rfl,
        List.forall_mem_cons.2 ⟨hpart, hbefore⟩, hoperator⟩
    · split at h
      · next hoperator =>
        split at h
        · next hallow => exact absurd ((ih h).1.symm.trans hallow) Bool.false_ne_true
        · next hallow =>
          exact ⟨Bool.eq_false_iff.2 hallow, [], part, rest, rfl,
            List.forall_mem_nil _, List.contains_iff_mem.1 hoperator⟩
      · split at h
        · cases h
        · cases h

end Markup

namespace Scene

/-- Outside of tags, what is escapable is a path or a numeral. -/
theorem isEscapable_iff (htag : scene.tag = none) (htrim : Text.IsTrimmed text.toList) :
    scene.IsEscapable text ↔ IsPath text ∨ isNumeral text = true := by
  have hallow : scene.options.allowsOperators scene.tag = false := by rw [htag]; rfl
  unfold IsEscapable
  rw [hallow]
  constructor
  · rintro ⟨expr, h⟩
    rw [Element.read] at h
    split at h
    · cases h
    · cases h
    · cases h
    · exact (Element.cases_of_readParts_value h).imp_left isPath_iff.2
  · rintro (hpath | hnumeral)
    · refine ⟨(partsOf text).foldl .member .variables, ?_⟩
      rw [Element.read_of_plain (plain_of_isPath hpath), ← List.append_nil (text.toList.splitOn '.')]
      exact Element.readParts_append (isPath_iff.1 hpath)
    · obtain ⟨first, more, hsplit, hfirst, hno⟩ := exists_splitOn_of_isNumeral htrim hnumeral
      refine ⟨.numeral text, ?_⟩
      rw [Element.read_of_plain (plain_of_isNumeral htrim hnumeral), hsplit,
        Element.readParts_other hfirst hno, if_pos hnumeral]

/-- In any scene, what is resolved but not escapable is bare. -/
theorem isBare_iff (h : scene.resolve text escape before = .ok expr after) :
    scene.IsBare text ↔ ¬ scene.IsEscapable text := by
  constructor
  · rintro hbare ⟨found, hfound⟩
    rcases hbare with ⟨c, hc, hstarts⟩ | ⟨hcomes, hallow⟩
    · obtain ⟨rest, hlist⟩ := List.head?_eq_some_iff.1 hc
      rcases hstarts with hquote | rfl
      · rcases (Bool.or_eq_true_iff.1 hquote).imp beq_iff_eq.1 beq_iff_eq.1 with rfl | rfl
        all_goals
          rw [Element.read, hlist] at hfound
          cases hfound
      · rw [Element.read, hlist] at hfound
        cases hfound
    · rw [Element.read] at hfound
      split at hfound
      · cases hfound
      · cases hfound
      · cases hfound
      · obtain ⟨first, part, last, hparts, hfirst, hoperator⟩ := comesToOperator_iff.1 hcomes
        have hpart := isIdentifierChars_operator hoperator
        rw [String.toList_ofList] at hpart
        rw [hparts, Element.readParts_append hfirst, Element.readParts_operator hpart hoperator,
          hallow, if_neg Bool.false_ne_true] at hfound
        cases hfound
  · intro hnot
    by_cases hplain : ∀ c ∈ text.toList.head?, Text.isQuote c = false ∧ c ≠ '#'
    · have hread : Element.read (scene.options.allowsOperators scene.tag) text = _ :=
        Element.read_of_plain hplain
      have hshape := Element.isPlain_readParts (scene.options.allowsOperators scene.tag) text
        (text.toList.splitOn '.') .variables
      rw [resolve, hread] at h
      unfold IsEscapable at hnot
      rw [hread] at hnot
      cases hparts : Element.readParts (scene.options.allowsOperators scene.tag) text .variables
        (text.toList.splitOn '.') with
      | literal | config =>
        rw [hparts] at hshape
        exact hshape.elim
      | value found => exact absurd ⟨found, hparts⟩ hnot
      | invalid =>
        rw [hparts] at h
        cases h
      | misplacedOperator =>
        obtain ⟨hallow, hcomes⟩ := Element.comesToOperator_of_readParts hparts
        exact .inr ⟨comesToOperator_iff.2 hcomes, hallow⟩
    · refine .inl (Classical.byContradiction fun hno => hplain fun c hc => ?_)
      exact ⟨Bool.eq_false_iff.2 fun hquote => hno ⟨c, hc, .inl hquote⟩,
        fun hhash => hno ⟨c, hc, .inr hhash⟩⟩

end Scene

/-! ## Warnings that are given -/

/-- The wording of a deprecation. -/
def Warning.isDeprecation (warning : Warning) : Bool :=
  "deprecated: ".toList.isPrefixOf warning.message.toList

/-- The warning of a name that used to be written unescaped. -/
def Scene.deprecation (scene : Scene) (base : String) : Warning :=
  ⟨"deprecated: \x7b\x7b" ++ base ++ "\x7d\x7d is missing the |safe filter", scene.location⟩

namespace Diagnosed

variable {α β : Type}

/-- The warnings that are there after a reading, be it that it failed. -/
def warnings : EStateM.Result CompileError (List Warning) α → List Warning
  | .ok _ given => given
  | .error _ given => given

/-- The deprecations that a reading gives. -/
def deprecations (read : Diagnosed α) : List Warning :=
  (warnings (read [])).filter Warning.isDeprecation

/-- What is given before a reading stays, and the deprecations after it are the reading's own. -/
theorem Appends.exists_noted {read : Diagnosed α} (h : Appends read) (before : List Warning) :
    ∃ noted, warnings (read before) = before ++ noted ∧
      noted.filter Warning.isDeprecation = deprecations read := by
  refine ⟨warnings (read []), ?_, rfl⟩
  rw [h before]
  cases read [] <;> rfl

theorem deprecations_bind {read : Diagnosed α} {f : α → Diagnosed β} (hf : ∀ a, Appends (f a)) :
    deprecations (read >>= f) =
      deprecations read ++ read.value?.elim [] fun a => deprecations (f a) := by
  cases hread : read [] with
  | error error given =>
    have hvalue : read.value? = none := by
      unfold value? EStateM.run
      rw [hread]
    rw [deprecations, bind_of_error hread, deprecations, hread, hvalue]
    exact (List.append_nil _).symm
  | ok a given =>
    have hown : deprecations read = given.filter Warning.isDeprecation := by
      rw [deprecations, hread]
      rfl
    obtain ⟨noted, hnoted, hfilter⟩ := (hf a).exists_noted given
    rw [value?_eq_some.2 ⟨given, hread⟩, hown, Option.elim_some, ← hfilter, deprecations,
      bind_of_ok hread, hnoted, List.filter_append]

theorem deprecations_mapM {text? : Option String} {f : String → Diagnosed β}
    (h : ∀ text, deprecations (f text) = []) : deprecations (text?.mapM f) = [] := by
  cases text? with
  | none => rfl
  | some text =>
    change deprecations (f text >>= fun b => pure (some b)) = []
    rw [deprecations_bind fun _ => appends_pure _, h text]
    cases (f text).value? <;> rfl

end Diagnosed

open Diagnosed

theorem Scene.deprecations_resolve (scene : Scene) (text : String) (escape : Bool) :
    deprecations (scene.resolve text escape) = [] := by
  unfold resolve
  split
  · rfl
  · rfl
  · split <;> rfl
  · refine List.filter_cons_of_neg ?_
    simp [Warning.isDeprecation, String.toList_append]
  · rfl

namespace Variable

theorem deprecations_readFilters (scene : Scene) (filters : List FilterText) :
    deprecations (readFilters scene filters) = [] := by
  induction filters with
  | nil => rfl
  | cons filter rest ih =>
    rw [readFilters, deprecations_bind fun _ => (appends_readFilters scene rest).bind fun _ =>
      appends_pure _, deprecations_mapM fun text => scene.deprecations_resolve text false]
    cases (filter.argument.mapM (scene.resolve · false)).value? with
    | none => rfl
    | some argument =>
      dsimp only [Option.elim_some]
      rw [deprecations_bind fun _ => appends_pure _, ih]
      cases (readFilters scene rest).value? <;> rfl

theorem deprecations_readEscape (scene : Scene) (base : String) (escape : Bool) :
    deprecations (readEscape scene base escape) =
      if (escape && scene.options.isLegacyUnescaped base && !scene.options.debug) = true then
        [scene.deprecation base] else [] := by
  unfold readEscape
  cases escape && scene.options.isLegacyUnescaped base with
  | false => rfl
  | true =>
    rw [if_pos rfl, Bool.true_and]
    cases scene.options.debug with
    | true => rfl
    | false =>
      refine List.filter_cons_of_pos ?_
      simp [Warning.isDeprecation, String.toList_append]

/-- **A reading gives a deprecation** at most once, and only after its filters have been read. -/
theorem deprecations_read (scene : Scene) (raw : String) (escape : Bool) :
    deprecations (read scene raw escape) =
      (readFilters scene ((splitFilters raw).2.filter (·.name != "safe"))).value?.elim [] fun _ =>
        deprecations (readEscape scene (splitFilters raw).1
          (escape && (splitFilters raw).2.all (·.name != "safe"))) := by
  unfold read
  rw [deprecations_bind fun _ => (appends_readEscape scene _ _).bind fun _ =>
    (scene.appends_resolve _ _).bind fun _ => appends_pure _, deprecations_readFilters,
    List.nil_append]
  congr 1
  funext calls
  rw [deprecations_bind fun _ => (scene.appends_resolve _ _).bind fun _ => appends_pure _]
  cases (readEscape scene (splitFilters raw).1
    (escape && (splitFilters raw).2.all (·.name != "safe"))).value? with
  | none => exact List.append_nil _
  | some escape' =>
    rw [Option.elim_some, deprecations_bind fun _ => appends_pure _, scene.deprecations_resolve]
    cases (scene.resolve (splitFilters raw).1 escape').value? <;> exact List.append_nil _

/-! ## Values that are read -/

theorem readEscape_ok {base : String} {escape' : Bool}
    (h : readEscape scene base escape before = .ok escape' after) :
    escape' = (escape && !scene.options.isLegacyUnescaped base) ∧
      (escape && scene.options.isLegacyUnescaped base && scene.options.debug) = false := by
  unfold readEscape at h
  cases hlegacy : escape && scene.options.isLegacyUnescaped base with
  | true =>
    obtain ⟨rfl, hname⟩ := Bool.and_eq_true_iff.1 hlegacy
    rw [hlegacy, if_pos rfl] at h
    split at h
    · exact nomatch h
    · next hdebug =>
      obtain ⟨_, _, -, hpure⟩ := bind_eq_ok.1 h
      exact ⟨(pure_eq_ok.1 hpure).1.trans (by rw [hname]; rfl),
        (Bool.true_and _).trans (Bool.eq_false_iff.2 hdebug)⟩
  | false =>
    rw [hlegacy, if_neg Bool.false_ne_true] at h
    refine ⟨(pure_eq_ok.1 h).1.trans ?_, rfl⟩
    cases escape with
    | false => rfl
    | true => exact (congrArg (true && !·) ((Bool.true_and _).symm.trans hlegacy)).symm

/-- **What is read**: the base is resolved with escaping if it is asked for, `safe` is not in the
chain and the name is not a legacy one; asked for a legacy name, strict mode refuses. -/
theorem read_ok (h : read scene raw escape before = .ok v after) : ∃ escape' between,
    (readFilters scene ((splitFilters raw).2.filter (·.name != "safe"))).value? = some v.filters ∧
    escape' = (escape && (splitFilters raw).2.all (·.name != "safe") &&
      !scene.options.isLegacyUnescaped (splitFilters raw).1) ∧
    (escape && (splitFilters raw).2.all (·.name != "safe") &&
      scene.options.isLegacyUnescaped (splitFilters raw).1 && scene.options.debug) = false ∧
    scene.resolve (splitFilters raw).1 escape' between = .ok v.expr after ∧
    v.base = (splitFilters raw).1 ∧ v.escaped = (escape' && scene.options.escaping) := by
  unfold read at h
  obtain ⟨calls, _, hcalls, h⟩ := bind_eq_ok.1 h
  obtain ⟨escape', between, hescape, h⟩ := bind_eq_ok.1 h
  obtain ⟨expr, _, hresolve, h⟩ := bind_eq_ok.1 h
  obtain ⟨rfl, rfl⟩ := pure_eq_ok.1 h
  obtain ⟨hasked, hdebug⟩ := readEscape_ok hescape
  exact ⟨escape', between, ((appends_readFilters scene _).value hcalls).1, hasked, hdebug, hresolve, rfl, rfl⟩

end Variable

/-- A term is that of its base, in an escape call exactly if `wrapped`. -/
structure Code.Expr.IsWrappedIf (expr : Code.Expr) (scene : Scene) (base : String) (wrapped : Prop) :
    Prop where
  exists_plain : ∃ plain, (scene.resolve base false).value? = some plain ∧
    (expr.render = scene.escapeCall base plain.render ↔ wrapped) ∧ (¬ wrapped → expr = plain)
  isCall_iff : expr.IsCall ↔ wrapped

/-- **What is read is wrapped** if it is flagged as escaped and its base is escapable. -/
theorem Variable.isWrapped_read (h : read scene raw escape before = .ok v after) :
    v.expr.IsWrappedIf scene (splitFilters raw).1
      (v.escaped = true ∧ scene.IsEscapable (splitFilters raw).1) := by
  obtain ⟨escape', between, -, -, -, hresolve, -, hescaped⟩ := read_ok h
  obtain ⟨plain, hplain, hbare, hescapable, hnot⟩ := Scene.resolve_unescaped hresolve
  have hcall : v.escaped = true ∧ scene.IsEscapable (splitFilters raw).1 →
      v.expr.render = scene.escapeCall (splitFilters raw).1 plain.render := by
    rintro ⟨hflag, hbase⟩
    rw [(hescapable hbase).2, Scene.shield, ← hescaped, hflag]
    rfl
  have hbareCase : ¬ (v.escaped = true ∧ scene.IsEscapable (splitFilters raw).1) →
      v.expr = plain := by
    intro hno
    by_cases hbase : scene.IsEscapable (splitFilters raw).1
    · rw [(hescapable hbase).2, Scene.shield, ← hescaped, if_neg fun hflag => hno ⟨hflag, hbase⟩]
    · exact hnot hbase
  have hiff : v.expr.IsCall ↔ v.escaped = true ∧ scene.IsEscapable (splitFilters raw).1 := by
    constructor
    · intro hisCall
      by_contra hno
      rw [hbareCase hno] at hisCall
      exact hbare.not_isCall hisCall
    · intro hyes
      rw [Code.Expr.IsCall, hcall hyes]
      exact Scene.isCall_escapeCall _ _
  refine ⟨⟨plain, hplain, ⟨fun hrender => hiff.1 ?_, hcall⟩, hbareCase⟩, hiff⟩
  rw [Code.Expr.IsCall, hrender]
  exact Scene.isCall_escapeCall _ _

/-! ## The policy -/

theorem Options.escapes_iff {options : Options} :
    options.Escapes raw ↔ ((true && (splitFilters raw).2.all (·.name != "safe") &&
      !options.isLegacyUnescaped (splitFilters raw).1) && options.escaping) = true := by
  simp only [Escapes, Bool.true_and, Bool.and_eq_true, List.all_eq_true, bne_iff_ne, ne_eq,
    Bool.not_eq_true']
  tauto

/-- The base of an interpolation is to be wrapped in a call that escapes it. -/
def Scene.Wraps (scene : Scene) (raw : String) : Prop :=
  scene.options.Escapes raw ∧
    (IsPath (splitFilters raw).1 ∨ isNumeral (splitFilters raw).1 = true)

/-- An interpolation has a legacy name and does not say `safe`. -/
def Options.Deprecates (options : Options) (raw : String) : Prop :=
  options.isLegacyUnescaped (splitFilters raw).1 = true ∧
    ∀ filter ∈ (splitFilters raw).2, filter.name ≠ "safe"

theorem Options.deprecates_iff {options : Options} :
    options.Deprecates raw ↔ (true && (splitFilters raw).2.all (·.name != "safe") &&
      options.isLegacyUnescaped (splitFilters raw).1) = true := by
  simp only [Deprecates, Bool.true_and, Bool.and_eq_true, List.all_eq_true, bne_iff_ne, ne_eq]
  tauto

namespace Variable

theorem escaped_iff_escapes (h : interpolation scene raw before = .ok v after) :
    v.escaped = true ↔ scene.options.Escapes raw := by
  obtain ⟨escape', _, -, rfl, -, -, -, hescaped⟩ := read_ok h
  rw [hescaped, Options.escapes_iff]

theorem escaped_of_parameter (h : parameter scene raw before = .ok v after) : v.escaped = false := by
  obtain ⟨escape', _, -, rfl, -, -, -, hescaped⟩ := read_ok h
  exact hescaped

theorem deprecations_interpolation (scene : Scene) (raw : String) :
    (¬ (scene.options.Deprecates raw ∧ scene.options.debug = false) →
      deprecations (interpolation scene raw) = []) ∧
    (∀ before v after, interpolation scene raw before = .ok v after → scene.options.Deprecates raw →
      deprecations (interpolation scene raw) = [scene.deprecation (splitFilters raw).1]) := by
  have hread := deprecations_read scene raw true
  rw [deprecations_readEscape] at hread
  constructor
  · intro hno
    rw [if_neg fun hyes => hno ?_] at hread
    · refine hread.trans ?_
      cases (readFilters scene _).value? <;> rfl
    · obtain ⟨hdeprecates, hdebug⟩ := Bool.and_eq_true_iff.1 hyes
      exact ⟨Options.deprecates_iff.2 hdeprecates, Bool.not_eq_true' _ ▸ hdebug⟩
  · intro before v after h hdeprecates
    have hasked := Options.deprecates_iff.1 hdeprecates
    obtain ⟨_, _, hfilters, -, hdebug, -⟩ := read_ok h
    rw [hasked, Bool.true_and] at hdebug
    rw [hfilters, if_pos (by rw [hasked, hdebug]; rfl)] at hread
    exact hread

theorem deprecations_parameter (scene : Scene) (raw : String) :
    deprecations (parameter scene raw) = [] := by
  refine (deprecations_read scene raw false).trans ?_
  rw [deprecations_readEscape, Bool.false_and]
  cases (readFilters scene _).value? <;> rfl

/-- **The escaping policy.** Outside of tags, the base of an interpolation is wrapped in an escape
call exactly if escaping is enabled, the chain has no `safe`, the name is not a legacy one and the
base is a path or a numeral; parameters are never wrapped. Strict mode refuses legacy names without
`safe`; otherwise each that is accepted adds one deprecation, and nothing else adds any. -/
theorem escaping_policy (scene : Scene) (raw : String) (before : List Warning) :
    (∀ v after, scene.tag = none → interpolation scene raw before = .ok v after →
      v.expr.IsWrappedIf scene (splitFilters raw).1 (scene.Wraps raw)) ∧
    (∀ v after, parameter scene raw before = .ok v after →
      v.expr.IsWrappedIf scene (splitFilters raw).1 False) ∧
    (scene.options.debug = true → scene.options.Deprecates raw →
      ∀ v after, interpolation scene raw before ≠ .ok v after) ∧
    (∃ noted, warnings (interpolation scene raw before) = before ++ noted ∧
      (∀ v after, interpolation scene raw before = .ok v after → scene.options.Deprecates raw →
        noted.filter Warning.isDeprecation = [scene.deprecation (splitFilters raw).1]) ∧
      (¬ (scene.options.Deprecates raw ∧ scene.options.debug = false) →
        noted.filter Warning.isDeprecation = [])) ∧
    ∃ noted, warnings (parameter scene raw before) = before ++ noted ∧
      noted.filter Warning.isDeprecation = [] := by
  obtain ⟨hnone, hone⟩ := deprecations_interpolation scene raw
  obtain ⟨noted, hnoted, hfilter⟩ := (appends_read scene raw true).exists_noted before
  obtain ⟨noted', hnoted', hfilter'⟩ := (appends_read scene raw false).exists_noted before
  refine ⟨fun v after htag h => ?_, fun v after h => ?_, fun hdebug hdeprecates v after h => ?_,
    ⟨noted, hnoted, fun v after h hdeprecates => ?_, fun hno => hfilter.trans (hnone hno)⟩,
    noted', hnoted', hfilter'.trans (deprecations_parameter scene raw)⟩
  · have hwraps : (v.escaped = true ∧ scene.IsEscapable (splitFilters raw).1) = scene.Wraps raw :=
      propext (and_congr (escaped_iff_escapes h)
        (Scene.isEscapable_iff htag (isTrimmed_splitFilters_fst raw)))
    exact hwraps ▸ isWrapped_read h
  · have hnever : (v.escaped = true ∧ scene.IsEscapable (splitFilters raw).1) = False :=
      eq_false fun hyes => Bool.false_ne_true ((escaped_of_parameter h).symm.trans hyes.1)
    exact hnever ▸ isWrapped_read h
  · obtain ⟨_, _, -, -, hstrict, -⟩ := read_ok h
    rw [Options.deprecates_iff.1 hdeprecates, hdebug] at hstrict
    cases hstrict
  · exact hfilter.trans (hone before v after h hdeprecates)

/-- A path with a filter is wrapped. -/
theorem escaping_policy_path : ∃ v after, interpolation .ofPage "user.name|upper" [] = .ok v after ∧
    v.expr.render = "$this->escape($this->vars->user->name, " ++
      "'Found in \x7b\x7buser.name\x7d\x7d for page / 1.')" ∧ v.expr.IsCall := by
  have hread : (interpolation .ofPage "user.name|upper").value? = some ⟨"user.name|upper",
      "user.name", .escaped (.member (.var "user") "name") "user.name" "page" 1,
      [⟨"upper", none⟩], true⟩ := by decide +kernel
  have hpath : ∀ part ∈ partsOf (splitFilters "user.name|upper").1, isIdentifier part = true := by
    decide +kernel
  have hwraps : Scene.Wraps .ofPage "user.name|upper" :=
    ⟨⟨by decide, by decide +kernel, by decide +kernel⟩, .inl hpath⟩
  obtain ⟨after, hok⟩ := value?_eq_some.1 hread
  have hpolicy := (escaping_policy .ofPage "user.name|upper" []).1 _ _ rfl hok
  exact ⟨_, after, hok, by decide +kernel, hpolicy.isCall_iff.2 hwraps⟩

/-! ## The flag -/

/-- The flag of a value says whether its expression is a call that escapes its base. -/
def IsTruthful (v : Variable) (scene : Scene) : Prop :=
  v.escaped = true ↔ ∃ plain, (scene.resolve v.base false).value? = some plain ∧
    v.expr.render = scene.escapeCall v.base plain.render

theorem isTruthful_read (h : read scene raw escape before = .ok v after) :
    v.IsTruthful scene ↔ ¬ (v.escaped = true ∧ scene.IsBare (splitFilters raw).1) := by
  obtain ⟨escape', between, -, -, -, hresolve, hbase, -⟩ := read_ok h
  obtain ⟨plain, hplain, hcall, -⟩ := (isWrapped_read h).exists_plain
  have hwrapped : (∃ plain, (scene.resolve v.base false).value? = some plain ∧
      v.expr.render = scene.escapeCall v.base plain.render) ↔
      v.escaped = true ∧ scene.IsEscapable (splitFilters raw).1 := by
    rw [hbase, ← hcall]
    constructor
    · rintro ⟨other, hother, hrender⟩
      exact Option.some.inj (hplain.symm.trans hother) ▸ hrender
    · exact fun hrender => ⟨plain, hplain, hrender⟩
  rw [IsTruthful, hwrapped, Scene.isBare_iff hresolve]
  tauto

/-- **The flag of an interpolation tells the truth** unless escaping applies to it while its base is
a quoted literal, a configuration value or a misplaced operator. That of a parameter always does. -/
theorem truthful_iff (scene : Scene) (raw : String) (before after : List Warning) (v : Variable) :
    (interpolation scene raw before = .ok v after →
      (v.IsTruthful scene ↔
        ¬ (scene.options.Escapes raw ∧ scene.IsBare (splitFilters raw).1))) ∧
    (parameter scene raw before = .ok v after → v.IsTruthful scene) := by
  refine ⟨fun h => ?_, fun h => (isTruthful_read h).2 fun hyes => ?_⟩
  · rw [isTruthful_read h, escaped_iff_escapes h]
  · exact Bool.false_ne_true ((escaped_of_parameter h).symm.trans hyes.1)

/-- The flag of a path with a filter tells the truth. -/
theorem isTruthful_path : ∃ v after, interpolation .ofPage "user.name|upper" [] = .ok v after ∧
    v.escaped = true ∧ v.IsTruthful .ofPage := by
  have hread : (interpolation .ofPage "user.name|upper").value? = some ⟨"user.name|upper",
      "user.name", .escaped (.member (.var "user") "name") "user.name" "page" 1,
      [⟨"upper", none⟩], true⟩ := by decide +kernel
  have hbase : (splitFilters "user.name|upper").1 = "user.name" := by decide +kernel
  have hbare : ¬ Scene.IsBare .ofPage (splitFilters "user.name|upper").1 := by
    rw [hbase]
    rintro (⟨c, hc, hstarts⟩ | ⟨hcomes, -⟩)
    · obtain rfl : 'u' = c := Option.some.inj hc
      revert hstarts
      decide
    · have hpath : ∀ part ∈ partsOf "user.name", isIdentifier part = true := by decide +kernel
      exact not_isPath_of_comesToOperator hcomes hpath
  obtain ⟨after, hok⟩ := value?_eq_some.1 hread
  exact ⟨_, after, hok, rfl,
    ((truthful_iff .ofPage "user.name|upper" [] after _).1 hok).2 fun hyes => hbare hyes.2⟩

/-- The flag of a quoted literal says that it is escaped, and it is written as it stands. -/
theorem exists_not_isTruthful : ∃ v after, interpolation .ofPage "'x'" [] = .ok v after ∧
    v.escaped = true ∧ v.expr.render = "'x'" ∧ ¬ v.IsTruthful .ofPage := by
  have hread : (interpolation .ofPage "'x'").value? =
      some ⟨"'x'", "'x'", .literal "'x'", [], true⟩ := by decide +kernel
  obtain ⟨after, hok⟩ := value?_eq_some.1 hread
  refine ⟨_, after, hok, rfl, rfl, fun htruthful => ?_⟩
  obtain ⟨plain, -, hrender⟩ := htruthful.1 rfl
  obtain ⟨rest, hcall⟩ := Scene.ofPage.isCall_escapeCall "'x'" plain.render
  have hchars : '\'' :: "x'".toList = '$' :: ("this->escape(".toList ++ rest) :=
    (congrArg String.toList hrender).trans hcall.symm
  exact absurd (List.cons.inj hchars).1 (by decide)

end Variable

end TemplateCompiler
