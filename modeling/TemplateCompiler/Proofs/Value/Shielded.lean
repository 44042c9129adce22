import TemplateCompiler.Proofs.Transcript.Blocks
import TemplateCompiler.Proofs.Transcript.Budget
import TemplateCompiler.Proofs.Value.Sealed
import TemplateCompiler.Proofs.Value.Spans

/-!
# Escaping

An interpolation is escaped before its filters see it, and the arguments of the filters are not: in
the code that shows it, a template variable is read as the first argument of an escape call, or in
the argument of a filter, and nowhere else (`Variable.reads_shielded`).
-/
namespace TemplateCompiler

open Code

variable {σ : Type}

/-! ## What is escaped -/

open Diagnosed

/-- What is to be escaped is, unless it is a literal, a configuration value or nothing. -/
theorem Scene.isGuarded_resolve {scene : Scene} {text : String} {expr : Expr}
    (hescaping : scene.options.escaping = true)
    (h : (scene.resolve text true).value? = some expr) : expr.isGuarded = true := by
  rw [resolve] at h
  cases helement : Markup.Element.read (scene.options.allowsOperators scene.tag) text with
  | literal | config =>
    rw [helement] at h
    obtain rfl := value?_pure.1 h
    rfl
  | value found =>
    rw [helement] at h
    dsimp only at h
    rw [hescaping, Bool.and_self, if_pos rfl] at h
    obtain rfl := value?_pure.1 h
    rfl
  | misplacedOperator =>
    rw [helement] at h
    obtain ⟨_, -, h⟩ := (value?_bind fun _ => appends_pure _).1 h
    obtain rfl := value?_pure.1 h
    rfl
  | invalid =>
    rw [helement] at h
    exact absurd h value?_throw

/-- Whether an interpolation is escaped: `safe` is not among its filters, and its name is none of
those that were never escaped. -/
def Options.Escapes (options : Options) (raw : String) : Prop :=
  options.escaping = true ∧ (∀ filter ∈ (Markup.splitFilters raw).2, filter.name ≠ "safe") ∧
    options.isLegacyUnescaped (Markup.splitFilters raw).1 = false

theorem Variable.isGuarded_interpolation {scene : Scene} {raw : String} {v : Variable}
    (hescapes : scene.options.Escapes raw) (h : (interpolation scene raw).value? = some v) :
    v.expr.isGuarded = true := by
  obtain ⟨hescaping, hsafe, hlegacy⟩ := hescapes
  obtain ⟨calls, -, h⟩ := (value?_bind fun _ => (appends_readEscape scene _ _).bind fun _ =>
    (scene.appends_resolve _ _).bind fun _ => appends_pure _).1 h
  obtain ⟨escape, hescape, h⟩ := (value?_bind fun _ =>
    (scene.appends_resolve _ _).bind fun _ => appends_pure _).1 h
  obtain ⟨expr, hexpr, h⟩ := (value?_bind fun _ => appends_pure _).1 h
  obtain rfl := value?_pure.1 h
  have hall : (Markup.splitFilters raw).2.all (·.name != "safe") = true :=
    List.all_eq_true.2 fun filter hfilter => bne_iff_ne.2 (hsafe filter hfilter)
  change (readEscape scene (Markup.splitFilters raw).1
    (true && (Markup.splitFilters raw).2.all (·.name != "safe"))).value? = some escape at hescape
  rw [hall, readEscape, hlegacy] at hescape
  obtain rfl := value?_pure.1 hescape
  exact Scene.isGuarded_resolve hescaping hexpr

/-! ## Where variables are read -/

theorem Passage.isTame_spans {value : Expr} (h : value.isGuarded = true)
    (filterings : List Filtering) : ∀ span ∈ spans value filterings, span.isTame = true := by
  have hvalue := Expr.isTame_spans h
  have hfilters : ∀ span ∈ filterings.flatMap (·.spans), span.isTame = true := by
    intro span hspan
    obtain ⟨filtering, -, hspan⟩ := List.mem_flatMap.1 hspan
    exact filtering.isTame_spans span hspan
  unfold spans
  split
  · refine List.forall_mem_cons.2 ⟨by decide +kernel, List.forall_mem_append.2 ⟨hvalue, ?_⟩⟩
    exact List.forall_mem_singleton.2 (by decide +kernel)
  · refine List.forall_mem_cons.2 ⟨by decide +kernel, List.forall_mem_append.2 ⟨hvalue, ?_⟩⟩
    refine List.forall_mem_cons.2 ⟨by decide +kernel, List.forall_mem_append.2 ⟨hfilters, ?_⟩⟩
    exact List.forall_mem_singleton.2 (by decide +kernel)

/-- **Escaping**: in the code that an escaped interpolation leaves, the root of the template variables
stands in the first argument of an escape call or in the argument of a filter, text in quotes
apart. -/
theorem Variable.reads_shielded {scene : Scene} {raw : String} {v : Variable}
    (hescapes : scene.options.Escapes raw) (hread : (interpolation scene raw).value? = some v)
    (depth : Nat) (run run' : Run σ)
    (hok : v.write ((Library.standard : Library σ).dispatch depth) run = .ok ⟨⟩ run') :
    ∃ chain, Reader.filterings v.filters = some chain ∧
      Action.Writes (String.ofList ((Passage.spans v.expr chain).flatMap Span.chars)) run run' ∧
      ∀ place, RootAt ((Passage.spans v.expr chain).flatMap Span.chars) place →
        ∃ span, Span.at? (Passage.spans v.expr chain) place = some span ∧
          (span.isCode = true →
            (∃ value, span = .shielded value) ∨ ∃ value, span = .argument value) := by
  obtain ⟨chain, hchain, hwrites⟩ := write_writes (filtersMean_standard depth) hok
  refine ⟨chain, hchain, ?_, fun place => Span.exists_at? ?_⟩
  · rwa [Passage.flatMap_spans, String.ofList_toList]
  · exact Passage.isTame_spans (isGuarded_interpolation hescapes hread) chain

/-- A run in which a page is compiled. -/
def Run.ofPage : Run Unit where
  session := {
    id := "s"
    workspace := (Compiler.ofTexts []).workspace
    template := "page"
    disk := .empty
    main := ⟨"page", ⟨"cache/page"⟩, some ⟨["page", "cache"], 0, []⟩, false, false, false⟩ }
  source := {
    requested := "page"
    path := ⟨"view/page"⟩
    level := "local"
    skipped := none
    child := none
    id := 0
    line := 1 }
  memory := ⟨⟩

/-- A value with filters, one of which has an argument. -/
def Variable.withFallback : Variable :=
  ⟨"a|upper|default:b", "a", .escaped (.var "a") "a" "page" 1,
    [⟨"upper", none⟩, ⟨"default", some (.var "b")⟩], true⟩

/-- Its code. -/
def Variable.fallbackSpans : List Span :=
  Passage.spans (.escaped (.var "a") "a" "page" 1) [.upper, .fallback (.var "b")]

theorem Variable.read_withFallback :
    (interpolation .ofPage "a|upper|default:b").value? = some withFallback := by
  decide +kernel

theorem Variable.escapes_withFallback :
    Options.Escapes Scene.ofPage.options "a|upper|default:b" :=
  ⟨by decide, by decide +kernel, by decide +kernel⟩

theorem Variable.write_withFallback :
    ∃ run', withFallback.write ((Library.standard : Library Unit).dispatch 1) Run.ofPage =
        .ok ⟨⟩ run' ∧
      Reader.filterings withFallback.filters = some [.upper, .fallback (.var "b")] := by
  have hwritten : succeeds (fun _ => true)
      (withFallback.write ((Library.standard : Library Unit).dispatch 1) Run.ofPage) = true := by
    decide +kernel
  obtain ⟨_, run', hok, -⟩ := exists_of_succeeds hwritten
  exact ⟨run', hok, by decide +kernel⟩

/-- What shows the value is written, and the template variables stand in it as they may. -/
theorem Variable.reads_shielded_fallback :
    ∃ run', withFallback.write ((Library.standard : Library Unit).dispatch 1) Run.ofPage =
        .ok ⟨⟩ run' ∧
      Action.Writes (String.ofList (fallbackSpans.flatMap Span.chars)) Run.ofPage run' ∧
      ∀ place, RootAt (fallbackSpans.flatMap Span.chars) place →
        ∃ span, Span.at? fallbackSpans place = some span ∧
          (span.isCode = true →
            (∃ value, span = .shielded value) ∨ ∃ value, span = .argument value) := by
  obtain ⟨run', hok, hfilterings⟩ := write_withFallback
  obtain ⟨chain, hchain, hwrites, hroots⟩ :=
    reads_shielded escapes_withFallback read_withFallback 1 Run.ofPage run' hok
  obtain rfl := Option.some.inj (hfilterings.symm.trans hchain)
  exact ⟨run', hok, hwrites, hroots⟩

/-- The argument of a filter is read as it is, so a template variable stands in the code outside of
any escape call. -/
theorem Variable.exists_not_shielded :
    (interpolation .ofPage "a|upper|default:b").value? = some withFallback ∧
      Options.Escapes Scene.ofPage.options "a|upper|default:b" ∧
      ∃ run', withFallback.write ((Library.standard : Library Unit).dispatch 1) Run.ofPage =
          .ok ⟨⟩ run' ∧
        Action.Writes (String.ofList (fallbackSpans.flatMap Span.chars)) Run.ofPage run' ∧
        String.ofList (fallbackSpans.flatMap Span.chars) =
          "<?php $filter_var = $this->escape($this->vars->a, " ++
            "'Found in \x7b\x7ba\x7d\x7d for page / 1.'); " ++
            "$filter_var = mb_strtoupper($filter_var); " ++
            "if(empty($filter_var)) $filter_var = $this->vars->b; ?><?php echo $filter_var; ?>" ∧
        ¬ ∀ place, RootAt (fallbackSpans.flatMap Span.chars) place →
          ∃ span, Span.at? fallbackSpans place = some span ∧
            (span.isCode = true → ∃ value, span = .shielded value) := by
  obtain ⟨run', hok, hfilterings⟩ := write_withFallback
  obtain ⟨chain, hchain, hwrites⟩ := write_writes (filtersMean_standard 1) hok
  obtain rfl := Option.some.inj (hfilterings.symm.trans hchain)
  rw [← String.ofList_toList (s := Passage.showing _ _), ← Passage.flatMap_spans] at hwrites
  refine ⟨read_withFallback, escapes_withFallback, run', hok, hwrites, by decide +kernel,
    fun hall => ?_⟩
  have hroot : RootAt (fallbackSpans.flatMap Span.chars) 162 := by decide +kernel
  have hargument : Span.at? fallbackSpans 162 = some (.argument (.var "b")) := by decide +kernel
  obtain ⟨span, hspan, hcode⟩ := hall 162 hroot
  obtain rfl := Option.some.inj (hargument.symm.trans hspan)
  obtain ⟨value, hvalue⟩ := hcode rfl
  cases hvalue

end TemplateCompiler
