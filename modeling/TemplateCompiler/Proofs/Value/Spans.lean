import TemplateCompiler.Proofs.Transcript.Passage

/-!
# Spans of code

The code that shows a value is made of spans: text of the compiler's own, what the template quoted,
and values, which stand bare, as the first argument of an escape call, or as the argument of a
filter (`Passage.spans`). Where the root of the template variables occurs in the code, one of these
spans has it, and never one of the compiler's own (`Span.exists_at?`).
-/
namespace TemplateCompiler.Code

/-- A span of emitted code. -/
inductive Span where
  /-- Code of the compiler's own. -/
  | own (text : String)
  /-- A string that the compiler quotes. -/
  | note (text : String)
  /-- A literal as the template wrote it, or the name of a configuration value. -/
  | quoted (text : String)
  /-- A value as it is. -/
  | bare (value : Expr)
  /-- The first argument of an escape call. -/
  | shielded (value : Expr)
  /-- The argument of a filter. -/
  | argument (value : Expr)
  deriving DecidableEq, Repr

namespace Span

/-- The characters of a span. -/
def chars : Span → List Char
  | own text | quoted text => text.toList
  | note text => (stringLiteral text).toList
  | bare value | shielded value | argument value => value.render.toList

/-- Whether the span is code, and no text in quotes. -/
def isCode : Span → Bool
  | note _ | quoted _ => false
  | _ => true

/-- The span at a place of the code. -/
def at? : List Span → Nat → Option Span
  | [], _ => none
  | span :: rest, place =>
    if place < span.chars.length then some span else at? rest (place - span.chars.length)

end Span

/-! ## The spans of a value -/

/-- The spans of a value that is shown. -/
def Expr.spans : Expr → List Span
  | escaped value raw requested line =>
    [.own "$this->escape(", .shielded value, .own ", ", .note (foundIn raw requested line),
      .own ")"]
  | literal text => [.quoted text]
  | config name => [.own (configRoot ++ "->"), .quoted name]
  | absent => [.own "null"]
  | value => [.bare value]

/-- The spans of a filter. -/
def Filtering.spans : Filtering → List Span
  | fallback value =>
    [.own ("if(empty(" ++ filterSlot ++ ")) " ++ filterSlot ++ " = "), .argument value, .own "; "]
  | join separator =>
    [.own (filterSlot ++ " = " ++ "implode("), .argument separator,
      .own (", (array) " ++ filterSlot ++ ")" ++ "; ")]
  | truncate limit =>
    [.own ("if(mb_strlen(" ++ filterSlot ++ ") > "), .argument limit,
      .own (") " ++ filterSlot ++ " = " ++ "mb_substr(" ++ filterSlot ++ ", 0, "), .argument limit,
      .own (").'...'" ++ "; ")]
  | date format =>
    [.own (filterSlot ++ " = " ++ "date("), .argument format,
      .own (", is_numeric(" ++ filterSlot ++ ") ? " ++ filterSlot ++ " : strtotime(" ++
        filterSlot ++ "))" ++ "; ")]
  | add amount =>
    [.own (filterSlot ++ " = " ++ filterSlot ++ " + "), .argument amount, .own "; "]
  | filtering => [.own filtering.render]

theorem Expr.flatMap_spans (value : Expr) :
    value.spans.flatMap Span.chars = value.render.toList := by
  cases value with
  | escaped value raw requested line =>
    show "$this->escape(".toList ++ (value.render.toList ++ (", ".toList ++
      ((stringLiteral (foundIn raw requested line)).toList ++ (")".toList ++ [])))) =
      ("$this->escape(" ++ value.render ++ ", " ++ stringLiteral (foundIn raw requested line) ++
        ")").toList
    simp only [String.toList_append, List.append_assoc, List.append_nil]
  | config name =>
    show (configRoot ++ "->").toList ++ (name.toList ++ []) = (configRoot ++ "->" ++ name).toList
    simp only [String.toList_append, List.append_nil]
  | _ => exact List.flatMap_singleton _ _

/-- The characters of an argument between code of the compiler's own. -/
theorem Span.flatMap_argument (before after : String) (value : Expr) (rest : List Span) :
    (own before :: argument value :: own after :: rest).flatMap chars =
      (before ++ value.render ++ after).toList ++ rest.flatMap chars := by
  show before.toList ++ (value.render.toList ++ (after.toList ++ rest.flatMap chars)) = _
  simp only [String.toList_append, List.append_assoc]

theorem Filtering.flatMap_spans (filtering : Filtering) :
    filtering.spans.flatMap Span.chars = filtering.render.toList := by
  cases filtering with
  | fallback value =>
    refine (Span.flatMap_argument _ _ value []).trans ?_
    show _ = ("if(empty(" ++ filterSlot ++ ")) " ++ (filterSlot ++ " = " ++ value.render ++
      "; ")).toList
    simp only [List.flatMap_nil, List.append_nil, String.append_assoc]
  | join separator =>
    refine (Span.flatMap_argument _ _ separator []).trans ?_
    show _ = (filterSlot ++ " = " ++ ("implode(" ++ separator.render ++ ", (array) " ++ filterSlot ++
      ")") ++ "; ").toList
    simp only [List.flatMap_nil, List.append_nil, String.append_assoc]
  | truncate limit =>
    refine (Span.flatMap_argument _ _ limit _).trans ?_
    show _ ++ (limit.render.toList ++ ((").'...'" ++ "; ").toList ++ [])) =
      ("if(mb_strlen(" ++ filterSlot ++ ") > " ++ limit.render ++ ") " ++ (filterSlot ++ " = " ++
        ("mb_substr(" ++ filterSlot ++ ", 0, " ++ limit.render ++ ").'...'") ++ "; ")).toList
    simp only [String.toList_append, List.append_assoc, List.append_nil]
  | date format =>
    refine (Span.flatMap_argument _ _ format []).trans ?_
    show _ = (filterSlot ++ " = " ++ ("date(" ++ format.render ++ ", is_numeric(" ++ filterSlot ++
      ") ? " ++ filterSlot ++ " : strtotime(" ++ filterSlot ++ "))") ++ "; ").toList
    simp only [List.flatMap_nil, List.append_nil, String.append_assoc]
  | add amount =>
    refine (Span.flatMap_argument _ _ amount []).trans ?_
    show _ = (filterSlot ++ " = " ++ (filterSlot ++ " + " ++ amount.render) ++ "; ").toList
    simp only [List.flatMap_nil, List.append_nil, String.append_assoc]
  | _ => exact List.flatMap_singleton _ _

/-! ## Where the template variables are read -/

/-- Whether the root of the template variables stands at a place. -/
def RootAt (text : List Char) (place : Nat) : Prop :=
  variablesRoot.toList <+: text.drop place

instance (text : List Char) (place : Nat) : Decidable (RootAt text place) :=
  inferInstanceAs (Decidable (_ <+: _))

/-- Whether the root begins nowhere in a text, whatever follows it. -/
def isRootless : List Char → Bool
  | [] => true
  | c :: rest =>
    !(variablesRoot.toList.isPrefixOf (c :: rest)) &&
      !((c :: rest).isPrefixOf variablesRoot.toList) && isRootless rest

theorem length_le_of_rootAt {text more : List Char} {place : Nat} (h : isRootless text = true)
    (hroot : RootAt (text ++ more) place) : text.length ≤ place := by
  induction text generalizing place with
  | nil => exact Nat.zero_le _
  | cons c rest ih =>
    simp only [isRootless, Bool.and_eq_true, Bool.not_eq_true', ← Bool.not_eq_true,
      List.isPrefixOf_iff_prefix] at h
    obtain ⟨⟨hnot, hnot'⟩, hrest⟩ := h
    cases place with
    | zero =>
      have hroot' : variablesRoot.toList <+: (c :: rest) ++ more := hroot
      rcases List.prefix_or_prefix_of_prefix hroot' (List.prefix_append (c :: rest) more) with
        hprefix | hprefix
      · exact absurd hprefix hnot
      · exact absurd hprefix hnot'
    | succ place => exact Nat.succ_le_succ (ih hrest hroot)

namespace Span

/-- Whether a span is no bare value, and has no root in it if it is the compiler's own. -/
def isTame : Span → Bool
  | own text => isRootless text.toList
  | bare _ => false
  | _ => true

/-- **Every root is in a span** that is not the compiler's own. -/
theorem exists_at? {spans : List Span} (h : ∀ span ∈ spans, span.isTame = true) {place : Nat}
    (hroot : RootAt (spans.flatMap chars) place) :
    ∃ span, at? spans place = some span ∧
      (span.isCode = true → (∃ value, span = .shielded value) ∨ ∃ value, span = .argument value) := by
  induction spans generalizing place with
  | nil =>
    rw [RootAt, List.flatMap_nil, List.drop_nil, List.prefix_nil] at hroot
    exact absurd hroot (by decide)
  | cons span rest ih =>
    obtain ⟨htame, hrest⟩ := List.forall_mem_cons.1 h
    rw [List.flatMap_cons] at hroot
    rw [at?]
    by_cases hplace : place < span.chars.length
    · rw [if_pos hplace]
      refine ⟨span, rfl, fun hcode => ?_⟩
      cases span with
      | own text => exact absurd hplace (Nat.not_lt.2 (length_le_of_rootAt htame hroot))
      | note | quoted => cases hcode
      | bare => cases htame
      | shielded value => exact .inl ⟨value, rfl⟩
      | argument value => exact .inr ⟨value, rfl⟩
    · rw [if_neg hplace]
      refine ih hrest ?_
      have hpast := Nat.le_of_not_gt hplace
      rwa [RootAt, List.drop_append, List.drop_eq_nil_of_le hpast, List.nil_append] at hroot

end Span

/-- Whether a value is escaped, or has nothing of a template variable. -/
def Expr.isGuarded : Expr → Bool
  | escaped .. | literal _ | config _ | absent => true
  | _ => false

theorem Expr.isTame_spans {value : Expr} (h : value.isGuarded = true) :
    ∀ span ∈ value.spans, span.isTame = true := by
  cases value with
  | literal text => exact List.forall_mem_singleton.2 rfl
  | escaped | config | absent =>
    simp only [spans, List.forall_mem_cons, List.not_mem_nil, false_implies, implies_true, and_true,
      Span.isTame]
    decide +kernel
  | _ => cases h

/-- The filters themselves read no template variables. -/
theorem Filtering.isTame_spans (filtering : Filtering) :
    ∀ span ∈ filtering.spans, span.isTame = true := by
  cases filtering <;>
    simp only [Filtering.spans, List.forall_mem_cons, List.not_mem_nil, false_implies,
      implies_true, and_true, Span.isTame] <;> decide +kernel

end TemplateCompiler.Code

namespace TemplateCompiler

open Code

/-- The spans of the code that shows a value. -/
def Passage.spans (value : Expr) (filterings : List Filtering) : List Span :=
  if filterings.isEmpty then
    .own (segmentOpen ++ "echo ") :: (value.spans ++ [.own (";" ++ segmentClose)])
  else
    .own (segmentOpen ++ filterSlot ++ " = ") :: (value.spans ++ .own "; " ::
      (filterings.flatMap (·.spans) ++
        [.own (chainClose ++ (Statement.echo .filterSlot).render)]))

/-- The spans make up the code. -/
theorem Passage.flatMap_spans (value : Expr) (filterings : List Filtering) :
    (spans value filterings).flatMap Span.chars = (showing value filterings).toList := by
  have hfilters : (filterings.flatMap (·.spans)).flatMap Span.chars =
      (String.join (filterings.map (·.render))).toList := by
    induction filterings with
    | nil => rfl
    | cons filtering filterings ih =>
      rw [List.flatMap_cons, List.flatMap_append, ih, filtering.flatMap_spans, List.map_cons,
        String.join_cons, String.toList_append]
  unfold spans showing
  split
  · rw [List.flatMap_cons, List.flatMap_append, value.flatMap_spans]
    show _ ++ (_ ++ ((";" ++ segmentClose).toList ++ [])) =
      (segmentOpen ++ ("echo " ++ value.render ++ ";") ++ segmentClose).toList
    simp only [Span.chars, String.toList_append, List.append_assoc, List.append_nil]
  · rw [List.flatMap_cons, List.flatMap_append, List.flatMap_cons, List.flatMap_append,
      value.flatMap_spans, hfilters]
    show _ ++ (_ ++ (_ ++ (_ ++ ((chainClose ++ (Statement.echo .filterSlot).render).toList ++
      [])))) = (segmentOpen ++ (filterSlot ++ " = " ++ value.render ++ "; ") ++
        String.join (filterings.map (·.render)) ++ chainClose ++
          (Statement.echo .filterSlot).render).toList
    simp only [Span.chars, String.toList_append, List.append_assoc, List.append_nil]

end TemplateCompiler
