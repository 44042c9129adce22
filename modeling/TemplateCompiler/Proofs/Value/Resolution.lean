import TemplateCompiler.Proofs.Parameters.Splitting
import TemplateCompiler.Tag

/-!
# What bases are resolved to

The base of a value that begins with neither a quote nor `#` is resolved in exactly one of five ways
(`Resolution`), and its parts between points say in which (`Scene.resolve_cases`). An operator that
is only a part of a path would take the place of what stands before it where operators are allowed;
no base has one there, since interpolations are read outside of tags and parameters have operators
for themselves.
-/
namespace TemplateCompiler

open Markup

/-! ## Ways of resolution -/

/-- The ways in which a base is resolved. -/
inductive Resolution where
  | path
  | numeral
  | operator
  /-- An operator where none is allowed. -/
  | misplaced
  | invalid
  deriving DecidableEq, Repr

/-- The parts of a text, between its points. -/
def partsOf (text : String) : List String :=
  (text.toList.splitOn '.').map String.ofList

/-- Each part is an identifier. -/
def IsPath (text : String) : Prop :=
  ∀ part ∈ partsOf text, isIdentifier part = true

/-- The first part that is no identifier is an operator. -/
def ComesToOperator (text : String) : Prop :=
  ∃ before operator after, partsOf text = before ++ operator :: after ∧
    (∀ part ∈ before, isIdentifier part = true) ∧ operator ∈ operators

/-- How a term is written out, with the call that escapes it if it is to be escaped. -/
def Scene.shield (scene : Scene) (text : String) (escape : Bool) (expr : Code.Expr) : Code.Expr :=
  if escape && scene.options.escaping then
    .escaped expr text scene.requested scene.location.line
  else expr

/-- The warning of an operator where none is allowed. -/
def Scene.operatorWarning (scene : Scene) (text : String) : Warning :=
  ⟨"operator `" ++ text ++ "` is only supported for these tags: " ++
    String.intercalate ", " scene.options.operatorTags, scene.location⟩

/-- A reading that gives what is written as `spelled`, escaped if it is to be, and warns of
nothing. -/
def Scene.Writes (scene : Scene) (text : String) (escape : Bool) (spelled : String)
    (result : Diagnosed Code.Expr) : Prop :=
  ∃ expr : Code.Expr, expr.render = spelled ∧
    ∀ warnings, result warnings = .ok (scene.shield text escape expr) warnings

namespace Resolution

/-- When a text is resolved in each way. -/
def Applies (allowOperators : Bool) (text : String) : Resolution → Prop
  | path => IsPath text
  | numeral => isNumeral text = true
  | operator => text ∈ operators ∧ allowOperators = true
  | misplaced => ComesToOperator text ∧ allowOperators = false
  | invalid => ¬ IsPath text ∧ ¬ isNumeral text = true ∧
    ¬ (text ∈ operators ∧ allowOperators = true) ∧
    ¬ (ComesToOperator text ∧ allowOperators = false)

/-- What resolving a text in each way gives. -/
def Gives (scene : Scene) (text : String) (escape : Bool) (result : Diagnosed Code.Expr) :
    Resolution → Prop
  | path =>
    scene.Writes text escape ("$this->vars" ++ String.join ((partsOf text).map ("->" ++ ·))) result
  | numeral => scene.Writes text escape text result
  | operator => scene.Writes text escape text result
  | misplaced => ∃ expr : Code.Expr, expr.render = "null" ∧
    ∀ warnings, result warnings = .ok expr (warnings ++ [scene.operatorWarning text])
  | invalid => ∀ warnings, result warnings = .error (.invalidVariable text scene.location) warnings

end Resolution

/-- The bases that are resolved in a scene: those of interpolations, which are read outside of tags,
and those of the parameters of tags. -/
inductive Scene.HasBase (scene : Scene) : String → Prop
  | interpolation (content : String) (htag : scene.tag = none) :
    scene.HasBase (splitFilters content).1
  | parameter (params raw : String)
    (hraw : raw ∈ (Lexeme.lex params.toList).filterMap Lexeme.parameter?) :
    scene.HasBase (splitFilters raw).1

/-! ## Parts -/

namespace Markup

variable {text : List Char} {c : Char}

theorem mem_of_mem_splitOn {part : List Char} (hpart : part ∈ text.splitOn '.') (hc : c ∈ part) :
    c ∈ text := by
  induction text generalizing part with
  | nil =>
    rw [List.splitOn_nil, List.mem_singleton] at hpart
    exact hpart ▸ hc
  | cons d rest ih =>
    rw [List.splitOn_cons_eq_if_modifyHead] at hpart
    split at hpart
    · rcases List.mem_cons.1 hpart with rfl | hpart
      · cases hc
      · exact List.mem_cons_of_mem _ (ih hpart hc)
    · obtain ⟨first, more, heq⟩ := List.exists_cons_of_ne_nil (List.splitOn_ne_nil '.' rest)
      rw [heq] at ih hpart
      rcases List.mem_cons.1 hpart with rfl | hpart
      · rcases List.mem_cons.1 hc with rfl | hc
        · exact List.mem_cons_self
        · exact List.mem_cons_of_mem _ (ih List.mem_cons_self hc)
      · exact List.mem_cons_of_mem _ (ih (List.mem_cons_of_mem _ hpart) hc)

/-- The first part begins as the text does, unless a point stands there. -/
theorem exists_splitOn_cons (h : c ≠ '.') (rest : List Char) :
    ∃ first more, (c :: rest).splitOn '.' = (c :: first) :: more := by
  obtain ⟨first, more, heq⟩ := List.exists_cons_of_ne_nil (List.splitOn_ne_nil '.' rest)
  refine ⟨first, more, ?_⟩
  rw [List.splitOn_cons_eq_if_modifyHead, if_neg (by simpa using h), heq]
  rfl

section Operators

variable {operator : String} (h : operator ∈ operators)
include h

theorem splitOn_operator : operator.toList.splitOn '.' = [operator.toList] := by
  have hall : ∀ o ∈ operators, o.toList.splitOn '.' = [o.toList] := by decide
  exact hall operator h

theorem isIdentifierChars_operator : isIdentifierChars operator.toList = false := by
  have hall : ∀ o ∈ operators, isIdentifierChars o.toList = false := by decide
  exact hall operator h

theorem exists_not_isPathChar_operator : ∃ c ∈ operator.toList, Lexeme.isPathChar c = false := by
  have hall : operators.all (·.toList.any (!Lexeme.isPathChar ·)) = true := by decide
  simp only [List.all_eq_true, List.any_eq_true, Bool.not_eq_true'] at hall
  exact hall operator h

end Operators

/-- A numeral begins with a digit, a sign or a point. -/
theorem head_of_accepts (h : Text.Numeral.accepts text = true) :
    ∃ c rest, text = c :: rest ∧ (c.isDigit = true ∨ c = '+' ∨ c = '-' ∨ c = '.') := by
  cases text with
  | nil => cases h
  | cons c rest =>
    refine ⟨c, rest, rfl, ?_⟩
    by_contra hother
    obtain ⟨hdigit, hplus, hminus, hpoint⟩ :
        c.isDigit = false ∧ c ≠ '+' ∧ c ≠ '-' ∧ c ≠ '.' := by simpa using hother
    have hsign : Text.Numeral.dropSign (c :: rest) = c :: rest := by
      unfold Text.Numeral.dropSign
      split
      · next heq => exact absurd (List.cons.inj heq).1 hplus
      · next heq => exact absurd (List.cons.inj heq).1 hminus
      · rfl
    rw [Text.Numeral.accepts, hsign, Text.Numeral.isUnsigned,
      List.dropWhile_cons_of_neg (by simp [hdigit]),
      List.takeWhile_cons_of_neg (by simp [hdigit])] at h
    dsimp only at h
    split at h
    · next heq => exact absurd (List.cons.inj heq).1 hpoint
    · cases h

theorem startsIdentifier_of_isDigit (h : c.isDigit = true) : startsIdentifier c = false := by
  have hrange : 48 ≤ c.toNat ∧ c.toNat ≤ 57 := by
    have h : (decide (48 ≤ c.val) && decide (c.val ≤ 57)) = true := h
    simpa [UInt32.le_iff_toNat_le] using h
  rw [Bool.eq_false_iff]
  intro hstarts
  have hword : c.isAlpha = true ∨ c = '_' ∨ 128 ≤ c.toNat := by
    simpa [startsIdentifier, or_assoc] using hstarts
  rcases hword with halpha | rfl | hwide
  · have halpha : (decide (65 ≤ c.val ∧ c.val ≤ 90) || (97 ≤ c.val && c.val ≤ 122)) = true := halpha
    simp only [Bool.or_eq_true, Bool.and_eq_true, decide_eq_true_eq,
      UInt32.le_iff_toNat_le] at halpha
    change 65 ≤ c.toNat ∧ c.toNat ≤ 90 ∨ 97 ≤ c.toNat ∧ c.toNat ≤ 122 at halpha
    omega
  · revert hrange
    decide
  · omega

/-- Where a numeral begins, no identifier does and no operator. -/
theorem not_starts_of_numeral (h : c.isDigit = true ∨ c = '+' ∨ c = '-') :
    startsIdentifier c = false ∧ ∀ o ∈ operators, o.toList.head? ≠ some c := by
  have hheads : operators.all (·.toList.head?.all fun d => !d.isDigit && d != '+' && d != '-') =
      true := by decide
  refine ⟨?_, fun o ho hhead => ?_⟩
  · rcases h with h | rfl | rfl
    · exact startsIdentifier_of_isDigit h
    all_goals decide
  · have hother := List.all_eq_true.1 hheads o ho
    rw [hhead] at hother
    rcases h with h | rfl | rfl
    · simp [h] at hother
    all_goals cases hother

/-- The first part of a numeral is no identifier and no operator. -/
theorem exists_splitOn_of_accepts (h : Text.Numeral.accepts text = true) :
    ∃ first more, text.splitOn '.' = first :: more ∧ isIdentifierChars first = false ∧
      String.ofList first ∉ operators := by
  obtain ⟨c, rest, rfl, hc⟩ := head_of_accepts h
  by_cases hpoint : c = '.'
  · refine ⟨[], rest.splitOn '.', ?_, rfl, by decide⟩
    rw [List.splitOn_cons_eq_if_modifyHead, if_pos (by simpa using hpoint)]
  · obtain ⟨first, more, heq⟩ := exists_splitOn_cons hpoint rest
    obtain ⟨hidentifier, hoperator⟩ := not_starts_of_numeral (c := c) (by tauto)
    refine ⟨c :: first, more, heq, ?_, fun hmem => hoperator _ hmem ?_⟩
    · rw [isIdentifierChars, hidentifier, Bool.false_and]
    · rw [String.toList_ofList]
      rfl

end Markup

/-! ## Reading the parts -/

namespace Markup.Element

variable {allowOperators : Bool} {text : String} {expr : Code.Expr} {before after : List (List Char)}
  {part : List Char}

/-- A text that begins with neither a quote nor `#` is read by its parts. -/
theorem read_of_plain (h : ∀ c ∈ text.toList.head?, Text.isQuote c = false ∧ c ≠ '#') :
    read allowOperators text =
      readParts allowOperators text .variables (text.toList.splitOn '.') := by
  rw [read]
  split
  · next hlist => exact absurd (h '\'' (by rw [hlist]; rfl)).1 (by decide)
  · next hlist => exact absurd (h '"' (by rw [hlist]; rfl)).1 (by decide)
  · next hlist => exact absurd rfl (h '#' (by rw [hlist]; rfl)).2
  · rfl

/-- **Identifiers are passed over**, each adding a member. -/
theorem readParts_append (h : ∀ part ∈ before, isIdentifierChars part = true) :
    readParts allowOperators text expr (before ++ after) = readParts allowOperators text
      ((before.map String.ofList).foldl .member expr) after := by
  induction before generalizing expr with
  | nil => rfl
  | cons part before ih =>
    obtain ⟨hpart, hbefore⟩ := List.forall_mem_cons.1 h
    rw [List.cons_append, readParts, if_pos hpart, ih hbefore]
    rfl

theorem readParts_operator (hpart : isIdentifierChars part = false)
    (hoperator : String.ofList part ∈ operators) :
    readParts allowOperators text expr (part :: after) =
      if allowOperators then readParts allowOperators text (.operator (String.ofList part)) after
      else .misplacedOperator := by
  rw [readParts, hpart, if_neg Bool.false_ne_true, if_pos (List.contains_iff_mem.2 hoperator)]

theorem readParts_other (hpart : isIdentifierChars part = false)
    (hoperator : String.ofList part ∉ operators) :
    readParts allowOperators text expr (part :: after) =
      if isNumeral text then .value (.numeral text) else .invalid := by
  rw [readParts, hpart, if_neg Bool.false_ne_true,
    if_neg fun hmem => hoperator (List.contains_iff_mem.1 hmem)]

end Markup.Element

theorem Code.Expr.render_foldl_member (expr : Code.Expr) (names : List String) :
    (names.foldl .member expr).render = expr.render ++ String.join (names.map ("->" ++ ·)) := by
  induction names generalizing expr with
  | nil => exact (String.append_empty).symm
  | cons name names ih =>
    rw [List.foldl_cons, ih, List.map_cons, String.join_cons, Code.Expr.render, Code.property,
      String.append_assoc, String.append_assoc, String.append_assoc]

/-! ## Which way applies -/

section Applies

variable {text : String} {allowOperators : Bool}

theorem isPath_iff : IsPath text ↔ ∀ part ∈ text.toList.splitOn '.', isIdentifierChars part = true := by
  unfold IsPath partsOf
  rw [List.forall_mem_map]
  simp only [isIdentifier, String.toList_ofList]

theorem comesToOperator_iff : ComesToOperator text ↔ ∃ before part after,
    text.toList.splitOn '.' = before ++ part :: after ∧
      (∀ part ∈ before, isIdentifierChars part = true) ∧ String.ofList part ∈ operators := by
  unfold ComesToOperator partsOf
  constructor
  · rintro ⟨before, operator, after, hparts, hbefore, hoperator⟩
    obtain ⟨first, rest, hsplit, rfl, hrest⟩ := List.map_eq_append_iff.1 hparts
    obtain ⟨part, more, rfl, rfl, rfl⟩ := List.map_eq_cons_iff.1 hrest
    refine ⟨first, part, more, hsplit, fun other hother => ?_, hoperator⟩
    have hname := hbefore _ (List.mem_map_of_mem hother)
    rwa [isIdentifier, String.toList_ofList] at hname
  · rintro ⟨before, part, after, hsplit, hbefore, hoperator⟩
    refine ⟨before.map String.ofList, String.ofList part, after.map String.ofList, ?_, ?_, hoperator⟩
    · rw [hsplit, List.map_append, List.map_cons]
    · intro name hname
      obtain ⟨other, hother, rfl⟩ := List.mem_map.1 hname
      rw [isIdentifier, String.toList_ofList]
      exact hbefore other hother

/-- What is no path has a first part that is no identifier. -/
theorem exists_first_of_not_isPath (h : ¬ IsPath text) : ∃ before part after,
    text.toList.splitOn '.' = before ++ part :: after ∧
      (∀ part ∈ before, isIdentifierChars part = true) ∧ isIdentifierChars part = false := by
  rw [isPath_iff] at h
  have hsplit := List.takeWhile_append_dropWhile (p := isIdentifierChars) (l := text.toList.splitOn '.')
  cases hrest : (text.toList.splitOn '.').dropWhile isIdentifierChars with
  | nil => exact absurd (List.dropWhile_eq_nil_iff.1 hrest) h
  | cons part after =>
    refine ⟨_, part, after, hrest ▸ hsplit.symm, fun _ => List.mem_takeWhile_imp, ?_⟩
    have hhead := List.head?_dropWhile_not isIdentifierChars (text.toList.splitOn '.')
    rw [hrest] at hhead
    simpa using hhead

/-- The first part of a numeral that is trimmed is no identifier and no operator. -/
theorem exists_splitOn_of_isNumeral (htrim : Text.IsTrimmed text.toList)
    (h : isNumeral text = true) : ∃ first more, text.toList.splitOn '.' = first :: more ∧
      isIdentifierChars first = false ∧ String.ofList first ∉ operators := by
  rw [isNumeral, htrim.trim] at h
  exact exists_splitOn_of_accepts h

theorem not_isPath_of_isNumeral (htrim : Text.IsTrimmed text.toList) (h : isNumeral text = true) :
    ¬ IsPath text := by
  obtain ⟨first, more, hsplit, hfirst, -⟩ := exists_splitOn_of_isNumeral htrim h
  intro hpath
  rw [isPath_iff.1 hpath first (hsplit ▸ List.mem_cons_self)] at hfirst
  cases hfirst

theorem not_comesToOperator_of_isNumeral (htrim : Text.IsTrimmed text.toList)
    (h : isNumeral text = true) : ¬ ComesToOperator text := by
  obtain ⟨first, more, hsplit, hfirst, hno⟩ := exists_splitOn_of_isNumeral htrim h
  intro hcomes
  obtain ⟨before, part, after, hparts, hbefore, hoperator⟩ := comesToOperator_iff.1 hcomes
  rw [hsplit] at hparts
  cases before with
  | nil => exact hno ((List.cons.inj hparts).1 ▸ hoperator)
  | cons other before =>
    rw [(List.cons.inj hparts).1, hbefore other List.mem_cons_self] at hfirst
    cases hfirst

theorem not_isPath_of_comesToOperator (h : ComesToOperator text) : ¬ IsPath text := by
  obtain ⟨before, part, after, hparts, -, hoperator⟩ := comesToOperator_iff.1 h
  have hpart := isIdentifierChars_operator hoperator
  rw [String.toList_ofList] at hpart
  intro hpath
  rw [isPath_iff.1 hpath part (hparts ▸ List.mem_append_right _ List.mem_cons_self)] at hpart
  cases hpart

theorem comesToOperator_of_mem (h : text ∈ operators) : ComesToOperator text :=
  comesToOperator_iff.2 ⟨[], text.toList, [], splitOn_operator h, fun _ hmem => (nomatch hmem),
    String.ofList_toList.symm ▸ h⟩

/-- **At most one way applies** to a trimmed text. -/
theorem Resolution.eq_of_applies (htrim : Text.IsTrimmed text.toList) {form other : Resolution}
    (hform : form.Applies allowOperators text) (hother : other.Applies allowOperators text) :
    other = form := by
  have hnumeral : isNumeral text = true → ¬ IsPath text := not_isPath_of_isNumeral htrim
  have hapart : isNumeral text = true → ¬ ComesToOperator text :=
    not_comesToOperator_of_isNumeral htrim
  have hcomes : ComesToOperator text → ¬ IsPath text := not_isPath_of_comesToOperator
  have hoperator : text ∈ operators → ComesToOperator text := comesToOperator_of_mem
  cases form <;> cases other <;> simp only [Applies] at hform hother <;> grind

/-- **Some way applies**, that of an invalid text if no other does. -/
theorem Resolution.exists_applies (allowOperators : Bool) (text : String) :
    ∃ form : Resolution, form.Applies allowOperators text := by
  by_contra hnone
  have hno (form : Resolution) : ¬ form.Applies allowOperators text := fun h => hnone ⟨form, h⟩
  exact hno .invalid ⟨hno .path, hno .numeral, hno .operator, hno .misplaced⟩

end Applies

/-! ## What resolving gives -/

namespace Scene

open Diagnosed

variable {scene : Scene} {text : String} {escape : Bool} {expr : Code.Expr}

theorem resolve_value (h : Element.read (scene.options.allowsOperators scene.tag) text = .value expr)
    (warnings : List Warning) :
    scene.resolve text escape warnings = .ok (scene.shield text escape expr) warnings := by
  rw [resolve, h, shield]
  dsimp only
  split <;> rfl

theorem writes_of_read (expr : Code.Expr) {spelled : String} (hspelled : expr.render = spelled)
    (h : Element.read (scene.options.allowsOperators scene.tag) text = .value expr) :
    scene.Writes text escape spelled (scene.resolve text escape) :=
  ⟨expr, hspelled, resolve_value h⟩

variable (hplain : ∀ c ∈ text.toList.head?, Text.isQuote c = false ∧ c ≠ '#')
include hplain

theorem gives_path (h : IsPath text) :
    Resolution.path.Gives scene text escape (scene.resolve text escape) := by
  refine writes_of_read ((partsOf text).foldl .member .variables) ?_ ?_
  · exact Code.Expr.render_foldl_member .variables (partsOf text)
  · rw [Element.read_of_plain hplain, ← List.append_nil (text.toList.splitOn '.'),
      Element.readParts_append (isPath_iff.1 h)]
    rfl

theorem gives_numeral (htrim : Text.IsTrimmed text.toList) (h : isNumeral text = true) :
    Resolution.numeral.Gives scene text escape (scene.resolve text escape) := by
  obtain ⟨first, more, hsplit, hfirst, hno⟩ := exists_splitOn_of_isNumeral htrim h
  refine writes_of_read (.numeral text) rfl ?_
  rw [Element.read_of_plain hplain, hsplit, Element.readParts_other hfirst hno, if_pos h]

theorem gives_operator (h : text ∈ operators) (hallow : scene.options.allowsOperators scene.tag = true) :
    Resolution.operator.Gives scene text escape (scene.resolve text escape) := by
  refine writes_of_read (.operator text) rfl ?_
  have hoperator : String.ofList text.toList ∈ operators := String.ofList_toList.symm ▸ h
  rw [Element.read_of_plain hplain, splitOn_operator h,
    Element.readParts_operator (isIdentifierChars_operator h) hoperator, hallow, if_pos rfl,
    String.ofList_toList]
  rfl

theorem gives_misplaced (h : ComesToOperator text)
    (hallow : scene.options.allowsOperators scene.tag = false) :
    Resolution.misplaced.Gives scene text escape (scene.resolve text escape) := by
  obtain ⟨before, part, after, hparts, hbefore, hoperator⟩ := comesToOperator_iff.1 h
  have hpart := isIdentifierChars_operator hoperator
  rw [String.toList_ofList] at hpart
  have hread : Element.read (scene.options.allowsOperators scene.tag) text = .misplacedOperator := by
    rw [Element.read_of_plain hplain, hparts, Element.readParts_append hbefore,
      Element.readParts_operator hpart hoperator, hallow, if_neg Bool.false_ne_true]
  refine ⟨.absent, rfl, fun warnings => ?_⟩
  rw [resolve, hread]
  rfl

theorem gives_invalid (hnumeral : ¬ isNumeral text = true) (hpath : ¬ IsPath text)
    (hoperator : ¬ ComesToOperator text) :
    Resolution.invalid.Gives scene text escape (scene.resolve text escape) := by
  obtain ⟨before, part, after, hparts, hbefore, hpart⟩ := exists_first_of_not_isPath hpath
  have hno : String.ofList part ∉ operators := fun hmem =>
    hoperator (comesToOperator_iff.2 ⟨before, part, after, hparts, hbefore, hmem⟩)
  have hread : Element.read (scene.options.allowsOperators scene.tag) text = .invalid := by
    rw [Element.read_of_plain hplain, hparts, Element.readParts_append hbefore,
      Element.readParts_other hpart hno, if_neg hnumeral]
  intro warnings
  rw [resolve, hread]
  rfl

end Scene

/-! ## Bases -/

namespace Scene

variable {scene : Scene} {text : String} {escape : Bool}

theorem HasBase.isTrimmed (h : scene.HasBase text) : Text.IsTrimmed text.toList := by
  cases h with
  | interpolation content _ => exact isTrimmed_splitFilters_fst content
  | parameter params raw _ => exact isTrimmed_splitFilters_fst raw

/-- The base of a parameter begins with a quote, or it is an operator or made of path characters. -/
theorem base_cases {params raw : String}
    (hraw : raw ∈ (Lexeme.lex params.toList).filterMap Lexeme.parameter?) :
    (∃ c ∈ (splitFilters raw).1.toList.head?, Text.isQuote c = true) ∨
      (splitFilters raw).1 ∈ operators ∨
      ∀ c ∈ (splitFilters raw).1.toList, Lexeme.isPathChar c = true := by
  obtain ⟨lexeme, hlexeme, hparameter⟩ := List.mem_filterMap.1 hraw
  obtain ⟨reading, -, hreads⟩ := Lexeme.exists_reads_of_mem_lex hlexeme
  cases hreads with
  | blank c hblank => cases hparameter
  | skipped c hblank hquote hpath => cases hparameter
  | operator operator hmem =>
    obtain rfl := Option.some.inj hparameter
    rw [String.ofList_toList, splitFilters_operator hmem]
    exact .inr (.inl hmem)
  | value written hne hbase hfilters =>
    obtain rfl := Option.some.inj hparameter
    have hquoted {quote : Char} {rest : List Char} (hquote : Text.isQuote quote = true)
        (hstarts : written.base = quote :: rest) :
        ∃ c ∈ (splitFilters (String.ofList written.text)).1.toList.head?, Text.isQuote c = true := by
      refine ⟨quote, ?_, hquote⟩
      rw [WrittenParameter.text, hstarts, List.cons_append]
      exact head?_splitFilters_fst hquote _
    rcases hbase with (hpath | ⟨quote, body, hquote, -, hstarts⟩) | ⟨quote, rest, hquote, -, hstarts⟩
    · rw [splitFilters_text_fst (.inl hpath), String.toList_ofList]
      exact .inr (.inr hpath)
    · exact .inl (hquoted hquote hstarts)
    · exact .inl (hquoted hquote hstarts)

/-- Where operators are allowed, a base that comes to one is one. -/
theorem HasBase.mem_operators (h : scene.HasBase text)
    (hplain : ∀ c ∈ text.toList.head?, Text.isQuote c = false ∧ c ≠ '#')
    (hallow : scene.options.allowsOperators scene.tag = true) (hcomes : ComesToOperator text) :
    text ∈ operators := by
  cases h with
  | interpolation content htag =>
    rw [htag] at hallow
    cases hallow
  | parameter params raw hraw =>
    rcases base_cases hraw with ⟨c, hc, hquote⟩ | hmem | hpath
    · rw [(hplain c hc).1] at hquote
      cases hquote
    · exact hmem
    · obtain ⟨before, part, after, hparts, -, hoperator⟩ := comesToOperator_iff.1 hcomes
      obtain ⟨c, hc, hother⟩ := exists_not_isPathChar_operator hoperator
      rw [String.toList_ofList] at hc
      have hpart := hparts ▸ List.mem_append_right before List.mem_cons_self
      rw [hpath c (mem_of_mem_splitOn hpart hc)] at hother
      cases hother

/-- A base is resolved in any way that applies to it. -/
theorem HasBase.gives (h : scene.HasBase text)
    (hplain : ∀ c ∈ text.toList.head?, Text.isQuote c = false ∧ c ≠ '#') (escape : Bool)
    {form : Resolution} (hform : form.Applies (scene.options.allowsOperators scene.tag) text) :
    form.Gives scene text escape (scene.resolve text escape) := by
  cases form with
  | path => exact gives_path hplain hform
  | numeral => exact gives_numeral hplain h.isTrimmed hform
  | operator => exact gives_operator hplain hform.1 hform.2
  | misplaced => exact gives_misplaced hplain hform.1 hform.2
  | invalid =>
    obtain ⟨hpath, hnumeral, hoperator, hmisplaced⟩ := hform
    refine gives_invalid hplain hnumeral hpath fun hcomes => ?_
    cases hallow : scene.options.allowsOperators scene.tag with
    | true => exact hoperator ⟨h.mem_operators hplain hallow hcomes, hallow⟩
    | false => exact hmisplaced ⟨hcomes, hallow⟩

/-- **Resolving accepts exactly its grammar.** A base that begins with neither a quote nor `#` is
resolved in the one way that applies to it, and gives what that way says: a member of the template
variables, the base itself, `null` with one warning, or an error at the current place. -/
theorem resolve_cases (h : scene.HasBase text)
    (hplain : ∀ c ∈ text.toList.head?, Text.isQuote c = false ∧ c ≠ '#') (escape : Bool) :
    ∃ form : Resolution,
      (∀ other : Resolution,
        other.Applies (scene.options.allowsOperators scene.tag) text ↔ other = form) ∧
      form.Gives scene text escape (scene.resolve text escape) := by
  obtain ⟨form, hform⟩ :=
    Resolution.exists_applies (scene.options.allowsOperators scene.tag) text
  refine ⟨form, fun other => ⟨Resolution.eq_of_applies h.isTrimmed hform, ?_⟩,
    h.gives hplain escape hform⟩
  rintro rfl
  exact hform

theorem resolve_cases_member : ∃ expr : Code.Expr, expr.render = "$this->vars->user->name" ∧
    Scene.resolve ⟨Options.default, some "if", "page", ⟨⟨"/site/page.html"⟩, 3⟩⟩ "user.name" false [] =
      .ok expr [] := by
  have hraw : "user.name|upper" ∈
      (Lexeme.lex "user.name|upper == 2".toList).filterMap Lexeme.parameter? := by decide +kernel
  have hbase : Scene.HasBase ⟨Options.default, some "if", "page", ⟨⟨"/site/page.html"⟩, 3⟩⟩
      "user.name" := .parameter _ _ hraw
  have hplain : ∀ c ∈ "user.name".toList.head?, Text.isQuote c = false ∧ c ≠ '#' := by
    intro c hc
    obtain rfl : 'u' = c := Option.some.inj hc
    decide
  have hpath : ∀ part ∈ partsOf "user.name", isIdentifier part = true := by decide
  obtain ⟨form, happlies, hgives⟩ := resolve_cases hbase hplain false
  obtain rfl := (happlies .path).1 hpath
  obtain ⟨expr, hrender, hresult⟩ := hgives
  exact ⟨expr, hrender, hresult []⟩

end Scene

end TemplateCompiler
