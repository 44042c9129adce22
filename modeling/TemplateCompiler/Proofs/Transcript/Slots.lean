import TemplateCompiler.Proofs.Text.Words
import TemplateCompiler.Proofs.Transcript.Course

/-!
# Parameter slots

The name of a slot is read as the slot (`Variable.parameter_slotName`), so the parameters that a tag is
given after its slots have been filled are the ones that it was written with, but for those slots.
-/
namespace TemplateCompiler

/-! ## Slots -/

theorem Code.toList_slotName (n : Nat) :
    (Code.slotName n).toList = "__tmp".toList ++ Nat.toDigits 10 n := by
  rw [Code.slotName, String.toList_append]
  exact congrArg _ Nat.toList_repr

theorem Code.isWordChar_slotName (n : Nat) :
    ∀ c ∈ (Code.slotName n).toList, Text.isWordChar c = true := by
  intro c hc
  rw [Code.toList_slotName, List.mem_append] at hc
  rcases hc with hc | hc
  · have hall : "__tmp".toList.all Text.isWordChar = true := by decide
    exact List.all_eq_true.1 hall c hc
  · have hdigit := Nat.isDigit_of_mem_toDigits (by decide) (by decide) hc
    simp [Text.isWordChar, Char.isAlphanum, hdigit]

/-- A slot as a parameter. -/
def Variable.ofSlot (n : Nat) : Variable :=
  ⟨Code.slotName n, Code.slotName n, .slot n, [], false⟩

theorem Markup.splitFilters_slotName (n : Nat) :
    Markup.splitFilters (Code.slotName n) = (Code.slotName n, []) := by
  have hword := Code.isWordChar_slotName n
  unfold Markup.splitFilters
  rw [Text.splitUnquoted_word (by decide) hword]
  dsimp only
  rw [Text.trim_word hword, String.ofList_toList]
  rfl

theorem Markup.read_slotName (allowOperators : Bool) (n : Nat) :
    Markup.Element.read allowOperators (Code.slotName n) = .value (.slot n) := by
  have hword := Code.isWordChar_slotName n
  have hlist : (Code.slotName n).toList = '_' :: ("_tmp".toList ++ Nat.toDigits 10 n) :=
    Code.toList_slotName n
  have hidentifier : Markup.isIdentifierChars (Code.slotName n).toList = true := by
    rw [hlist]
    simp only [isIdentifierChars, Bool.and_eq_true, List.all_eq_true]
    refine ⟨by decide, fun c hc => ?_⟩
    have hc := hword c (hlist ▸ List.mem_cons_of_mem _ hc)
    simp only [Text.isWordChar, Char.isAlphanum, Bool.or_eq_true] at hc
    simp only [continuesIdentifier, startsIdentifier, Bool.or_eq_true]
    tauto
  have hpieces : (Code.slotName n).toList.splitOn '.' = [(Code.slotName n).toList] :=
    List.splitOn_eq_singleton fun hmem => Text.ne_of_isWordChar (hword _ hmem) (by decide) rfl
  have hparts : Markup.Element.readParts allowOperators (Code.slotName n) .variables
      [(Code.slotName n).toList] = .value (.slot n) := by
    unfold Element.readParts
    rw [hidentifier, if_pos rfl, String.ofList_toList]
    rfl
  have hread : Markup.Element.read allowOperators (Code.slotName n) =
      Markup.Element.readParts allowOperators (Code.slotName n) .variables
        ((Code.slotName n).toList.splitOn '.') := by
    unfold Element.read
    rw [hlist]
    rfl
  rw [hread, hpieces, hparts]

/-- **The name of a slot is read as the slot**, with nothing to be said about it. -/
theorem Variable.parameter_slotName (scene : Scene) (n : Nat) :
    Variable.parameter scene (Code.slotName n) = pure (.ofSlot n) := by
  have hresolve : scene.resolve (Code.slotName n) false = pure (.slot n) := by
    unfold Scene.resolve
    rw [Markup.read_slotName]
    rfl
  unfold Variable.parameter Variable.read
  rw [Markup.splitFilters_slotName]
  show (scene.resolve (Code.slotName n) false >>= fun expr =>
    (pure ⟨Code.slotName n, Code.slotName n, expr, [], false⟩ : Diagnosed Variable)) = _
  rw [hresolve]
  rfl

theorem Variable.value?_slot (scene : Scene) (n : Nat) :
    (Variable.parameter scene (Code.slotName n)).value? = some (.ofSlot n) := by
  rw [parameter_slotName]
  rfl

/-! ## Filling -/

namespace Reader

/-- A parameter once it has been filled: itself, or the slot that was filled for it. -/
inductive Fills : List Variable → List Fill → List Variable → Prop
  | nil : Fills [] [] []
  | plain {param : Variable} {rest params : List Variable} {fills : List Fill}
    (hfilters : param.hasFilters = false) (h : Fills rest fills params) :
    Fills (param :: rest) fills (param :: params)
  | filled {param : Variable} {rest params : List Variable} {fills : List Fill}
    {chain : List Code.Filtering} {slot : Nat} (hfilters : param.hasFilters = true)
    (hchain : filterings param.filters = some chain) (h : Fills rest fills params) :
    Fills (param :: rest) (⟨slot, param.expr, chain⟩ :: fills) (.ofSlot slot :: params)

/-- **Filling**: the slots are handed out in order, one for each parameter that has filters. -/
theorem fills_of_fill {scene : Scene} {slots more : Nat} {written params : List Variable}
    {fills : List Fill} (h : fill scene slots written = some (fills, params, more)) :
    Fills written fills params ∧ fills.map (·.slot) = List.range' slots fills.length ∧
      more = slots + fills.length := by
  induction written generalizing slots fills params with
  | nil =>
    obtain ⟨rfl, hrest⟩ := Prod.mk.inj (Option.some.inj h)
    obtain ⟨rfl, rfl⟩ := Prod.mk.inj hrest
    exact ⟨.nil, rfl, rfl⟩
  | cons param rest ih =>
    unfold fill at h
    split at h
    · next hfilters =>
      obtain ⟨chain, hchain, h⟩ := Option.bind_eq_some_iff.1 h
      obtain ⟨slot, hslot, h⟩ := Option.bind_eq_some_iff.1 h
      obtain ⟨⟨others, params', more'⟩, hrest, h⟩ := Option.bind_eq_some_iff.1 h
      obtain ⟨rfl, heq⟩ := Prod.mk.inj (Option.some.inj h)
      obtain ⟨rfl, rfl⟩ := Prod.mk.inj heq
      obtain ⟨hfills, hslots, rfl⟩ := ih hrest
      rw [Variable.value?_slot] at hslot
      obtain rfl := Option.some.inj hslot
      refine ⟨.filled hfilters hchain hfills, ?_, ?_⟩
      · rw [List.map_cons, hslots]
        rfl
      · simp only [List.length_cons]
        omega
    · next hfilters =>
      obtain ⟨⟨others, params', more'⟩, hrest, h⟩ := Option.bind_eq_some_iff.1 h
      obtain ⟨rfl, heq⟩ := Prod.mk.inj (Option.some.inj h)
      obtain ⟨rfl, rfl⟩ := Prod.mk.inj heq
      obtain ⟨hfills, hslots, rfl⟩ := ih hrest
      exact ⟨.plain (Bool.eq_false_iff.2 hfilters) hfills, hslots, rfl⟩

/-- A slot is not quoted. -/
theorem unquoted?_ofSlot (n : Nat) : (Variable.ofSlot n).unquoted? = none := by
  have hquoted : Text.isQuoted (Code.slotName n).toList = false := by
    unfold Text.isQuoted
    cases hlist : (Code.slotName n).toList with
    | nil => rfl
    | cons c rest =>
      have hword := Code.isWordChar_slotName n c (hlist ▸ List.mem_cons_self)
      simp [Text.isQuote_of_isWordChar hword]
  unfold Variable.unquoted?
  rw [show (Variable.ofSlot n).base = Code.slotName n from rfl, hquoted]
  rfl

/-- The path of another template has no filters. -/
theorem fills_quotedPath {tag : Tag} {written : List Variable} {fills : List Fill} {path : String}
    (h : Fills written fills tag.params) (hpath : quotedPath tag = some path) : fills = [] := by
  unfold quotedPath at hpath
  split at hpath
  · next param hparams =>
    rw [hparams] at h
    cases h with
    | plain hfilters h =>
      cases h
      rfl
    | @filled _ _ _ _ _ slot =>
      rw [unquoted?_ofSlot] at hpath
      cases hpath
  · cases hpath

end Reader

end TemplateCompiler
