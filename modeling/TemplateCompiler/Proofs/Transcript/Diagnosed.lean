import TemplateCompiler.Proofs.Outcome
import TemplateCompiler.Proofs.Transcript.Reader

/-!
# Readings and their warnings

What a reading gives does not depend on the warnings that were given before it, and it leaves them
in front of its own (`Diagnosed.Appends`). So its value can be had without them.
-/
namespace TemplateCompiler

variable {α β : Type}

/-- The result with earlier warnings in front of those it came with. -/
def Diagnosed.after (before : List Warning) :
    EStateM.Result CompileError (List Warning) α → EStateM.Result CompileError (List Warning) α
  | .ok a more => .ok a (before ++ more)
  | .error error more => .error error (before ++ more)

/-- A reading that only adds warnings, whatever there were before. -/
def Diagnosed.Appends (read : Diagnosed α) : Prop :=
  ∀ before, read before = after before (read [])

namespace Diagnosed

theorem appends_pure (a : α) : Appends (pure a : Diagnosed α) := by
  intro before
  show EStateM.Result.ok a before = .ok a (before ++ [])
  rw [List.append_nil]

theorem appends_throw (error : CompileError) : Appends (throw error : Diagnosed α) := by
  intro before
  show EStateM.Result.error error before = .error error (before ++ [])
  rw [List.append_nil]

theorem appends_warn (warning : Warning) : Appends (warn warning) :=
  fun _ => rfl

theorem Appends.bind {read : Diagnosed α} {f : α → Diagnosed β} (h : Appends read)
    (hf : ∀ a, Appends (f a)) : Appends (read >>= f) := by
  intro before
  show EStateM.bind read f before = after before (EStateM.bind read f [])
  unfold EStateM.bind
  rw [h before]
  cases read [] with
  | error error more => rfl
  | ok a more =>
    show f a (before ++ more) = after before (f a more)
    rw [hf a (before ++ more), hf a more]
    cases f a [] <;> simp [after, List.append_assoc]

/-- **Warnings aside**: a reading that succeeds has a value, and leaves the warnings before it in
their place. -/
theorem Appends.value {read : Diagnosed α} (h : Appends read) {before after : List Warning} {a : α}
    (hok : read before = .ok a after) : read.value? = some a ∧ before <+: after := by
  rw [h before] at hok
  unfold value?
  show (match read [] with | .ok a _ => some a | .error .. => none) = some a ∧ _
  cases hread : read [] with
  | error error more =>
    rw [hread] at hok
    exact nomatch hok
  | ok b more =>
    rw [hread] at hok
    obtain ⟨rfl, rfl⟩ := EStateM.Result.ok.inj hok
    exact ⟨rfl, List.prefix_append _ _⟩

theorem value?_eq_some {read : Diagnosed α} {a : α} :
    read.value? = some a ↔ ∃ warnings, read [] = .ok a warnings := by
  unfold value?
  show (match read [] with | .ok a _ => some a | .error .. => none) = some a ↔ _
  constructor
  · intro h
    cases hread : read [] with
    | error error more =>
      rw [hread] at h
      cases h
    | ok b more =>
      rw [hread] at h
      obtain rfl := Option.some.inj h
      exact ⟨more, rfl⟩
  · rintro ⟨warnings, h⟩
    rw [h]

theorem value?_pure {a b : α} : (pure a : Diagnosed α).value? = some b ↔ b = a := by
  rw [value?_eq_some]
  constructor
  · rintro ⟨warnings, h⟩
    exact (pure_eq_ok.1 h).1
  · rintro rfl
    exact ⟨[], rfl⟩

theorem value?_throw {error : CompileError} {a : α} :
    (throw error : Diagnosed α).value? ≠ some a := by
  intro h
  obtain ⟨warnings, h⟩ := value?_eq_some.1 h
  exact nomatch h

/-- A sequence has a value if its parts do. -/
theorem value?_bind {read : Diagnosed α} {f : α → Diagnosed β} (hf : ∀ a, Appends (f a)) {b : β} :
    (read >>= f).value? = some b ↔ ∃ a, read.value? = some a ∧ (f a).value? = some b := by
  constructor
  · intro h
    obtain ⟨warnings, h⟩ := value?_eq_some.1 h
    obtain ⟨a, middle, hread, hrest⟩ := bind_eq_ok.1 h
    exact ⟨a, value?_eq_some.2 ⟨middle, hread⟩, ((hf a).value hrest).1⟩
  · rintro ⟨a, hread, hrest⟩
    obtain ⟨middle, hread⟩ := value?_eq_some.1 hread
    obtain ⟨more, hrest⟩ := value?_eq_some.1 hrest
    refine value?_eq_some.2 ⟨middle ++ more, bind_eq_ok.2 ⟨a, middle, hread, ?_⟩⟩
    rw [hf a middle, hrest]
    rfl

end Diagnosed

open Diagnosed

/-! ## Readings of the compiler -/

theorem Scene.appends_resolve (scene : Scene) (text : String) (escape : Bool) :
    Appends (scene.resolve text escape) := by
  unfold Scene.resolve
  split
  · exact appends_pure _
  · exact appends_pure _
  · split
    · exact appends_pure _
    · exact appends_pure _
  · exact (appends_warn _).bind fun _ => appends_pure _
  · exact appends_throw _

theorem Variable.appends_readFilters (scene : Scene) (filters : List Markup.FilterText) :
    Appends (readFilters scene filters) := by
  induction filters with
  | nil => exact appends_pure _
  | cons filter rest ih =>
    have harg : Appends (filter.argument.mapM (scene.resolve · false)) := by
      cases filter.argument with
      | none => exact appends_pure _
      | some text => exact (scene.appends_resolve text false).bind fun _ => appends_pure _
    exact harg.bind fun _ => ih.bind fun _ => appends_pure _

theorem Variable.appends_readEscape (scene : Scene) (base : String) (escape : Bool) :
    Appends (readEscape scene base escape) := by
  unfold readEscape
  split
  · split
    · exact appends_throw _
    · exact (appends_warn _).bind fun _ => appends_pure _
  · exact appends_pure _

theorem Variable.appends_read (scene : Scene) (raw : String) (escape : Bool) :
    Appends (read scene raw escape) :=
  (appends_readFilters scene _).bind fun _ => (appends_readEscape scene _ _).bind fun _ =>
    (scene.appends_resolve _ _).bind fun _ => appends_pure _

theorem Tag.appends_warnSkipped (scene : Scene) (name : String) (skipped : List Char) :
    Appends (warnSkipped scene name skipped) := by
  induction skipped with
  | nil => exact appends_pure _
  | cons c rest ih => exact (appends_warn _).bind fun _ => ih

theorem Tag.appends_readParams (scene : Scene) (params : List String) :
    Appends (readParams scene params) := by
  induction params with
  | nil => exact appends_pure _
  | cons text rest ih =>
    exact (Variable.appends_read scene text false).bind fun _ => ih.bind fun _ => appends_pure _

theorem Tag.appends_read (scene : Scene) (name text : String) : Appends (read scene name text) :=
  (appends_warnSkipped scene name _).bind fun _ => (appends_readParams scene _).bind fun _ =>
    appends_pure _

end TemplateCompiler
