import TemplateCompiler.Drain
import TemplateCompiler.Proofs.Outcome
import TemplateCompiler.Proofs.Value.Resolution

/-!
# Bases of directives

A directive that is met has its values read in a scene of its own, in which they have their bases
(`Markup.Directive.hasBase`). None of these is invalid if the directive is handled without an error
(`Markup.Directive.not_invalid_of_handle`).
-/
namespace TemplateCompiler

open Markup

variable {σ : Type} {scene : Scene} {text raw : String}

/-- A text is resolved without an error, from some warnings and escaped or not. -/
def Scene.Accepts (scene : Scene) (text : String) : Prop :=
  ∃ escape before expr after, scene.resolve text escape before = .ok expr after

/-- What is accepted is not invalid. -/
theorem Scene.HasBase.not_invalid (h : scene.HasBase text)
    (hplain : ∀ c ∈ text.toList.head?, Text.isQuote c = false ∧ c ≠ '#')
    (haccepts : scene.Accepts text) :
    ¬ Resolution.invalid.Applies (scene.options.allowsOperators scene.tag) text := by
  obtain ⟨escape, before, expr, after, hok⟩ := haccepts
  intro hinvalid
  have herror := h.gives hplain escape hinvalid before
  rw [hok] at herror
  cases herror

/-- The base of a value that is read is accepted, its filters being read before. -/
theorem Variable.accepts_of_read {escape : Bool} {v : Variable} {before after : List Warning}
    (h : Variable.read scene raw escape before = .ok v after) :
    scene.Accepts (splitFilters raw).1 := by
  unfold Variable.read at h
  obtain ⟨_, _, -, h⟩ := bind_eq_ok.1 h
  obtain ⟨escape', between, -, h⟩ := bind_eq_ok.1 h
  obtain ⟨expr, last, hresolve, -⟩ := bind_eq_ok.1 h
  exact ⟨escape', between, expr, last, hresolve⟩

/-- Parameters are read one after another, and each base is accepted. -/
theorem Tag.accepts_of_readParams {raws : List String} {params : List Variable}
    {before after : List Warning} (h : Tag.readParams scene raws before = .ok params after) :
    ∀ raw ∈ raws, scene.Accepts (splitFilters raw).1 := by
  induction raws generalizing params before after with
  | nil => exact nofun
  | cons raw raws ih =>
    unfold Tag.readParams at h
    obtain ⟨v, between, hread, h⟩ := bind_eq_ok.1 h
    obtain ⟨more, last, hmore, -⟩ := bind_eq_ok.1 h
    exact List.forall_mem_cons.2 ⟨Variable.accepts_of_read hread, ih hmore⟩

theorem Action.exists_read_of_reading {α : Type} {read : Scene → Diagnosed α} {run run' : Run σ} {a : α}
    (h : Action.reading read run = .ok a run') : ∃ warnings,
      read (run.source.scene run.session.workspace.options) run.session.warnings = .ok a warnings := by
  unfold Action.reading EStateM.run at h
  split at h
  · next warnings hread =>
    obtain ⟨rfl, -⟩ := EStateM.Result.ok.inj h
    exact ⟨warnings, hread⟩
  · cases h

namespace Markup.Directive

variable {d : Directive}

/-- The tag that is current at a directive: itself, or none. -/
def tag? (d : Directive) : Option String :=
  match d.kind with
  | .tag => some d.name
  | .variable => none

/-- The texts that a directive has read as values. -/
def values (d : Directive) : List String :=
  match d.kind with
  | .tag => (Lexeme.lex d.params.toList).filterMap Lexeme.parameter?
  | .variable => [d.content]

/-- The values of a directive have their bases where it is the current one. -/
theorem hasBase (hraw : raw ∈ d.values) (htag : scene.tag = d.tag?) :
    scene.HasBase (splitFilters raw).1 := by
  cases hkind : d.kind with
  | tag =>
    rw [values, hkind] at hraw
    exact .parameter d.params raw hraw
  | «variable» =>
    rw [values, hkind] at hraw
    rw [tag?, hkind] at htag
    obtain rfl := List.mem_singleton.1 hraw
    exact .interpolation d.content htag

/-- A directive that is handled without an error has its bases accepted in its own scene. -/
theorem accepts_of_handle {dispatch : Dispatch σ} {run run' : Run σ} {u : PUnit}
    (h : handle dispatch d run = .ok u run') (hraw : raw ∈ d.values) :
    Scene.Accepts { run.source.scene run.session.workspace.options with tag := d.tag? }
      (splitFilters raw).1 := by
  unfold handle at h
  cases hkind : d.kind with
  | tag =>
    rw [hkind] at h
    rw [values, hkind] at hraw
    rw [tag?, hkind]
    obtain ⟨_, _, hupdate, h⟩ := bind_eq_ok.1 h
    obtain ⟨-, rfl⟩ := EStateM.Result.ok.inj hupdate
    obtain ⟨tag, _, hread, -⟩ := bind_eq_ok.1 h
    obtain ⟨warnings, hread⟩ := Action.exists_read_of_reading hread
    unfold Tag.read at hread
    obtain ⟨_, _, -, hread⟩ := bind_eq_ok.1 hread
    obtain ⟨params, _, hparams, -⟩ := bind_eq_ok.1 hread
    exact Tag.accepts_of_readParams hparams raw hraw
  | «variable» =>
    rw [hkind] at h
    rw [values, hkind] at hraw
    rw [tag?, hkind]
    obtain ⟨_, _, hupdate, h⟩ := bind_eq_ok.1 h
    obtain ⟨-, rfl⟩ := EStateM.Result.ok.inj hupdate
    obtain ⟨v, _, hread, -⟩ := bind_eq_ok.1 h
    obtain ⟨warnings, hread⟩ := Action.exists_read_of_reading hread
    obtain rfl := List.mem_singleton.1 hraw
    exact Variable.accepts_of_read hread

/-- **A directive that is handled without an error has no invalid base.** -/
theorem not_invalid_of_handle {dispatch : Dispatch σ} {run run' : Run σ} {u : PUnit}
    (h : handle dispatch d run = .ok u run') (hraw : raw ∈ d.values)
    (hplain : ∀ c ∈ (splitFilters raw).1.toList.head?, Text.isQuote c = false ∧ c ≠ '#') :
    ¬ Resolution.invalid.Applies (run.session.workspace.options.allowsOperators d.tag?)
      (splitFilters raw).1 :=
  (hasBase hraw rfl).not_invalid hplain (accepts_of_handle h hraw)

end Markup.Directive

end TemplateCompiler
