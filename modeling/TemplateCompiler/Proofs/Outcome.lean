import TemplateCompiler.Diagnostics

/-!
# Computations that succeed

What it takes for a computation that may fail, and that keeps its state, to come to a result.
-/
namespace TemplateCompiler

variable {ε σ α β : Type}

/-- A sequence succeeds if both of its parts do, one after the other. -/
theorem bind_eq_ok {x : EStateM ε σ α} {f : α → EStateM ε σ β} {s s' : σ} {b : β} :
    (x >>= f) s = .ok b s' ↔ ∃ a t, x s = .ok a t ∧ f a t = .ok b s' := by
  show EStateM.bind x f s = .ok b s' ↔ _
  unfold EStateM.bind
  constructor
  · intro h
    split at h
    · next a t hx => exact ⟨a, t, hx, h⟩
    · cases h
  · rintro ⟨a, t, hx, hf⟩
    rw [hx]
    exact hf

theorem bind_of_ok {x : EStateM ε σ α} {f : α → EStateM ε σ β} {s t : σ} {a : α}
    (h : x s = .ok a t) : (x >>= f) s = f a t := by
  show EStateM.bind x f s = _
  unfold EStateM.bind
  rw [h]

theorem bind_of_error {x : EStateM ε σ α} {f : α → EStateM ε σ β} {s t : σ} {error : ε}
    (h : x s = .error error t) : (x >>= f) s = .error error t := by
  show EStateM.bind x f s = _
  unfold EStateM.bind
  rw [h]

theorem pure_eq_ok {a b : α} {s s' : σ} :
    (pure a : EStateM ε σ α) s = .ok b s' ↔ b = a ∧ s' = s := by
  constructor
  · intro h
    cases h
    exact ⟨rfl, rfl⟩
  · rintro ⟨rfl, rfl⟩
    rfl

/-! ## Sequences that begin with a step that succeeds -/

theorem get_bind (f : σ → EStateM ε σ β) (s : σ) : (get >>= f) s = f s s := rfl

theorem set_bind (t : σ) (f : PUnit → EStateM ε σ β) (s : σ) : (set t >>= f) s = f ⟨⟩ t := rfl

theorem modify_bind (g : σ → σ) (f : PUnit → EStateM ε σ β) (s : σ) :
    (modify g >>= f) s = f ⟨⟩ (g s) := rfl

theorem ofExcept_ok_bind (a : α) (f : α → EStateM ε σ β) (s : σ) :
    (MonadExcept.ofExcept (.ok a) >>= f) s = f a s := rfl

theorem ofExcept_bind_eq_ok {e : Except ε α} {f : α → EStateM ε σ β} {b : β} {s s' : σ} :
    (MonadExcept.ofExcept e >>= f) s = .ok b s' ↔ ∃ a, e = .ok a ∧ f a s = .ok b s' := by
  cases e with
  | error error =>
    constructor
    · intro h
      cases h
    · rintro ⟨a, h, -⟩
      cases h
  | ok a =>
    constructor
    · intro h
      exact ⟨a, rfl, h⟩
    · rintro ⟨a', ha, h⟩
      cases ha
      exact h

theorem throw_ne_ok {e : ε} {a : α} {s s' : σ} :
    (throw e : EStateM ε σ α) s ≠ .ok a s' :=
  fun h => nomatch h

/-! ## Results of parts that may fail -/

theorem ofExcept_eq_ok {e : Except ε α} {a : α} {s s' : σ} :
    (MonadExcept.ofExcept e : EStateM ε σ α) s = .ok a s' ↔ e = .ok a ∧ s' = s := by
  cases e with
  | error error =>
    constructor
    · intro h
      cases h
    · rintro ⟨h, -⟩
      cases h
  | ok b =>
    constructor
    · intro h
      cases h
      exact ⟨rfl, rfl⟩
    · rintro ⟨h, rfl⟩
      cases h
      rfl

theorem mapError_eq_ok {δ : Type} {e : Except δ α} {f : δ → ε} {a : α} :
    e.mapError f = .ok a ↔ e = .ok a := by
  cases e with
  | error refusal =>
    constructor
    · intro h
      cases h
    · intro h
      cases h
  | ok b => exact ⟨fun h => congrArg _ (Except.ok.inj h), fun h => congrArg _ (Except.ok.inj h)⟩

/-! ## Computations that are run -/

/-- Whether a computation has come to a result, and to one that passes a check. -/
def succeeds (check : α → Bool) : EStateM.Result ε σ α → Bool
  | .ok a _ => check a
  | .error .. => false

theorem exists_of_succeeds {result : EStateM.Result ε σ α} {check : α → Bool}
    (h : succeeds check result = true) : ∃ a s, result = .ok a s ∧ check a = true := by
  cases result with
  | ok a s => exact ⟨a, s, rfl, h⟩
  | error => cases h

/-- Whether a computation has failed, and with an error that passes a check. -/
def failsWith (check : ε → Bool) : EStateM.Result ε σ α → Bool
  | .ok .. => false
  | .error error _ => check error

theorem exists_of_failsWith {result : EStateM.Result ε σ α} {check : ε → Bool}
    (h : failsWith check result = true) : ∃ error s, result = .error error s ∧ check error = true := by
  cases result with
  | ok => cases h
  | error error s => exact ⟨error, s, rfl, h⟩

/-- What is found in a table is one of its entries. -/
theorem mem_of_lookup {κ : Type} [BEq κ] [LawfulBEq κ] {entries : List (κ × α)} {key : κ} {value : α}
    (h : entries.lookup key = some value) : (key, value) ∈ entries := by
  obtain ⟨before, after, rfl, -⟩ := List.lookup_eq_some_iff.1 h
  exact List.mem_append_right _ List.mem_cons_self

end TemplateCompiler
