import TemplateCompiler.Proofs.Moment.Basic
import TemplateCompiler.Proofs.Rendering.Artifact

/-!
# Trails

The moments that a compile passes can be listed if it comes to an end in so many steps, and what is
said of all of them can then be evaluated (`Compiler.forall_passes`). So can what comes of it, whether it
succeeds or fails (`Moment.outcome_of_within`).
-/
namespace TemplateCompiler

variable {σ : Type} {dispatch : Dispatch σ} {steps : Nat}

namespace Moment

/-- The moments from one on, if there are at most so many. -/
def trail (dispatch : Dispatch σ) : Nat → Moment σ → Option (List (Moment σ))
  | 0, _ => none
  | steps + 1, m =>
    match m.next dispatch with
    | .goesOn m' => (trail dispatch steps m').map (m :: ·)
    | _ => some [m]

/-- The moments that are reached are those on the trail. -/
theorem mem_trail {m m' : Moment σ} {ms : List (Moment σ)}
    (h : trail dispatch steps m = some ms) : m' ∈ ms ↔ Reached dispatch m m' := by
  induction steps generalizing m ms with
  | zero => cases h
  | succ steps ih =>
    unfold trail at h
    have hlast (hnext : ∀ next, m.next dispatch ≠ .goesOn next) : Reached dispatch m m' ↔ m' = m := by
      refine ⟨fun hreached => ?_, fun heq => heq ▸ .refl⟩
      rcases hreached.cases_head with heq | ⟨next, hleads, -⟩
      · exact heq.symm
      · exact absurd hleads (hnext next)
    cases hnext : m.next dispatch with
    | goesOn next =>
      rw [hnext] at h
      obtain ⟨more, hmore, rfl⟩ := Option.map_eq_some_iff.1 h
      rw [List.mem_cons, ih hmore]
      constructor
      · rintro (rfl | hreached)
        · exact .refl
        · exact .head hnext hreached
      · intro hreached
        rcases hreached.cases_head with heq | ⟨other, hleads, hrest⟩
        · exact .inl heq.symm
        · obtain rfl : next = other := Next.goesOn.inj (hnext.symm.trans hleads)
          exact .inr hrest
    | ends | fails =>
      rw [hnext] at h
      obtain rfl := Option.some.inj h
      rw [hlast (by rw [hnext]; exact fun _ => nofun), List.mem_singleton]

/-- What comes of a moment, given what comes after it if that is known. -/
def Next.resultWithin
    (follow : Moment σ → Option (EStateM.Result CompileError (Session × σ) PUnit))
    (state : Session × σ) : Next σ → Option (EStateM.Result CompileError (Session × σ) PUnit)
  | goesOn m => follow m
  | ends => some (.ok ⟨⟩ state)
  | fails error session memory => some (.error error (session, memory))

theorem Next.result_of_within
    {within : Moment σ → Option (EStateM.Result CompileError (Session × σ) PUnit)}
    {follow : Moment σ → EStateM.Result CompileError (Session × σ) PUnit}
    (hfollow : ∀ m result, within m = some result → follow m = result) {state : Session × σ}
    {next : Next σ} {result : EStateM.Result CompileError (Session × σ) PUnit}
    (h : next.resultWithin within state = some result) : next.result follow state = result := by
  cases next with
  | goesOn m => exact hfollow m result h
  | ends | fails => exact Option.some.inj h

/-- What comes of a moment if it comes out in at most so many steps. -/
def outcomeWithin (dispatch : Dispatch σ) : Nat → Nat → Moment σ →
    Option (EStateM.Result CompileError (Session × σ) PUnit)
  | 0, _, _ => none
  | _ + 1, 0, between session memory => some (.error .unfinished (session, memory))
  | steps + 1, turns + 1, between session memory =>
    (next dispatch (between session memory)).resultWithin (outcomeWithin dispatch steps turns)
      (session, memory)
  | steps + 1, turns, draining run feed =>
    (next dispatch (draining run feed)).resultWithin (outcomeWithin dispatch steps turns)
      (run.session, run.memory)

theorem outcome_of_within {turns : Nat} {m : Moment σ}
    {result : EStateM.Result CompileError (Session × σ) PUnit}
    (h : outcomeWithin dispatch steps turns m = some result) : outcome dispatch turns m = result := by
  induction steps generalizing turns m result with
  | zero => cases h
  | succ steps ih =>
    cases m with
    | between session memory =>
      cases turns with
      | zero => exact Option.some.inj h
      | succ turns =>
        rw [outcome_between]
        exact Next.result_of_within (fun _ _ => ih) h
    | draining run feed =>
      rw [outcome_draining]
      rw [outcomeWithin] at h
      exact Next.result_of_within (fun _ _ => ih) h

end Moment

namespace Compiler

/-- The moments that a compile passes, if there are at most so many. -/
def trail (compiler : Compiler σ) (steps : Nat) (id template destination : String) (world : World σ) :
    Option (List (Moment σ)) :=
  match Session.start compiler.workspace id template destination world.disk with
  | .ok session _ =>
    Moment.trail (compiler.library.dispatch compiler.limits.depth) steps
      (.between session world.memory)
  | .error .. => some []

theorem passes_iff {compiler : Compiler σ} {id template destination : String} {world : World σ}
    {ms : List (Moment σ)} (h : compiler.trail steps id template destination world = some ms)
    {m : Moment σ} : compiler.Passes id template destination world m ↔ m ∈ ms := by
  unfold trail at h
  constructor
  · rintro ⟨session, disk, hstart, hreached⟩
    rw [hstart] at h
    exact (Moment.mem_trail h).2 hreached
  · intro hmem
    split at h
    · next session disk hstart => exact ⟨session, disk, hstart, (Moment.mem_trail h).1 hmem⟩
    · obtain rfl := Option.some.inj h
      cases hmem

/-- What is found to hold of all moments of the trail holds of every moment that is passed. -/
theorem forall_passes {compiler : Compiler σ} {id template destination : String} {world : World σ}
    (property : Moment σ → Bool)
    (h : (compiler.trail steps id template destination world).any (·.all property) = true)
    {m : Moment σ} (hm : compiler.Passes id template destination world m) : property m = true := by
  obtain ⟨ms, htrail, hall⟩ := (Option.any_eq_true _ _).1 h
  exact List.all_eq_true.1 hall m ((passes_iff htrail).1 hm)

/-- What is found to hold of a moment of the trail holds of a moment that is passed. -/
theorem exists_passes {compiler : Compiler σ} {id template destination : String} {world : World σ}
    (property : Moment σ → Bool)
    (h : (compiler.trail steps id template destination world).any (·.any property) = true) :
    ∃ m, compiler.Passes id template destination world m ∧ property m = true := by
  obtain ⟨ms, htrail, hany⟩ := (Option.any_eq_true _ _).1 h
  obtain ⟨m, hmem, hproperty⟩ := List.any_eq_true.1 hany
  exact ⟨m, (passes_iff htrail).2 hmem, hproperty⟩

/-! ## What comes of a compile -/

variable {compiler : Compiler σ} {id template destination : String} {world : World σ}

/-- What comes of a compile, given what comes of its session. -/
def conclude : EStateM.Result CompileError (Session × σ) PUnit →
    EStateM.Result CompileError (World σ) Report
  | .ok _ (session, memory) => .ok session.report ⟨session.finish, memory⟩
  | .error error (session, memory) => .error error ⟨session.abandon, memory⟩

theorem compileTo_eq_conclude {session : Session} {disk : Disk}
    (hstart : Session.start compiler.workspace id template destination world.disk =
      .ok session disk) :
    compiler.compileTo id template destination world =
      conclude (Session.takeTurns (compiler.library.dispatch compiler.limits.depth)
        compiler.limits.turns (session, world.memory)) := by
  rw [compileTo_eq hstart]
  generalize Session.takeTurns _ _ _ = result
  cases result <;> rfl

/-- What comes of a compile if it comes out in at most so many steps. -/
def compileInSteps (compiler : Compiler σ) (steps : Nat) (id template destination : String)
    (world : World σ) : Option (EStateM.Result CompileError (World σ) Report) :=
  match Session.start compiler.workspace id template destination world.disk with
  | .error error disk => some (.error error ⟨disk, world.memory⟩)
  | .ok session _ =>
    (Moment.outcomeWithin (compiler.library.dispatch compiler.limits.depth) steps
      compiler.limits.turns (.between session world.memory)).map conclude

theorem compileTo_of_inSteps {steps : Nat}
    {result : EStateM.Result CompileError (World σ) Report}
    (h : compiler.compileInSteps steps id template destination world = some result) :
    compiler.compileTo id template destination world = result := by
  unfold compileInSteps at h
  split at h
  · next hstart =>
    rw [compileTo_eq_error hstart]
    exact Option.some.inj h
  · next session disk hstart =>
    obtain ⟨outcome, houtcome, rfl⟩ := Option.map_eq_some_iff.1 h
    rw [compileTo_eq_conclude hstart]
    exact congrArg conclude (Moment.outcome_of_within houtcome)

end Compiler

end TemplateCompiler
