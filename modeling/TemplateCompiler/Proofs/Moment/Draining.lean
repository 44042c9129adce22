import TemplateCompiler.Proofs.Moment.Basic

/-!
# Draining, moment by moment

A source that is drained goes from piece to piece, until it is paused, nothing is left, or it fails
(`Moment.Drains`). What is reached in between is passed on the way (`Moment.Drains.reached`).
-/
namespace TemplateCompiler.Moment

variable {σ : Type} {dispatch : Dispatch σ} {run run' last : Run σ} {feed after rest : Feed}
  {result : EStateM.Result CompileError (Run σ) Feed}

/-- A source is drained piece by piece. -/
inductive Drains (dispatch : Dispatch σ) :
    Run σ → Feed → EStateM.Result CompileError (Run σ) Feed → Prop
  | ends {run : Run σ} {feed : Feed}
    (hended : feed.atEnd = true ∨ run.source.paused = true)
    (hleads : Leads dispatch (draining run feed) (putAway run feed)) :
    Drains dispatch run feed (.ok feed run)
  | fails {run last : Run σ} {feed : Feed} {error : CompileError}
    (hfails : next dispatch (draining run feed) = .fails error last.session last.memory) :
    Drains dispatch run feed (.error error last)
  | piece {run run' : Run σ} {feed after : Feed} {result : EStateM.Result CompileError (Run σ) Feed}
    (hrunning : run.source.paused = false) (hpiece : Piece dispatch run feed run' after)
    (h : Drains dispatch run' after result) : Drains dispatch run feed result

/-- **Draining** goes piece by piece. -/
theorem drains_drain (dispatch : Dispatch σ) (run : Run σ) (feed : Feed) :
    Drains dispatch run feed (drain dispatch feed run) := by
  by_cases hpaused : run.source.paused = true
  · have hdrain : drain dispatch feed run = .ok feed run := by
      have hget (f : Source → Action σ Feed) : (Action.source >>= f) run = f run.source run := rfl
      rw [drain_eq, hget, if_pos hpaused]
      rfl
    rw [hdrain]
    refine .ends (.inr hpaused) ?_
    unfold Leads
    rw [next, if_pos hpaused]
  · have hrunning := Bool.eq_false_iff.2 hpaused
    have hnext := @next_running σ dispatch run hrunning feed
    have hpiece {run' : Run σ} {after : Feed} (hpiece : Piece dispatch run feed run' after)
        (h : Drains dispatch run' after (drain dispatch after run')) :
        Drains dispatch run feed (drain dispatch feed run) := by
      rw [hpiece.drain_eq hrunning]
      exact .piece hrunning hpiece h
    cases hstep : feed.step run.source.reading with
    | done =>
      rw [drain_running hrunning, hstep]
      rw [hstep] at hnext
      exact .ends (.inl (atEnd_of_step hstep)) hnext
    | newLine after => exact hpiece (.newLine hstep) (drains_drain dispatch _ after)
    | checked after => exact hpiece (.checked hstep) (drains_drain dispatch _ after)
    | forbidden =>
      rw [drain_running hrunning, hstep]
      rw [hstep] at hnext
      exact .fails hnext
    | text content after => exact hpiece (.text hstep) (drains_drain dispatch _ after)
    | directive before d after =>
      cases hmeet : meet dispatch before d after.atEnd run with
      | ok u next => exact hpiece (.directive hstep hmeet) (drains_drain dispatch next after)
      | error error last =>
        rw [drain_running hrunning, hstep]
        rw [hstep] at hnext
        dsimp only at hnext ⊢
        rw [hmeet] at hnext ⊢
        exact .fails hnext
termination_by feed.size
decreasing_by
  all_goals exact Feed.size_lt_of_step (by rw [hstep]; rfl)

theorem Piece.leads (hrunning : run.source.paused = false) (h : Piece dispatch run feed run' after) :
    Leads dispatch (draining run feed) (draining run' after) := by
  unfold Leads
  rw [next_running hrunning]
  cases h with
  | newLine hstep | checked hstep | text hstep => rw [hstep]
  | directive hstep hmeet =>
    rw [hstep]
    dsimp only
    rw [hmeet]

namespace Drains

/-- A relation that every piece keeps is kept by all of them. -/
theorem of {R : Run σ → Run σ → Prop} (hrefl : ∀ run, R run run)
    (htrans : ∀ {a b c}, R a b → R b c → R a c)
    (hpiece : ∀ {run feed run' after}, Piece dispatch run feed run' after → R run run')
    (h : Drains dispatch run feed result) {rest : Feed} {last : Run σ} (hok : result = .ok rest last) :
    R run last := by
  induction h with
  | ends =>
    obtain ⟨rfl, rfl⟩ := EStateM.Result.ok.inj hok
    exact hrefl _
  | fails => cases hok
  | piece _ hfirst _ ih => exact htrans (hpiece hfirst) (ih hok)

/-- A source that has been drained has nothing left, or it has stopped, and it is put away. -/
theorem ended (h : Drains dispatch run feed result) (hok : result = .ok rest last) :
    (rest.atEnd = true ∨ last.source.paused = true) ∧
      Leads dispatch (draining last rest) (putAway last rest) := by
  induction h with
  | ends hended hleads =>
    obtain ⟨rfl, rfl⟩ := EStateM.Result.ok.inj hok
    exact ⟨hended, hleads⟩
  | fails => cases hok
  | piece _ _ _ ih => exact ih hok

theorem comes (h : Drains dispatch run feed result) (hok : result = .ok rest last) :
    Reached dispatch (draining run feed) (draining last rest) := by
  induction h with
  | ends =>
    obtain ⟨rfl, rfl⟩ := EStateM.Result.ok.inj hok
    exact .refl
  | fails => cases hok
  | piece hrunning hpiece _ ih => exact .head (hpiece.leads hrunning) (ih hok)

/-- A source that fails comes to the moment at which it does. -/
theorem failed (h : Drains dispatch run feed result) {error : CompileError}
    (herror : result = .error error last) : ∃ run' feed',
      Reached dispatch (draining run feed) (draining run' feed') ∧
      next dispatch (draining run' feed') = .fails error last.session last.memory := by
  induction h with
  | ends => cases herror
  | fails hfails =>
    obtain ⟨rfl, rfl⟩ := EStateM.Result.error.inj herror
    exact ⟨_, _, .refl, hfails⟩
  | piece hrunning hpiece _ ih =>
    obtain ⟨run', feed', hreached, hfails⟩ := ih herror
    exact ⟨run', feed', .head (hpiece.leads hrunning) hreached, hfails⟩

/-- What is reached from a source that is drained is passed on the way, or after it has been put
away. -/
theorem reached {R : Run σ → Run σ → Prop} (hrefl : ∀ run, R run run)
    (htrans : ∀ {a b c}, R a b → R b c → R a c)
    (hpiece : ∀ {run feed run' after}, Piece dispatch run feed run' after → R run run')
    (h : Drains dispatch run feed result) (hok : result = .ok rest last) {m : Moment σ}
    (hreached : Reached dispatch (draining run feed) m) :
    (∃ run' feed', m = draining run' feed' ∧ R run run' ∧ R run' last) ∨
      Reached dispatch (putAway last rest) m := by
  induction h with
  | ends _ hleads =>
    -- a moment leads to one other at most, so it is the one at which the source is put away
    obtain ⟨rfl, rfl⟩ := EStateM.Result.ok.inj hok
    rcases hreached.cases_head with rfl | ⟨next, hnext, hrest⟩
    · exact .inl ⟨_, _, rfl, hrefl _, hrefl _⟩
    · exact .inr (hleads.unique hnext ▸ hrest)
  | fails => cases hok
  | piece hrunning hfirst h ih =>
    rcases hreached.cases_head with rfl | ⟨next, hnext, hrest⟩
    · exact .inl ⟨_, _, rfl, hrefl _, htrans (hpiece hfirst) (h.of hrefl htrans hpiece hok)⟩
    · obtain rfl := (hfirst.leads hrunning).unique hnext
      rcases ih hok hrest with ⟨run', feed', rfl, hbefore, hafter⟩ | hafter
      · exact .inl ⟨run', feed', rfl, htrans (hpiece hfirst) hbefore, hafter⟩
      · exact .inr hafter

end Drains

end TemplateCompiler.Moment
