import TemplateCompiler.Proofs.Cache.Twins

/-!
# What twins come to

An action that twins do comes to the same in both of them: they are still twins, or both have failed in
one way, unless one of them cannot open a file (`Run.Agree`). That is shown here of the parts that
handlers are made of.
-/
namespace TemplateCompiler

variable {σ α α' β β' : Type} {job job' : Job}

/-! ## Results -/

/-- What comes of one action in two runs: both succeed and are twins, or both fail in one way, or one
of them cannot open a file. -/
inductive Run.Agree (job job' : Job) (R : α → α' → Prop) :
    EStateM.Result CompileError (Run σ) α → EStateM.Result CompileError (Run σ) α' → Prop
  | ok {a : α} {a' : α'} {run run' : Run σ} (hvalue : R a a') (hrun : run.Twins job job' run') :
    Agree job job' R (.ok a run) (.ok a' run')
  | error (error : CompileError) (run run' : Run σ) :
    Agree job job' R (.error error run) (.error error run')
  | unopened {path : Path} {run : Run σ} {result : EStateM.Result CompileError (Run σ) α'} :
    Agree job job' R (.error (.destinationOpen path) run) result
  | unopened' {path : Path} {run' : Run σ} {result : EStateM.Result CompileError (Run σ) α} :
    Agree job job' R result (.error (.destinationOpen path) run')

/-- Twins that do the two actions come to the same. -/
def Action.Twins (job job' : Job) (R : α → α' → Prop) (action : Action σ α) (action' : Action σ α') :
    Prop :=
  ∀ run run' : Run σ, run.Twins job job' run' → Run.Agree job job' R (action run) (action' run')

namespace Source.Twins

variable {source source' : Source}

theorem location_eq (h : source.Twins job job' source') : source'.location = source.location := by
  rw [h.same]
  rfl

theorem toOrigin_eq (h : source.Twins job job' source') : source'.toOrigin = source.toOrigin := by
  rw [h.same]

theorem id_eq (h : source.Twins job job' source') : source'.id = source.id := by
  rw [h.same]

theorem shownTag_eq (h : source.Twins job job' source') (asked : String) :
    Action.shownTag source' asked = Action.shownTag source asked := by
  rw [h.same]
  rfl

theorem push (h : source.Twins job job' source') (tag : String) {data data' : FrameData}
    (hdata : data.Twins job job' data') :
    { source with hierarchy := source.hierarchy.push tag data }.Twins job job'
      { source' with hierarchy := source'.hierarchy.push tag data' } where
  same := by rw [h.same]
  hierarchy := .cons ⟨rfl, hdata⟩ h.hierarchy
  running := h.running

end Source.Twins

/-- The innermost open tags of both have one name. -/
theorem Hierarchy.Twins.pop {hierarchy hierarchy' : Hierarchy FrameData}
    (h : hierarchy.Twins job job' hierarchy') (tag : String) :
    (∃ refusal, hierarchy.pop tag = .error refusal ∧ hierarchy'.pop tag = .error refusal) ∨
      ∃ data data' rest rest', hierarchy.pop tag = .ok (data, rest) ∧
        hierarchy'.pop tag = .ok (data', rest') ∧ data.Twins job job' data' ∧
        rest.Twins job job' rest' := by
  obtain ⟨frames⟩ := hierarchy
  obtain ⟨frames'⟩ := hierarchy'
  cases h with
  | nil => exact .inl ⟨.empty, rfl, rfl⟩
  | @cons frame frame' rest rest' hframe hrest =>
    unfold Hierarchy.pop
    dsimp only
    rw [hframe.1]
    by_cases htag : frame.tag = tag
    · rw [if_pos htag, if_pos htag]
      exact .inr ⟨_, _, _, _, rfl, rfl, hframe.2, hrest⟩
    · rw [if_neg htag, if_neg htag]
      exact .inl ⟨_, rfl, rfl⟩

theorem Run.Twins.workspace_eq {run run' : Run σ} (hjobs : job.Twins job')
    (h : run.Twins job job' run') : run'.session.workspace = run.session.workspace := by
  obtain ⟨desk, hdesk, hdesk'⟩ := h.session.desk
  rw [hdesk.workspace, hdesk'.workspace, hjobs.workspace]

/-! ## Sequences -/

namespace Action

theorem agree_bind {R : α → α' → Prop} {S : β → β' → Prop} {action : Action σ α}
    {action' : Action σ α'} {f : α → Action σ β} {f' : α' → Action σ β'} {run run' : Run σ}
    (h : Run.Agree job job' R (action run) (action' run'))
    (hf : ∀ a a' s s', action run = .ok a s → action' run' = .ok a' s' → R a a' →
      s.Twins job job' s' → Run.Agree job job' S (f a s) (f' a' s')) :
    Run.Agree job job' S ((action >>= f) run) ((action' >>= f') run') := by
  show Run.Agree job job' S (EStateM.bind action f run) (EStateM.bind action' f' run')
  unfold EStateM.bind
  generalize action run = result at h hf
  generalize action' run' = result' at h hf
  cases h with
  | ok hvalue hrun => exact hf _ _ _ _ rfl rfl hvalue hrun
  | error error run run' => exact .error error run run'
  | unopened => exact .unopened
  | unopened' => exact .unopened'

theorem Twins.bind {R : α → α' → Prop} {S : β → β' → Prop} {action : Action σ α}
    {action' : Action σ α'} {f : α → Action σ β} {f' : α' → Action σ β'}
    (h : Twins job job' R action action') (hf : ∀ a a', R a a' → Twins job job' S (f a) (f' a')) :
    Twins job job' S (action >>= f) (action' >>= f') :=
  fun run run' hrun => agree_bind (h run run' hrun) fun a a' s s' _ _ hvalue hs =>
    hf a a' hvalue s s' hs

/-- A sequence whose first part gives both the same value. -/
theorem Twins.bind_eq {S : β → β' → Prop} {action action' : Action σ α} {f : α → Action σ β}
    {f' : α → Action σ β'} (h : Twins job job' Eq action action')
    (hf : ∀ a, Twins job job' S (f a) (f' a)) : Twins job job' S (action >>= f) (action' >>= f') := by
  refine h.bind fun a a' heq => ?_
  subst heq
  exact hf a

theorem twins_pure {R : α → α' → Prop} {a : α} {a' : α'} (h : R a a') :
    Twins job job' R (pure a : Action σ α) (pure a') :=
  fun _ _ hrun => .ok h hrun

theorem twins_throw {R : α → α' → Prop} (error : CompileError) :
    Twins job job' R (throw error : Action σ α) (throw error) :=
  fun run run' _ => .error error run run'

/-! ## Parts of handlers -/

theorem twins_updateSession {f f' : Session → Session}
    (h : ∀ a b, a.Twins job job' b → (f a).Twins job job' (f' b)) :
    Twins job job' Eq (updateSession f : Action σ PUnit) (updateSession f') :=
  fun _ _ hrun => .ok rfl ⟨h _ _ hrun.session, hrun.source⟩

theorem twins_updateSource {f f' : Source → Source}
    (h : ∀ a b, a.Twins job job' b → (f a).Twins job job' (f' b)) :
    Twins job job' Eq (updateSource f : Action σ PUnit) (updateSource f') :=
  fun _ _ hrun => .ok rfl ⟨hrun.session, h _ _ hrun.source⟩

theorem twins_source : Twins job job' (Source.Twins job job') (source : Action σ Source) source :=
  fun _ _ hrun => .ok hrun.source hrun

theorem twins_location : Twins job job' Eq (location : Action σ Location) location :=
  fun _ _ hrun => .ok hrun.source.location_eq.symm hrun

theorem twins_write (hjobs : job.Twins job') (text : String) :
    Twins job job' Eq (write text : Action σ PUnit) (write text) :=
  twins_updateSession fun _ _ h => h.write hjobs _

theorem twins_emit (hjobs : job.Twins job') (statement : Code.Statement) :
    Twins job job' Eq (emit statement : Action σ PUnit) (emit statement) :=
  twins_write hjobs _

theorem twins_misuse {R : α → α' → Prop} (message : String) :
    Twins job job' R (misuse message : Action σ α) (misuse message) :=
  twins_location.bind_eq fun _ => twins_throw _

theorem twins_nextSlot : Twins job job' Eq (nextSlot : Action σ Nat) nextSlot := by
  intro run run' hrun
  have hslots := hrun.session.slots
  exact .ok hslots.symm ⟨hrun.session.note hrun.session.warnings (congrArg (· + 1) hslots),
    hrun.source⟩

theorem twins_pauseAll :
    Twins job job' (fun state state' => ∃ flags, state = job.flags flags ∧ state' = job'.flags flags)
      (pauseAll : Action σ PauseState) pauseAll :=
  fun _ _ hrun => .ok hrun.session.pauseAll.1 ⟨hrun.session.pauseAll.2, hrun.source⟩

theorem twins_reading (hjobs : job.Twins job') (read : Scene → Diagnosed α) :
    Twins job job' Eq (reading read : Action σ α) (reading read) := by
  intro run run' hrun
  have hscene : run'.source.scene run'.session.workspace.options =
      run.source.scene run.session.workspace.options := by
    rw [hrun.workspace_eq hjobs, hrun.source.same]
    rfl
  unfold reading
  rw [hscene, hrun.session.warnings]
  cases (read (run.source.scene run.session.workspace.options)).run run.session.warnings with
  | ok a warnings =>
    exact .ok rfl ⟨hrun.session.note rfl hrun.session.slots, hrun.source⟩
  | error error warnings => exact .error error _ _

theorem twins_push (tag : String) {data data' : FrameData} (hdata : data.Twins job job' data') :
    Twins job job' Eq (push tag data : Action σ PUnit) (push tag data') :=
  twins_updateSource fun _ _ h => h.push tag hdata

theorem twins_expect {R : α → α' → Prop} (tag : String) {view : FrameData → Option α}
    {view' : FrameData → Option α'} {data data' : FrameData}
    (hview : Option.Rel R (view data) (view' data')) :
    Twins job job' R (expect tag view data : Action σ α) (expect tag view' data') := by
  unfold expect
  generalize view data = seen at hview
  generalize view' data' = seen' at hview
  cases hview with
  | some hvalue => exact twins_pure hvalue
  | none => exact twins_misuse _

/-- Two ways of seeing a frame see the same in frames of twins. -/
def Views (job job' : Job) (R : α → α' → Prop) (view : FrameData → Option α)
    (view' : FrameData → Option α') : Prop :=
  ∀ data data', FrameData.Twins job job' data data' → Option.Rel R (view data) (view' data')

theorem twins_hierarchy {hierarchy hierarchy' : Hierarchy FrameData}
    (h : hierarchy.Twins job job' hierarchy') :
    Twins job job' Eq (updateSource fun source => { source with hierarchy } : Action σ PUnit)
      (updateSource fun source => { source with hierarchy := hierarchy' }) :=
  twins_updateSource fun _ _ hsource => ⟨by rw [hsource.same], h, hsource.running⟩

theorem twins_pop {R : α → α' → Prop} (tag : String) {view : FrameData → Option α}
    {view' : FrameData → Option α'} (hview : Views job job' R view view') :
    Twins job job' R (pop tag view : Action σ α) (pop tag view') := by
  refine twins_source.bind fun source source' hsource => ?_
  rcases hsource.hierarchy.pop tag with
    ⟨refusal, hpop, hpop'⟩ | ⟨data, data', rest, rest', hpop, hpop', hdata, hrest⟩
  · rw [hpop, hpop']
    have herror : closingError source' tag refusal = closingError source tag refusal := by
      unfold closingError
      rw [hsource.shownTag_eq, hsource.location_eq]
    dsimp only
    rw [herror]
    exact twins_throw _
  · rw [hpop, hpop']
    exact (twins_hierarchy hrest).bind fun _ _ _ => twins_expect tag (hview data data' hdata)

theorem nestingError_eq {source source' : Source} (h : source.Twins job job' source') (tag : String) :
    nestingError source' tag = nestingError source tag := by
  unfold nestingError
  rw [h.shownTag_eq, h.location_eq]

theorem twins_peek {R : α → α' → Prop} (tag : String) {view : FrameData → Option α}
    {view' : FrameData → Option α'} (hview : Views job job' R view view') :
    Twins job job' R (peek tag view : Action σ α) (peek tag view') := by
  refine twins_source.bind fun source source' hsource => ?_
  unfold Hierarchy.peek
  rcases hsource.hierarchy.pop tag with
    ⟨refusal, hpop, hpop'⟩ | ⟨data, data', rest, rest', hpop, hpop', hdata, hrest⟩
  · rw [hpop, hpop']
    show Twins job job' R (throw (nestingError source tag)) (throw (nestingError source' tag))
    rw [nestingError_eq hsource]
    exact twins_throw _
  · rw [hpop, hpop']
    exact twins_expect tag (hview data data' hdata)

theorem twins_replace (tag : String) {data data' : FrameData} (hdata : data.Twins job job' data') :
    Twins job job' Eq (replace tag data : Action σ PUnit) (replace tag data') := by
  refine twins_source.bind fun source source' hsource => ?_
  unfold Hierarchy.replace
  rcases hsource.hierarchy.pop tag with
    ⟨refusal, hpop, hpop'⟩ | ⟨old, old', rest, rest', hpop, hpop', -, hrest⟩
  · rw [hpop, hpop']
    show Twins job job' Eq (throw (nestingError source tag)) (throw (nestingError source' tag))
    rw [nestingError_eq hsource]
    exact twins_throw _
  · rw [hpop, hpop']
    exact twins_hierarchy (.cons ⟨rfl, hdata⟩ hrest)

end Action

end TemplateCompiler
