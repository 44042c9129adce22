import TemplateCompiler.Proofs.Cache.Actions

/-!
# Handlers and twins

The standard handlers come to the same in twins (`Dispatch.twins_standard`). Those of `extends` and
`insert` look templates up; they do so if what is found is no artifact.
-/
namespace TemplateCompiler

variable {σ : Type} {job job' : Job}

/-- What the tag asks for is no artifact, if it is found. -/
def Run.AsksOutside (run : Run σ) (tag : Tag) : Prop :=
  ∀ requested skipped, run.Requests tag requested skipped →
    run.session.workspace.FindsOutside run.session.disk requested skipped

/-! ## Lines of sources -/

theorem Path.place_eq_of_same {a b : Path} (h : a.same b = true) : a.place = b.place := by
  rw [← foldl_advance_parts a, ← foldl_advance_parts b, eq_of_beq h]

/-- What stands at a number in two lists that correspond. -/
theorem rel_getElem? {α β : Type} {R : α → β → Prop} {as : List α} {bs : List β}
    (h : List.Forall₂ R as bs) (i : Nat) : Option.Rel R as[i]? bs[i]? := by
  induction h generalizing i with
  | nil => exact .none
  | cons hhead _ ih =>
    cases i with
    | zero => exact .some hhead
    | succ i => exact ih i

/-- A path that is not that of an artifact is in the line of a source in both catalogs, or in
neither. -/
theorem Standard.chainHas_eq_of_outside {cache : ArtifactCache} {catalog catalog' : List Origin}
    (h : List.Forall₂ cache.SameOrigin catalog catalog') {path : Path}
    (hout : ¬ cache.Holds path.place) (steps : Nat) (id : Option SourceId) :
    chainHas catalog' path steps id = chainHas catalog path steps id := by
  induction steps generalizing id with
  | zero => cases id <;> rfl
  | succ steps ih =>
    cases id with
    | none => rfl
    | some id =>
      have hentry := rel_getElem? h id
      unfold chainHas
      generalize catalog[id]? = entry at hentry
      generalize catalog'[id]? = entry' at hentry
      cases hentry with
      | none => rfl
      | some hsame =>
        dsimp only
        rcases hsame with rfl | ⟨hheld, hheld', hchild, hchild'⟩
        · rw [ih]
        · -- the path is none of an artifact, and nothing extends one
          have hne {origin : Origin} (hplace : cache.Holds origin.path.place) :
              origin.path.same path = false :=
            Bool.eq_false_iff.2 fun hsame => hout (Path.place_eq_of_same hsame ▸ hplace)
          rw [hne hheld, hne hheld', hchild, hchild', ih]

/-! ## Operations of the session -/

namespace Action

theorem twins_insertFile (hjobs : job.Twins job') {run run' : Run σ} (hrun : run.Twins job job' run')
    {requested : String}
    (hout : run.session.workspace.FindsOutside run.session.disk (Text.trimSlashes requested) none)
    (hout' : run'.session.workspace.FindsOutside run'.session.disk (Text.trimSlashes requested)
      none) :
    Run.Agree job job' Eq (ofSession (Session.insertFile requested) run)
      (ofSession (Session.insertFile requested) run') := by
  have hinsert := Session.insertFile_eq requested run.session
  have hinsert' := Session.insertFile_eq requested run'.session
  rw [← hrun.session.find_eq hjobs hout hout'] at hinsert'
  cases hfind : run.session.find (Text.trimSlashes requested) none with
  | error error =>
    rw [hfind] at hinsert hinsert'
    rw [ofSession_of_error hinsert, ofSession_of_error hinsert']
    exact .error _ _ _
  | ok result =>
    cases result with
    | none =>
      rw [hfind] at hinsert hinsert'
      rw [ofSession_of_error hinsert, ofSession_of_error hinsert']
      exact .error _ _ _
    | some found =>
      rw [hfind] at hinsert hinsert'
      rw [ofSession_of_ok hinsert, ofSession_of_ok hinsert']
      obtain ⟨desk, hdesk, -⟩ := hrun.session.desk
      have hpublished : job.workspace.Publishes (run.session.register
          ⟨Text.trimSlashes requested, found.path, found.level, none, none⟩).1.path := by
        rw [← hdesk.workspace]
        exact hout.publishes hfind
      have horigin : job.workspace.cache.SameOrigin
          ⟨Text.trimSlashes requested, found.path, found.level, none, none⟩
          ⟨Text.trimSlashes requested, found.path, found.level, none, none⟩ := .inl rfl
      have hadded := hrun.session.register horigin
      refine .ok rfl ⟨?_, hrun.source⟩
      have htext := hadded.textOf_eq hjobs hpublished
      dsimp only
      rw [htext]
      exact hadded.copy hjobs _

/-- Both find the same in the artifact of a block, and copy it. -/
theorem agree_insertArtifact (hjobs : job.Twins job') {run run' : Run σ}
    (hrun : run.Twins job job' run') {name : String} (hname : Markup.isIdentifier name = true)
    {path path' : Path} {content : Bytes} (hpath : job.blockPath name = .ok path)
    (hpath' : job'.blockPath name = .ok path') (hread : run.session.disk.read? path = some content)
    (hread' : run'.session.disk.read? path' = some content) :
    Run.Agree job job' Eq (ofSession (Session.insertArtifact path) run)
      (ofSession (Session.insertArtifact path') run') := by
  have hinsert := Session.insertArtifact_eq path run.session
  have hinsert' := Session.insertArtifact_eq path' run'.session
  rw [hread] at hinsert
  rw [hread'] at hinsert'
  rw [ofSession_of_ok hinsert, ofSession_of_ok hinsert']
  have hheld := Job.holds_of_blockPath hname hpath
  have hheld' := Job.holds_of_blockPath hname hpath'
  rw [hjobs.workspace] at hheld'
  have horigin : job.workspace.cache.SameOrigin ⟨path.text, path, "artifact", none, none⟩
      ⟨path'.text, path', "artifact", none, none⟩ := .inr ⟨hheld, hheld', rfl, rfl⟩
  exact .ok rfl ⟨(hrun.session.register horigin).copy hjobs content, hrun.source⟩

end Action

/-! ## Handlers -/

namespace Standard

open Action

variable (dispatch : Dispatch σ) (tag : Tag)

theorem views_nothing : Views job job' Eq asNothing asNothing := by
  intro data data' h
  cases h with
  | nothing => exact .some rfl
  | loop | block | pauses => exact .none

theorem views_loop : Views job job' Eq asLoop asLoop := by
  intro data data' h
  cases h with
  | loop hasNone => exact .some rfl
  | nothing | block | pauses => exact .none

/-- What two sessions remember of a block. -/
def BlockFrame.Twins (job job' : Job) (frame frame' : BlockFrame) : Prop :=
  ∃ name saved, frame = ⟨name, job.blockName name, Option.map job.flags saved⟩ ∧
    frame' = ⟨name, job'.blockName name, Option.map job'.flags saved⟩

theorem views_block : Views job job' (BlockFrame.Twins job job') asBlock asBlock := by
  intro data data' h
  cases h with
  | block saved => exact .some ⟨_, saved, rfl, rfl⟩
  | nothing | loop | pauses => exact .none

theorem views_pauses : Views job job'
    (fun state state' => ∃ flags, state = job.flags flags ∧ state' = job'.flags flags)
    asPauses asPauses := by
  intro data data' h
  cases h with
  | pauses flags => exact .some ⟨flags, rfl, rfl⟩
  | nothing | loop | block => exact .none

theorem twins_condition : Twins job job' Eq (condition tag : Action σ Code.Condition)
    (condition tag) := by
  unfold condition
  split
  · exact twins_misuse _
  · exact twins_pure rfl

theorem twins_singleName :
    Twins job job' (fun name name' => name' = name ∧ Markup.isIdentifier name = true)
      (singleName tag : Action σ String) (singleName tag) := by
  unfold singleName
  dsimp only
  split
  · split
    · next hname => exact twins_pure ⟨rfl, hname⟩
    · exact twins_misuse _
  · exact twins_misuse _

theorem twins_setReading (reading : Reading) :
    Twins job job' Eq (setReading reading : Action σ PUnit) (setReading reading) :=
  twins_updateSource fun _ _ h => ⟨by rw [h.same], h.hierarchy, h.running⟩

variable (hjobs : job.Twins job')
include hjobs

theorem twins_onIf : Twins job job' Eq (onIf dispatch tag) (onIf dispatch tag) :=
  (twins_condition tag).bind_eq fun _ => (twins_emit hjobs _).bind_eq fun _ => twins_push _ .nothing

theorem twins_onElseIf : Twins job job' Eq (onElseIf dispatch tag) (onElseIf dispatch tag) :=
  (twins_peek _ views_nothing).bind_eq fun _ => (twins_condition tag).bind_eq fun _ =>
    twins_emit hjobs _

theorem twins_onElse : Twins job job' Eq (onElse dispatch tag) (onElse dispatch tag) :=
  (twins_peek _ views_nothing).bind_eq fun _ => twins_emit hjobs _

theorem twins_onEndIf : Twins job job' Eq (onEndIf dispatch tag) (onEndIf dispatch tag) :=
  (twins_pop _ views_nothing).bind_eq fun _ => twins_emit hjobs _

theorem twins_onFor : Twins job job' Eq (onFor dispatch tag) (onFor dispatch tag) := by
  unfold onFor
  dsimp only
  split
  · split
    · exact (twins_emit hjobs _).bind_eq fun _ => twins_push _ (.loop false)
    · exact twins_misuse _
  · exact twins_misuse _

theorem twins_onEmpty : Twins job job' Eq (onEmpty dispatch tag) (onEmpty dispatch tag) := by
  refine (twins_peek _ views_loop).bind_eq fun hasNone => ?_
  split
  · exact twins_misuse _
  · exact (twins_replace _ (.loop true)).bind_eq fun _ => twins_emit hjobs _

theorem twins_onEndFor : Twins job job' Eq (onEndFor dispatch tag) (onEndFor dispatch tag) :=
  (twins_pop _ views_loop).bind_eq fun _ => twins_emit hjobs _

theorem twins_onWith : Twins job job' Eq (onWith dispatch tag) (onWith dispatch tag) := by
  unfold onWith
  dsimp only
  split
  · split
    · exact (twins_emit hjobs _).bind_eq fun _ => twins_push _ .nothing
    · exact twins_misuse _
  · exact twins_misuse _

omit hjobs in
theorem twins_onEndWith : Twins job job' Eq (onEndWith dispatch tag) (onEndWith dispatch tag) :=
  twins_pop _ views_nothing

theorem twins_onInclude : Twins job job' Eq (onInclude dispatch tag) (onInclude dispatch tag) := by
  unfold onInclude
  split
  · exact twins_emit hjobs _
  · exact twins_misuse _

omit hjobs in
theorem twins_onLiteral : Twins job job' Eq (onLiteral dispatch tag) (onLiteral dispatch tag) :=
  (twins_setReading _).bind_eq fun _ => twins_push _ .nothing

omit hjobs in
theorem twins_onEndLiteral :
    Twins job job' Eq (onEndLiteral dispatch tag) (onEndLiteral dispatch tag) :=
  (twins_pop _ views_nothing).bind_eq fun _ => twins_setReading _

omit hjobs in
theorem twins_onComment : Twins job job' Eq (onComment dispatch tag) (onComment dispatch tag) := by
  refine twins_pauseAll.bind ?_
  rintro _ _ ⟨flags, rfl, rfl⟩
  exact (twins_setReading _).bind_eq fun _ => twins_push _ (.pauses flags)

omit hjobs in
theorem twins_restore (flags : PauseState) :
    Twins job job' Eq (updateSession (·.restore (job.flags flags)) : Action σ PUnit)
      (updateSession (·.restore (job'.flags flags))) :=
  twins_updateSession fun _ _ h => h.restore flags

omit hjobs in
theorem twins_onEndComment :
    Twins job job' Eq (onEndComment dispatch tag) (onEndComment dispatch tag) := by
  refine (twins_pop _ views_pauses).bind ?_
  rintro _ _ ⟨flags, rfl, rfl⟩
  exact (twins_restore flags).bind_eq fun _ => twins_setReading _

omit hjobs in
theorem twins_someFlags : Twins job job'
    (fun saved saved' => ∃ flags, saved = some (job.flags flags) ∧ saved' = some (job'.flags flags))
    (some <$> pauseAll : Action σ (Option PauseState)) (some <$> pauseAll) := by
  intro run run' hrun
  obtain ⟨⟨flags, hflags, hflags'⟩, hpaused⟩ := hrun.session.pauseAll
  exact .ok ⟨flags, congrArg some hflags, congrArg some hflags'⟩ ⟨hpaused, hrun.source⟩

/-- **Opening a block**: it is overridden in both runs or in neither, and then by the same content. -/
theorem twins_onBlock : Twins job job' Eq (onBlock dispatch tag) (onBlock dispatch tag) := by
  refine (twins_singleName tag).bind ?_
  rintro _ name ⟨rfl, hname⟩ run run' hrun
  have hsession {β : Type} (run : Run σ) (f : Session → Action σ β) :
      (Action.session >>= f) run = f run.session run := rfl
  obtain ⟨desk, hdesk, hdesk'⟩ := hrun.session.desk
  have hdestination : ArtifactCache.blockName run.session.id run.session.template name =
      job.blockName name := by
    rw [hdesk.id, hdesk.template]
    rfl
  have hdestination' : ArtifactCache.blockName run'.session.id run'.session.template name =
      job'.blockName name := by
    rw [hdesk'.id, hdesk'.template]
    rfl
  dsimp only
  rw [hsession, hsession, hdestination, hdestination']
  rcases hrun.session.addDestination hjobs hname with
    ⟨path, closed, hadd⟩ | ⟨path, closed, hadd⟩ | ⟨existed, a, b, hadd, hadd', hopened, hread⟩
  · rw [bind_of_error (ofSession_of_error hadd)]
    exact .unopened
  · rw [bind_of_error (ofSession_of_error hadd)]
    exact .unopened'
  · rw [bind_of_ok (ofSession_of_ok hadd), bind_of_ok (ofSession_of_ok hadd')]
    have hafter : Run.Twins job job' { run with session := a } { run' with session := b } :=
      ⟨hopened, hrun.source⟩
    cases existed with
    | false => exact twins_push "block" (.block none) _ _ hafter
    | true =>
      obtain ⟨path, path', content, hpath, hpath', hread, hread'⟩ := hread rfl
      have hartifact := hdesk.artifactPath_eq_ok.2 hpath
      have hartifact' := hdesk'.artifactPath_eq_ok.2 hpath'
      rw [if_pos rfl, if_pos rfl, hartifact, hartifact']
      show Run.Agree job job' Eq ((ofSession (Session.insertArtifact path) >>= _) _)
        ((ofSession (Session.insertArtifact path') >>= _) _)
      refine agree_bind (agree_insertArtifact hjobs hafter hname hpath hpath' hread hread')
        fun _ _ copied copied' _ _ _ hcopied => ?_
      refine twins_someFlags.bind ?_ _ _ hcopied
      rintro _ _ ⟨flags, rfl, rfl⟩
      exact twins_push "block" (.block (some flags))

theorem twins_onEndBlock :
    Twins job job' Eq (onEndBlock dispatch tag) (onEndBlock dispatch tag) := by
  rw [onEndBlock_eq]
  refine (twins_pop _ views_block).bind ?_
  rintro _ _ ⟨name, saved, rfl, rfl⟩
  have hclose : Twins job job' Eq
      (leaveBlock ⟨name, job.blockName name, saved.map job.flags⟩ : Action σ PUnit)
      (leaveBlock ⟨name, job'.blockName name, saved.map job'.flags⟩) := by
    refine (twins_updateSession fun _ _ h => h.removeDestination hjobs name).bind_eq fun _ => ?_
    cases saved with
    | none => exact twins_pure rfl
    | some flags => exact twins_restore flags
  cases tag.params.head? with
  | none => exact hclose
  | some param =>
    dsimp only
    split
    · exact (twins_misuse _).bind_eq fun _ => hclose
    · exact hclose

omit hjobs in
/-- What both have found is queued in both, or in neither. -/
theorem twins_extend {run run' : Run σ} (hrun : run.Twins job job' run') (parent : String)
    (skipped : Option String) {found : Found} (hfound : job.workspace.Publishes found.path) :
    (run.extend parent skipped found).Twins job job' (run'.extend parent skipped found) := by
  unfold Run.extend
  dsimp only
  rw [hrun.source.toOrigin_eq, hrun.source.id_eq, hrun.session.has_eq]
  refine ⟨?_, ⟨by rw [hrun.source.same], hrun.source.hierarchy, hrun.source.running⟩⟩
  dsimp only
  split
  · exact hrun.session.setMainPaused true
  · have horigin : job.workspace.Publishes
        (Origin.mk parent found.path found.level skipped (some run.source.id)).path := hfound
    exact (hrun.session.enqueue horigin).setMainPaused true

theorem agree_onInsert {run run' : Run σ} (hrun : run.Twins job job' run')
    (hname : tag.name = "insert") (hout : run.AsksOutside tag) (hout' : run'.AsksOutside tag) :
    Run.Agree job job' Eq (onInsert dispatch tag run) (onInsert dispatch tag run') := by
  unfold onInsert
  rcases @quotedPath_cases σ tag with ⟨path, hpath, hpure⟩ | ⟨-, message, hmisuse⟩
  · rw [hpure, pure_bind]
    exact twins_insertFile hjobs hrun (hout _ _ (.insert hname hpath))
      (hout' _ _ (.insert hname hpath))
  · rw [hmisuse]
    exact (twins_misuse (R := fun _ _ => False) message).bind (fun _ _ h => h.elim) run run' hrun

theorem agree_onExtends {run run' : Run σ} (hrun : run.Twins job job' run')
    (hname : tag.name = "extends") (hout : run.AsksOutside tag) (hout' : run'.AsksOutside tag) :
    Run.Agree job job' Eq (onExtends dispatch tag run) (onExtends dispatch tag run') := by
  rcases @quotedPath_cases σ tag with ⟨path, hquoted, hpath⟩ | ⟨-, message, hmisuse⟩
  · have hrequest : run'.source.parentRequest path = run.source.parentRequest path := by
      rw [hrun.source.same]
      rfl
    have htags : run'.source.tagsSeen = run.source.tagsSeen := by rw [hrun.source.same]
    have hextended : run'.source.extended = run.source.extended := by rw [hrun.source.same]
    have hasks := hout _ _ (.extend hname hquoted)
    have hasks' := hout' _ _ (.extend hname hquoted)
    rw [hrequest] at hasks'
    have hfind := hrun.session.find_eq hjobs hasks hasks'
    rw [onExtends_eq hpath, onExtends_eq hpath, hrequest, htags, hextended,
      hrun.source.location_eq, ← hfind]
    by_cases hfirst : 1 < run.source.tagsSeen ∨ run.source.extended.isSome = true
    · rw [if_pos hfirst, if_pos hfirst]
      exact .error _ _ _
    · rw [if_neg hfirst, if_neg hfirst]
      cases hresult : run.session.find (run.source.parentRequest path).1
        (run.source.parentRequest path).2 with
      | error error => exact .error _ _ _
      | ok result =>
        cases result with
        | none => exact .error _ _ _
        | some found =>
          obtain ⟨desk, hdesk, -⟩ := hrun.session.desk
          have hpublished : job.workspace.Publishes found.path := by
            rw [← hdesk.workspace]
            exact hasks.publishes hresult
          dsimp only
          rw [hrun.source.id_eq, ← hrun.session.catalog.length_eq,
            chainHas_eq_of_outside hrun.session.catalog hpublished.2]
          by_cases hchain : chainHas run.session.catalog found.path run.session.catalog.length
              (some run.source.id) = true
          · rw [if_pos hchain, if_pos hchain]
            exact .error _ _ _
          · rw [if_neg hchain, if_neg hchain]
            exact .ok rfl (twins_extend hrun _ _ hpublished)
  · unfold onExtends
    rw [hmisuse]
    exact (twins_misuse (R := fun _ _ => False) message).bind (fun _ _ h => h.elim) run run' hrun

/-! ## Filters -/

omit hjobs in
theorem twins_argument (call : FilterCall) :
    Twins job job' Eq (argument call : Action σ Code.Expr) (argument call) := by
  unfold argument
  split
  · exact twins_pure rfl
  · exact twins_misuse _

/-- In twins every standard filter comes to the same. -/
theorem twins_filters : ∀ entry ∈ (filters : List (String × (Dispatch σ → FilterHandler σ))),
    ∀ dispatch call position,
      Twins job job' Eq (entry.2 dispatch call position) (entry.2 dispatch call position) := by
  have hplain (filtering : Code.Filtering) (dispatch : Dispatch σ) (call : FilterCall)
      (position : Nat) : Twins job job' Eq (plain filtering dispatch call position)
        (plain filtering dispatch call position) := twins_write hjobs _
  have hargument (filtering : Code.Expr → Code.Filtering) (dispatch : Dispatch σ)
      (call : FilterCall) (position : Nat) :
      Twins job job' Eq (withArgument filtering dispatch call position)
        (withArgument filtering dispatch call position) :=
    (twins_argument call).bind_eq fun _ => twins_write hjobs _
  have hjoin (dispatch : Dispatch σ) (call : FilterCall) (position : Nat) :
      Twins job job' Eq (join dispatch call position) (join dispatch call position) :=
    twins_write hjobs _
  simp only [filters, List.forall_mem_cons]
  exact ⟨hplain _, hplain _, hplain _, hplain _, hplain _, hplain _, hargument _, hjoin, hplain _,
    hplain _, hargument _, hargument _, hplain _, hplain _, hplain _, hargument _, List.forall_mem_nil _⟩

end Standard

/-! ## Dispatching -/

/-- In twins, the handler of a tag comes to the same, if what the tag asks for is no artifact. -/
def TagHandler.Twins (job job' : Job) (name : String) (handler : TagHandler σ) : Prop :=
  ∀ (tag : Tag) (run run' : Run σ), tag.name = name → run.Twins job job' run' →
    run.AsksOutside tag → run'.AsksOutside tag →
      Run.Agree job job' Eq (handler tag run) (handler tag run')

/-- In twins every handler comes to the same. -/
structure Dispatch.Twins (job job' : Job) (dispatch : Dispatch σ) : Prop where
  tags : ∀ name handler, dispatch.tag? name = some handler → handler.Twins job job' name
  filters : ∀ name handler, dispatch.filter? name = some handler → ∀ call position,
    Action.Twins job job' Eq (handler call position) (handler call position)

/-- In twins every standard tag comes to the same. -/
theorem Standard.twins_tags (hjobs : job.Twins job') :
    ∀ entry ∈ (tags : List (String × (Dispatch σ → TagHandler σ))), ∀ dispatch,
      (entry.2 dispatch).Twins job job' entry.1 := by
  have always {name : String} {handler : Dispatch σ → TagHandler σ}
      (h : ∀ dispatch tag, Action.Twins job job' Eq (handler dispatch tag) (handler dispatch tag))
      (dispatch : Dispatch σ) : (handler dispatch).Twins job job' name :=
    fun tag run run' _ hrun _ _ => h dispatch tag run run' hrun
  simp only [tags, List.forall_mem_cons]
  exact ⟨always fun d t => twins_onIf d t hjobs, always fun d t => twins_onElseIf d t hjobs,
    always fun d t => twins_onElse d t hjobs, always fun d t => twins_onEndIf d t hjobs,
    always fun d t => twins_onFor d t hjobs, always fun d t => twins_onEmpty d t hjobs,
    always fun d t => twins_onEndFor d t hjobs, always fun d t => twins_onWith d t hjobs,
    always fun d t => twins_onEndWith d t, always fun d t => twins_onBlock d t hjobs,
    always fun d t => twins_onEndBlock d t hjobs,
    fun d t _ _ hname hrun hout hout' => agree_onExtends d t hjobs hrun hname hout hout',
    always fun d t => twins_onInclude d t hjobs,
    fun d t _ _ hname hrun hout hout' => agree_onInsert d t hjobs hrun hname hout hout',
    always fun d t => twins_onLiteral d t, always fun d t => twins_onEndLiteral d t,
    always fun d t => twins_onComment d t, always fun d t => twins_onEndComment d t, List.forall_mem_nil _⟩

theorem Dispatch.twins_standard (hjobs : job.Twins job') (depth : Nat) :
    ((Library.standard : Library σ).dispatch depth).Twins job job' := by
  constructor
  · intro name handler hhandler
    rcases Library.tag?_dispatch hhandler with ⟨-, rfl⟩ | ⟨make, deeper, -, hmake, rfl⟩
    · exact fun _ _ _ _ _ _ _ => .error _ _ _
    · exact Standard.twins_tags hjobs _ hmake _
  · intro name handler hhandler call position
    rcases Library.filter?_dispatch hhandler with ⟨-, rfl⟩ | ⟨make, deeper, -, hmake, rfl⟩
    · exact Action.twins_throw _
    · exact Standard.twins_filters hjobs _ hmake _ call position

section

open Action

variable {dispatch : Dispatch σ} (hjobs : job.Twins job') (hdispatch : dispatch.Twins job job')
include hjobs hdispatch

omit hjobs in
theorem Variable.twins_applyFilters (position : Nat) (calls : List FilterCall) :
    Twins job job' Eq (applyFilters dispatch position calls) (applyFilters dispatch position calls) := by
  induction calls generalizing position with
  | nil => exact twins_pure rfl
  | cons call rest ih =>
    unfold applyFilters
    dsimp only
    split
    · exact twins_location.bind_eq fun _ => (twins_throw _).bind_eq fun _ => ih (position + 1)
    · next handler hhandler =>
      exact Twins.bind_eq (hdispatch.filters _ _ hhandler _ _) fun _ => ih (position + 1)

theorem Variable.twins_prepare (v : Variable) :
    Twins job job' Eq (v.prepare dispatch) (v.prepare dispatch) :=
  (twins_write hjobs _).bind_eq fun _ => (twins_applyFilters hdispatch 1 v.filters).bind_eq fun _ =>
    twins_write hjobs _

theorem Variable.twins_show (v : Variable) :
    Twins job job' Eq (v.write dispatch) (v.write dispatch) := by
  unfold Variable.write
  split
  · exact (v.twins_prepare hjobs hdispatch).bind_eq fun _ => twins_emit hjobs _
  · exact twins_emit hjobs _

theorem Tag.twins_fillSlots (params : List Variable) :
    Twins job job' Eq (fillSlots dispatch params) (fillSlots dispatch params) := by
  induction params with
  | nil => exact twins_pure rfl
  | cons param rest ih =>
    have hmore (param : Variable) : Twins job job' Eq (do
        let more ← fillSlots dispatch rest
        pure (param :: more) : Action σ (List Variable)) (do
        let more ← fillSlots dispatch rest
        pure (param :: more)) :=
      ih.bind_eq fun _ => twins_pure rfl
    unfold fillSlots
    dsimp only
    split
    · have hslot : Twins job job' Eq (fillSlot dispatch param) (fillSlot dispatch param) :=
        (param.twins_prepare hjobs hdispatch).bind_eq fun _ => twins_nextSlot.bind_eq fun _ =>
          (twins_emit hjobs _).bind_eq fun _ => twins_reading hjobs _
      exact hslot.bind_eq hmore
    · exact (twins_pure (rfl : param = param)).bind_eq hmore

omit hdispatch in
theorem Run.Twins.approach {run run' : Run σ} (hrun : run.Twins job job' run') (before : Bytes)
    (d : Markup.Directive) (atEnd : Bool) :
    (run.approach before d atEnd).Twins job job' (run'.approach before d atEnd) := by
  unfold Run.approach
  rw [hrun.source.location_eq]
  refine ⟨?_, ⟨by rw [hrun.source.same], hrun.source.hierarchy, hrun.source.running⟩⟩
  dsimp only
  split
  · exact hrun.session.write hjobs before
  · exact (hrun.session.note (congrArg (· ++ _) hrun.session.warnings) hrun.session.slots).write hjobs
      before

/-- Both find the handler of the tag, and call it in the same way. -/
theorem Tag.twins_prepare (tag : Tag) :
    Twins job job' (fun call call' => call' = call ∧ dispatch.tag? call.2.name = some call.1)
      (tag.prepare dispatch) (tag.prepare dispatch) := by
  unfold Tag.prepare
  cases hhandler : dispatch.tag? tag.name with
  | none => exact twins_location.bind_eq fun _ => twins_throw _
  | some handler =>
    exact (twins_fillSlots hjobs hdispatch tag.params).bind_eq fun _ => twins_pure ⟨rfl, hhandler⟩

/-- **Meeting a directive**: both come to the same, if what the tag asks for is no artifact. -/
theorem agree_meet {run run' : Run σ} (hrun : run.Twins job job' run') (before : Bytes)
    (d : Markup.Directive) (atEnd : Bool)
    (hout : ∀ handler tag called, d.kind = .tag →
      d.prepare dispatch (run.approach before d atEnd) = .ok (handler, tag) called →
        called.AsksOutside tag)
    (hout' : ∀ handler tag called, d.kind = .tag →
      d.prepare dispatch (run'.approach before d atEnd) = .ok (handler, tag) called →
        called.AsksOutside tag) :
    Run.Agree job job' Eq (meet dispatch before d atEnd run) (meet dispatch before d atEnd run') := by
  rw [meet_eq, meet_eq]
  have happroach := hrun.approach hjobs before d atEnd
  have hmark (currentTag : Option String) (tagsSeen : Source → Nat)
      (htags : ∀ source hierarchy, tagsSeen { source with hierarchy } = tagsSeen source) :
      Twins job job' Eq
        (updateSource fun source => { source with currentTag, tagsSeen := tagsSeen source } :
          Action σ PUnit)
        (updateSource fun source => { source with currentTag, tagsSeen := tagsSeen source }) :=
    twins_updateSource fun _ _ h => ⟨by rw [h.same, htags], h.hierarchy, h.running⟩
  match hkind : d.kind with
  | .tag =>
    rw [handle_tag hkind]
    have hprepare : Twins job job'
        (fun call call' => call' = call ∧ dispatch.tag? call.2.name = some call.1)
        (d.prepare dispatch) (d.prepare dispatch) :=
      (hmark _ (·.tagsSeen + 1) fun _ _ => rfl).bind_eq fun _ =>
        (twins_reading hjobs _).bind_eq fun tag => tag.twins_prepare hjobs hdispatch
    refine agree_bind (hprepare _ _ happroach) ?_
    rintro ⟨handler, tag⟩ _ called called' hcalled hcalled' ⟨rfl, hhandler⟩ hrun
    exact hdispatch.tags _ _ hhandler tag called called' rfl hrun
      (hout handler tag called hkind hcalled) (hout' handler tag called' hkind hcalled')
  | .variable =>
    unfold handle
    rw [hkind]
    exact ((hmark none (·.tagsSeen) fun _ _ => rfl).bind_eq fun _ =>
      (twins_reading hjobs _).bind_eq fun v => v.twins_show hjobs hdispatch) _ _ happroach

end

end TemplateCompiler
