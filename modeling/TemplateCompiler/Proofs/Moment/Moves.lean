import TemplateCompiler.Proofs.Handling.Kinds
import TemplateCompiler.Proofs.Moment.Requests

/-!
# What the standard handlers do

Whatever a standard handler does, whether it succeeds or fails, it does by moves of a few kinds
(`Run.Move`): it writes, pauses, opens and closes destinations, marks its source, and enters origins
in the catalog. What every move keeps, every directive keeps (`moves_meet`).
-/
namespace TemplateCompiler

variable {σ α β : Type}

/-! ## Moves -/

namespace Run

/-- One thing that is done to a run while a directive is handled. -/
inductive Move : Run σ → Run σ → Prop
  | write (run : Run σ) (piece : Bytes) : Move run { run with session := run.session.write piece }
  /-- Warnings are given, or a slot is handed out. -/
  | note (run : Run σ) (warnings : List Warning) (slots : Nat) :
    Move run { run with session := { run.session with warnings, slots } }
  /-- The source is told where it is, what is open in it and how it is to be read on. -/
  | mark (run : Run σ) (currentTag : Option String) (tagsSeen : Nat) (atEnd : Bool)
    (hierarchy : Hierarchy FrameData) (reading : Reading) :
    Move run { run with
      source := { run.source with currentTag, tagsSeen, atEnd, hierarchy, reading } }
  | flag (run : Run σ) (main : Bool) (others : Destination → Bool) :
    Move run { run with session := { run.session with
      main := run.session.main.setPaused main
      others := run.session.others.map fun d => d.setPaused (others d) } }
  | close (run : Run σ) (name : String) :
    Move run { run with session := (run.session.removeDestination name).2 }
  | opening (run : Run σ) {name : String} {path : Path} {d : Destination} {disk : Disk}
    (hpath : run.session.artifactPath name true = .ok path)
    (hopen : Destination.open? run.session.disk name path true = .ok (d, disk)) :
    Move run { run with session := { run.session with
      others := run.session.others ++ [d]
      disk } }
  /-- A template or an artifact that is copied is entered in the catalog. -/
  | register (run : Run σ) (origin : Origin) (horigin : origin.child = none) :
    Move run { run with session := (run.session.register origin).2 }
  /-- The source extends another one, which is queued. -/
  | extend (run : Run σ) {parent : String} {skipped : Option String} {found : Found}
    (hfirst : run.source.extended = none) (hfind : run.session.find parent skipped = .ok (some found))
    (hfresh : Standard.chainHas run.session.catalog found.path run.session.catalog.length
      (some run.source.id) = false)
    (added : Source × Session) (hadded : added = run.session.register
      ⟨parent, found.path, found.level, skipped, some run.source.id⟩) :
    Move run { run with
      session := { added.2 with waiting := run.session.waiting ++ [added.1] }
      source := { run.source with extended := some parent } }
  /-- The source extends what is queued already. -/
  | extendAgain (run : Run σ) (parent : String) (hfirst : run.source.extended = none) :
    Move run { run with source := { run.source with extended := some parent } }

/-- What is done to a run while a directive is handled. -/
def Moves : Run σ → Run σ → Prop :=
  Relation.ReflTransGen Move

theorem move_setMainPaused (run : Run σ) (paused : Bool) :
    Move run { run with session := run.session.setMainPaused paused } := by
  have hmove := Run.Move.flag run paused fun d => d.paused
  rwa [show run.session.others.map (fun d => d.setPaused d.paused) = run.session.others from
    List.map_id _] at hmove

theorem Moves.of (P : Run σ → Prop) (hstep : ∀ run run', Move run run' → P run → P run')
    {run run' : Run σ} (h : Moves run run') (hrun : P run) : P run' := by
  induction h with
  | refl => exact hrun
  | tail _ hmove ih => exact hstep _ _ hmove ih

end Run

/-- What comes of an action that does nothing but moves, and that does not run out of depth unless
depth is `limited`. -/
inductive Run.Comes (limited : Prop) (run : Run σ) :
    EStateM.Result CompileError (Run σ) α → Prop
  | ok {a : α} {run' : Run σ} (h : run.Moves run') : Comes limited run (.ok a run')
  | error {error : CompileError} {run' : Run σ} (h : run.Moves run')
    (hlimited : error = .unfinished → limited) : Comes limited run (.error error run')

/-- An action that does nothing but moves. -/
def Action.Moves (limited : Prop) (action : Action σ α) : Prop :=
  ∀ run : Run σ, run.Comes limited (action run)

/-- A reading that does not run out of depth. -/
def Diagnosed.Ends (read : Diagnosed α) : Prop :=
  ∀ before error after, read before = .error error after → error ≠ .unfinished

/-! ## Readings -/

namespace Diagnosed

theorem ends_pure (a : α) : Ends (pure a : Diagnosed α) :=
  fun _ _ _ h => nomatch h

theorem ends_throw {error : CompileError} (h : error ≠ .unfinished) :
    Ends (throw error : Diagnosed α) := by
  intro before other after hthrow
  cases hthrow
  exact h

theorem ends_warn (warning : Warning) : Ends (warn warning) :=
  fun _ _ _ h => nomatch h

theorem Ends.bind {read : Diagnosed α} {f : α → Diagnosed β} (h : Ends read)
    (hf : ∀ a, Ends (f a)) : Ends (read >>= f) := by
  intro before error after herror
  change EStateM.bind read f before = _ at herror
  unfold EStateM.bind at herror
  split at herror
  · exact hf _ _ _ _ herror
  · next hread =>
    cases herror
    exact h _ _ _ hread

end Diagnosed

open Diagnosed

theorem Scene.ends_resolve (scene : Scene) (text : String) (escape : Bool) :
    Ends (scene.resolve text escape) := by
  unfold Scene.resolve
  split
  · exact ends_pure _
  · exact ends_pure _
  · split
    · exact ends_pure _
    · exact ends_pure _
  · exact (ends_warn _).bind fun _ => ends_pure _
  · exact ends_throw nofun

theorem Variable.ends_readFilters (scene : Scene) (filters : List Markup.FilterText) :
    Ends (readFilters scene filters) := by
  induction filters with
  | nil => exact ends_pure _
  | cons filter rest ih =>
    have harg : Ends (filter.argument.mapM (scene.resolve · false)) := by
      cases filter.argument with
      | none => exact ends_pure _
      | some text => exact (scene.ends_resolve text false).bind fun _ => ends_pure _
    exact harg.bind fun _ => ih.bind fun _ => ends_pure _

theorem Variable.ends_readEscape (scene : Scene) (base : String) (escape : Bool) :
    Ends (readEscape scene base escape) := by
  unfold readEscape
  split
  · split
    · exact ends_throw nofun
    · exact (ends_warn _).bind fun _ => ends_pure _
  · exact ends_pure _

theorem Variable.ends_read (scene : Scene) (raw : String) (escape : Bool) :
    Ends (read scene raw escape) :=
  (ends_readFilters scene _).bind fun _ => (ends_readEscape scene _ _).bind fun _ =>
    (scene.ends_resolve _ _).bind fun _ => ends_pure _

theorem Tag.ends_read (scene : Scene) (name text : String) : Ends (read scene name text) := by
  have hskipped (skipped : List Char) : Ends (warnSkipped scene name skipped) := by
    induction skipped with
    | nil => exact ends_pure _
    | cons c rest ih => exact (ends_warn _).bind fun _ => ih
  have hparams (params : List String) : Ends (readParams scene params) := by
    induction params with
    | nil => exact ends_pure _
    | cons text rest ih =>
      exact (Variable.ends_read scene text false).bind fun _ => ih.bind fun _ => ends_pure _
  exact (hskipped _).bind fun _ => (hparams _).bind fun _ => ends_pure _

/-! ## Parts of handlers -/

namespace Action

variable {limited : Prop}

theorem moves_pure (a : α) : Moves limited (pure a : Action σ α) :=
  fun _ => .ok .refl

theorem moves_throw {error : CompileError} (h : error = .unfinished → limited) :
    Moves limited (throw error : Action σ α) :=
  fun _ => .error .refl h

theorem comes_bind {action : Action σ α} {f : α → Action σ β} {run : Run σ}
    (h : run.Comes limited (action run))
    (hf : ∀ a run', action run = .ok a run' → run'.Comes limited (f a run')) :
    run.Comes limited ((action >>= f) run) := by
  show run.Comes limited (EStateM.bind action f run)
  unfold EStateM.bind
  cases haction : action run with
  | error error middle =>
    rw [haction] at h
    cases h with
    | error hmoves hlimited => exact .error hmoves hlimited
  | ok a middle =>
    rw [haction] at h
    cases h with
    | ok hmoves =>
      dsimp only
      have hmiddle := hf a middle haction
      cases hlast : f a middle with
      | ok b last =>
        rw [hlast] at hmiddle
        cases hmiddle with
        | ok hmore => exact .ok (hmoves.trans hmore)
      | error error last =>
        rw [hlast] at hmiddle
        cases hmiddle with
        | error hmore hlimited => exact .error (hmoves.trans hmore) hlimited

theorem Moves.bind {action : Action σ α} {f : α → Action σ β} (h : Moves limited action)
    (hf : ∀ a, Moves limited (f a)) : Moves limited (action >>= f) :=
  fun run => comes_bind (h run) fun a run' _ => hf a run'

theorem moves_source : Moves limited (source : Action σ Source) :=
  fun _ => .ok .refl

theorem moves_session : Moves limited (session : Action σ Session) :=
  fun _ => .ok .refl

theorem moves_location : Moves limited (location : Action σ Location) :=
  fun _ => .ok .refl

theorem moves_write (text : String) : Moves limited (write text : Action σ PUnit) :=
  fun run => .ok (.single (.write run _))

theorem moves_emit (statement : Code.Statement) : Moves limited (emit statement : Action σ PUnit) :=
  moves_write _

theorem moves_warn (message : String) : Moves limited (warn message : Action σ PUnit) := by
  intro run
  have hmove := Run.Move.note run (run.session.warnings ++ [Warning.mk message run.source.location])
    run.session.slots
  exact .ok (.single hmove)

theorem moves_misuse (message : String) : Moves limited (misuse message : Action σ α) :=
  fun _ => .error .refl nofun

theorem moves_nextSlot : Moves limited (nextSlot : Action σ Nat) :=
  fun run => .ok (.single (.note run run.session.warnings (run.session.slots + 1)))

theorem moves_pauseAll : Moves limited (pauseAll : Action σ PauseState) :=
  fun run => .ok (.single (.flag run true fun _ => true))

theorem moves_reading {read : Scene → Diagnosed α} (h : ∀ scene, (read scene).Ends) :
    Moves limited (reading read : Action σ α) := by
  intro run
  unfold reading
  split
  · exact .ok (.single (.note run _ run.session.slots))
  · next error warnings hread =>
    exact .error (.single (.note run _ run.session.slots)) fun hunfinished =>
      absurd hunfinished (h _ _ _ _ hread)

theorem moves_hierarchy (hierarchy : Hierarchy FrameData) :
    Moves limited (updateSource fun source => { source with hierarchy } : Action σ PUnit) :=
  fun run => .ok (.single (.mark run run.source.currentTag run.source.tagsSeen run.source.atEnd
    hierarchy run.source.reading))

theorem moves_push (tag : String) (data : FrameData) :
    Moves limited (push tag data : Action σ PUnit) :=
  fun run => .ok (.single (.mark run run.source.currentTag run.source.tagsSeen run.source.atEnd
    (run.source.hierarchy.push tag data) run.source.reading))

theorem moves_expect (tag : String) (view : FrameData → Option α) (data : FrameData) :
    Moves limited (expect tag view data : Action σ α) := by
  unfold expect
  split
  · exact moves_pure _
  · exact moves_misuse _

theorem moves_pop (tag : String) (view : FrameData → Option α) :
    Moves limited (pop tag view : Action σ α) := by
  refine moves_source.bind fun source => ?_
  split
  · next refusal _ =>
    refine moves_throw ?_
    cases refusal <;> exact nofun
  · exact (moves_hierarchy _).bind fun _ => moves_expect _ _ _

theorem moves_peek (tag : String) (view : FrameData → Option α) :
    Moves limited (peek tag view : Action σ α) := by
  refine moves_source.bind fun source => ?_
  split
  · exact moves_throw nofun
  · exact moves_expect _ _ _

theorem moves_replace (tag : String) (data : FrameData) :
    Moves limited (replace tag data : Action σ PUnit) := by
  refine moves_source.bind fun source => ?_
  split
  · exact moves_throw nofun
  · exact moves_hierarchy _

theorem moves_ofExcept {result : Except CompileError α} (h : ∀ error, result = .error error →
    error ≠ .unfinished) : Moves limited (MonadExcept.ofExcept result : Action σ α) := by
  cases result with
  | error error => exact moves_throw fun hunfinished => absurd hunfinished (h error rfl)
  | ok a => exact moves_pure a

/-! ## Operations of the session -/

theorem ofSession_of_ok {operation : SessionM α} {run : Run σ} {a : α} {session : Session}
    (h : operation run.session = .ok a session) :
    ofSession operation run = .ok a { run with session } := by
  unfold ofSession EStateM.run
  rw [h]

theorem ofSession_of_error {operation : SessionM α} {run : Run σ} {error : CompileError}
    {session : Session} (h : operation run.session = .error error session) :
    ofSession operation run = .error error { run with session } := by
  unfold ofSession EStateM.run
  rw [h]

theorem moves_foldl_write (pieces : List Bytes) (run : Run σ) :
    run.Moves { run with session := pieces.foldl Session.write run.session } := by
  induction pieces generalizing run with
  | nil => exact .refl
  | cons piece pieces ih => exact .head (.write run piece) (ih _)

theorem open?_error {disk : Disk} {name : String} {path : Path} {temporary : Bool}
    {error : CompileError} (h : Destination.open? disk name path temporary = .error error) :
    error = .destinationOpen path := by
  unfold Destination.open? at h
  dsimp only at h
  split at h
  · cases h
  · split at h
    · cases h
    · cases h
      rfl

theorem artifactPath_error {session : Session} {name : String} {temporary : Bool}
    {error : CompileError} (h : session.artifactPath name temporary = .error error) :
    ∃ refusal, error = .invalidPath refusal := by
  unfold Session.artifactPath at h
  dsimp only at h
  generalize (if temporary = true then session.workspace.cache.tempPath name
    else session.workspace.cache.compiledPath name) = result at h
  cases result with
  | ok path => cases h
  | error refusal =>
    cases h
    exact ⟨refusal, rfl⟩

theorem moves_addDestination (name : String) :
    Moves limited (ofSession (Session.addDestination name true) : Action σ Bool) := by
  intro run
  have hadd := Session.addDestination_eq name true run.session
  cases hpath : run.session.artifactPath name true with
  | error error =>
    rw [hpath] at hadd
    obtain ⟨refusal, rfl⟩ := artifactPath_error hpath
    rw [ofSession_of_error hadd]
    exact .error .refl nofun
  | ok path =>
    rw [hpath] at hadd
    dsimp only at hadd
    cases hopen : Destination.open? (run.session.removeDestination name).2.disk name path true with
    | error error =>
      rw [hopen] at hadd
      obtain rfl := open?_error hopen
      rw [ofSession_of_error hadd]
      exact .error (.single (.close run name)) nofun
    | ok opened =>
      rw [hopen] at hadd
      rw [ofSession_of_ok hadd]
      have hclosed : (run.session.removeDestination name).2.artifactPath name true = .ok path := by
        rw [← hpath]
        unfold Session.removeDestination
        split <;> rfl
      exact .ok (.tail (.single (.close run name)) (.opening _ hclosed hopen))

theorem moves_insertArtifact (path : Path) :
    Moves limited (ofSession (Session.insertArtifact path) : Action σ PUnit) := by
  intro run
  have hinsert := Session.insertArtifact_eq path run.session
  cases hread : run.session.disk.read? path with
  | none =>
    rw [hread] at hinsert
    rw [ofSession_of_error hinsert]
    exact .error .refl nofun
  | some text =>
    rw [hread] at hinsert
    rw [ofSession_of_ok hinsert]
    exact .ok (.head (.register run _ rfl) (moves_foldl_write _ _))

theorem moves_insertFile (requested : String) :
    Moves limited (ofSession (Session.insertFile requested) : Action σ PUnit) := by
  intro run
  have hinsert := Session.insertFile_eq requested run.session
  cases hfind : run.session.find (Text.trimSlashes requested) none with
  | error error =>
    rw [hfind] at hinsert
    obtain ⟨refusal, rfl⟩ := Session.find_error hfind
    rw [ofSession_of_error hinsert]
    exact .error .refl nofun
  | ok result =>
    cases result with
    | none =>
      rw [hfind] at hinsert
      rw [ofSession_of_error hinsert]
      exact .error .refl nofun
    | some found =>
      rw [hfind] at hinsert
      rw [ofSession_of_ok hinsert]
      exact .ok (.head (.register run _ rfl) (moves_foldl_write _ _))

theorem restoreFlag_eq (flags : List (String × Bool)) (d : Destination) :
    Session.restoreFlag flags d = d.setPaused ((flags.lookup d.name).getD d.paused) := by
  unfold Session.restoreFlag
  cases flags.lookup d.name <;> rfl

theorem moves_restore (state : PauseState) :
    Moves limited (updateSession (·.restore state) : Action σ PUnit) := by
  intro run
  have hmove := Run.Move.flag run state.main fun d => (state.others.lookup d.name).getD d.paused
  simp only [← restoreFlag_eq] at hmove
  exact .ok (.single hmove)

end Action

/-! ## Handlers -/

namespace Standard

open Action

variable {limited : Prop} (dispatch : Dispatch σ) (tag : Tag)

theorem moves_condition : Moves limited (condition tag : Action σ Code.Condition) := by
  unfold condition
  split
  · exact moves_misuse _
  · exact moves_pure _

theorem moves_singleName : Moves limited (singleName tag : Action σ String) := by
  unfold singleName
  dsimp only
  split
  · split
    · exact moves_pure _
    · exact moves_misuse _
  · exact moves_misuse _

theorem moves_quotedPath : Moves limited (quotedPath tag : Action σ String) := by
  unfold quotedPath
  split
  · split
    · exact moves_pure _
    · exact moves_misuse _
  · exact moves_misuse _

theorem moves_onIf : Moves limited (onIf dispatch tag) :=
  (moves_condition tag).bind fun _ => (moves_emit _).bind fun _ => moves_push _ _

theorem moves_onElseIf : Moves limited (onElseIf dispatch tag) :=
  (moves_peek _ _).bind fun _ => (moves_condition tag).bind fun _ => moves_emit _

theorem moves_onElse : Moves limited (onElse dispatch tag) :=
  (moves_peek _ _).bind fun _ => moves_emit _

theorem moves_onEndIf : Moves limited (onEndIf dispatch tag) :=
  (moves_pop _ _).bind fun _ => moves_emit _

theorem moves_onFor : Moves limited (onFor dispatch tag) := by
  unfold onFor
  dsimp only
  split
  · split
    · exact (moves_emit _).bind fun _ => moves_push _ _
    · exact moves_misuse _
  · exact moves_misuse _

theorem moves_onEmpty : Moves limited (onEmpty dispatch tag) := by
  refine (moves_peek _ _).bind fun hasNone => ?_
  split
  · exact moves_misuse _
  · exact (moves_replace _ _).bind fun _ => moves_emit _

theorem moves_onEndFor : Moves limited (onEndFor dispatch tag) :=
  (moves_pop _ _).bind fun _ => moves_emit _

theorem moves_onWith : Moves limited (onWith dispatch tag) := by
  unfold onWith
  dsimp only
  split
  · split
    · exact (moves_emit _).bind fun _ => moves_push _ _
    · exact moves_misuse _
  · exact moves_misuse _

theorem moves_onEndWith : Moves limited (onEndWith dispatch tag) :=
  moves_pop _ _

theorem moves_onBlock : Moves limited (onBlock dispatch tag) := by
  unfold onBlock
  refine (moves_singleName tag).bind fun name => ?_
  dsimp only
  refine moves_session.bind fun session => ?_
  generalize ArtifactCache.blockName session.id session.template name = destination
  refine (moves_addDestination destination).bind fun overridden => ?_
  split
  · refine (moves_ofExcept fun error herror => ?_).bind fun path =>
      (moves_insertArtifact path).bind fun _ => ?_
    · obtain ⟨refusal, rfl⟩ := artifactPath_error herror
      exact nofun
    · exact (moves_pauseAll.bind fun _ => moves_pure _).bind fun _ => moves_push _ _
  · exact (moves_pure _).bind fun _ => moves_push _ _

/-- What is done at the end of a block, once it is no longer open. -/
def leaveBlock (frame : BlockFrame) : Action σ PUnit := do
  Action.updateSession fun session => (session.removeDestination frame.destination).2
  match frame.paused with
  | some state => Action.updateSession (·.restore state)
  | none => pure ⟨⟩

theorem onEndBlock_eq : onEndBlock dispatch tag = (do
    let frame ← Action.pop "block" asBlock
    match tag.params.head? with
    | some name =>
      if name.raw ≠ frame.name then
        Action.misuse ("endblock " ++ name.raw ++ " does not match block " ++ frame.name)
        leaveBlock frame
      else leaveBlock frame
    | none => leaveBlock frame) := by
  unfold onEndBlock
  refine congrArg _ (funext fun frame => ?_)
  cases tag.params.head? with
  | none => rfl
  | some name =>
    by_cases hname : name.raw ≠ frame.name
    · simp only [if_pos hname]
      rfl
    · simp only [if_neg hname]
      rfl

theorem moves_leaveBlock (frame : BlockFrame) :
    Moves limited (leaveBlock frame : Action σ PUnit) := by
  refine Moves.bind (fun run => .ok (.single (.close run _))) fun _ => ?_
  cases frame.paused with
  | some state => exact moves_restore state
  | none => exact moves_pure _

theorem moves_onEndBlock : Moves limited (onEndBlock dispatch tag) := by
  rw [onEndBlock_eq]
  refine (moves_pop _ _).bind fun frame => ?_
  cases tag.params.head? with
  | none => exact moves_leaveBlock frame
  | some name =>
    dsimp only
    split
    · exact (moves_misuse _).bind fun _ => moves_leaveBlock frame
    · exact moves_leaveBlock frame

theorem moves_onInclude : Moves limited (onInclude dispatch tag) := by
  unfold onInclude
  split
  · exact moves_emit _
  · exact moves_misuse _

theorem moves_onInsert : Moves limited (onInsert dispatch tag) :=
  (moves_quotedPath tag).bind fun path => moves_insertFile path

theorem moves_setReading (reading : Reading) :
    Moves limited (setReading reading : Action σ PUnit) :=
  fun run => .ok (.single (.mark run run.source.currentTag run.source.tagsSeen run.source.atEnd
    run.source.hierarchy reading))

theorem moves_onLiteral : Moves limited (onLiteral dispatch tag) :=
  (moves_setReading _).bind fun _ => moves_push _ _

theorem moves_onEndLiteral : Moves limited (onEndLiteral dispatch tag) :=
  (moves_pop _ _).bind fun _ => moves_setReading _

theorem moves_onComment : Moves limited (onComment dispatch tag) :=
  moves_pauseAll.bind fun _ => (moves_setReading _).bind fun _ => moves_push _ _

theorem moves_onEndComment : Moves limited (onEndComment dispatch tag) :=
  (moves_pop _ _).bind fun _ => (moves_restore _).bind fun _ => moves_setReading _

/-- What is found is queued, unless it is queued or active already. -/
theorem moves_extend {run : Run σ} {parent : String} {skipped : Option String} {found : Found}
    (hfirst : run.source.extended = none)
    (hfind : run.session.find parent skipped = .ok (some found))
    (hfresh : chainHas run.session.catalog found.path run.session.catalog.length
      (some run.source.id) = false) : run.Moves (run.extend parent skipped found) := by
  refine .head (run.move_setMainPaused true) ?_
  unfold Run.extend
  dsimp only
  by_cases hhas : run.session.has (some run.source.toOrigin) parent skipped = true
  · rw [if_pos hhas]
    exact .single (.extendAgain _ parent hfirst)
  · rw [if_neg hhas]
    exact .single (.extend { run with session := run.session.setMainPaused true } hfirst hfind hfresh
      _ rfl)

theorem moves_onExtends : Moves limited (onExtends dispatch tag) := by
  intro run
  rcases @quotedPath_cases σ tag with ⟨path, -, hpath⟩ | ⟨-, message, hmisuse⟩
  · rw [onExtends_eq hpath]
    split
    · exact .error .refl nofun
    · next hfirst =>
      split
      · next error hfind =>
        obtain ⟨refusal, rfl⟩ := Session.find_error hfind
        exact .error .refl nofun
      · exact .error .refl nofun
      · next found hfind =>
        split
        · exact .error .refl nofun
        · next hfresh =>
          exact .ok (moves_extend (Option.not_isSome_iff_eq_none.1 fun h => hfirst (.inr h)) hfind
            (Bool.eq_false_iff.2 hfresh))
  · unfold onExtends
    rw [hmisuse]
    show run.Comes limited (.error (.misuse message run.source.location) run)
    exact .error .refl nofun

/-- Every standard tag moves. -/
theorem moves_tags : ∀ entry ∈ (tags : List (String × (Dispatch σ → TagHandler σ))),
    ∀ dispatch tag, Moves limited (entry.2 dispatch tag) := by
  simp only [tags, List.forall_mem_cons]
  exact ⟨moves_onIf, moves_onElseIf, moves_onElse, moves_onEndIf, moves_onFor, moves_onEmpty,
    moves_onEndFor, moves_onWith, moves_onEndWith, moves_onBlock, moves_onEndBlock, moves_onExtends,
    moves_onInclude, moves_onInsert, moves_onLiteral, moves_onEndLiteral, moves_onComment,
    moves_onEndComment, nofun⟩

/-! ## Filters -/

theorem moves_plain (filtering : Code.Filtering) (call : FilterCall) (position : Nat) :
    Moves limited (plain filtering dispatch call position) :=
  moves_write _

theorem moves_withArgument (filtering : Code.Expr → Code.Filtering) (call : FilterCall)
    (position : Nat) : Moves limited (withArgument filtering dispatch call position) := by
  refine Moves.bind ?_ fun _ => moves_write _
  unfold argument
  split
  · exact moves_pure _
  · exact moves_misuse _

theorem moves_join (call : FilterCall) (position : Nat) :
    Moves limited (join dispatch call position) :=
  moves_write _

/-- Every standard filter moves. -/
theorem moves_filters : ∀ entry ∈ (filters : List (String × (Dispatch σ → FilterHandler σ))),
    ∀ dispatch call position, Moves limited (entry.2 dispatch call position) := by
  simp only [filters, List.forall_mem_cons]
  exact ⟨fun d => moves_plain d _, fun d => moves_plain d _, fun d => moves_plain d _,
    fun d => moves_plain d _, fun d => moves_plain d _, fun d => moves_plain d _,
    fun d => moves_withArgument d _, moves_join, fun d => moves_plain d _,
    fun d => moves_plain d _, fun d => moves_withArgument d _, fun d => moves_withArgument d _,
    fun d => moves_plain d _, fun d => moves_plain d _, fun d => moves_plain d _,
    fun d => moves_withArgument d _, nofun⟩

end Standard

/-! ## Dispatching -/

/-- Every handler moves. -/
structure Dispatch.Moves (limited : Prop) (dispatch : Dispatch σ) : Prop where
  tags : ∀ name handler, dispatch.tag? name = some handler → ∀ tag, (handler tag).Moves limited
  filters : ∀ name handler, dispatch.filter? name = some handler →
    ∀ call position, (handler call position).Moves limited

theorem moves_standard (depth : Nat) :
    ((Library.standard : Library σ).dispatch depth).Moves (depth = 0) := by
  constructor
  · intro name handler hhandler tag
    rcases Library.tag?_dispatch hhandler with ⟨rfl, rfl⟩ | ⟨make, deeper, rfl, hmake, rfl⟩
    · exact Action.moves_throw fun _ => rfl
    · exact Standard.moves_tags _ hmake _ tag
  · intro name handler hhandler call position
    rcases Library.filter?_dispatch hhandler with ⟨rfl, rfl⟩ | ⟨make, deeper, rfl, hmake, rfl⟩
    · exact Action.moves_throw fun _ => rfl
    · exact Standard.moves_filters _ hmake _ call position

theorem Run.moves_mark (run : Run σ) (currentTag : Option String) (tagsSeen : Nat) :
    run.Moves { run with source := { run.source with currentTag, tagsSeen } } :=
  .single (.mark run currentTag tagsSeen run.source.atEnd run.source.hierarchy run.source.reading)

section

open Action

variable {dispatch : Dispatch σ} {limited : Prop}

/-- The actions by which directives are met are moves. -/
theorem meets_moves : Meets fun (α : Type) (action : Action σ α) => action.Moves limited where
  pure := moves_pure
  bind := Moves.bind
  unknownTag _ := moves_location.bind fun _ => moves_throw nofun
  unknownFilter _ := moves_location.bind fun _ => moves_throw nofun
  write := moves_write
  nextSlot := moves_nextSlot
  readVariable _ _ := moves_reading fun _ => Variable.ends_read _ _ _
  readTag _ _ := moves_reading fun _ => Tag.ends_read _ _ _
  mark f hf := fun run => by
    obtain ⟨currentTag, tagsSeen, atEnd, heq⟩ := hf run.source
    have hmark : run.Moves { run with
        source := { run.source with currentTag, tagsSeen, atEnd } } :=
      .single (.mark run currentTag tagsSeen atEnd run.source.hierarchy run.source.reading)
    rw [← heq] at hmark
    exact .ok hmark
  warn := moves_warn
  pass text := fun run => .ok (.single (.write run text))

theorem Tag.moves_prepare (h : dispatch.Moves limited) (tag : Tag) :
    Moves limited (tag.prepare dispatch) := by
  unfold Tag.prepare
  split
  · exact moves_location.bind fun _ => moves_throw nofun
  · exact (meets_moves.fillSlots h.filters tag.params).bind fun _ => moves_pure _

/-- **Meeting a directive** is done by moves. -/
theorem moves_meet (h : dispatch.Moves limited) (before : Bytes) (d : Markup.Directive)
    (atEnd : Bool) : Moves limited (meet dispatch before d atEnd) :=
  meets_moves.meet h.tags h.filters before d atEnd

end

end TemplateCompiler
