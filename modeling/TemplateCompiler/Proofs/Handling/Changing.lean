import TemplateCompiler.Proofs.Handling.Temporaries
import TemplateCompiler.Proofs.Session.Permits

/-!
# What compiles do to the destinations

Whatever handlers do to the destinations of a session, they do by changes, one after another
(`Action.Performs`), and so does a whole compile: what is drained and what is inserted is written piece by
piece. The files that a compile leaves are those that its changes leave (`Compiler.fans_out`).
-/
namespace TemplateCompiler

variable {σ α β : Type}

namespace Session

/-- The session with nothing but what its destinations depend on. -/
def bare (session : Session) : Session :=
  { session with catalog := [], waiting := [], halted := [], warnings := [], slots := 0, drained := 0 }

theorem bare_removeDestination (session : Session) (name : String) :
    (session.bare.removeDestination name).2 = (session.removeDestination name).2.bare := by
  have hsame : session.bare.destination? name = session.destination? name := rfl
  unfold removeDestination
  rw [hsame]
  cases session.destination? name <;> rfl

/-- Changes do nothing that depends on the rest of a session. -/
theorem bare_perform (session : Session) (change : Change) :
    (session.perform change).bare = session.bare.perform change := by
  cases change with
  | opening name temporary =>
    have hpath : session.bare.artifactPath name temporary = session.artifactPath name temporary := rfl
    have hdisk (session : Session) : session.bare.disk = session.disk := rfl
    rw [perform_opening_eq, perform_opening_eq, bare_removeDestination, hpath]
    cases session.artifactPath name temporary with
    | error error => rfl
    | ok path =>
      dsimp only
      rw [hdisk]
      cases Destination.open? (session.removeDestination name).2.disk name path temporary <;> rfl
  | closing name => exact (bare_removeDestination session name).symm
  | write | writeMain | pauseMain | pauseAll | restore => rfl

theorem bare_performAll (session : Session) (changes : List Change) :
    (session.performAll changes).bare = session.bare.performAll changes := by
  induction changes using List.reverseRecOn with
  | nil => rfl
  | append_singleton changes change ih => rw [performAll_concat, performAll_concat, bare_perform, ih]

/-- The destinations become what changes make of them that open what may be opened. -/
def Changes (permit : Permit) (session session' : Session) : Prop :=
  ∃ changes : List Change, (∀ change ∈ changes, change.Within permit session) ∧
    session'.bare = (session.performAll changes).bare

section

variable {permit : Permit}

theorem Changes.of_bare {session session' : Session} (h : session'.bare = session.bare) :
    session.Changes permit session' :=
  ⟨[], List.forall_mem_nil _, h⟩

theorem Changes.refl (session : Session) : session.Changes permit session :=
  .of_bare rfl

theorem Changes.one (session : Session) (change : Change) (h : change.Within permit session) :
    session.Changes permit (session.perform change) :=
  ⟨[change], List.forall_mem_singleton.2 h, rfl⟩

/-- Changes leave a session its identity and its template. -/
theorem Changes.same {session session' : Session} (h : session.Changes permit session') :
    session'.id = session.id ∧ session'.template = session.template := by
  obtain ⟨changes, -, hbare⟩ := h
  obtain ⟨main, others, disk, leftovers, heq⟩ := rewrites_performAll session changes
  rw [heq] at hbare
  exact ⟨congrArg (·.id) hbare, congrArg (·.template) hbare⟩

/-- And the path of its artifact. -/
theorem Changes.path {session session' : Session} (h : session.Changes permit session') :
    session'.main.path = session.main.path := by
  obtain ⟨changes, -, hbare⟩ := h
  exact (congrArg (·.main.path) hbare).trans (path_main_performAll session changes)

theorem Changes.trans {a b c : Session} (h : a.Changes permit b) (h' : b.Changes permit c) :
    a.Changes permit c := by
  obtain ⟨hid, htemplate⟩ := h.same
  obtain ⟨first, hfirst, hb⟩ := h
  obtain ⟨rest, hrest, hc⟩ := h'
  refine ⟨first ++ rest, fun change hchange => ?_, ?_⟩
  · rcases List.mem_append.1 hchange with hchange | hchange
    · exact hfirst change hchange
    · exact (Change.within_congr hid htemplate change).1 (hrest change hchange)
  · rw [hc, bare_performAll, hb, ← bare_performAll, performAll_append]

theorem changes_register (session : Session) (origin : Origin) :
    session.Changes permit (session.register origin).2 :=
  .of_bare rfl

/-- Copying a text writes its lines. -/
theorem changes_copy (session : Session) (text : Bytes) :
    session.Changes permit (session.copy text) := by
  refine ⟨(Bytes.lines text).map .write, fun change hchange => ?_, ?_⟩
  · obtain ⟨line, -, rfl⟩ := List.mem_map.1 hchange
    exact True.intro
  · rw [performAll, List.foldl_map]
    rfl

theorem changes_settle (session : Session) (source : Source) (feed : Feed) :
    session.Changes permit (session.settle source feed) := by
  refine .of_bare ?_
  unfold settle
  split
  · dsimp only
    split <;> rfl
  · rfl

end

end Session

open Session (Permit)

/-! ## Actions -/

/-- What the action does to the destinations, it does by changes that open what may be opened. -/
def Action.Performs (permit : Permit) (action : Action σ α) : Prop :=
  ∀ run : Run σ, run.session.Changes permit (Run.after (action run)).session

namespace Action

variable {permit : Permit}

theorem performs_pure (a : α) : Performs permit (pure a : Action σ α) :=
  fun run => .refl run.session

theorem performs_throw (error : CompileError) : Performs permit (throw error : Action σ α) :=
  fun run => .refl run.session

theorem changes_bind {action : Action σ α} {f : α → Action σ β} {run : Run σ}
    (h : run.session.Changes permit (Run.after (action run)).session)
    (hf : ∀ a, (f a).Performs permit) :
    run.session.Changes permit (Run.after ((action >>= f) run)).session :=
  Run.after_bind (R := fun run run' => run.session.Changes permit run'.session)
    (fun _ _ _ => Session.Changes.trans) h hf

theorem Performs.bind {action : Action σ α} {f : α → Action σ β} (h : action.Performs permit)
    (hf : ∀ a, (f a).Performs permit) : (action >>= f).Performs permit :=
  fun run => changes_bind (h run) hf

/-- An action that asks something of the run. -/
theorem performs_look (f : Run σ → α) : Performs permit (fun run => .ok (f run) run : Action σ α) :=
  fun run => .refl run.session

theorem performs_updateSource (f : Source → Source) : Performs permit (updateSource f : Action σ PUnit) :=
  fun run => .refl run.session

theorem performs_reading (read : Scene → Diagnosed α) : Performs permit (reading read : Action σ α) := by
  intro run
  unfold reading
  split <;> exact .of_bare rfl

theorem performs_write (text : String) : Performs permit (write text : Action σ PUnit) :=
  fun run => .one run.session (.write (Utf8.encode text)) True.intro

theorem performs_warn (message : String) : Performs permit (warn message : Action σ PUnit) :=
  fun _ => .of_bare rfl

theorem performs_nextSlot : Performs permit (nextSlot : Action σ Nat) :=
  fun _ => .of_bare rfl

theorem performs_pauseAll : Performs permit (pauseAll : Action σ PauseState) :=
  fun run => .one run.session .pauseAll True.intro

/-- The actions by which directives are met are changes. -/
theorem meets_performs : Meets fun (α : Type) (action : Action σ α) => action.Performs permit where
  pure := performs_pure
  bind := Performs.bind
  unknownTag _ := fun run => .refl run.session
  unknownFilter _ := fun run => .refl run.session
  write := performs_write
  nextSlot := performs_nextSlot
  readVariable _ _ := performs_reading _
  readTag _ _ := performs_reading _
  mark f _ := performs_updateSource f
  warn := performs_warn
  pass text := fun run => .one run.session (.write text) True.intro

/-! ### Operations of the session -/

theorem changes_ofSession {operation : SessionM α} {run : Run σ}
    (h : match operation run.session with
      | .ok _ session => run.session.Changes permit session
      | .error _ session => run.session.Changes permit session) :
    run.session.Changes permit (Run.after (ofSession operation run)).session := by
  cases hresult : operation run.session with
  | ok a session =>
    rw [hresult] at h
    rw [ofSession_of_ok hresult]
    exact h
  | error error session =>
    rw [hresult] at h
    rw [ofSession_of_error hresult]
    exact h

theorem changes_addDestination {run : Run σ} {name : String} {temporary : Bool}
    (h : permit run.session.id run.session.template name temporary) :
    run.session.Changes permit
      (Run.after (ofSession (Session.addDestination name temporary) run)).session := by
  have hopening := Session.Changes.one run.session (.opening name temporary) h
  refine changes_ofSession ?_
  rw [Session.perform_opening_eq] at hopening
  rw [Session.addDestination_eq]
  cases hpath : run.session.artifactPath name temporary with
  | error error => exact .refl run.session
  | ok path =>
    rw [hpath] at hopening
    dsimp only at hopening ⊢
    cases hopen : Destination.open? (run.session.removeDestination name).2.disk name path temporary <;>
    · rw [hopen] at hopening
      exact hopening

theorem performs_insertFile (requested : String) :
    Performs permit (ofSession (Session.insertFile requested) : Action σ PUnit) := by
  refine fun run => changes_ofSession ?_
  rw [Session.insertFile_eq]
  cases run.session.find (Text.trimSlashes requested) none with
  | error error => exact .refl run.session
  | ok result =>
    cases result with
    | none => exact .refl run.session
    | some found => exact (run.session.changes_register _).trans (Session.changes_copy _ _)

theorem performs_insertArtifact (path : Path) :
    Performs permit (ofSession (Session.insertArtifact path) : Action σ PUnit) := by
  refine fun run => changes_ofSession ?_
  rw [Session.insertArtifact_eq]
  cases run.session.disk.read? path with
  | none => exact .refl run.session
  | some text => exact (run.session.changes_register _).trans (Session.changes_copy _ text)

theorem performs_addSource (requested : String) (skipped : Option String)
    (child : Option SourceId) :
    Performs permit (addSource requested skipped child : Action σ (Option SourceId)) := by
  refine (performs_look _).bind fun source => fun run => changes_ofSession ?_
  rw [Session.addSource_eq]
  by_cases hhas : run.session.has (some source.toOrigin) (Text.trimSlashes requested) skipped = true
  · rw [if_pos hhas]
    exact .refl run.session
  · rw [if_neg hhas]
    cases run.session.find (Text.trimSlashes requested) skipped with
    | error error => exact .refl run.session
    | ok result =>
      cases result with
      | none => exact .refl run.session
      | some found => exact .of_bare rfl

/-! ### Standard tags -/

theorem attends_performs : Attends fun (α : Type) (action : Action σ α) => action.Performs permit where
  toMeets := meets_performs
  throw := performs_throw
  look := performs_look
  update f _ := performs_updateSource f

section

variable (hblocks : ∀ id template block, Markup.isIdentifier block = true →
  permit id template (ArtifactCache.blockName id template block) true)
include hblocks

/-- A block opens its own artifact. -/
theorem performs_onBlock (dispatch : Dispatch σ) (tag : Tag) :
    Performs permit (Standard.onBlock dispatch tag) := by
  intro run
  unfold Standard.onBlock
  cases hname : Standard.singleName tag run with
  | error error run' =>
    have hchanges : (Standard.singleName tag : Action σ String).Performs permit :=
      meets_performs.singleName attends_performs.misuse tag
    have hchanges := hchanges run
    rw [hname] at hchanges
    rwa [bind_of_error hname]
  | ok name run' =>
    obtain ⟨-, hidentifier, rfl⟩ := singleName_ok hname
    have hsession : (Action.session : Action σ Session) run' = .ok run'.session run' := rfl
    rw [bind_of_ok hname, bind_of_ok hsession]
    dsimp only
    refine changes_bind (changes_addDestination (hblocks _ _ _ hidentifier)) fun overridden => ?_
    split
    · refine (attends_performs.ofExcept _).bind fun path => (performs_insertArtifact path).bind fun _ => ?_
      exact (performs_pauseAll.bind fun _ => performs_pure _).bind fun _ => performs_updateSource _
    · exact (performs_pure _).bind fun _ => performs_updateSource _

/-- The actions by which the standard tags are handled are changes that open nothing but blocks. -/
theorem serves_performs : Serves fun (α : Type) (action : Action σ α) => action.Performs permit where
  toMeets := meets_performs
  unfinished := performs_throw _
  misuse := attends_performs.misuse
  push := attends_performs.push
  pop := attends_performs.pop
  peek := attends_performs.peek
  replace := attends_performs.replace
  setReading _ := performs_updateSource _
  pauseAll := performs_pauseAll
  restore state := fun run => .one run.session (.restore state) True.intro
  removeDestination name := fun run => .one run.session (.closing name) True.intro
  insertFile := performs_insertFile
  block := performs_onBlock hblocks
  extend := attends_performs.onExtends (fun run => .one run.session (.pauseMain true) True.intro)
    performs_addSource

end

/-! ### Scripts -/

/-- All that scripts may call is changes. -/
theorem answers_performs : Answers fun (α : Type) (action : Action Journal α) => action.Performs .any where
  toMeets := meets_performs
  throw := performs_throw
  look := performs_look
  reading := performs_reading
  remember _ := fun run => .refl run.session
  update f _ := performs_updateSource f
  addSource := performs_addSource
  insertFile := performs_insertFile
  insertArtifact := performs_insertArtifact
  addDestination _ _ := fun _ => changes_addDestination True.intro
  removeDestination name := fun run => .one run.session (.closing name) True.intro
  setMainPaused paused := fun run => .one run.session (.pauseMain paused) True.intro
  pauseAll := performs_pauseAll
  restore state := fun run => .one run.session (.restore state) True.intro
  perform dispatch step hanswer := by
    intro run
    obtain ⟨entry, hentered⟩ := exists_after_perform dispatch step run
    rw [hentered]
    exact hanswer run

end Action

/-! ## Compiles -/

/-- Every handler does by changes what it does to the destinations, as long as those do that it
calls, and opens what may be opened. -/
abbrev Library.Performs (permit : Permit) (library : Library σ) : Prop :=
  library.HandlersAre fun (α : Type) (action : Action σ α) => action.Performs permit

/-- The standard library opens nothing but blocks. -/
theorem Library.performs_standard {permit : Permit}
    (hblocks : ∀ id template block, Markup.isIdentifier block = true →
      permit id template (ArtifactCache.blockName id template block) true) :
    (Library.standard : Library σ).Performs permit :=
  (Action.serves_performs hblocks).handlersAre_standard

theorem Library.performs_blocks : (Library.standard : Library σ).Performs .blocks :=
  performs_standard fun _ _ block hblock => ⟨rfl, block, hblock, rfl⟩

namespace Moment

variable {dispatch : Dispatch σ} {permit : Permit}

/-- **Steps** of a compile are changes. -/
theorem changes_next
    (htags : dispatch.TagsAre fun (α : Type) (action : Action σ α) => action.Performs permit)
    (hfilters : dispatch.FiltersAre fun (α : Type) (action : Action σ α) => action.Performs permit)
    (m : Moment σ) : (m.next dispatch).Keeps (m.session.Changes permit) :=
  keeps_next_of .refl
    (fun _ _ => ⟨[.pauseMain false], List.forall_mem_singleton.2 True.intro, rfl⟩)
    Session.changes_settle (fun run piece => .one run.session (.write piece) True.intro)
    (fun before d atEnd run => Action.meets_performs.meet htags hfilters before d atEnd run) m

end Moment

namespace Compiler

open Session

variable {compiler : Compiler σ} {id template destination : String} {world : World σ}
  {session : Session} {disk : Disk} {permit : Permit}

/-- Whatever has become of a session by changes, the next step makes of it by changes. -/
theorem changes_step (hlibrary : compiler.library.Performs permit) (session : Session) (m : Moment σ)
    (hm : session.Changes permit m.session) :
    (m.next (compiler.library.dispatch compiler.limits.depth)).Keeps (session.Changes permit) := by
  obtain ⟨htags, hfilters⟩ := hlibrary.dispatch (Action.performs_throw _) compiler.limits.depth
  exact (Moment.changes_next htags hfilters m).mono fun _ => hm.trans

/-- What comes of a compile is read off the session that changes have made of the first one. -/
theorem exists_last (hlibrary : compiler.library.Performs permit)
    (hstart : start compiler.workspace id template destination world.disk = .ok session disk) :
    ∃ last, session.Changes permit last ∧
      match compiler.compileTo id template destination world with
      | .ok report world' => report = last.report ∧ world'.disk = last.finish
      | .error _ world' => world'.disk = last.closeAll := by
  have hfirst : session.Changes permit (Moment.between session world.memory).session := .refl session
  have hcomes := Moment.keeps_outcome (changes_step hlibrary session) compiler.limits.turns hfirst
  rw [Moment.outcome] at hcomes
  rw [compileTo_eq_conclude hstart]
  cases hresult : takeTurns (compiler.library.dispatch compiler.limits.depth) compiler.limits.turns
      (session, world.memory) with
  | ok _ last =>
    rw [hresult] at hcomes
    exact ⟨last.1, hcomes, rfl, rfl⟩
  | error _ last =>
    rw [hresult] at hcomes
    exact ⟨last.1, hcomes, rfl⟩

/-- **Changes**: what a compile does to its destinations from its start on is done by changes, and it
leaves what they leave: the files after everything has been closed, and without the temporary ones if it
succeeds. -/
theorem changes_compileTo (hlibrary : compiler.library.Performs permit)
    (hstart : start compiler.workspace id template destination world.disk = .ok session disk) :
    (∀ m, compiler.Passes id template destination world m → session.Changes permit m.session) ∧
    ∃ changes : List Change, (∀ change ∈ changes, change.Within permit session) ∧
      match compiler.compileTo id template destination world with
      | .ok _ world' => world'.disk = (session.performAll changes).finish
      | .error _ world' => world'.disk = (session.performAll changes).closeAll := by
  have hfirst : session.Changes permit (Moment.between session world.memory).session := .refl session
  refine ⟨fun m hpasses => ?_, ?_⟩
  · exact Moment.keeps_reached (changes_step hlibrary session) hfirst (hpasses.reached hstart)
  · obtain ⟨last, ⟨changes, hwithin, hbare⟩, hlast⟩ := exists_last hlibrary hstart
    refine ⟨changes, hwithin, ?_⟩
    cases hresult : compiler.compileTo id template destination world with
    | ok report world' =>
      rw [hresult] at hlast
      refine hlast.2.trans ?_
      show last.bare.finish = (session.performAll changes).bare.finish
      rw [hbare]
    | error error world' =>
      rw [hresult] at hlast
      refine hlast.trans ?_
      show last.bare.closeAll = (session.performAll changes).bare.closeAll
      rw [hbare]

/-- **Fanning out**: from its start on, what a compile does to its destinations is done by changes, and
so is what it leaves. Whatever changes are made, as long as no two destinations have one path, each
artifact gets just what is written to the session while its destination is open and not paused, a
temporary one that was there is left alone, and so is every file that is not opened. -/
theorem fans_out (hlibrary : compiler.library.Performs permit)
    (hstart : start compiler.workspace id template destination world.disk = .ok session disk) :
    (∀ changes, session.StaysApart changes → session.FansOut world.disk changes) ∧
    (∀ m, compiler.Passes id template destination world m → session.Changes permit m.session) ∧
    ∃ changes : List Change, (∀ change ∈ changes, change.Within permit session) ∧
      match compiler.compileTo id template destination world with
      | .ok _ world' => world'.disk = (session.performAll changes).finish
      | .error _ world' => world'.disk = (session.performAll changes).closeAll :=
  ⟨fun _ h => fansOut_start hstart h, changes_compileTo hlibrary hstart⟩

/-- An artifact is opened, left out of a word, and closed; a temporary one is opened twice. -/
def windows : List Change :=
  [.write (Utf8.encode "a"), .opening "side" false, .opening "note" true, .write (Utf8.encode "b"),
    .pauseAll, .write (Utf8.encode "c"), .restore ⟨false, [("side", false)]⟩,
    .write (Utf8.encode "d"), .closing "side", .opening "note" true, .write (Utf8.encode "e")]

/-- The main artifact hears everything that is not paused, the other one what comes while it is open,
and the temporary one, once it is there, no more. -/
theorem fans_out_windows : ∃ session disk,
    start noted.workspace "s" "a" "a" .empty = .ok session disk ∧
    session.StaysApart windows ∧ session.FansOut .empty windows ∧
    heard none session windows = Utf8.encode "abde" ∧
    (session.performAll windows).closeAll.read? ⟨"cache/view/side.php"⟩ = some (Utf8.encode "bd") ∧
    (session.performAll windows).closeAll.read? ⟨"cache/temp/note.php"⟩ = some (Utf8.encode "b") := by
  have hlibrary : noted.library.Performs .any :=
    (Library.performs_standard fun _ _ _ _ => True.intro).scripted Action.answers_performs _ _
  have hsucceeds : succeeds
      (fun session => windows.inits.all (fun before => decide (session.performAll before).Apart) &&
        decide (heard none session windows = Utf8.encode "abde" ∧
          (session.performAll windows).closeAll.read? ⟨"cache/view/side.php"⟩ =
            some (Utf8.encode "bd") ∧
          (session.performAll windows).closeAll.read? ⟨"cache/temp/note.php"⟩ =
            some (Utf8.encode "b")))
      (start noted.workspace "s" "a" "a" .empty) = true := by decide +kernel
  obtain ⟨session, disk, hstart, hcheck⟩ := exists_of_succeeds hsucceeds
  obtain ⟨hinits, hfiles⟩ := Bool.and_eq_true_iff.1 hcheck
  have hstays : session.StaysApart windows := fun before hfront =>
    of_decide_eq_true (List.all_eq_true.1 hinits before ((List.mem_inits _ _).2 hfront))
  have hworld : start noted.workspace "s" "a" "a" (⟨.empty, {}⟩ : World Journal).disk =
      .ok session disk := hstart
  obtain ⟨hfans, -⟩ := fans_out hlibrary hworld
  exact ⟨session, disk, hstart, hstays, hfans windows hstays, of_decide_eq_true hfiles⟩

end Compiler

end TemplateCompiler
