import TemplateCompiler.Proofs.Cache.Twins
import TemplateCompiler.Proofs.Handling.Libraries

/-!
# What handlers do to the queue

Whatever a handler does, it asks for sources to be queued, and it does other things, which leave the queue
alone (`Run.Act`). A library whose handlers do no more than that is given (`Library.Acts`): the standard
one is such a library, whatever scripts are added to it.
-/
namespace TemplateCompiler

variable {σ α β : Type}

namespace Run

/-- The queue is left alone, and where the source comes from. There may be more in the catalog. -/
structure SparesQueue (run run' : Run σ) : Prop where
  waiting : run'.session.waiting = run.session.waiting
  halted : run'.session.halted = run.session.halted
  origin : run'.source.toOrigin = run.source.toOrigin
  id : run'.source.id = run.source.id
  catalog : run.session.catalog <+: run'.session.catalog

/-- One thing that a handler does, as far as the queue is concerned. -/
inductive Act (run : Run σ) : Run σ → Prop
  | spares {run' : Run σ} (h : run.SparesQueue run') : Act run run'
  /-- A source is asked for. -/
  | asks {requested : String} {skipped : Option String} {child result : Option SourceId}
    {session : Session}
    (h : Session.addSource (some run.source.toOrigin) requested skipped child run.session =
      .ok result session) : Act run { run with session }

/-- What a handler does, as far as the queue is concerned. -/
def Acts : Run σ → Run σ → Prop :=
  Relation.ReflTransGen Act

theorem SparesQueue.acts {run run' : Run σ} (h : run.SparesQueue run') : run.Acts run' :=
  .single (.spares h)

theorem SparesQueue.of_rewrites {run : Run σ} {session : Session}
    (h : run.session.Rewrites session) : run.SparesQueue { run with session } := by
  obtain ⟨_, _, _, _, rfl⟩ := h
  exact ⟨rfl, rfl, rfl, rfl, List.prefix_rfl⟩

/-- What is copied is entered in the catalog, and written. -/
theorem acts_copy (run : Run σ) (origin : Origin) (text : Bytes) :
    run.Acts { run with session := (run.session.register origin).2.copy text } := by
  have hregister : run.SparesQueue { run with session := (run.session.register origin).2 } :=
    ⟨rfl, rfl, rfl, rfl, List.prefix_append _ _⟩
  exact hregister.acts.trans (SparesQueue.of_rewrites (Session.rewrites_copy _ text)).acts

end Run

/-- An action that does no more to the queue than a handler may do. -/
def Action.Acts (action : Action σ α) : Prop :=
  ∀ run : Run σ, run.Acts (Run.after (action run))

/-- Every handler does no more to the queue than it may do, as long as those do not that it calls. -/
abbrev Library.Acts (library : Library σ) : Prop :=
  library.HandlersAre fun (α : Type) (action : Action σ α) => action.Acts

/-- A request that fails changes nothing. -/
theorem Session.eq_of_addSource_error {active : Option Origin} {requested : String}
    {skipped : Option String} {child : Option SourceId} {session session' : Session}
    {error : CompileError}
    (h : addSource active requested skipped child session = .error error session') :
    session' = session := by
  rw [addSource_eq] at h
  split at h
  · cases h
  · split at h
    · exact (EStateM.Result.error.inj h).2.symm
    · exact (EStateM.Result.error.inj h).2.symm
    · cases h

namespace Action

theorem acts_pure (a : α) : Acts (pure a : Action σ α) :=
  fun _ => .refl

theorem acts_throw (error : CompileError) : Acts (throw error : Action σ α) :=
  fun _ => .refl

theorem Acts.bind {action : Action σ α} {f : α → Action σ β} (h : Acts action)
    (hf : ∀ a, Acts (f a)) : Acts (action >>= f) :=
  fun run => Run.after_bind (fun _ _ _ => Relation.ReflTransGen.trans) (h run) hf

theorem acts_of_spares {action : Action σ α}
    (h : ∀ run : Run σ, run.SparesQueue (Run.after (action run))) : Acts action :=
  fun run => (h run).acts

theorem acts_reading (read : Scene → Diagnosed α) : Acts (reading read : Action σ α) := by
  refine acts_of_spares fun run => ?_
  unfold reading
  split <;> exact ⟨rfl, rfl, rfl, rfl, List.prefix_rfl⟩

theorem acts_updateSource {f : Source → Source} (h : ∀ source : Source,
    (f source).toOrigin = source.toOrigin ∧ (f source).id = source.id) :
    Acts (updateSource f : Action σ PUnit) :=
  acts_of_spares fun run => ⟨rfl, rfl, (h run.source).1, (h run.source).2, List.prefix_rfl⟩

/-- An action that rewrites the destinations, and nothing else. -/
theorem acts_updateSession {f : Session → Session} (h : ∀ session : Session, session.Rewrites (f session)) :
    Acts (updateSession f : Action σ PUnit) :=
  acts_of_spares fun run => .of_rewrites (h run.session)

theorem acts_addSource (requested : String) (skipped : Option String) (child : Option SourceId) :
    Acts (addSource requested skipped child : Action σ (Option SourceId)) := by
  intro run
  cases hadd : Session.addSource (some run.source.toOrigin) requested skipped child run.session with
  | ok result session =>
    have hrun : addSource requested skipped child run = .ok result { run with session } :=
      ofSession_of_ok hadd
    rw [hrun]
    exact .single (.asks hadd)
  | error error session =>
    have hrun : addSource requested skipped child run = .error error { run with session } :=
      ofSession_of_error hadd
    obtain rfl := Session.eq_of_addSource_error hadd
    rw [hrun]
    exact .refl

theorem acts_insertFile (requested : String) :
    Acts (ofSession (Session.insertFile requested) : Action σ PUnit) := by
  intro run
  have hinsert := Session.insertFile_eq requested run.session
  split at hinsert
  · rw [ofSession_of_error hinsert]
    exact .refl
  · rw [ofSession_of_error hinsert]
    exact .refl
  · rw [ofSession_of_ok hinsert]
    exact run.acts_copy _ _

theorem acts_insertArtifact (path : Path) :
    Acts (ofSession (Session.insertArtifact path) : Action σ PUnit) := by
  intro run
  have hinsert := Session.insertArtifact_eq path run.session
  split at hinsert
  · rw [ofSession_of_error hinsert]
    exact .refl
  · rw [ofSession_of_ok hinsert]
    exact run.acts_copy _ _

theorem acts_addDestination (name : String) (temporary : Bool) :
    Acts (ofSession (Session.addDestination name temporary) : Action σ Bool) := by
  intro run
  have hclosed := run.session.rewrites_removeDestination name
  have hadd := Session.addDestination_eq name temporary run.session
  split at hadd
  · rw [ofSession_of_error hadd]
    exact .refl
  · dsimp only at hadd
    split at hadd
    · rw [ofSession_of_error hadd]
      exact (Run.SparesQueue.of_rewrites hclosed).acts
    · rw [ofSession_of_ok hadd]
      refine (Run.SparesQueue.of_rewrites (hclosed.trans ?_)).acts
      exact ⟨(run.session.removeDestination name).2.main, _, _,
        (run.session.removeDestination name).2.leftovers, rfl⟩

/-- **What handlers are offered** does no more to the queue than a handler may do. -/
theorem offers_acts : Offers fun (α : Type) (action : Action σ α) => action.Acts where
  pure := acts_pure
  bind := Acts.bind
  unknownTag _ := fun _ => .refl
  unknownFilter _ := fun _ => .refl
  write text := acts_updateSession fun session => session.rewrites_write _
  nextSlot := acts_of_spares fun _ => ⟨rfl, rfl, rfl, rfl, List.prefix_rfl⟩
  readVariable _ _ := acts_reading _
  readTag _ _ := acts_reading _
  mark f hf := acts_updateSource fun source => by
    obtain ⟨_, _, _, heq⟩ := hf source
    rw [heq]
    exact ⟨rfl, rfl⟩
  warn _ := acts_of_spares fun _ => ⟨rfl, rfl, rfl, rfl, List.prefix_rfl⟩
  pass text := acts_updateSession fun session => session.rewrites_write text
  throw := acts_throw
  look _ := fun _ => .refl
  reading := acts_reading
  update _ hf := acts_updateSource fun source => ⟨(hf source).1, (hf source).2.1⟩
  addSource := acts_addSource
  insertFile := acts_insertFile
  insertArtifact := acts_insertArtifact
  addDestination := acts_addDestination
  removeDestination name := acts_of_spares fun run =>
    .of_rewrites (run.session.rewrites_removeDestination name)
  setMainPaused _ := acts_of_spares fun _ => ⟨rfl, rfl, rfl, rfl, List.prefix_rfl⟩
  pauseAll := acts_of_spares fun _ => ⟨rfl, rfl, rfl, rfl, List.prefix_rfl⟩
  restore _ := acts_of_spares fun _ => ⟨rfl, rfl, rfl, rfl, List.prefix_rfl⟩

theorem answers_acts : Answers fun (α : Type) (action : Action Journal α) => action.Acts :=
  offers_acts.answers
    (fun _ => acts_of_spares fun _ => ⟨rfl, rfl, rfl, rfl, List.prefix_rfl⟩)
    fun dispatch step hanswer => by
      intro run
      obtain ⟨entry, hentered⟩ := exists_after_perform dispatch step run
      rw [hentered]
      exact (hanswer run).trans (Run.SparesQueue.acts ⟨rfl, rfl, rfl, rfl, List.prefix_rfl⟩)

end Action

namespace Library

/-- **Scripts** do no more to the queue than a handler may do. -/
theorem Acts.scripted {library : Library Journal} (h : library.Acts)
    (tags filters : List (String × Script)) : (library.scripted tags filters).Acts :=
  HandlersAre.scripted h Action.answers_acts tags filters

end Library

end TemplateCompiler
