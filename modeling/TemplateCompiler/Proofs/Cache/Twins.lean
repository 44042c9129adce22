import TemplateCompiler.Proofs.Cache.Alike
import TemplateCompiler.Proofs.Moment.Moves
import TemplateCompiler.Proofs.Session.Blocks

/-!
# Two runs of one compile

A template is compiled twice, in sessions of different identities, on disks that are alike outside the
cache. The two runs are twins: they have done the same on their desks, their sources have been read as
far, and they remember the same but for the names and the paths of artifacts. Here are the relation and
what the parts that handlers are made of do to it.
-/
namespace TemplateCompiler

variable {σ α α' β β' : Type} {job job' : Job}

/-! ## Twins -/

/-- Two sessions are to compile one template into one artifact, on disks that are alike outside the
cache, and the blocks of each have their places. -/
structure Job.Twins (job job' : Job) : Prop where
  workspace : job'.workspace = job.workspace
  template : job'.template = job.template
  artifact : job'.artifact = job.artifact
  finishes : job.Finishes
  alike : job.workspace.cache.Alike job.disk job'.disk
  standing : ∀ name, Markup.isIdentifier name = true → ∃ path, job.blockPath name = .ok path
  standing' : ∀ name, Markup.isIdentifier name = true → ∃ path, job'.blockPath name = .ok path

theorem Job.Twins.finishes' (h : job.Twins job') : job'.Finishes := by
  obtain ⟨name, hname⟩ := h.finishes
  exact ⟨name, by rw [h.workspace, h.artifact, hname]⟩

/-- One origin, or two artifacts. -/
def ArtifactCache.SameOrigin (cache : ArtifactCache) (origin origin' : Origin) : Prop :=
  origin' = origin ∨
    cache.Holds origin.path.place ∧ cache.Holds origin'.path.place ∧
      origin.child = none ∧ origin'.child = none

/-- What two frames remember, each under the names of its own session. -/
inductive FrameData.Twins (job job' : Job) : FrameData → FrameData → Prop
  | nothing : Twins job job' .nothing .nothing
  | loop (hasNone : Bool) : Twins job job' (.loop hasNone) (.loop hasNone)
  | block {name : String} (saved : Option PauseState) :
    Twins job job' (.block name (job.blockName name) (saved.map job.flags))
      (.block name (job'.blockName name) (saved.map job'.flags))
  | pauses (state : PauseState) :
    Twins job job' (.pauses (job.flags state)) (.pauses (job'.flags state))

/-- Two frames of one tag. -/
def Frame.Twins (job job' : Job) (frame frame' : Frame FrameData) : Prop :=
  frame'.tag = frame.tag ∧ frame.data.Twins job job' frame'.data

/-- Two hierarchies of the same open tags. -/
def Hierarchy.Twins (job job' : Job) (hierarchy hierarchy' : Hierarchy FrameData) : Prop :=
  List.Forall₂ (Frame.Twins job job') hierarchy.frames hierarchy'.frames

/-- Two sources, read as far. -/
structure Source.Twins (job job' : Job) (source source' : Source) : Prop where
  same : source' = { source with hierarchy := source'.hierarchy }
  hierarchy : source.hierarchy.Twins job job' source'.hierarchy
  running : source.paused = false

/-- Two sessions that have done the same. -/
structure Session.Twins (job job' : Job) (session session' : Session) : Prop where
  desk : ∃ desk, Depicts job session desk ∧ Depicts job' session' desk
  catalog : List.Forall₂ job.workspace.cache.SameOrigin session.catalog session'.catalog
  waiting : session'.waiting = session.waiting
  published : ∀ source ∈ session.waiting, job.workspace.Publishes source.path
  halted : session.halted = []
  halted' : session'.halted = []
  warnings : session'.warnings = session.warnings
  slots : session'.slots = session.slots
  drained : session'.drained = session.drained

/-- Two runs that have done the same. -/
structure Run.Twins (job job' : Job) (run run' : Run σ) : Prop where
  session : run.session.Twins job job' run'.session
  source : run.source.Twins job job' run'.source

/-! ## Sessions -/

/-- A session with other destinations, on another disk. -/
def Session.Rewrites (session session' : Session) : Prop :=
  ∃ main others disk leftovers, session' = { session with main, others, disk, leftovers }

namespace Session

theorem rewrites_write (session : Session) (piece : Bytes) :
    session.Rewrites (session.write piece) :=
  ⟨_, _, _, session.leftovers, rfl⟩

theorem Rewrites.trans {a b c : Session} (h : a.Rewrites b) (h' : b.Rewrites c) : a.Rewrites c := by
  obtain ⟨_, _, _, _, rfl⟩ := h
  obtain ⟨main, others, disk, leftovers, rfl⟩ := h'
  exact ⟨main, others, disk, leftovers, rfl⟩

theorem rewrites_copy (session : Session) (text : Bytes) : session.Rewrites (session.copy text) := by
  unfold copy
  generalize Bytes.lines text = lines
  induction lines generalizing session with
  | nil => exact ⟨session.main, session.others, session.disk, session.leftovers, rfl⟩
  | cons line lines ih => exact (session.rewrites_write line).trans (ih _)

theorem rewrites_removeDestination (session : Session) (name : String) :
    session.Rewrites (session.removeDestination name).2 := by
  unfold removeDestination
  split
  · exact ⟨session.main, session.others, session.disk, session.leftovers, rfl⟩
  · exact ⟨session.main, _, _, _, rfl⟩

/-- Opening a destination fails only because its path is refused or its file cannot be opened. -/
theorem addDestination_cases {session : Session} {name : String} {temporary : Bool} {path : Path}
    (hpath : session.artifactPath name temporary = .ok path) :
    (∃ closed, addDestination name temporary session = .error (.destinationOpen path) closed) ∨
      ∃ existed session', addDestination name temporary session = .ok existed session' ∧
        session.Rewrites session' := by
  rw [addDestination_eq, hpath]
  dsimp only
  cases hopen : Destination.open? (session.removeDestination name).2.disk name path temporary with
  | error error =>
    obtain rfl := Action.open?_error hopen
    exact .inl ⟨_, rfl⟩
  | ok opened =>
    exact .inr ⟨_, _, rfl, (session.rewrites_removeDestination name).trans
      ⟨(session.removeDestination name).2.main, _, _,
        (session.removeDestination name).2.leftovers, rfl⟩⟩

namespace Twins

variable {a b a' b' : Session} {desk : Desk UInt8}

/-- Sessions stay twins if the same has been done on their desks. -/
theorem rewrites (h : a.Twins job job' b) (ha : a.Rewrites a') (hb : b.Rewrites b')
    (hdesk : Depicts job a' desk) (hdesk' : Depicts job' b' desk) : a'.Twins job job' b' := by
  obtain ⟨_, _, _, _, rfl⟩ := ha
  obtain ⟨_, _, _, _, rfl⟩ := hb
  exact { h with desk := ⟨desk, hdesk, hdesk'⟩ }

theorem write (hjobs : job.Twins job') (h : a.Twins job job' b) (piece : Bytes) :
    (a.write piece).Twins job job' (b.write piece) := by
  obtain ⟨desk, ha, hb⟩ := h.desk
  exact h.rewrites (a.rewrites_write piece) (b.rewrites_write piece) (ha.write hjobs.finishes piece)
    (hb.write hjobs.finishes' piece)

theorem copy (hjobs : job.Twins job') (h : a.Twins job job' b) (text : Bytes) :
    (a.copy text).Twins job job' (b.copy text) := by
  obtain ⟨desk, ha, hb⟩ := h.desk
  exact h.rewrites (a.rewrites_copy text) (b.rewrites_copy text) (ha.copy hjobs.finishes text)
    (hb.copy hjobs.finishes' text)

theorem removeDestination (hjobs : job.Twins job') (h : a.Twins job job' b) (name : String) :
    (a.removeDestination (job.blockName name)).2.Twins job job'
      (b.removeDestination (job'.blockName name)).2 := by
  obtain ⟨desk, ha, hb⟩ := h.desk
  exact h.rewrites (a.rewrites_removeDestination _) (b.rewrites_removeDestination _)
    (ha.removeDestination hjobs.finishes name) (hb.removeDestination hjobs.finishes' name)

theorem setMainPaused (h : a.Twins job job' b) (paused : Bool) :
    (a.setMainPaused paused).Twins job job' (b.setMainPaused paused) := by
  obtain ⟨desk, ha, hb⟩ := h.desk
  exact h.rewrites ⟨_, a.others, a.disk, a.leftovers, rfl⟩ ⟨_, b.others, b.disk, b.leftovers, rfl⟩
    (ha.setMainPaused paused) (hb.setMainPaused paused)

theorem restore (h : a.Twins job job' b) (flags : PauseState) :
    (a.restore (job.flags flags)).Twins job job' (b.restore (job'.flags flags)) := by
  obtain ⟨desk, ha, hb⟩ := h.desk
  exact h.rewrites ⟨_, _, a.disk, a.leftovers, rfl⟩ ⟨_, _, b.disk, b.leftovers, rfl⟩
    (ha.restore flags) (hb.restore flags)

/-- Both save the same flags, each under the names of its own. -/
theorem pauseAll (h : a.Twins job job' b) :
    (∃ flags, a.pauseAll.1 = job.flags flags ∧ b.pauseAll.1 = job'.flags flags) ∧
      a.pauseAll.2.Twins job job' b.pauseAll.2 := by
  obtain ⟨desk, ha, hb⟩ := h.desk
  exact ⟨⟨desk.flags, ha.pauseAll.1, hb.pauseAll.1⟩,
    h.rewrites ⟨_, _, a.disk, a.leftovers, rfl⟩ ⟨_, _, b.disk, b.leftovers, rfl⟩
      ha.pauseAll.2 hb.pauseAll.2⟩

/-- Both are given the same warnings, and hand out the same slot. -/
theorem note (h : a.Twins job job' b) {warnings warnings' : List Warning} {slots slots' : Nat}
    (hwarnings : warnings' = warnings) (hslots : slots' = slots) :
    { a with warnings, slots }.Twins job job' { b with warnings := warnings', slots := slots' } := by
  obtain ⟨desk, ha, hb⟩ := h.desk
  exact { h with desk := ⟨desk, { ha with }, { hb with }⟩, warnings := hwarnings, slots := hslots }

theorem register (h : a.Twins job job' b) {origin origin' : Origin}
    (horigin : job.workspace.cache.SameOrigin origin origin') :
    (a.register origin).2.Twins job job' (b.register origin').2 := by
  obtain ⟨desk, ha, hb⟩ := h.desk
  exact { h with
    desk := ⟨desk, { ha with }, { hb with }⟩
    catalog := List.rel_append h.catalog (.cons horigin .nil) }

/-- Both have the same templates, but for artifacts. -/
theorem seesAlike (hjobs : job.Twins job') (h : a.Twins job job' b) :
    job.workspace.SeesAlike a.disk b.disk := by
  obtain ⟨desk, ha, hb⟩ := h.desk
  refine .of_grown hjobs.alike ha.grown hb.grown (fun _ => Job.holds_of_owns hjobs.finishes) ?_
  intro place hplace
  rw [← hjobs.workspace]
  exact Job.holds_of_owns hjobs.finishes' hplace

theorem find_eq (hjobs : job.Twins job') (h : a.Twins job job' b) {requested : String}
    {skipped : Option String} (hout : a.workspace.FindsOutside a.disk requested skipped)
    (hout' : b.workspace.FindsOutside b.disk requested skipped) :
    a.find requested skipped = b.find requested skipped := by
  obtain ⟨desk, ha, hb⟩ := h.desk
  unfold Session.find
  rw [ha.workspace] at hout ⊢
  rw [hb.workspace, hjobs.workspace] at hout' ⊢
  exact (h.seesAlike hjobs).find_eq hout hout'

theorem textOf_eq (hjobs : job.Twins job') (h : a.Twins job job' b) {source : Source}
    (hsource : job.workspace.Publishes source.path) : a.textOf source = b.textOf source := by
  obtain ⟨desk, ha, hb⟩ := h.desk
  unfold Session.textOf
  rw [ha.workspace, hb.workspace, hjobs.workspace, h.seesAlike hjobs source.path hsource]

theorem has_eq (h : a.Twins job job' b) (active : Option Origin) (requested : String)
    (skipped : Option String) : b.has active requested skipped = a.has active requested skipped := by
  unfold Session.has
  rw [h.waiting, h.halted, h.halted']

/-- A template that both have found is queued. -/
theorem enqueue (h : a.Twins job job' b) {origin : Origin}
    (horigin : job.workspace.Publishes origin.path) :
    { (a.register origin).2 with waiting := a.waiting ++ [(a.register origin).1] }.Twins job job'
      { (b.register origin).2 with waiting := b.waiting ++ [(b.register origin).1] } := by
  obtain ⟨desk, ha, hb⟩ := h.desk
  have hlength := h.catalog.length_eq
  have hnew {waiting : List Source} {id : Nat} (hwaiting : ∀ source ∈ waiting, source.IsNew) :
      ∀ source ∈ waiting ++ [{ toOrigin := origin, id }], source.IsNew := by
    intro source hsource
    rcases List.mem_append.1 hsource with hsource | hsource
    · exact hwaiting source hsource
    · rw [List.mem_singleton.1 hsource]
      rfl
  exact { h with
    desk := ⟨desk, { ha with waiting := hnew ha.waiting }, { hb with waiting := hnew hb.waiting }⟩
    catalog := List.rel_append h.catalog (.cons (.inl rfl) .nil)
    waiting := by
      show b.waiting ++ [{ toOrigin := origin, id := b.catalog.length }] = _
      rw [h.waiting, ← hlength]
      rfl
    published := by
      intro source hsource
      rcases List.mem_append.1 hsource with hsource | hsource
      · exact h.published source hsource
      · rw [List.mem_singleton.1 hsource]
        exact horigin }

/-- **Opening a block**: both begin an artifact for it, or both find one that holds the same, unless
one of them cannot open the file. -/
theorem addDestination (hjobs : job.Twins job') (h : a.Twins job job' b) {name : String}
    (hname : Markup.isIdentifier name = true) :
    (∃ path closed, Session.addDestination (job.blockName name) true a =
        .error (.destinationOpen path) closed) ∨
      (∃ path closed, Session.addDestination (job'.blockName name) true b =
        .error (.destinationOpen path) closed) ∨
      ∃ existed a' b', Session.addDestination (job.blockName name) true a = .ok existed a' ∧
        Session.addDestination (job'.blockName name) true b = .ok existed b' ∧
        a'.Twins job job' b' ∧
        (existed = true → ∃ path path' content,
          job.blockPath name = .ok path ∧ job'.blockPath name = .ok path' ∧
          a'.disk.read? path = some content ∧ b'.disk.read? path' = some content) := by
  obtain ⟨desk, ha, hb⟩ := h.desk
  obtain ⟨path, hpath⟩ := hjobs.standing name hname
  obtain ⟨path', hpath'⟩ := hjobs.standing' name hname
  have hartifact := ha.artifactPath_eq_ok.2 hpath
  have hartifact' := hb.artifactPath_eq_ok.2 hpath'
  rcases addDestination_cases hartifact with ⟨closed, hopen⟩ | ⟨existed, a', hopen, hrewrites⟩
  · exact .inl ⟨_, _, hopen⟩
  rcases addDestination_cases hartifact' with ⟨closed, hopen'⟩ | ⟨existed', b', hopen', hrewrites'⟩
  · exact .inr (.inl ⟨_, _, hopen'⟩)
  obtain ⟨-, -, hexisted, -, hdesk⟩ := ha.addDestination hjobs.finishes hname hopen
  obtain ⟨-, -, hexisted', -, hdesk'⟩ := hb.addDestination hjobs.finishes' hname hopen'
  obtain rfl : existed = existed' := hexisted.trans hexisted'.symm
  refine .inr (.inr ⟨existed, a', b', hopen, hopen', h.rewrites hrewrites hrewrites' hdesk hdesk',
    fun hthere => ⟨path, path', ?_⟩⟩)
  rw [hexisted] at hthere
  obtain ⟨content, hstore⟩ := Option.isSome_iff_exists.1 hthere
  have hread := hdesk.stored name path hname hpath (.inl hthere)
  have hread' := hdesk'.stored name path' hname hpath' (.inl hthere)
  dsimp only at hread hread'
  rw [hstore] at hread hread'
  exact ⟨content, hpath, hpath', hread, hread'⟩

end Twins

end Session

end TemplateCompiler
