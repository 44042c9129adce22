import TemplateCompiler.Proofs.Desk.Nested
import TemplateCompiler.Proofs.Disk.Trees
import TemplateCompiler.Proofs.Moment.Basic
import TemplateCompiler.Proofs.Transcript.Compiling

/-!
# Moments and desks

Every moment of a compile with the standard library shows a desk: what the session has done with its
artifacts is what was done on it. A step of the compile is a few acts on the desk (`Moment.Shows.begins`,
`Moment.Shows.putAway`, `Moment.Shows.piece`).
-/
namespace TemplateCompiler

variable {σ : Type} {job : Job} {dispatch : Dispatch σ}

/-! ## Blocks on a tree -/

/-- Whatever stands on a disk that is a tree, it is known what is stored of every block. -/
theorem Job.exists_stored (h : job.disk.IsTree) : ∃ store, job.Stored store := by
  refine ⟨fun name =>
    match job.blockPath name with
    | .ok path => job.disk.contentAt? path.place
    | .error _ => none, ?_⟩
  intro name path hname hpath
  dsimp only
  rw [hpath]
  dsimp only
  cases hcontent : job.disk.contentAt? path.place with
  | none => exact hcontent
  | some content =>
    have hbelow : (job.workspace.cache.root.join "temp").below
        (ArtifactCache.fileName (job.blockName name)) = .ok path := hpath
    obtain ⟨hclean, -⟩ := Path.below_eq_ok hbelow
    show job.disk.read? path = some content
    rw [← hcontent, hclean, h.read?_clean, Path.place_clean]

/-! ## Open blocks in frames -/

/-- The blocks that are open, the outermost first. -/
def Hierarchy.openBlocks (hierarchy : Hierarchy FrameData) : List Standard.BlockFrame :=
  (hierarchy.frames.filterMap fun frame => Standard.asBlock frame.data).reverse

/-- What the frame of a block remembers that has not ended. -/
def Job.blockFrame (job : Job) (block : String × Option PauseState) : Standard.BlockFrame :=
  ⟨block.1, job.blockName block.1, block.2.map job.flags⟩

theorem Frames.openBlocks {opened : List OpenTag} {ends : List (String × Option PauseState)}
    {frames : List (Frame FrameData)} (h : Frames job opened ends frames) :
    frames.filterMap (fun frame => Standard.asBlock frame.data) = ends.map job.blockFrame := by
  induction h with
  | nil => rfl
  | condition _ ih => exact ih
  | loop _ _ ih => exact ih
  | naming _ ih => exact ih
  | block name saved _ ih => exact congrArg (job.blockFrame (name, saved) :: ·) ih

theorem Mirrors.openBlocks {before : List Warning} {run : Run σ} {reader : Reader}
    {desk : Desk UInt8} (h : Mirrors job before run reader desk) :
    run.source.hierarchy.openBlocks = (desk.ends.map job.blockFrame).reverse := by
  have hframes := h.frames
  unfold Hierarchy.openBlocks
  congr 1
  cases hmode : reader.mode with
  | directives =>
    rw [hmode] at hframes
    exact hframes.openBlocks
  | literal =>
    rw [hmode] at hframes
    obtain ⟨rest, hrest, hinner⟩ := hframes
    rw [hrest]
    exact hinner.openBlocks
  | comment =>
    rw [hmode] at hframes
    obtain ⟨rest, hrest, hinner⟩ := hframes
    rw [hrest]
    exact hinner.openBlocks

theorem Depicts.map_name_others {session : Session} {desk : Desk UInt8}
    (h : TemplateCompiler.Depicts job session desk) :
    session.others.map (·.name) = desk.names.map job.blockName := by
  have key : ∀ {ds : List Destination} {blocks : List (String × Sheet UInt8)},
      job.Shows session.disk ds blocks →
        ds.map (·.name) = (blocks.map (·.1)).map job.blockName := by
    intro ds blocks hshows
    induction hshows with
    | nil => rfl
    | cons hhead _ ih => rw [List.map_cons, List.map_cons, List.map_cons, hhead.1.named, ih]
  exact key h.blocks

/-! ## What is met -/

theorem Reader.events_of_readTag {reader reader' : Reader} {d : Markup.Directive}
    {events : List Event} (h : reader.readTag d = some (events, reader')) :
    ∃ (passage : Passage) (effect : Reader.Effect), events = .write passage :: effect.events := by
  unfold Reader.readTag at h
  obtain ⟨tag, -, h⟩ := Option.bind_eq_some_iff.1 h
  obtain ⟨meaning, -, h⟩ := Option.bind_eq_some_iff.1 h
  obtain ⟨⟨fills, params, slots⟩, -, h⟩ := Option.bind_eq_some_iff.1 h
  obtain ⟨⟨effect, after⟩, -, h⟩ := Option.bind_eq_some_iff.1 h
  obtain ⟨rfl, -⟩ := Prod.mk.inj (Option.some.inj h)
  exact ⟨_, effect, rfl⟩

theorem Reader.events_of_readVariable {reader reader' : Reader} {d : Markup.Directive}
    {events : List Event} (h : reader.readVariable d = some (events, reader')) :
    ∃ passage, events = [.write passage] := by
  unfold Reader.readVariable at h
  obtain ⟨v, -, h⟩ := Option.bind_eq_some_iff.1 h
  obtain ⟨chain, -, h⟩ := Option.bind_eq_some_iff.1 h
  obtain ⟨rfl, -⟩ := Prod.mk.inj (Option.some.inj h)
  exact ⟨_, rfl⟩

/-- What is met writes passages, and then has at most one other effect. -/
theorem Reader.events_of_meet {reader reader' : Reader} {d : Markup.Directive}
    {events : List Event} (h : reader.meet d = some (events, reader')) :
    ∃ (passages : List Passage) (effect : Reader.Effect), events = passages.map .write ++ effect.events := by
  unfold Reader.meet at h
  split at h
  · split at h
    · obtain ⟨passage, effect, rfl⟩ := Reader.events_of_readTag h
      exact ⟨[passage], effect, rfl⟩
    · obtain ⟨passage, rfl⟩ := Reader.events_of_readVariable h
      exact ⟨[passage], .none, rfl⟩
  all_goals
    obtain ⟨rfl, -⟩ := Prod.mk.inj (Option.some.inj h)
    exact ⟨[], .none, rfl⟩

theorem Reader.chunk_eq_writes (reader : Reader) (content : Bytes) :
    ∃ passages : List Passage, reader.chunk content = passages.map .write := by
  unfold Reader.chunk
  split
  · exact ⟨[.text content], rfl⟩
  · exact ⟨[.verbatim content], rfl⟩
  · exact ⟨[], rfl⟩

/-! ## Moments -/

namespace Moment

/-- The compile has done with its artifacts what was done on the desk. -/
inductive Shows (job : Job) : Moment σ → Desk Passage → Prop
  | between {session : Session} {memory : σ} {desk : Desk Passage}
    (h : TemplateCompiler.Depicts job session desk.inBytes) :
    Shows job (between session memory) desk
  | draining {before : List Warning} {run : Run σ} {feed : Feed} {reader : Reader}
    {desk : Desk Passage} (h : Mirrors job before run reader desk.inBytes) :
    Shows job (draining run feed) desk

namespace Shows

variable {desk : Desk Passage} {run run' : Run σ} {feed after : Feed}

/-- A source begins its turn. -/
theorem begins {session : Session} {memory : σ} {source : Source} {waiting : List Source}
    (h : (Moment.between session memory).Shows job desk)
    (hwaiting : session.waiting = source :: waiting) (feed : Feed) :
    (Moment.draining (session.beginTurn source waiting memory) feed).Shows job desk.turn := by
  obtain hdepicts : TemplateCompiler.Depicts job session desk.inBytes := by
    cases h
    assumption
  have hnew : source.IsNew := hdepicts.waiting source (hwaiting ▸ List.mem_cons_self)
  have hwait : TemplateCompiler.Depicts job { session with waiting } desk.inBytes :=
    { hdepicts with
      waiting := fun s hs => hdepicts.waiting s (hwaiting ▸ List.mem_cons_of_mem _ hs) }
  exact .draining (hnew.mirrors hwait memory)

/-- A source is put away, which pauses every sheet if a comment is open. -/
theorem putAway (h : (Moment.draining run feed).Shows job desk)
    (hdone : run.source.paused = true ∨ feed.step run.source.reading = .done) :
    ∃ acts, (acts = [] ∨ acts = [.hush]) ∧ (Moment.putAway run feed).Shows job (desk.play acts) := by
  cases h with
  | @draining before _ _ reader _ hmirrors =>
    have hstep : feed.step run.source.reading = .done := by
      refine hdone.resolve_left fun hpaused => ?_
      rw [hmirrors.follows.running] at hpaused
      cases hpaused
    obtain ⟨hdepicts, -⟩ := hmirrors.settle (atEnd_of_step hstep)
    cases hmode : reader.mode with
    | directives | literal =>
      rw [hmode] at hdepicts
      exact ⟨[], .inl rfl, .between hdepicts⟩
    | comment =>
      rw [hmode] at hdepicts
      refine ⟨[.hush], .inr rfl, .between ?_⟩
      show TemplateCompiler.Depicts job _ (Desk.flatten _ desk.hush)
      rw [Desk.flatten_hush]
      exact hdepicts

/-- A piece writes passages, and then has at most one other effect. -/
theorem piece (hjob : job.Finishes) (hdispatch : dispatch.IsStandard job)
    (h : (Moment.draining run feed).Shows job desk) (hpiece : Piece dispatch run feed run' after) :
    ∃ (passages : List Passage) (effect : Reader.Effect) (acts : List (Desk.Act Passage)),
      List.Forall₂ (Event.Enacts job.Inserted) (passages.map .write ++ effect.events) acts ∧
      (Moment.draining run' after).Shows job (desk.play acts) := by
  cases h with
  | @draining before _ _ reader _ hmirrors =>
    cases hpiece with
    | newLine hstep =>
      have hline : Mirrors job before run.nextLine { reader with line := reader.line + 1 }
          desk.inBytes :=
        { hmirrors with
          follows := { hmirrors.follows with line := congrArg (· + 1) hmirrors.follows.line } }
      exact ⟨[], .none, [], .nil, .draining hline⟩
    | checked hstep => exact ⟨[], .none, [], .nil, .draining hmirrors⟩
    | @text content _ hstep =>
      obtain ⟨passages, hpassages⟩ := reader.chunk_eq_writes content
      obtain ⟨acts, henacts, hdone⟩ := hmirrors.chunk hjob content
      refine ⟨passages, .none, acts, ?_, .draining hdone⟩
      rw [← hpassages]
      exact (List.append_nil _).symm ▸ henacts
    | @directive text d _ _ _ hstep hmeet =>
      rw [hmirrors.follows.reading] at hstep
      obtain ⟨events, reader', acts, hevents, henacts, hdone⟩ :=
        meet_ok hjob hdispatch (step_directive hstep) hmirrors hmeet
      obtain ⟨passages, hpassages⟩ := reader.chunk_eq_writes text
      obtain ⟨more, effect, rfl⟩ := Reader.events_of_meet hevents
      refine ⟨passages ++ more, effect, acts, ?_, .draining hdone⟩
      rw [List.map_append, ← hpassages, List.append_assoc]
      exact henacts

/-- **Steps on a desk**: what comes next does some acts. -/
theorem leads (hjob : job.Finishes) (hdispatch : dispatch.IsStandard job) {m m' : Moment σ}
    (h : m.Shows job desk) (hleads : Leads dispatch m m') :
    ∃ acts, m'.Shows job (desk.play acts) := by
  cases m with
  | between session memory =>
    obtain ⟨source, waiting, hwaiting, rfl⟩ := leads_between hleads
    exact ⟨[.turn], h.begins hwaiting _⟩
  | draining run feed =>
    rcases leads_draining hleads with ⟨rfl, hdone⟩ | ⟨run', after, -, hpiece, rfl⟩
    · obtain ⟨acts, -, hshows⟩ := h.putAway hdone
      exact ⟨acts, hshows⟩
    · obtain ⟨_, _, acts, -, hshows⟩ := h.piece hjob hdispatch hpiece
      exact ⟨acts, hshows⟩

theorem reached (hjob : job.Finishes) (hdispatch : dispatch.IsStandard job) {m m' : Moment σ}
    (h : m.Shows job desk) (hreached : Reached dispatch m m') :
    ∃ acts, m'.Shows job (desk.play acts) := by
  induction hreached with
  | refl => exact ⟨[], h⟩
  | tail _ hleads ih =>
    obtain ⟨acts, hshows⟩ := ih
    obtain ⟨more, hnext⟩ := hshows.leads hjob hdispatch hleads
    exact ⟨acts ++ more, by rw [Desk.play_append]; exact hnext⟩

/-- The session at a moment depicts a desk with the same blocks and the same store. -/
theorem depicts {m : Moment σ} (h : m.Shows job desk) :
    ∃ shown : Desk UInt8, TemplateCompiler.Depicts job m.session shown ∧
      shown.names = desk.inBytes.names ∧ shown.store = desk.inBytes.store := by
  cases h with
  | between hdepicts => exact ⟨_, hdepicts, rfl, rfl⟩
  | @draining _ _ _ reader _ hmirrors =>
    refine ⟨_, hmirrors.depicts, ?_, ?_⟩
    · cases reader.mode with
      | directives | literal => rfl
      | comment => exact Desk.names_hush _
    · cases reader.mode <;> rfl

theorem sound {m : Moment σ} (h : m.Shows job desk) : desk.inBytes.Sound := by
  cases h with
  | between hdepicts => exact ⟨hdepicts.nodup, hdepicts.had⟩
  | @draining _ _ _ reader _ hmirrors =>
    have hsound : (desk.inBytes.inMode reader.mode).Sound :=
      ⟨hmirrors.depicts.nodup, hmirrors.depicts.had⟩
    cases hmode : reader.mode with
    | directives | literal =>
      rw [hmode] at hsound
      exact hsound
    | comment =>
      rw [hmode] at hsound
      exact hsound.of_hush

/-- What is stored of a block can be read from then on. -/
theorem read? (hjob : job.Finishes) (hdispatch : dispatch.IsStandard job) {m m' : Moment σ}
    (h : m.Shows job desk) {name : String} {path : Path} (hname : Markup.isIdentifier name = true)
    (hpath : job.blockPath name = .ok path) {stored : Bytes}
    (hstore : desk.inBytes.store name = some stored) (hreached : Reached dispatch m m') :
    m'.session.disk.read? path = some stored := by
  obtain ⟨acts, hlater⟩ := h.reached hjob hdispatch hreached
  obtain ⟨shown, hdepicts, -, hstores⟩ := hlater.depicts
  have hkept : shown.store name = some stored := by
    rw [hstores, Desk.inBytes, Desk.flatten_play]
    exact h.sound.play _ name stored hstore
  have hread := hdepicts.stored name path hname hpath (.inl (by rw [hkept]; rfl))
  rw [hkept] at hread
  exact hread

end Shows

end Moment

end TemplateCompiler
