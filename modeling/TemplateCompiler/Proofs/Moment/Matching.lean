import Mathlib.Data.List.Nodup
import TemplateCompiler.Proofs.Moment.Blocks
import TemplateCompiler.Proofs.Moment.Trail
import TemplateCompiler.Proofs.Transcript.Budget

/-!
# Open destinations and open blocks

A session has one extra destination for each block that is open, and none between two turns, exactly as
long as no block stands inside a block of its own name and every source ends its blocks
(`Compiler.matches_iff`). Then a block that was not stored before gets what is written until it ends, and
nothing after that.
-/
namespace TemplateCompiler

variable {σ : Type} {job : Job} {dispatch : Dispatch σ}

/-! ## What is said of a moment -/

/-- What the artifact of an open destination has once it is closed. -/
def Session.artifactOf (session : Session) (destination : String) : Option Bytes :=
  (session.destination? destination).bind fun d => (d.close session.disk).read? d.path

/-- Whether the frame is that of a tag whose body is dropped: a comment, or a block that was stored
before. -/
def FrameData.drops : FrameData → Bool
  | .block _ _ paused => paused.isSome
  | .pauses _ => true
  | _ => false

namespace Moment

/-- The blocks that are open, the outermost first; there are none while no source is read. -/
def openBlocks : Moment σ → List Standard.BlockFrame
  | between .. => []
  | draining run _ => run.source.hierarchy.openBlocks

/-- The extra destinations that are open are those of the open blocks, one for each, in order. -/
def Matches (m : Moment σ) : Prop :=
  m.session.others.map (·.name) = m.openBlocks.map (·.destination)

/-- No block is open inside a block of its own name, or when the turn of its source is over. -/
structure IsTidy (dispatch : Dispatch σ) (m : Moment σ) : Prop where
  apart : (m.openBlocks.map (·.name)).Nodup
  ended : ∀ session memory, Leads dispatch m (between session memory) → m.openBlocks = []

/-- The artifact of an open block that was not stored before gets what is written, unless it stands
in a body that is dropped inside the block. Once the block has ended, the artifact stays as it is. -/
structure Captures (dispatch : Dispatch σ) (m : Moment σ) : Prop where
  inside : ∀ run feed inner name destination outer, m = draining run feed →
    run.source.hierarchy.frames = inner ++ ⟨"block", .block name destination none⟩ :: outer →
      ∀ piece, ∃ content, run.session.artifactOf destination = some content ∧
        (run.session.write piece).artifactOf destination =
          some (content ++ if inner.any (·.data.drops) then [] else piece)
  after : ∀ run feed name destination outer run' feed', m = draining run feed →
    run.source.hierarchy.frames = ⟨"block", .block name destination none⟩ :: outer →
      Leads dispatch m (draining run' feed') → run'.source.hierarchy.frames = outer →
        ∃ path content, run.session.artifactPath destination true = .ok path ∧
          ∀ m', Reached dispatch (draining run' feed') m' → m'.session.disk.read? path = some content

/-! ## Desks that fit -/

/-- The desk has a sheet for every open block, in order. -/
def Fits : Moment σ → Desk Passage → Prop
  | between .., desk => desk.blocks = []
  | draining .., desk => desk.Nested

end Moment

/-- Passages, and one effect that opens no block inside a block of its own name, keep a desk nested. -/
theorem Desk.Nested.play {inserted : String → Bytes → Prop} {passages : List Passage}
    {effect : Reader.Effect} {acts : List (Desk.Act Passage)} {desk : Desk Passage}
    (h : desk.Nested) (hnodup : desk.names.Nodup)
    (henacts : List.Forall₂ (Event.Enacts inserted) (passages.map .write ++ effect.events) acts)
    (happart : ((desk.play acts).ends.map (·.1)).Nodup) : (desk.play acts).Nested := by
  induction passages generalizing desk acts with
  | nil =>
    cases effect with
    | none | emit =>
      cases henacts
      exact h
    | insert =>
      obtain _ | ⟨⟨-⟩, ⟨-⟩⟩ := henacts
      exact h.put _
    | openBlock name =>
      obtain _ | ⟨⟨-⟩, ⟨-⟩⟩ := henacts
      obtain ⟨saved, hends⟩ := Desk.exists_ends_openBlock desk name
      have hnot : name ∉ desk.ends.map (·.1) := by
        have hnodup' : ((desk.openBlock name).ends.map (·.1)).Nodup := happart
        rw [hends, List.map_cons, List.nodup_cons] at hnodup'
        exact hnodup'.1
      refine h.openBlock ?_
      rw [h.names, List.mem_reverse]
      exact hnot
    | closeBlock =>
      obtain _ | ⟨⟨-⟩, ⟨-⟩⟩ := henacts
      exact h.closeBlock hnodup
    | extend =>
      obtain _ | ⟨⟨-⟩, ⟨-⟩⟩ := henacts
      exact h.silence
  | cons passage passages ih =>
    obtain _ | ⟨⟨-⟩, hrest⟩ := henacts
    have hput : (desk.put [passage]).names.Nodup := by
      rw [Desk.names_put]
      exact hnodup
    show ((desk.put [passage]).play _).Nested
    exact ih (Desk.Nested.put h [passage]) hput hrest happart

namespace Moment

variable {desk : Desk Passage} {m m' : Moment σ}

theorem Shows.openBlocks {run : Run σ} {feed : Feed}
    (h : (Moment.draining run feed).Shows job desk) :
    run.source.hierarchy.openBlocks = (desk.ends.map job.blockFrame).reverse := by
  cases h with
  | draining hmirrors => exact hmirrors.openBlocks

theorem names_inBytes (desk : Desk Passage) : desk.inBytes.names = desk.names := by
  show (Desk.onSheets (fun _ sheet => sheet.flatten Passage.bytes) desk.blocks).map (·.1) = _
  exact Desk.map_fst_onSheets

theorem Shows.nodup (h : m.Shows job desk) : desk.names.Nodup := by
  rw [← names_inBytes]
  exact h.sound.nodup

theorem Shows.map_name_others (h : m.Shows job desk) :
    m.session.others.map (·.name) = desk.names.map job.blockName := by
  obtain ⟨shown, hdepicts, hnames, -⟩ := h.depicts
  rw [hdepicts.map_name_others, hnames, names_inBytes]

theorem map_name_blockFrame (ends : List (String × Option PauseState)) :
    (ends.map job.blockFrame).reverse.map (·.name) = (ends.map (·.1)).reverse := by
  rw [List.map_reverse, List.map_map]
  rfl

theorem map_destination_blockFrame (ends : List (String × Option PauseState)) :
    (ends.map job.blockFrame).reverse.map (·.destination) =
      (ends.map (·.1)).reverse.map job.blockName := by
  rw [List.map_reverse, List.map_map, List.map_reverse, List.map_map]
  rfl

/-- The destinations are those of the blocks if the sheets are. -/
theorem Fits.matches (h : m.Fits desk) (hshows : m.Shows job desk) : m.Matches := by
  unfold Matches
  rw [hshows.map_name_others]
  cases m with
  | between session memory =>
    rw [Desk.names, show desk.blocks = [] from h]
    rfl
  | draining run feed =>
    rw [Moment.openBlocks, hshows.openBlocks, map_destination_blockFrame, Desk.Nested.names h]

/-- If the destinations are those of the blocks, no two of the blocks have the same name. -/
theorem Matches.nodup (h : m.Matches) (hshows : m.Shows job desk) :
    (m.openBlocks.map (·.name)).Nodup := by
  cases m with
  | between session memory => exact List.nodup_nil
  | draining run feed =>
    unfold Matches at h
    rw [hshows.map_name_others, Moment.openBlocks, hshows.openBlocks,
      map_destination_blockFrame] at h
    rw [Moment.openBlocks, hshows.openBlocks, map_name_blockFrame,
      ← List.map_injective_iff.2 (fun _ _ => Job.blockName_inj) h]
    exact hshows.nodup

theorem Matches.openBlocks_eq_nil {session : Session} {memory : σ} (h : m.Matches)
    (hleads : Leads dispatch m (between session memory))
    (hnext : (between session memory : Moment σ).Matches) : m.openBlocks = [] := by
  cases m with
  | between session memory => rfl
  | draining run feed =>
    rcases leads_draining hleads with ⟨heq, -⟩ | ⟨_, _, -, -, heq⟩
    · obtain ⟨rfl, rfl⟩ := Moment.between.inj heq
      have hothers : (run.session.settle run.source feed).others = run.session.others := by
        unfold Session.settle
        split
        · dsimp only
          split <;> rfl
        · rfl
      have hnone : run.session.others.map (·.name) = [] := by
        rw [← hothers]
        exact hnext
      exact List.map_eq_nil_iff.1 (h.symm.trans hnone)
    · cases heq

/-- **Tidy steps**: while everything is tidy, there is a desk that fits. -/
theorem Fits.leads (hjob : job.Finishes) (hdispatch : dispatch.IsStandard job)
    (h : m.Fits desk) (hshows : m.Shows job desk) (hleads : Leads dispatch m m')
    (htidy : m.IsTidy dispatch) (htidy' : m'.IsTidy dispatch) :
    ∃ desk', m'.Shows job desk' ∧ m'.Fits desk' := by
  cases m with
  | between session memory =>
    obtain ⟨source, waiting, hwaiting, rfl⟩ := leads_between hleads
    exact ⟨desk.turn, hshows.begins hwaiting _, Desk.Nested.of_nil h rfl⟩
  | draining run feed =>
    rcases leads_draining hleads with ⟨rfl, hdone⟩ | ⟨run', after, -, hpiece, rfl⟩
    · obtain ⟨acts, hacts, hput⟩ := hshows.putAway hdone
      have hends : desk.ends = [] := by
        have hopen : run.source.hierarchy.openBlocks = [] := htidy.ended _ _ hleads
        rw [hshows.openBlocks, List.reverse_eq_nil_iff, List.map_eq_nil_iff] at hopen
        exact hopen
      have hblocks : desk.blocks = [] := by
        have hnames := Desk.Nested.names h
        rw [hends] at hnames
        exact List.map_eq_nil_iff.1 hnames
      refine ⟨_, hput, ?_⟩
      rcases hacts with rfl | rfl
      · exact hblocks
      · have hhush : desk.hush.blocks = [] := by
          rw [Desk.hush, hblocks]
          rfl
        exact hhush
    · obtain ⟨passages, effect, acts, henacts, hpiece'⟩ := hshows.piece hjob hdispatch hpiece
      refine ⟨_, hpiece', Desk.Nested.play h hshows.nodup henacts ?_⟩
      have happart := htidy'.apart
      rw [Moment.openBlocks, hpiece'.openBlocks, map_name_blockFrame] at happart
      exact List.nodup_reverse.1 happart

/-! ## What reaches an artifact -/

end Moment

theorem Frames.split {opened : List OpenTag} {ends : List (String × Option PauseState)}
    {inner outer : List (Frame FrameData)} {name destination : String}
    (h : Frames job opened ends (inner ++ ⟨"block", .block name destination none⟩ :: outer)) :
    ∃ within around, ends = within ++ (name, none) :: around ∧ destination = job.blockName name ∧
      inner.any (·.data.drops) = within.any (·.2.isSome) := by
  generalize hframes : inner ++ ⟨"block", .block name destination none⟩ :: outer = frames at h
  induction h generalizing inner with
  | nil => simp at hframes
  | condition _ ih | loop _ _ ih | naming _ ih =>
    cases inner with
    | nil =>
      obtain ⟨hframe, -⟩ := List.cons.inj hframes
      exact absurd (Frame.mk.inj hframe).1 (by decide)
    | cons frame inner =>
      obtain ⟨rfl, hrest⟩ := List.cons.inj hframes
      obtain ⟨within, around, hends, hdestination, hany⟩ := ih hrest
      exact ⟨within, around, hends, hdestination, hany⟩
  | @block _ ends _ other saved _ ih =>
    cases inner with
    | nil =>
      obtain ⟨hframe, -⟩ := List.cons.inj hframes
      obtain ⟨rfl, rfl, hsaved⟩ := FrameData.block.inj (Frame.mk.inj hframe).2
      obtain rfl : saved = none := Option.map_eq_none_iff.1 hsaved.symm
      exact ⟨[], ends, rfl, rfl, rfl⟩
    | cons frame inner =>
      obtain ⟨rfl, hrest⟩ := List.cons.inj hframes
      obtain ⟨within, around, hends, hdestination, hany⟩ := ih hrest
      refine ⟨(other, saved) :: within, around, by rw [hends]; rfl, hdestination, ?_⟩
      rw [List.any_cons, List.any_cons, hany]
      congr 1
      cases saved <;> rfl

theorem Frames.InMode.split {mode : Mode} {opened : List OpenTag} {desk : Desk UInt8}
    {inner outer : List (Frame FrameData)} {name destination : String}
    (h : Frames.InMode job mode opened desk
      (inner ++ ⟨"block", .block name destination none⟩ :: outer)) :
    ∃ within around, desk.ends = within ++ (name, none) :: around ∧
      destination = job.blockName name ∧
      inner.any (·.data.drops) = (decide (mode = .comment) || within.any (·.2.isSome)) := by
  cases mode with
  | directives => exact Frames.split h
  | literal | comment =>
    obtain ⟨rest, hrest, hinner⟩ := h
    cases inner with
    | nil =>
      obtain ⟨hframe, -⟩ := List.cons.inj hrest
      exact absurd (Frame.mk.inj hframe).1 (by decide)
    | cons frame inner =>
      obtain ⟨rfl, rfl⟩ := List.cons.inj hrest
      obtain ⟨within, around, hends, hdestination, hany⟩ := Frames.split hinner
      exact ⟨within, around, hends, hdestination, by rw [List.any_cons, hany]; rfl⟩

theorem Desk.lookup_of_mem {ι : Type} {blocks : List (String × Sheet ι)}
    (hnodup : (blocks.map (·.1)).Nodup) {name : String} {sheet : Sheet ι}
    (hmem : (name, sheet) ∈ blocks) : blocks.lookup name = some sheet := by
  induction blocks with
  | nil => cases hmem
  | cons block blocks ih =>
    rw [List.map_cons, List.nodup_cons] at hnodup
    rw [List.lookup_cons]
    rcases List.mem_cons.1 hmem with rfl | hmem
    · rw [beq_self_eq_true]
    · have hne : name ≠ block.1 := fun heq =>
        hnodup.1 (heq ▸ List.mem_map_of_mem hmem)
      rw [beq_false_of_ne hne]
      exact ih hnodup.2 hmem

/-- The sheet of an open block that was not stored before is written, and it is paused while a comment
or a block is open in it whose body is dropped. -/
theorem Desk.Nested.lookup_inMode {ι : Type} {desk : Desk ι} (h : desk.Nested)
    (hnodup : desk.names.Nodup) {within around : List (String × Option PauseState)} {name : String}
    (hends : desk.ends = within ++ (name, none) :: around) (mode : Mode) :
    ∃ sheet, (desk.inMode mode).blocks.lookup name = some sheet ∧ sheet.kept = false ∧
      sheet.paused = (decide (mode = .comment) || within.any (·.2.isSome)) := by
  have hmem := mark_mem_marksOf within around name none
  rw [← hends, ← List.mem_reverse, ← h.marks] at hmem
  obtain ⟨⟨other, sheet⟩, hblock, hmark⟩ := List.mem_map.1 hmem
  obtain ⟨hname, hkept, hpaused⟩ := Mark.mk.inj hmark
  obtain rfl : other = name := hname
  have hlookup := Desk.lookup_of_mem hnodup hblock
  have hpaused : sheet.paused = within.any (·.2.isSome) := hpaused.trans (Bool.or_false _)
  cases mode with
  | directives | literal => exact ⟨sheet, hlookup, hkept, hpaused⟩
  | comment =>
    refine ⟨sheet.setPaused true, ?_, hkept, rfl⟩
    show (Desk.onSheets (fun _ sheet => sheet.setPaused true) desk.blocks).lookup other = _
    rw [Desk.lookup_onSheets, hlookup]
    rfl

theorem Depicts.exists_blockPath {session : Session} {desk : Desk UInt8} {name : String}
    (h : Depicts job session desk) (hname : name ∈ desk.names) :
    Markup.isIdentifier name = true ∧ ∃ path, job.blockPath name = .ok path := by
  obtain ⟨⟨_, sheet⟩, hblock, rfl⟩ := List.mem_map.1 hname
  have hlookup := Desk.lookup_of_mem h.nodup hblock
  rcases h.blocks.find _ with ⟨-, hnone⟩ | ⟨d, _, -, -, -, hd, -, -⟩
  · rw [hlookup] at hnone
    cases hnone
  · exact ⟨hd.identifier, d.path, hd.standing⟩

/-- The artifact of a block that is being written has what its sheet has. -/
theorem Depicts.artifactOf_eq {session : Session} {desk : Desk UInt8} {name : String}
    {sheet : Sheet UInt8} (h : Depicts job session desk)
    (hlookup : desk.blocks.lookup name = some sheet) (hkept : sheet.kept = false) :
    session.artifactOf (job.blockName name) = some sheet.content := by
  unfold Session.artifactOf Session.destination?
  rcases h.blocks.find name with
    ⟨-, hnone⟩ | ⟨d, found, hfind, hfound, -, -, hshows, -⟩
  · rw [hlookup] at hnone
    cases hnone
  · obtain rfl := Option.some.inj (hlookup.symm.trans hfound)
    rw [hfind]
    exact hshows.close hkept

/-- What is written reaches the artifact, unless its destination is paused. -/
theorem Depicts.artifactOf_write {session : Session} {desk : Desk UInt8} {name : String}
    {sheet : Sheet UInt8} (hjob : job.Finishes) (h : Depicts job session desk)
    (hlookup : desk.blocks.lookup name = some sheet) (hkept : sheet.kept = false) (piece : Bytes) :
    (session.write piece).artifactOf (job.blockName name) =
      some (sheet.content ++ if sheet.paused then [] else piece) := by
  have hafter : (desk.put piece).blocks.lookup name = some (sheet.put piece) := by
    show (Desk.onSheets (fun _ sheet => sheet.put piece) desk.blocks).lookup name = _
    rw [Desk.lookup_onSheets, hlookup]
    rfl
  rw [(h.write hjob piece).artifactOf_eq hafter (by rw [Sheet.put_kept, hkept])]
  congr 1
  unfold Sheet.put
  rw [hkept, Bool.or_false]
  split
  · exact (List.append_nil _).symm
  · rfl

namespace Moment

variable {desk : Desk Passage} {m m' : Moment σ}

/-- **Inside a block**: what is written reaches its artifact. -/
theorem Fits.inside (hjob : job.Finishes) {run : Run σ} {feed : Feed}
    (h : (draining run feed).Fits desk) (hshows : (draining run feed).Shows job desk)
    {inner outer : List (Frame FrameData)} {name destination : String}
    (hframes : run.source.hierarchy.frames =
      inner ++ ⟨"block", .block name destination none⟩ :: outer) (piece : Bytes) :
    ∃ content, run.session.artifactOf destination = some content ∧
      (run.session.write piece).artifactOf destination =
        some (content ++ if inner.any (·.data.drops) then [] else piece) := by
  have hnested : desk.inBytes.Nested := (Desk.Nested.flatten_iff _).2 h
  have hnodup := hshows.sound.nodup
  cases hshows with
  | @draining _ _ _ reader _ hmirrors =>
    have hin := hmirrors.frames
    rw [hframes] at hin
    obtain ⟨within, around, hends, rfl, hany⟩ := hin.split
    obtain ⟨sheet, hlookup, hkept, hpaused⟩ := hnested.lookup_inMode hnodup hends reader.mode
    refine ⟨sheet.content, hmirrors.depicts.artifactOf_eq hlookup hkept, ?_⟩
    rw [hany, ← hpaused]
    exact hmirrors.depicts.artifactOf_write hjob hlookup hkept piece

/-- A piece after which fewer blocks are open ends a block. -/
theorem closes_of_shorter {inserted : String → Bytes → Prop} {passages : List Passage}
    {effect : Reader.Effect} {acts : List (Desk.Act Passage)} {desk : Desk Passage}
    (henacts : List.Forall₂ (Event.Enacts inserted) (passages.map .write ++ effect.events) acts)
    (hshorter : (desk.play acts).ends.length < desk.ends.length) :
    ∃ texts, desk.play acts = (desk.put texts).closeBlock := by
  induction passages generalizing desk acts with
  | nil =>
    cases effect with
    | none | emit =>
      cases henacts
      exact absurd hshorter (lt_irrefl _)
    | insert =>
      obtain _ | ⟨⟨-⟩, ⟨-⟩⟩ := henacts
      exact absurd hshorter (lt_irrefl _)
    | openBlock name =>
      obtain _ | ⟨⟨-⟩, ⟨-⟩⟩ := henacts
      obtain ⟨saved, hends⟩ := Desk.exists_ends_openBlock desk name
      have hlonger : (desk.openBlock name).ends.length < desk.ends.length := hshorter
      rw [hends, List.length_cons] at hlonger
      omega
    | closeBlock =>
      obtain _ | ⟨⟨-⟩, ⟨-⟩⟩ := henacts
      exact ⟨[], by rw [Desk.put_nil]; rfl⟩
    | extend =>
      obtain _ | ⟨⟨-⟩, ⟨-⟩⟩ := henacts
      exact absurd hshorter (lt_irrefl _)
  | cons passage passages ih =>
    obtain _ | ⟨⟨-⟩, hrest⟩ := henacts
    obtain ⟨texts, hplay⟩ := @ih _ (desk.put [passage]) hrest hshorter
    exact ⟨passage :: texts, by rw [Desk.play_cons, Desk.act, hplay, Desk.put_put]; rfl⟩

/-- **After a block**: its artifact stays as it is. -/
theorem Fits.after (hjob : job.Finishes) (hdispatch : dispatch.IsStandard job) {run run' : Run σ}
    {feed feed' : Feed} (h : (draining run feed).Fits desk)
    (hshows : (draining run feed).Shows job desk) {outer : List (Frame FrameData)}
    {name destination : String}
    (hframes : run.source.hierarchy.frames = ⟨"block", .block name destination none⟩ :: outer)
    (hleads : Leads dispatch (draining run feed) (draining run' feed'))
    (hframes' : run'.source.hierarchy.frames = outer) :
    ∃ path content, run.session.artifactPath destination true = .ok path ∧
      ∀ m', Reached dispatch (draining run' feed') m' →
        m'.session.disk.read? path = some content := by
  rcases leads_draining hleads with ⟨heq, -⟩ | ⟨_, _, -, hpiece, heq⟩
  · cases heq
  obtain ⟨rfl, rfl⟩ := Moment.draining.inj heq
  obtain ⟨passages, effect, acts, henacts, hpiece'⟩ := hshows.piece hjob hdispatch hpiece
  -- the block that ends is the innermost one
  have hopen := hshows.openBlocks
  have hopen' := hpiece'.openBlocks
  unfold Hierarchy.openBlocks at hopen hopen'
  rw [hframes, List.reverse_inj] at hopen
  change (⟨name, destination, none⟩ : Standard.BlockFrame) ::
    outer.filterMap (fun frame => Standard.asBlock frame.data) = _ at hopen
  rw [hframes', List.reverse_inj] at hopen'
  obtain ⟨⟨other, saved⟩, ends, hends, hframe, hrest⟩ := List.map_eq_cons_iff.1 hopen.symm
  obtain ⟨rfl, rfl, hsaved⟩ := Standard.BlockFrame.mk.inj hframe
  obtain rfl : saved = none := Option.map_eq_none_iff.1 hsaved
  have hlength : (desk.play acts).ends.length = ends.length := by
    rw [← List.length_map job.blockFrame, ← hopen', ← hrest, List.length_map]
  obtain ⟨texts, hplay⟩ := closes_of_shorter henacts
    (by rw [hlength, hends, List.length_cons]; exact Nat.lt_succ_self _)
  obtain ⟨stored, hstored⟩ := Desk.Nested.exists_store_closeBlock (Desk.Nested.put h texts)
    (by rw [Desk.names_put]; exact hshows.nodup) hends
  rw [← hplay] at hstored
  -- the destination of the block has its path
  have hname : other ∈ desk.names := by
    rw [Desk.Nested.names h, List.mem_reverse, hends]
    exact List.mem_cons_self
  obtain ⟨shown, hdepicts, hnames, -⟩ := hshows.depicts
  rw [← names_inBytes, ← hnames] at hname
  obtain ⟨hidentifier, path, hpath⟩ := hdepicts.exists_blockPath hname
  refine ⟨path, stored.flatMap Passage.bytes, hdepicts.artifactPath_eq_ok.2 hpath, fun m' hm' => ?_⟩
  refine hpiece'.read? hjob hdispatch hidentifier hpath ?_ hm'
  show ((desk.play acts).store other).map _ = _
  rw [hstored]
  rfl

end Moment

/-! ## Whole compiles -/

namespace Compiler

open Moment

/-- What every moment of a compile has to do with desks. -/
theorem exists_job {compiler : Compiler σ} (hlibrary : compiler.library = .standard)
    {id template destination : String} {world : World σ} (htree : world.disk.IsTree)
    {session : Session} {disk : Disk}
    (hstart : Session.start compiler.workspace id template destination world.disk =
      .ok session disk) :
    ∃ (job : Job) (desk : Desk Passage), job.Finishes ∧
      (compiler.library.dispatch compiler.limits.depth).IsStandard job ∧
      (between session world.memory).Shows job desk ∧ desk.blocks = [] := by
  obtain ⟨store, hstored⟩ := Job.exists_stored
    (show (compiler.workspace.job id template session.main.path world.disk).disk.IsTree from htree)
  obtain ⟨hjob, hdepicts, -⟩ := Session.start_ok hstart hstored
  refine ⟨_, Desk.beginning store, hjob, ?_, .between hdepicts, rfl⟩
  rw [hlibrary]
  exact isStandard_standard hjob _

/-- **Destinations and blocks**: the open destinations are those of the open blocks throughout a compile
exactly if no block is opened inside a block of its own name and every source ends its blocks. Then
what is written inside a block that was not stored before reaches its artifact, and nothing does
after it. -/
theorem matches_iff {compiler : Compiler σ} (hlibrary : compiler.library = .standard)
    (id template destination : String) {world : World σ} (htree : world.disk.IsTree) :
    ((∀ m, compiler.Passes id template destination world m → m.Matches) ↔
      ∀ m, compiler.Passes id template destination world m →
        m.IsTidy (compiler.library.dispatch compiler.limits.depth)) ∧
    ((∀ m, compiler.Passes id template destination world m →
        m.IsTidy (compiler.library.dispatch compiler.limits.depth)) →
      ∀ m, compiler.Passes id template destination world m →
        m.Captures (compiler.library.dispatch compiler.limits.depth)) := by
  -- along a tidy compile, every moment has a desk that fits
  have hfits (htidy : ∀ m, compiler.Passes id template destination world m →
      m.IsTidy (compiler.library.dispatch compiler.limits.depth)) (m : Moment σ)
      (hm : compiler.Passes id template destination world m) :
      ∃ (job : Job) (desk : Desk Passage), job.Finishes ∧
        (compiler.library.dispatch compiler.limits.depth).IsStandard job ∧
        m.Shows job desk ∧ m.Fits desk := by
    obtain ⟨session, disk, hstart, hreached⟩ := hm
    obtain ⟨job, desk, hjob, hdispatch, hshows, hblocks⟩ := exists_job hlibrary htree hstart
    suffices ∃ desk, m.Shows job desk ∧ m.Fits desk by
      obtain ⟨desk, hshows, hfits⟩ := this
      exact ⟨job, desk, hjob, hdispatch, hshows, hfits⟩
    induction hreached with
    | refl => exact ⟨desk, hshows, hblocks⟩
    | tail hreached hleads ih =>
      obtain ⟨desk, hshows, hfits⟩ := ih
      exact hfits.leads hjob hdispatch hshows hleads (htidy _ ⟨session, disk, hstart, hreached⟩)
        (htidy _ ⟨session, disk, hstart, hreached.tail hleads⟩)
  refine ⟨⟨fun hmatches m hm => ?_, fun htidy m hm => ?_⟩, fun htidy m hm => ?_⟩
  · obtain ⟨session, disk, hstart, hreached⟩ := hm
    obtain ⟨job, desk, hjob, hdispatch, hshows, -⟩ := exists_job hlibrary htree hstart
    obtain ⟨acts, hlater⟩ := hshows.reached hjob hdispatch hreached
    have hmatch := hmatches m ⟨session, disk, hstart, hreached⟩
    refine ⟨hmatch.nodup hlater, fun after memory hleads => ?_⟩
    have hnext := hmatches _ ⟨session, disk, hstart, hreached.tail hleads⟩
    exact hmatch.openBlocks_eq_nil hleads hnext
  · obtain ⟨job, desk, -, -, hshows, hfit⟩ := hfits htidy m hm
    exact hfit.matches hshows
  · obtain ⟨job, desk, hjob, hdispatch, hshows, hfit⟩ := hfits htidy m hm
    constructor
    · rintro run feed inner name destination outer rfl hframes piece
      exact hfit.inside hjob hshows hframes piece
    · rintro run feed name destination outer run' feed' rfl hframes hleads hframes'
      exact hfit.after hjob hdispatch hshows hframes hleads hframes'

/-- Whether a moment is tidy, as far as it can be evaluated. -/
def isTidy (compiler : Compiler σ) (m : Moment σ) : Bool :=
  decide (m.openBlocks.map (·.name)).Nodup &&
    match m.next (compiler.library.dispatch compiler.limits.depth) with
    | .goesOn (.between ..) => m.openBlocks.isEmpty
    | _ => true

theorem isTidy_of {compiler : Compiler σ} {m : Moment σ} (h : compiler.isTidy m = true) :
    m.IsTidy (compiler.library.dispatch compiler.limits.depth) := by
  obtain ⟨happart, hended⟩ := Bool.and_eq_true_iff.1 h
  refine ⟨of_decide_eq_true happart, fun session memory hleads => ?_⟩
  rw [show m.next _ = .goesOn (.between session memory) from hleads] at hended
  exact List.isEmpty_iff.1 hended

/-- A template with a block inside a block, which extends one that has the outer one too. -/
def nested : List (String × String) :=
  [("a", "\x7b% extends 'b' %\x7d\x7b% block x %\x7d1" ++
      "\x7b% block y %\x7d2\x7b% endblock %\x7d\x7b% endblock %\x7d"),
    ("b", "A\x7b% block x %\x7d3\x7b% endblock %\x7dB")]

/-- The destinations are those of the blocks, whether they are overridden or not. -/
theorem matches_nested :
    (ofTexts nested).library = .standard ∧ (⟨.empty, ⟨⟩⟩ : World Unit).disk.IsTree ∧
      ∀ m, (ofTexts nested).Passes "s" "a" "a" ⟨.empty, ⟨⟩⟩ m →
        m.Matches ∧ m.Captures ((ofTexts nested).library.dispatch (ofTexts nested).limits.depth) := by
  have htree : (⟨.empty, ⟨⟩⟩ : World Unit).disk.IsTree := Disk.isTree_empty
  have hcheck : ((ofTexts nested).trail 40 "s" "a" "a" ⟨.empty, ⟨⟩⟩).any
      (·.all (ofTexts nested).isTidy) = true := by decide +kernel
  have htidy : ∀ m, (ofTexts nested).Passes "s" "a" "a" ⟨.empty, ⟨⟩⟩ m →
      m.IsTidy ((ofTexts nested).library.dispatch (ofTexts nested).limits.depth) :=
    fun m hm => isTidy_of (forall_passes _ hcheck hm)
  obtain ⟨hmatches, hcaptures⟩ := matches_iff (show (ofTexts nested).library = .standard from rfl)
    "s" "a" "a" htree
  exact ⟨rfl, htree, fun m hm => ⟨hmatches.2 htidy m hm, hcaptures htidy m hm⟩⟩

/-- A template that leaves a block open, which extends one that has it. -/
def unended : List (String × String) :=
  [("a", "\x7b% extends 'b' %\x7d\x7b% block x %\x7d1"),
    ("b", "A\x7b% block x %\x7d2\x7b% endblock %\x7dB")]

/-- The destination of a block that does not end outlives its source: what the next one writes before
its own block of that name goes into it, and is shown a second time. -/
theorem exists_not_matches :
    (∃ m, (ofTexts unended).Passes "s" "a" "a" ⟨.empty, ⟨⟩⟩ m ∧ m.openBlocks = [] ∧ ¬ m.Matches) ∧
      ∃ (report : Report) (world' : World Unit),
        (ofTexts unended).compileTo "s" "a" "a" ⟨.empty, ⟨⟩⟩ = .ok report world' ∧
          world'.disk.read? report.artifact = some (Utf8.encode "A1AB") := by
  have hcheck : ((ofTexts unended).trail 40 "s" "a" "a" ⟨.empty, ⟨⟩⟩).any
      (·.any fun m => m.openBlocks.isEmpty && !m.session.others.isEmpty) = true := by decide +kernel
  obtain ⟨m, hm, hopen⟩ := exists_passes _ hcheck
  obtain ⟨hnone, hsome⟩ := Bool.and_eq_true_iff.1 hopen
  obtain ⟨report, pages, world', hproperty, -, h⟩ := exists_compiles unended
    (fun report _ disk => decide (disk.read? report.artifact = some (Utf8.encode "A1AB")))
    (by decide +kernel)
  refine ⟨⟨m, hm, List.isEmpty_iff.1 hnone, fun hmatches => ?_⟩, report, world', h.result,
    of_decide_eq_true hproperty⟩
  unfold Matches at hmatches
  rw [List.isEmpty_iff.1 hnone] at hmatches
  rw [List.map_eq_nil_iff.1 hmatches] at hsome
  cases hsome

end Compiler

end TemplateCompiler
