import Mathlib.Data.List.Forall2
import TemplateCompiler.Proofs.Destination.Content
import TemplateCompiler.Proofs.Session.Places

/-!
# Sessions and desks

A session depicts a desk if its destinations show the sheets of the desk, one by one, and the
artifacts on the disk are what the store has. Every operation of a session that touches a
destination is shown here to do to the desk what its name says.
-/
namespace TemplateCompiler

/-- The destination is that of the block `name`. -/
structure Job.IsBlock (job : Job) (d : Destination) (name : String) : Prop where
  identifier : Markup.isIdentifier name = true
  named : d.name = job.blockName name
  standing : job.blockPath name = .ok d.path
  temporary : d.temporary = true

/-- The path is that of the temporary artifact of some block. -/
def Job.IsBlockPath (job : Job) (path : Path) : Prop :=
  ∃ name, Markup.isIdentifier name = true ∧ job.blockPath name = .ok path

/-- The destinations of the blocks show their sheets. -/
def Job.Shows (job : Job) (disk : Disk) : List Destination → List (String × Sheet UInt8) → Prop :=
  List.Forall₂ fun d block => job.IsBlock d block.1 ∧ d.Shows disk block.2

/-- What the disk has of a block that is not being written. -/
def Disk.Stores (disk : Disk) (path : Path) : Option Bytes → Prop
  | some content => disk.read? path = some content
  | none => disk.contentAt? path.place = none

/-- Two sessions between which no slot was handed out and no warning was given. -/
def Session.Keeps (session session' : Session) : Prop :=
  session'.slots = session.slots ∧ session'.warnings = session.warnings

/-- A source that has not had its turn. -/
def Source.IsNew (source : Source) : Prop :=
  source = { toOrigin := source.toOrigin, id := source.id }

/-- The session does with its disk what is done on the desk. -/
structure Depicts (job : Job) (session : Session) (desk : Desk UInt8) : Prop where
  workspace : session.workspace = job.workspace
  id : session.id = job.id
  template : session.template = job.template
  path : session.main.path = job.artifact
  grown : Disk.Grown job.Owns job.disk session.disk
  waiting : ∀ source ∈ session.waiting, source.IsNew
  leftovers : ∀ path ∈ session.leftovers, job.IsBlockPath path
  main : session.main.Shows session.disk desk.main
  written : desk.main.kept = false
  blocks : job.Shows session.disk session.others desk.blocks
  nodup : desk.names.Nodup
  had : ∀ block ∈ desk.blocks, block.2.kept = (desk.store block.1).isSome
  stored : ∀ name path, Markup.isIdentifier name = true → job.blockPath name = .ok path →
    ((desk.store name).isSome = true ∨ name ∉ desk.names) →
      session.disk.Stores path (desk.store name)

variable {job : Job} {session : Session} {desk : Desk UInt8} {disk disk' : Disk}

/-! ## Blocks by name -/

theorem Job.blockName_inj {a b : String} (h : job.blockName a = job.blockName b) : a = b := by
  have hlist := congrArg String.toList h
  simp only [blockName, ArtifactCache.blockName, String.toList_append] at hlist
  exact String.toList_inj.1 (List.append_cancel_left hlist)

theorem Job.IsBlock.beq {d : Destination} {name : String} (h : job.IsBlock d name)
    (other : String) : (d.name == job.blockName other) = (name == other) := by
  rw [h.named]
  by_cases heq : name = other
  · subst heq
    simp
  · rw [beq_false_of_ne heq, beq_false_of_ne fun hn => heq (Job.blockName_inj hn)]

theorem Job.IsBlock.owns {d : Destination} {name : String} (h : job.IsBlock d name) :
    job.Owns d.path.place :=
  .inr ⟨name, d.path, h.identifier, h.standing, rfl⟩

theorem Job.IsBlock.place_ne {d e : Destination} {a b : String} (h : job.IsBlock d a)
    (h' : job.IsBlock e b) (hne : a ≠ b) : d.path.place ≠ e.path.place :=
  fun heq => hne (Job.block_inj h.identifier h'.identifier h.standing h'.standing heq)

theorem Job.IsBlock.sameAs {d e : Destination} {name : String} (h : job.IsBlock d name)
    (hsame : d.SameAs e) : job.IsBlock e name := by
  obtain ⟨hname, hpath, htemporary⟩ := hsame
  exact ⟨h.identifier, hname.trans h.named, hpath ▸ h.standing, htemporary.trans h.temporary⟩

/-- Whether a block of a name is open can be told from the destinations. -/
theorem Job.Shows.find {ds : List Destination} {blocks : List (String × Sheet UInt8)}
    (h : job.Shows disk ds blocks) (name : String) :
    (ds.find? (·.name == job.blockName name) = none ∧ blocks.lookup name = none) ∨
      ∃ d sheet, ds.find? (·.name == job.blockName name) = some d ∧
        blocks.lookup name = some sheet ∧ (name, sheet) ∈ blocks ∧ job.IsBlock d name ∧
        d.Shows disk sheet ∧
        job.Shows disk (ds.eraseP (·.name == job.blockName name))
          (blocks.eraseP (·.1 == name)) := by
  induction h with
  | nil => exact .inl ⟨rfl, rfl⟩
  | @cons d block ds blocks hhead htail ih =>
    obtain ⟨other, sheet⟩ := block
    have hbeq := hhead.1.beq name
    by_cases heq : other = name
    · subst heq
      rw [beq_self_eq_true] at hbeq
      refine .inr ⟨d, sheet, ?_, ?_, List.mem_cons_self, hhead.1, hhead.2, ?_⟩
      · exact List.find?_cons_of_pos hbeq
      · exact List.lookup_cons_self
      · have hds : (d :: ds).eraseP (·.name == job.blockName other) = ds :=
          List.eraseP_cons_of_pos hbeq
        have hblocks : ((other, sheet) :: blocks).eraseP (·.1 == other) = blocks :=
          List.eraseP_cons_of_pos (beq_self_eq_true other)
        rw [hds, hblocks]
        exact htail
    · have hbeq' : ¬ (d.name == job.blockName name) = true := by
        rw [hbeq, beq_false_of_ne heq]
        exact Bool.false_ne_true
      have hne : ¬ (other == name) = true := by
        rw [beq_false_of_ne heq]
        exact Bool.false_ne_true
      have hfirst : (d :: ds).find? (·.name == job.blockName name) =
          ds.find? (·.name == job.blockName name) := List.find?_cons_of_neg hbeq'
      have hds : (d :: ds).eraseP (·.name == job.blockName name) =
          d :: ds.eraseP (·.name == job.blockName name) := List.eraseP_cons_of_neg hbeq'
      have hblocks : ((other, sheet) :: blocks).eraseP (·.1 == name) =
          (other, sheet) :: blocks.eraseP (·.1 == name) := List.eraseP_cons_of_neg hne
      rw [hfirst, List.lookup_cons, beq_false_of_ne (Ne.symm heq), hds, hblocks]
      rcases ih with ⟨hfind, hlookup⟩ | ⟨e, top, hfind, hlookup, hmem, hblock, hshows, herase⟩
      · exact .inl ⟨hfind, hlookup⟩
      · refine .inr ⟨e, top, hfind, hlookup, List.mem_cons_of_mem _ hmem, hblock, hshows,
          .cons hhead herase⟩

/-! ## Writing -/

theorem Job.Shows.elsewhere {owned : Place → Prop} {ds : List Destination}
    {blocks : List (String × Sheet UInt8)} (h : job.Shows disk ds blocks)
    (hgrown : Disk.Grown owned disk disk') (hplace : ∀ d ∈ ds, ¬ owned d.path.place) :
    job.Shows disk' ds blocks := by
  induction h with
  | nil => exact .nil
  | cons hhead htail ih =>
    refine .cons ⟨hhead.1, hhead.2.elsewhere hgrown (hplace _ List.mem_cons_self)⟩ ?_
    exact ih fun d hd => hplace d (List.mem_cons_of_mem _ hd)

theorem Job.Shows.mem {ds : List Destination} {blocks : List (String × Sheet UInt8)}
    (h : job.Shows disk ds blocks) {d : Destination} (hd : d ∈ ds) :
    ∃ block ∈ blocks, job.IsBlock d block.1 ∧ d.Shows disk block.2 := by
  induction h with
  | nil => cases hd
  | @cons _ block _ _ hhead htail ih =>
    rcases List.mem_cons.1 hd with rfl | hd
    · exact ⟨block, List.mem_cons_self, hhead⟩
    · obtain ⟨other, hother, hblock⟩ := ih hd
      exact ⟨other, List.mem_cons_of_mem _ hother, hblock⟩

/-- A piece that is written to every block is put on every sheet. -/
theorem Job.Shows.writeAll {ds : List Destination} {blocks : List (String × Sheet UInt8)}
    (h : job.Shows disk ds blocks) (hnodup : (blocks.map (·.1)).Nodup) (piece : Bytes) :
    job.Shows (Destination.writeAll disk piece ds).2 (Destination.writeAll disk piece ds).1
        (Desk.onSheets (fun _ sheet => sheet.put piece) blocks) ∧
      Disk.Grown (fun place => ∃ d ∈ ds, d.WritesTo place) disk
        (Destination.writeAll disk piece ds).2 := by
  induction ds generalizing disk blocks with
  | nil =>
    cases h
    exact ⟨.nil, .refl _ _⟩
  | cons d ds ih =>
    cases h with
    | @cons _ block _ blocks hhead htail =>
      rw [List.map_cons, List.nodup_cons] at hnodup
      obtain ⟨hshow, hgrown⟩ := hhead.2.write piece
      have hne : ∀ e ∈ ds, e.path.place ≠ d.path.place := by
        intro e he
        obtain ⟨other, hother, hblock, -⟩ := Job.Shows.mem htail he
        exact hblock.place_ne hhead.1 fun heq => hnodup.1 (heq ▸ List.mem_map_of_mem hother)
      obtain ⟨hrest, hgrown'⟩ :=
        ih (Job.Shows.elsewhere htail hgrown fun e he hw => hne e he hw.2) hnodup.2
      have hsame := d.sameAs_write disk piece
      have hkeep : ¬ ∃ e ∈ ds, e.WritesTo (d.write disk piece).1.path.place := by
        rintro ⟨e, he, -, heq⟩
        exact hne e he (hsame.2.1 ▸ heq.symm)
      refine ⟨.cons ⟨hhead.1.sameAs hsame, hshow.elsewhere hgrown' hkeep⟩ hrest, ?_⟩
      refine (hgrown.mono ?_).trans (hgrown'.mono ?_)
      · intro place hw
        exact ⟨d, List.mem_cons_self, hw⟩
      · rintro place ⟨e, he, hw⟩
        exact ⟨e, List.mem_cons_of_mem _ he, hw⟩

theorem Disk.Stores.elsewhere {path : Path} {content : Option Bytes} {owned : Place → Prop}
    (h : disk.Stores path content) (hgrown : Disk.Grown owned disk disk')
    (hplace : ¬ owned path.place) : disk'.Stores path content := by
  cases content with
  | none => exact (hgrown.content _ hplace).trans h
  | some content =>
    obtain ⟨place, hlocate, hcontent⟩ := Disk.read?_eq_some.1 h
    refine Disk.read?_eq_some.2 ⟨place, hgrown.locate? hlocate, ?_⟩
    rw [← hcontent]
    exact hgrown.content _ (Disk.place_of_locate? hlocate ▸ hplace)

namespace Depicts

/-- The destinations of a session write where the session owns the place. -/
theorem owns (h : Depicts job session desk) {place : Place}
    (hw : session.main.WritesTo place ∨ ∃ d ∈ session.others, d.WritesTo place) :
    job.Owns place := by
  rcases hw with hw | ⟨d, hd, hw⟩
  · exact .inl (hw.2.trans (by rw [h.path]))
  · obtain ⟨_, -, hblock, -⟩ := h.blocks.mem hd
    rw [hw.2]
    exact hblock.owns

/-- No destination writes where a closed block is stored. -/
theorem closed (hjob : job.Finishes) (h : Depicts job session desk) {name : String} {path : Path}
    (hname : Markup.isIdentifier name = true) (hpath : job.blockPath name = .ok path)
    (hclosed : (desk.store name).isSome = true ∨ name ∉ desk.names) :
    ¬ (session.main.WritesTo path.place ∨ ∃ d ∈ session.others, d.WritesTo path.place) := by
  rintro (hw | ⟨d, hd, hw⟩)
  · rw [Destination.WritesTo, h.path] at hw
    exact Job.block_ne_artifact hjob hname hpath hw.2
  · obtain ⟨block, hmem, hblock, hshows⟩ := h.blocks.mem hd
    obtain rfl : name = block.1 :=
      Job.block_inj hname hblock.identifier hpath hblock.standing hw.2
    rcases hclosed with hsome | hnot
    · have hkept := h.had block hmem
      rw [hsome, hshows.kept_of_writesTo hw] at hkept
      cases hkept
    · exact hnot (List.mem_map_of_mem hmem)

/-- **Writing**: a piece is put on every sheet. -/
theorem write (hjob : job.Finishes) (h : Depicts job session desk) (piece : Bytes) :
    Depicts job (session.write piece) (desk.put piece) := by
  obtain ⟨hmain, hgrown⟩ := h.main.write piece
  have hne : ∀ d ∈ session.others, d.path.place ≠ session.main.path.place := by
    intro d hd
    obtain ⟨_, -, hblock, -⟩ := h.blocks.mem hd
    rw [h.path]
    exact Job.block_ne_artifact hjob hblock.identifier hblock.standing
  obtain ⟨hblocks, hgrown'⟩ :=
    (h.blocks.elsewhere hgrown fun d hd hw => hne d hd hw.2).writeAll h.nodup piece
  have hsame := session.main.sameAs_write session.disk piece
  have hall : Disk.Grown
      (fun place => session.main.WritesTo place ∨ ∃ d ∈ session.others, d.WritesTo place)
      session.disk (session.write piece).disk :=
    (hgrown.mono fun _ => .inl).trans (hgrown'.mono fun _ => .inr)
  exact {
    workspace := h.workspace
    id := h.id
    template := h.template
    path := hsame.2.1.trans h.path
    grown := h.grown.trans (hall.mono fun _ => h.owns)
    waiting := h.waiting
    leftovers := h.leftovers
    main := hmain.elsewhere hgrown' fun ⟨d, hd, hw⟩ => hne d hd (hsame.2.1 ▸ hw.2.symm)
    written := (Sheet.put_kept _ _).trans h.written
    blocks := hblocks
    nodup := by rw [Desk.names_put]; exact h.nodup
    had := by
      intro block hmem
      obtain ⟨old, hold, rfl⟩ := List.mem_map.1 hmem
      exact (Sheet.put_kept _ _).trans (h.had old hold)
    stored := by
      intro name path hname hpath hclosed
      rw [Desk.names_put] at hclosed
      exact (h.stored name path hname hpath hclosed).elsewhere hall
        (h.closed hjob hname hpath hclosed) }

/-- Lines that are written one by one are put on every sheet together. -/
theorem copy (hjob : job.Finishes) (h : Depicts job session desk) (text : Bytes) :
    Depicts job (session.copy text) (desk.put text) := by
  have key : ∀ (lines : List Bytes) (session : Session) (desk : Desk UInt8),
      Depicts job session desk →
        Depicts job (lines.foldl Session.write session) (desk.put lines.flatten) := by
    intro lines
    induction lines with
    | nil =>
      intro session desk h
      rw [List.flatten_nil, Desk.put_nil]
      exact h
    | cons line lines ih =>
      intro session desk h
      rw [List.flatten_cons, ← Desk.put_put]
      exact ih _ _ (h.write hjob line)
  have hlines := key (Bytes.lines text) session desk h
  rw [Bytes.flatten_lines] at hlines
  exact hlines

/-- A session does not know which blocks are to end. -/
theorem ending (h : Depicts job session desk) (ends : List (String × Option PauseState)) :
    Depicts job session { desk with ends } :=
  { h with }

/-! ## Pausing -/

end Depicts

/-- The flags of a desk as a session has them, under the names of its destinations. -/
def Job.flags (job : Job) (flags : PauseState) : PauseState :=
  ⟨flags.main, flags.others.map fun flag => (job.blockName flag.1, flag.2)⟩

theorem Job.Shows.map {ds : List Destination} {blocks : List (String × Sheet UInt8)}
    {f : Destination → Destination} {change : String → Sheet UInt8 → Sheet UInt8}
    (h : job.Shows disk ds blocks)
    (hstep : ∀ d name sheet, job.IsBlock d name → d.Shows disk sheet →
      d.SameAs (f d) ∧ (f d).Shows disk (change name sheet)) :
    job.Shows disk (ds.map f) (Desk.onSheets change blocks) := by
  induction h with
  | nil => exact .nil
  | cons hhead htail ih =>
    obtain ⟨hsame, hshows⟩ := hstep _ _ _ hhead.1 hhead.2
    exact .cons ⟨hhead.1.sameAs hsame, hshows⟩ ih

theorem Job.lookup_flags (flags : List (String × Bool)) (name : String) :
    (flags.map fun flag => (job.blockName flag.1, flag.2)).lookup (job.blockName name) =
      flags.lookup name := by
  induction flags with
  | nil => rfl
  | cons flag flags ih =>
    obtain ⟨first, paused⟩ := flag
    rw [List.map_cons, List.lookup_cons, List.lookup_cons, ih]
    by_cases heq : name = first
    · subst heq
      simp
    · rw [beq_false_of_ne heq, beq_false_of_ne fun hn => heq (Job.blockName_inj hn)]

namespace Depicts

/-- The same desk with other flags. -/
theorem flagged (h : Depicts job session desk) {f : Destination → Destination}
    {change : String → Sheet UInt8 → Sheet UInt8} {paused : Bool}
    (hstep : ∀ d name sheet, job.IsBlock d name → d.Shows session.disk sheet →
      d.SameAs (f d) ∧ (f d).Shows session.disk (change name sheet))
    (hkept : ∀ name sheet, (change name sheet).kept = sheet.kept) :
    Depicts job
      { session with main := session.main.setPaused paused, others := session.others.map f }
      { desk with
        main := desk.main.setPaused paused
        blocks := Desk.onSheets change desk.blocks } where
  workspace := h.workspace
  id := h.id
  template := h.template
  path := h.path
  grown := h.grown
  waiting := h.waiting
  leftovers := h.leftovers
  main := h.main.setPaused paused
  written := h.written
  blocks := h.blocks.map hstep
  nodup := by
    show ((Desk.onSheets change desk.blocks).map (·.1)).Nodup
    rw [Desk.map_fst_onSheets]
    exact h.nodup
  had := by
    intro block hmem
    obtain ⟨old, hold, rfl⟩ := List.mem_map.1 hmem
    exact (hkept _ _).trans (h.had old hold)
  stored := by
    intro name path hname hpath hclosed
    rw [Desk.names, Desk.map_fst_onSheets] at hclosed
    exact h.stored name path hname hpath hclosed

theorem pauseState (h : Depicts job session desk) : session.pauseState = job.flags desk.flags := by
  have key : ∀ {ds : List Destination} {blocks : List (String × Sheet UInt8)},
      job.Shows session.disk ds blocks → ds.map (fun d => (d.name, d.paused)) =
        blocks.map fun block => (job.blockName block.1, block.2.paused) := by
    intro ds blocks hshows
    induction hshows with
    | nil => rfl
    | cons hhead htail ih => rw [List.map_cons, List.map_cons, hhead.1.named, hhead.2.paused, ih]
  unfold Session.pauseState Job.flags Desk.flags
  rw [key h.blocks, h.main.paused, List.map_map]
  rfl

/-- **Pausing**: every sheet is paused, and the flags that are given are those of the desk. -/
theorem pauseAll (h : Depicts job session desk) :
    session.pauseAll.1 = job.flags desk.flags ∧ Depicts job session.pauseAll.2 desk.hush :=
  ⟨h.pauseState, h.flagged (fun _ _ _ _ hshows => ⟨⟨rfl, rfl, rfl⟩, hshows.setPaused true⟩)
    fun _ _ => rfl⟩

/-- **Restoring**: every sheet gets the flag that was saved for it. -/
theorem restore (h : Depicts job session desk) (flags : PauseState) :
    Depicts job (session.restore (job.flags flags)) (desk.restore flags) := by
  refine h.flagged (fun d name sheet hblock hshows => ?_) fun _ _ => Sheet.restore_kept _ _ _
  unfold Session.restoreFlag Sheet.restore
  rw [show (job.flags flags).others.lookup d.name = flags.others.lookup name by
    rw [hblock.named]
    exact Job.lookup_flags _ _]
  cases flags.others.lookup name with
  | none => exact ⟨⟨rfl, rfl, rfl⟩, hshows⟩
  | some paused => exact ⟨⟨rfl, rfl, rfl⟩, hshows.setPaused paused⟩

theorem setMainPaused (h : Depicts job session desk) (paused : Bool) :
    Depicts job (session.setMainPaused paused)
      { desk with main := desk.main.setPaused paused } where
  workspace := h.workspace
  id := h.id
  template := h.template
  path := h.path
  grown := h.grown
  waiting := h.waiting
  leftovers := h.leftovers
  main := h.main.setPaused paused
  written := h.written
  blocks := h.blocks
  nodup := h.nodup
  had := h.had
  stored := h.stored

end Depicts

end TemplateCompiler
