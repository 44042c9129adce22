import TemplateCompiler.Proofs.Inheritance.Outline
import TemplateCompiler.Proofs.Outcome

/-!
# Nested blocks

A desk is nested if its sheets are those of the blocks that have not ended, in order. It stays so while
no block is opened inside a block of its own name (`Desk.Nested.openBlock`), and then a sheet is kept
exactly if its block was stored before, and paused exactly while the body of such a block is dropped
that stands in it or is its own. What is stored stays as it is, nested or not (`Desk.Sound.act`).
-/
namespace TemplateCompiler

variable {ι κ : Type}

/-! ## Marks of sheets -/

/-- What is known of a sheet apart from what is written on it. -/
structure Mark where
  name : String
  kept : Bool
  paused : Bool
  deriving DecidableEq, Repr

/-- The mark of a sheet that has been paused. -/
def Mark.pause (mark : Mark) : Mark :=
  { mark with paused := true }

/-- The name and the pause flag of a sheet. -/
def Mark.flag (mark : Mark) : String × Bool :=
  (mark.name, mark.paused)

/-- The mark of the sheet of a block. -/
def Sheet.mark (block : String × Sheet ι) : Mark :=
  ⟨block.1, block.2.kept, block.2.paused⟩

/-- The marks of the sheets of the blocks that have not ended, the innermost first. A block that was
stored before pauses its own sheet and those around it. -/
def marksOf : List (String × Option PauseState) → List Mark
  | [] => []
  | (name, none) :: ends => ⟨name, false, false⟩ :: marksOf ends
  | (name, some _) :: ends => ⟨name, true, true⟩ :: (marksOf ends).map Mark.pause

/-- The flags that are saved for the end of a block are those at its beginning. -/
def Saves : List (String × Option PauseState) → Prop
  | [] => True
  | (_, none) :: ends => Saves ends
  | (name, some flags) :: ends =>
    flags.others = ((marksOf ends).map Mark.flag).reverse ++ [(name, false)] ∧ Saves ends

theorem map_name_marksOf (ends : List (String × Option PauseState)) :
    (marksOf ends).map Mark.name = ends.map (·.1) := by
  induction ends with
  | nil => rfl
  | cons top ends ih =>
    obtain ⟨name, saved⟩ := top
    cases saved with
    | none => exact congrArg (name :: ·) ih
    | some flags =>
      show name :: ((marksOf ends).map Mark.pause).map Mark.name = _
      rw [List.map_map, show Mark.name ∘ Mark.pause = Mark.name from rfl, ih]
      rfl

/-- The sheet of a block that has not ended is paused exactly if the body of a block in it, or its own,
is dropped. -/
theorem mark_mem_marksOf (inner outer : List (String × Option PauseState)) (name : String)
    (saved : Option PauseState) :
    (⟨name, saved.isSome, (inner.any (·.2.isSome)) || saved.isSome⟩ : Mark) ∈
      marksOf (inner ++ (name, saved) :: outer) := by
  induction inner with
  | nil => cases saved <;> exact List.mem_cons_self
  | cons top inner ih =>
    obtain ⟨other, flags⟩ := top
    cases flags with
    | none => exact List.mem_cons_of_mem _ ih
    | some flags => exact List.mem_cons_of_mem _ (List.mem_map.2 ⟨_, ih, rfl⟩)

namespace Desk

variable {desk : Desk ι} {name : String}

/-- The sheets are those of the blocks that have not ended, in order. -/
structure Nested (desk : Desk ι) : Prop where
  marks : desk.blocks.map Sheet.mark = (marksOf desk.ends).reverse
  saves : Saves desk.ends

theorem map_name_mark (blocks : List (String × Sheet ι)) :
    (blocks.map Sheet.mark).map Mark.name = blocks.map (·.1) := by
  rw [List.map_map]
  rfl

theorem map_flag_mark (desk : Desk ι) :
    (desk.blocks.map Sheet.mark).map Mark.flag = desk.flags.others := by
  rw [List.map_map]
  rfl

theorem map_mark_onSheets (change : String → Sheet ι → Sheet κ) {f : Mark → Mark}
    (hchange : ∀ name sheet, Sheet.mark (name, change name sheet) = f (Sheet.mark (name, sheet)))
    (blocks : List (String × Sheet ι)) :
    (onSheets change blocks).map Sheet.mark = (blocks.map Sheet.mark).map f := by
  unfold onSheets
  rw [List.map_map, List.map_map]
  exact List.map_congr_left fun block _ => hchange block.1 block.2

theorem map_mark_hush (desk : Desk ι) :
    desk.hush.blocks.map Sheet.mark = (desk.blocks.map Sheet.mark).map Mark.pause :=
  map_mark_onSheets (fun _ sheet => sheet.setPaused true) (fun _ _ => rfl) desk.blocks

theorem map_mark_put (desk : Desk ι) (items : List ι) :
    (desk.put items).blocks.map Sheet.mark = desk.blocks.map Sheet.mark := by
  refine (map_mark_onSheets (fun _ sheet => sheet.put items) (fun name sheet => ?_)
    desk.blocks).trans (List.map_id _)
  show Mark.mk _ _ _ = Mark.mk _ _ _
  rw [Sheet.put_kept, Sheet.put_paused]

theorem map_mark_flatten (desk : Desk ι) (f : ι → List κ) :
    (desk.flatten f).blocks.map Sheet.mark = desk.blocks.map Sheet.mark :=
  (map_mark_onSheets (fun _ sheet => sheet.flatten f) (fun _ _ => rfl) desk.blocks).trans
    (List.map_id _)

/-- Sheets that were all paused get back the flags that they had. -/
theorem map_mark_restore {flags : List (String × Bool)} {marks : List Mark}
    {blocks : List (String × Sheet ι)} (hmarks : blocks.map Sheet.mark = marks.map Mark.pause)
    (hflags : ∀ mark ∈ marks, flags.lookup mark.name = some mark.paused) :
    (onSheets (Sheet.restore flags) blocks).map Sheet.mark = marks := by
  induction marks generalizing blocks with
  | nil =>
    rw [List.map_eq_nil_iff.1 hmarks]
    rfl
  | cons mark marks ih =>
    cases blocks with
    | nil => cases hmarks
    | cons block blocks =>
      obtain ⟨hhead, htail⟩ := List.cons.inj hmarks
      obtain ⟨hname, hkept, -⟩ := Mark.mk.inj hhead
      have hlookup : flags.lookup block.1 = some mark.paused := by
        rw [show block.1 = mark.name from hname]
        exact hflags mark List.mem_cons_self
      have hmark : Sheet.mark (block.1, Sheet.restore flags block.1 block.2) = mark := by
        unfold Sheet.restore
        rw [hlookup]
        show Mark.mk block.1 block.2.kept mark.paused = mark
        rw [show block.1 = mark.name from hname, show block.2.kept = mark.kept from hkept]
      exact congrArg₂ List.cons hmark (ih htail fun m hm => hflags m (List.mem_cons_of_mem _ hm))

theorem lookup_flag {marks : List Mark} (hnodup : (marks.map Mark.name).Nodup) {mark : Mark}
    (hmem : mark ∈ marks) (more : List (String × Bool)) :
    (marks.map Mark.flag ++ more).lookup mark.name = some mark.paused := by
  induction marks with
  | nil => cases hmem
  | cons top marks ih =>
    rw [List.map_cons, List.nodup_cons] at hnodup
    rw [List.map_cons, List.cons_append, Mark.flag, List.lookup_cons]
    rcases List.mem_cons.1 hmem with rfl | hmem
    · rw [beq_self_eq_true]
    · have hne : mark.name ≠ top.name := fun heq => hnodup.1 (heq ▸ List.mem_map_of_mem hmem)
      rw [beq_false_of_ne hne]
      exact ih hnodup.2 hmem

/-! ## Acts -/

theorem exists_ends_openBlock (desk : Desk ι) (name : String) :
    ∃ saved, (desk.openBlock name).ends = (name, saved) :: desk.ends := by
  have hends : (desk.shut name).ends = desk.ends := by
    unfold Desk.shut
    split <;> rfl
  unfold Desk.openBlock
  dsimp only
  split
  · exact ⟨none, by rw [hends]⟩
  · exact ⟨some _, congrArg _ hends⟩

namespace Nested

/-- The open blocks are those that have not ended. -/
theorem names (h : desk.Nested) : desk.names = (desk.ends.map (·.1)).reverse := by
  rw [← map_name_marksOf, ← List.map_reverse, ← h.marks, map_name_mark]
  rfl

theorem of_nil (hblocks : desk.blocks = []) (hends : desk.ends = []) : desk.Nested where
  marks := by
    rw [hblocks, hends]
    rfl
  saves := by
    rw [hends]
    trivial

theorem put (h : desk.Nested) (items : List ι) : (desk.put items).Nested where
  marks := (map_mark_put desk items).trans h.marks
  saves := h.saves

theorem silence (h : desk.Nested) : desk.silence.Nested :=
  { h with }

/-- **Opening** a block that is not open. -/
theorem openBlock (h : desk.Nested) (hnot : name ∉ desk.names) : (desk.openBlock name).Nested := by
  cases hstore : desk.store name with
  | none =>
    rw [openBlock_new hnot hstore]
    refine ⟨?_, h.saves⟩
    have hends : (marksOf ((name, none) :: desk.ends)).reverse =
        (marksOf desk.ends).reverse ++ [⟨name, false, false⟩] := List.reverse_cons
    rw [hends, List.map_append, h.marks]
    rfl
  | some stored =>
    rw [openBlock_stored hnot hstore]
    have hhush : (desk.put stored).hush.blocks.map Sheet.mark =
        ((marksOf desk.ends).map Mark.pause).reverse := by
      rw [map_mark_hush, map_mark_put, h.marks, List.map_reverse]
    constructor
    · show ((desk.put stored).hush.blocks ++ [_]).map Sheet.mark =
        (_ :: (marksOf desk.ends).map Mark.pause).reverse
      rw [List.map_append, hhush, List.reverse_cons]
      rfl
    · refine ⟨?_, h.saves⟩
      show desk.flags.others ++ _ = _
      rw [← map_flag_mark, h.marks, List.map_reverse]

/-- The sheet of the innermost block is the last one. -/
theorem blocks_eq (h : desk.Nested) {saved : Option PauseState}
    {ends : List (String × Option PauseState)} (hends : desk.ends = (name, saved) :: ends) :
    ∃ blocks sheet, desk.blocks = blocks ++ [(name, sheet)] ∧ sheet.kept = saved.isSome ∧
      blocks.map Sheet.mark =
        ((marksOf ends).map (if saved.isSome then Mark.pause else id)).reverse := by
  have hmarks := h.marks
  rw [hends] at hmarks
  have hsplit : ∃ top : Mark, top.name = name ∧ top.kept = saved.isSome ∧
      (marksOf ((name, saved) :: ends)).reverse =
        ((marksOf ends).map (if saved.isSome then Mark.pause else id)).reverse ++ [top] := by
    cases saved with
    | none =>
      refine ⟨⟨name, false, false⟩, rfl, rfl, ?_⟩
      rw [if_neg (by simp), List.map_id]
      exact List.reverse_cons
    | some flags => exact ⟨⟨name, true, true⟩, rfl, rfl, List.reverse_cons⟩
  obtain ⟨top, hname, hkept, hsplit⟩ := hsplit
  rw [hsplit] at hmarks
  obtain ⟨blocks, last, hblocks, hfront, hlast⟩ := List.map_eq_append_iff.1 hmarks
  obtain ⟨⟨other, sheet⟩, more, rfl, hmark, hmore⟩ := List.map_eq_cons_iff.1 hlast
  obtain rfl := List.map_eq_nil_iff.1 hmore
  obtain rfl : other = name := (congrArg Mark.name hmark).trans hname
  exact ⟨blocks, sheet, hblocks, (congrArg Mark.kept hmark).trans hkept, hfront⟩

theorem not_mem_of_last (hnodup : desk.names.Nodup) {sheet : Sheet ι}
    {blocks : List (String × Sheet ι)} (hblocks : desk.blocks = blocks ++ [(name, sheet)]) :
    (blocks.map (·.1)).Nodup ∧ name ∉ blocks.map (·.1) := by
  have hnames : desk.names = blocks.map (·.1) ++ [name] := by
    unfold Desk.names
    rw [hblocks, List.map_append]
    rfl
  rw [hnames, List.nodup_append] at hnodup
  exact ⟨hnodup.1, fun hmem => hnodup.2.2 name hmem name List.mem_cons_self rfl⟩

/-- **Closing** the innermost block. -/
theorem closeBlock (h : desk.Nested) (hnodup : desk.names.Nodup) : desk.closeBlock.Nested := by
  unfold Desk.closeBlock
  split
  · exact h
  · next name saved ends hends =>
    obtain ⟨blocks, sheet, hblocks, -, hmarks⟩ := h.blocks_eq hends
    obtain ⟨hleft, hnot⟩ := not_mem_of_last hnodup hblocks
    have hsaves := h.saves
    rw [hends] at hsaves
    dsimp only
    rw [shut_last (show ({ desk with ends } : Desk ι).blocks = _ from hblocks) hnot]
    cases saved with
    | none =>
      refine ⟨?_, hsaves⟩
      rw [if_neg (by simp), List.map_id] at hmarks
      exact hmarks
    | some flags =>
      obtain ⟨hflags, hsaves⟩ := hsaves
      rw [if_pos (show (some flags).isSome = true from rfl), ← List.map_reverse] at hmarks
      refine ⟨map_mark_restore hmarks fun mark hmem => ?_, hsaves⟩
      rw [hflags, ← List.map_reverse]
      refine lookup_flag ?_ hmem _
      -- the names of the sheets that are left are those of the marks
      have hnames := congrArg (List.map Mark.name) hmarks
      rw [map_name_mark, List.map_map, show Mark.name ∘ Mark.pause = Mark.name from rfl] at hnames
      exact hnames ▸ hleft

/-- A block that was not stored before is stored when it is closed. -/
theorem exists_store_closeBlock (h : desk.Nested) (hnodup : desk.names.Nodup)
    {ends : List (String × Option PauseState)} (hends : desk.ends = (name, none) :: ends) :
    ∃ content, desk.closeBlock.store name = some content := by
  obtain ⟨blocks, sheet, hblocks, hkept, -⟩ := h.blocks_eq hends
  obtain ⟨-, hnot⟩ := not_mem_of_last hnodup hblocks
  unfold Desk.closeBlock
  rw [hends]
  dsimp only
  rw [shut_last (show ({ desk with ends } : Desk ι).blocks = _ from hblocks) hnot]
  refine ⟨sheet.content, ?_⟩
  dsimp only
  rw [keep, if_neg (by rw [hkept]; simp), Function.update_self]

/-- What the desk is made of does not matter. -/
theorem flatten_iff (f : ι → List κ) : (desk.flatten f).Nested ↔ desk.Nested := by
  have hmarks := map_mark_flatten desk f
  constructor
  · intro h
    exact ⟨hmarks ▸ h.marks, h.saves⟩
  · intro h
    exact ⟨hmarks.trans h.marks, h.saves⟩

end Nested

/-! ## The store -/

/-- No two open blocks have the same name, and a sheet is kept exactly if its block is stored. -/
structure Sound (desk : Desk ι) : Prop where
  nodup : desk.names.Nodup
  had : ∀ block ∈ desk.blocks, block.2.kept = (desk.store block.1).isSome

namespace Sound

theorem put (h : desk.Sound) (items : List ι) : (desk.put items).Sound where
  nodup := by
    rw [names_put]
    exact h.nodup
  had := by
    intro block hmem
    obtain ⟨old, hold, rfl⟩ := List.mem_map.1 hmem
    exact (Sheet.put_kept _ _).trans (h.had old hold)

theorem hush (h : desk.Sound) : desk.hush.Sound where
  nodup := by
    rw [names_hush]
    exact h.nodup
  had := by
    intro block hmem
    obtain ⟨old, hold, rfl⟩ := List.mem_map.1 hmem
    exact h.had old hold

theorem of_hush (h : desk.hush.Sound) : desk.Sound where
  nodup := by
    rw [← names_hush]
    exact h.nodup
  had := by
    intro block hmem
    have hhush : (block.1, block.2.setPaused true) ∈ desk.hush.blocks :=
      List.mem_map.2 ⟨block, hmem, rfl⟩
    exact h.had (block.1, block.2.setPaused true) hhush

theorem restore (h : desk.Sound) (flags : PauseState) : (desk.restore flags).Sound where
  nodup := by
    rw [names_restore]
    exact h.nodup
  had := by
    intro block hmem
    obtain ⟨old, hold, rfl⟩ := List.mem_map.1 hmem
    exact (Sheet.restore_kept _ _ _).trans (h.had old hold)

theorem ending (h : desk.Sound) (ends : List (String × Option PauseState)) :
    ({ desk with ends } : Desk ι).Sound :=
  ⟨h.nodup, h.had⟩

theorem shut (h : desk.Sound) (name : String) : (desk.shut name).Sound := by
  have hnames := names_shut desk name
  have hnodup : (desk.shut name).names.Nodup := by
    rw [hnames]
    exact h.nodup.erase _
  refine ⟨hnodup, fun block hmem => ?_⟩
  have hne : block.1 ≠ name := by
    rintro rfl
    have hin : block.1 ∈ (desk.shut block.1).names := List.mem_map_of_mem hmem
    rw [hnames] at hin
    exact h.nodup.not_mem_erase hin
  unfold Desk.shut at hmem ⊢
  split at hmem
  · exact h.had block hmem
  · dsimp only
    rw [keep_of_ne _ hne]
    exact h.had block (List.mem_of_mem_eraseP hmem)

/-- What is stored stays when a block is closed. -/
theorem store_shut (h : desk.Sound) {other : String} {content : List ι}
    (hstore : desk.store other = some content) : (desk.shut name).store other = some content := by
  unfold Desk.shut
  split
  · exact hstore
  · next sheet hlookup =>
    by_cases heq : other = name
    · subst heq
      have hkept := h.had _ (mem_of_lookup hlookup)
      rw [hstore] at hkept
      exact (congrFun (if_pos hkept) other).trans hstore
    · exact (keep_of_ne _ heq _).trans hstore

theorem openBlock (h : desk.Sound) (name : String) : (desk.openBlock name).Sound := by
  have hshut := h.shut name
  have hnot : name ∉ (desk.shut name).names := by
    rw [names_shut]
    exact h.nodup.not_mem_erase
  unfold Desk.openBlock
  dsimp only
  generalize desk.shut name = desk at *
  have hadd (sheet : Sheet ι) (hkept : sheet.kept = (desk.store name).isSome) :
      ({ desk with blocks := desk.blocks ++ [(name, sheet)] } : Desk ι).Sound := by
    constructor
    · show ((desk.blocks ++ [(name, sheet)]).map (·.1)).Nodup
      rw [List.map_append, List.map_singleton, ← List.concat_eq_append]
      exact hshut.nodup.concat hnot
    · intro block hmem
      rcases List.mem_append.1 hmem with hmem | hmem
      · exact hshut.had block hmem
      · rw [List.mem_singleton.1 hmem]
        exact hkept
  cases hstore : desk.store name with
  | none => exact (hadd {} (by rw [hstore]; rfl)).ending _
  | some stored => exact (((hadd { kept := true } (by rw [hstore]; rfl)).put stored).hush).ending _

theorem store_openBlock (h : desk.Sound) {other : String} {content : List ι}
    (hstore : desk.store other = some content) :
    (desk.openBlock name).store other = some content := by
  have hshut : (desk.shut name).store other = some content := h.store_shut hstore
  unfold Desk.openBlock
  dsimp only
  generalize desk.shut name = desk at *
  cases desk.store name <;> exact hshut

theorem closeBlock (h : desk.Sound) : desk.closeBlock.Sound := by
  unfold Desk.closeBlock
  split
  · exact h
  · next name saved ends _ =>
    have hshut := (h.ending ends).shut name
    cases saved with
    | none => exact hshut
    | some flags => exact hshut.restore flags

theorem store_closeBlock (h : desk.Sound) {other : String} {content : List ι}
    (hstore : desk.store other = some content) : desk.closeBlock.store other = some content := by
  unfold Desk.closeBlock
  split
  · exact hstore
  · next name saved ends _ =>
    have hshut : ({ desk with ends }.shut name : Desk ι).store other = some content :=
      (h.ending ends).store_shut hstore
    cases saved <;> exact hshut

/-- **The store only grows**: what is stored stays, whatever is done. -/
theorem act (h : desk.Sound) (a : Act ι) :
    (desk.act a).Sound ∧ ∀ name content, desk.store name = some content →
      (desk.act a).store name = some content := by
  cases a with
  | turn => exact ⟨⟨h.nodup, h.had⟩, fun _ _ hstore => hstore⟩
  | put items => exact ⟨h.put items, fun _ _ hstore => hstore⟩
  | openBlock name => exact ⟨h.openBlock name, fun _ _ hstore => h.store_openBlock hstore⟩
  | closeBlock => exact ⟨h.closeBlock, fun _ _ hstore => h.store_closeBlock hstore⟩
  | silence => exact ⟨⟨h.nodup, h.had⟩, fun _ _ hstore => hstore⟩
  | hush => exact ⟨h.hush, fun _ _ hstore => hstore⟩

theorem play (h : desk.Sound) (acts : List (Act ι)) :
    ∀ name content, desk.store name = some content →
      (desk.play acts).store name = some content := by
  induction acts generalizing desk with
  | nil => exact fun _ _ hstore => hstore
  | cons a acts ih =>
    intro name content hstore
    obtain ⟨hact, hkeeps⟩ := h.act a
    exact ih hact name content (hkeeps name content hstore)

end Sound

end Desk

end TemplateCompiler
