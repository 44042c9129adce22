import Mathlib.Data.List.Nodup
import Mathlib.Logic.Function.Basic
import TemplateCompiler.Destination

/-!
# The desk of a session

What a session does to its artifacts, with the disk left out: the main artifact and the blocks that
are open are sheets, and a block that is closed goes into the store, where a later block of its name
finds it. Sheets hold a list of items of any kind, so that the same desk can be looked at in bytes
or in the passages that they are made of (`flatten_play`).
-/
namespace TemplateCompiler

variable {ι κ : Type}

/-! ## Sheets -/

/-- One artifact being written. -/
structure Sheet (ι : Type) where
  /-- While set, what is written is dropped. -/
  paused : Bool := false
  /-- Whether the artifact was there already and is left as it was. -/
  kept : Bool := false
  content : List ι := []

namespace Sheet

/-- Writes items, unless the sheet is paused or kept. -/
def put (sheet : Sheet ι) (items : List ι) : Sheet ι :=
  if sheet.paused || sheet.kept then sheet else { sheet with content := sheet.content ++ items }

/-- Sets whether what is written is dropped. -/
def setPaused (sheet : Sheet ι) (paused : Bool) : Sheet ι :=
  { sheet with paused }

/-- Gives the sheet `name` the flag that `flags` has for it, if there is one. -/
def restore (flags : List (String × Bool)) (name : String) (sheet : Sheet ι) : Sheet ι :=
  match flags.lookup name with
  | some paused => sheet.setPaused paused
  | none => sheet

/-- The sheet with what its items are made of. -/
def flatten (f : ι → List κ) (sheet : Sheet ι) : Sheet κ :=
  ⟨sheet.paused, sheet.kept, sheet.content.flatMap f⟩

@[simp] theorem put_paused (sheet : Sheet ι) (items : List ι) :
    (sheet.put items).paused = sheet.paused := by
  unfold put
  split <;> rfl

@[simp] theorem put_kept (sheet : Sheet ι) (items : List ι) :
    (sheet.put items).kept = sheet.kept := by
  unfold put
  split <;> rfl

@[simp] theorem put_nil (sheet : Sheet ι) : sheet.put [] = sheet := by
  unfold put
  split <;> simp

theorem put_of_paused {sheet : Sheet ι} (h : sheet.paused = true) (items : List ι) :
    sheet.put items = sheet := by
  simp [put, h]

@[simp] theorem put_put (sheet : Sheet ι) (first second : List ι) :
    (sheet.put first).put second = sheet.put (first ++ second) := by
  unfold put
  by_cases h : (sheet.paused || sheet.kept) = true
  · rw [if_pos h, if_pos h, if_pos h]
  · rw [if_neg h, if_neg h, if_neg h, List.append_assoc]

@[simp] theorem restore_kept (flags : List (String × Bool)) (name : String)
    (sheet : Sheet ι) : (sheet.restore flags name).kept = sheet.kept := by
  unfold restore
  split <;> rfl

theorem flatten_put (f : ι → List κ) (sheet : Sheet ι) (items : List ι) :
    (sheet.put items).flatten f = (sheet.flatten f).put (items.flatMap f) := by
  by_cases h : (sheet.paused || sheet.kept) = true
  · simp [put, flatten, h]
  · simp [put, flatten, h]

theorem flatten_restore (f : ι → List κ) (flags : List (String × Bool)) (name : String)
    (sheet : Sheet ι) :
    (sheet.restore flags name).flatten f = (sheet.flatten f).restore flags name := by
  unfold restore
  split <;> rfl

end Sheet

/-! ## Desks -/

/-- The sheets of a session, and the blocks that were closed before. -/
structure Desk (ι : Type) where
  main : Sheet ι := {}
  /-- The blocks that are open, the one opened first at the front. -/
  blocks : List (String × Sheet ι) := []
  /-- What the closed blocks held. -/
  store : String → Option (List ι) := fun _ => none
  /-- The blocks of the current source that have not ended, the innermost first, with the flags to
  be restored at the end of a block whose body is dropped. -/
  ends : List (String × Option PauseState) := []

namespace Desk

/-- Changes the sheet of each block, given its name. -/
def onSheets (change : String → Sheet ι → Sheet κ) (blocks : List (String × Sheet ι)) :
    List (String × Sheet κ) :=
  blocks.map fun block => (block.1, change block.1 block.2)

/-- Writes items to every sheet. -/
def put (desk : Desk ι) (items : List ι) : Desk ι :=
  { desk with
    main := desk.main.put items
    blocks := onSheets (fun _ sheet => sheet.put items) desk.blocks }

/-- The pause flags of all sheets. -/
def flags (desk : Desk ι) : PauseState :=
  ⟨desk.main.paused, desk.blocks.map fun block => (block.1, block.2.paused)⟩

/-- Pauses every sheet. -/
def hush (desk : Desk ι) : Desk ι :=
  { desk with
    main := desk.main.setPaused true
    blocks := onSheets (fun _ sheet => sheet.setPaused true) desk.blocks }

/-- Puts flags back. A block that was opened since then keeps its own flag. -/
def restore (desk : Desk ι) (flags : PauseState) : Desk ι :=
  { desk with
    main := desk.main.setPaused flags.main
    blocks := onSheets (Sheet.restore flags.others) desk.blocks }

/-- What a closed sheet leaves in the store: a kept one was there before. -/
def keep (store : String → Option (List ι)) (name : String) (sheet : Sheet ι) :
    String → Option (List ι) :=
  if sheet.kept then store else Function.update store name (some sheet.content)

/-- Closes the block `name`, if it is open. -/
def shut (desk : Desk ι) (name : String) : Desk ι :=
  match desk.blocks.lookup name with
  | none => desk
  | some sheet =>
    { desk with
      blocks := desk.blocks.eraseP (·.1 == name)
      store := keep desk.store name sheet }

/-- Opens the block `name`. If the store has it, what is stored is written in its stead, and its
body is dropped. -/
def openBlock (desk : Desk ι) (name : String) : Desk ι :=
  let desk := desk.shut name
  match desk.store name with
  | none =>
    { desk with
      blocks := desk.blocks ++ [(name, {})]
      ends := (name, none) :: desk.ends }
  | some stored =>
    let kept : Desk ι := { desk with blocks := desk.blocks ++ [(name, { kept := true })] }
    let desk := kept.put stored
    { desk.hush with ends := (name, some desk.flags) :: desk.ends }

/-- Ends the innermost block. -/
def closeBlock (desk : Desk ι) : Desk ι :=
  match desk.ends with
  | [] => desk
  | (name, saved) :: ends =>
    let desk := { desk with ends }.shut name
    match saved with
    | none => desk
    | some flags => desk.restore flags

/-- Pauses the main sheet. -/
def silence (desk : Desk ι) : Desk ι :=
  { desk with main := desk.main.setPaused true }

/-- Lets the next source begin: the main sheet is written again, and no block of the source before
can end any more. -/
def turn (desk : Desk ι) : Desk ι :=
  { desk with main := desk.main.setPaused false, ends := [] }

/-! ## Acts -/

/-- What a source does to a desk. -/
inductive Act (ι : Type) where
  /-- A source begins. -/
  | turn
  | put (items : List ι)
  | openBlock (name : String)
  | closeBlock
  /-- The main sheet is paused. -/
  | silence
  /-- Every sheet is paused for good. -/
  | hush

/-- What an act does. -/
def act (desk : Desk ι) : Act ι → Desk ι
  | .turn => desk.turn
  | .put items => desk.put items
  | .openBlock name => desk.openBlock name
  | .closeBlock => desk.closeBlock
  | .silence => desk.silence
  | .hush => desk.hush

/-- What acts do, in order. -/
def play (desk : Desk ι) (acts : List (Act ι)) : Desk ι :=
  acts.foldl act desk

@[simp] theorem play_nil (desk : Desk ι) : desk.play [] = desk := rfl

@[simp] theorem play_cons (desk : Desk ι) (a : Act ι) (acts : List (Act ι)) :
    desk.play (a :: acts) = (desk.act a).play acts := rfl

theorem play_append (desk : Desk ι) (first second : List (Act ι)) :
    desk.play (first ++ second) = (desk.play first).play second :=
  List.foldl_append

/-! ## Sheets by name -/

variable {change : String → Sheet ι → Sheet κ} {blocks : List (String × Sheet ι)}

@[simp] theorem map_fst_onSheets : (onSheets change blocks).map (·.1) = blocks.map (·.1) := by
  simp [onSheets]

theorem onSheets_onSheets {μ : Type} (after : String → Sheet κ → Sheet μ) :
    onSheets after (onSheets change blocks) =
      onSheets (fun name sheet => after name (change name sheet)) blocks := by
  simp [onSheets]

theorem onSheets_eq_self {change : String → Sheet ι → Sheet ι}
    (h : ∀ block ∈ blocks, change block.1 block.2 = block.2) : onSheets change blocks = blocks := by
  refine (List.map_congr_left fun block hmem => ?_).trans (List.map_id _)
  rw [h block hmem]
  rfl

theorem lookup_onSheets (name : String) :
    (onSheets change blocks).lookup name = (blocks.lookup name).map (change name) := by
  induction blocks with
  | nil => rfl
  | cons block blocks ih =>
    obtain ⟨first, sheet⟩ := block
    show ((first, change first sheet) :: onSheets change blocks).lookup name = _
    by_cases h : name = first
    · subst h
      simp
    · rw [List.lookup_cons, List.lookup_cons, beq_false_of_ne h]
      exact ih

theorem eraseP_onSheets (name : String) :
    (onSheets change blocks).eraseP (·.1 == name) =
      onSheets change (blocks.eraseP (·.1 == name)) := by
  unfold onSheets
  rw [List.eraseP_map]
  rfl

theorem map_fst_eraseP (blocks : List (String × Sheet ι)) (name : String) :
    (blocks.eraseP (·.1 == name)).map (·.1) = (blocks.map (·.1)).erase name := by
  induction blocks with
  | nil => rfl
  | cons block blocks ih =>
    by_cases h : block.1 = name
    · simp [h]
    · simp [h, ih]

theorem keep_of_ne (store : String → Option (List ι)) {name other : String} (h : other ≠ name)
    (sheet : Sheet ι) : keep store name sheet other = store other := by
  unfold keep
  split
  · rfl
  · exact Function.update_of_ne h _ _

/-! ## Writing and pausing -/

@[simp] theorem put_nil (desk : Desk ι) : desk.put [] = desk := by
  simp [put, onSheets]

@[simp] theorem put_put (desk : Desk ι) (first second : List ι) :
    (desk.put first).put second = desk.put (first ++ second) := by
  simp [put, onSheets_onSheets]

@[simp] theorem put_hush (desk : Desk ι) (items : List ι) : desk.hush.put items = desk.hush := by
  have h (sheet : Sheet ι) : (sheet.setPaused true).put items = sheet.setPaused true :=
    Sheet.put_of_paused rfl items
  simp [put, hush, onSheets_onSheets, h]

@[simp] theorem flags_put (desk : Desk ι) (items : List ι) : (desk.put items).flags = desk.flags := by
  simp [put, flags, onSheets]

/-- The names of the blocks that are open. -/
def names (desk : Desk ι) : List String :=
  desk.blocks.map (·.1)

@[simp] theorem names_put (desk : Desk ι) (items : List ι) : (desk.put items).names = desk.names := by
  simp [put, names]

@[simp] theorem names_hush (desk : Desk ι) : desk.hush.names = desk.names := by
  simp [hush, names]

@[simp] theorem names_restore (desk : Desk ι) (flags : PauseState) :
    (desk.restore flags).names = desk.names := by
  simp [restore, names]

theorem names_shut (desk : Desk ι) (name : String) :
    (desk.shut name).names = desk.names.erase name := by
  have hlookup : desk.blocks.lookup name = none → name ∉ desk.names := by
    unfold names
    generalize desk.blocks = blocks
    induction blocks with
    | nil => simp
    | cons block blocks ih =>
      rw [List.lookup_cons]
      by_cases h : name = block.1
      · simp [h]
      · rw [beq_false_of_ne h, List.map_cons, List.mem_cons]
        exact fun hnone => not_or.2 ⟨h, ih hnone⟩
  unfold shut
  cases hopen : desk.blocks.lookup name with
  | none => exact (List.erase_of_not_mem (hlookup hopen)).symm
  | some sheet => exact map_fst_eraseP _ _

theorem lookup_flags (hnodup : (blocks.map (·.1)).Nodup) {block : String × Sheet ι}
    (h : block ∈ blocks) :
    (blocks.map fun block => (block.1, block.2.paused)).lookup block.1 = some block.2.paused := by
  induction blocks with
  | nil => cases h
  | cons top blocks ih =>
    rw [List.map_cons, List.nodup_cons] at hnodup
    rw [List.map_cons, List.lookup_cons]
    rcases List.mem_cons.1 h with rfl | h
    · simp
    · have hne : block.1 ≠ top.1 := fun heq =>
        hnodup.1 (heq ▸ List.mem_map_of_mem h)
      rw [beq_false_of_ne hne]
      exact ih hnodup.2 h

/-- **Pausing undone**: the flags that were saved before every sheet was paused bring the desk
back. -/
theorem restore_hush {desk : Desk ι} (hnodup : desk.names.Nodup) :
    desk.hush.restore desk.flags = desk := by
  have hblocks : onSheets (Sheet.restore desk.flags.others)
      (onSheets (fun _ sheet => sheet.setPaused true) desk.blocks) = desk.blocks := by
    rw [onSheets_onSheets]
    refine onSheets_eq_self fun block hmem => ?_
    unfold Sheet.restore
    rw [show desk.flags.others.lookup block.1 = some block.2.paused from lookup_flags hnodup hmem]
    rfl
  show Desk.mk _ _ _ _ = desk
  rw [show desk.hush.blocks = onSheets (fun _ sheet => sheet.setPaused true) desk.blocks from rfl,
    hblocks]
  rfl

/-! ## Looking at what items are made of -/

/-- The desk with what its items are made of. -/
def flatten (f : ι → List κ) (desk : Desk ι) : Desk κ where
  main := desk.main.flatten f
  blocks := onSheets (fun _ sheet => sheet.flatten f) desk.blocks
  store name := (desk.store name).map (·.flatMap f)
  ends := desk.ends

/-- The act with what its items are made of. -/
def Act.flatten (f : ι → List κ) : Act ι → Act κ
  | turn => .turn
  | put items => .put (items.flatMap f)
  | openBlock name => .openBlock name
  | closeBlock => .closeBlock
  | silence => .silence
  | hush => .hush

variable (f : ι → List κ)

theorem flatten_put (desk : Desk ι) (items : List ι) :
    (desk.put items).flatten f = (desk.flatten f).put (items.flatMap f) := by
  simp [put, flatten, onSheets_onSheets, Sheet.flatten_put]

theorem flatten_hush (desk : Desk ι) : desk.hush.flatten f = (desk.flatten f).hush := by
  simp [hush, flatten, onSheets_onSheets, Sheet.flatten, Sheet.setPaused]

theorem flags_flatten (desk : Desk ι) : (desk.flatten f).flags = desk.flags := by
  simp [flags, flatten, onSheets, Sheet.flatten]

theorem flatten_restore (desk : Desk ι) (flags : PauseState) :
    (desk.restore flags).flatten f = (desk.flatten f).restore flags := by
  simp only [restore, flatten, onSheets_onSheets, Sheet.flatten_restore]
  rfl

theorem flatten_keep (store : String → Option (List ι)) (name : String) (sheet : Sheet ι) :
    (fun other => (keep store name sheet other).map (·.flatMap f)) =
      keep (fun other => (store other).map (·.flatMap f)) name (sheet.flatten f) := by
  unfold keep
  by_cases h : sheet.kept = true
  · simp [h, Sheet.flatten]
  · funext other
    by_cases heq : other = name
    · subst heq
      simp [h, Sheet.flatten]
    · simp [h, Sheet.flatten, Function.update_of_ne heq]

theorem flatten_shut (desk : Desk ι) (name : String) :
    (desk.shut name).flatten f = (desk.flatten f).shut name := by
  unfold shut
  have hlookup : (desk.flatten f).blocks.lookup name =
      (desk.blocks.lookup name).map (·.flatten f) := by
    simp only [flatten, lookup_onSheets]
  rw [hlookup]
  cases desk.blocks.lookup name with
  | none => rfl
  | some sheet =>
    simp only [flatten, Option.map_some, eraseP_onSheets, mk.injEq, true_and, and_true]
    exact flatten_keep f _ _ _

theorem flatten_openBlock (desk : Desk ι) (name : String) :
    (desk.openBlock name).flatten f = (desk.flatten f).openBlock name := by
  unfold openBlock
  simp only [← flatten_shut]
  generalize desk.shut name = desk
  rw [show (desk.flatten f).store name = (desk.store name).map (·.flatMap f) from rfl]
  cases desk.store name with
  | none => simp [flatten, onSheets, Sheet.flatten]
  | some stored =>
    have hkept : Desk.flatten f { desk with blocks := desk.blocks ++ [(name, { kept := true })] } =
        { desk.flatten f with
          blocks := (desk.flatten f).blocks ++ [(name, { kept := true })] } := by
      simp [flatten, onSheets, Sheet.flatten]
    simp only [Option.map_some, ← hkept, ← flatten_put, ← flatten_hush, flags_flatten]
    rfl

theorem flatten_closeBlock (desk : Desk ι) :
    desk.closeBlock.flatten f = (desk.flatten f).closeBlock := by
  unfold closeBlock
  rw [show (desk.flatten f).ends = desk.ends from rfl]
  split
  · rfl
  · next name saved ends _ =>
    have hends : { desk.flatten f with ends } = Desk.flatten f { desk with ends } := rfl
    cases saved with
    | none => simp only [hends, flatten_shut]
    | some flags => simp only [hends, ← flatten_shut, flatten_restore]

theorem flatten_act (desk : Desk ι) (a : Act ι) :
    (desk.act a).flatten f = (desk.flatten f).act (a.flatten f) := by
  cases a with
  | turn => rfl
  | put items => exact flatten_put f desk items
  | openBlock name => exact flatten_openBlock f desk name
  | closeBlock => exact flatten_closeBlock f desk
  | silence => rfl
  | hush => exact flatten_hush f desk

/-- What acts do to items, they do to what the items are made of. -/
theorem flatten_play (desk : Desk ι) (acts : List (Act ι)) :
    (desk.play acts).flatten f = (desk.flatten f).play (acts.map (Act.flatten f)) := by
  induction acts generalizing desk with
  | nil => rfl
  | cons a acts ih => rw [play_cons, ih, flatten_act, List.map_cons, play_cons]

end Desk

end TemplateCompiler
