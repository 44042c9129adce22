import TemplateCompiler.Proofs.Desk.Basic
import TemplateCompiler.Proofs.Outcome

/-!
# What a desk is made of

Items come onto a desk only by being put there, so whatever all of them have in common, everything
on the sheets and in the store has (`Desk.MadeOf.play`).
-/
namespace TemplateCompiler

variable {ι : Type} {p : ι → Prop}

/-- Every item on the sheets of a desk and in its store has a property. -/
structure Desk.MadeOf (p : ι → Prop) (desk : Desk ι) : Prop where
  main : ∀ item ∈ desk.main.content, p item
  blocks : ∀ block ∈ desk.blocks, ∀ item ∈ block.2.content, p item
  store : ∀ name items, desk.store name = some items → ∀ item ∈ items, p item

/-- Every item that an act puts on a desk has a property. -/
def Desk.Act.Puts (p : ι → Prop) : Desk.Act ι → Prop
  | put items => ∀ item ∈ items, p item
  | _ => True

theorem Sheet.mem_put {sheet : Sheet ι} {items : List ι} {item : ι}
    (h : item ∈ (sheet.put items).content) : item ∈ sheet.content ∨ item ∈ items := by
  unfold put at h
  split at h
  · exact .inl h
  · exact List.mem_append.1 h

theorem Sheet.content_restore (flags : List (String × Bool)) (name : String) (sheet : Sheet ι) :
    (sheet.restore flags name).content = sheet.content := by
  unfold restore
  split <;> rfl

namespace Desk

variable {desk : Desk ι}

theorem mem_onSheets (change : String → Sheet ι → Sheet ι) {blocks : List (String × Sheet ι)}
    {block : String × Sheet ι} (h : block ∈ onSheets change blocks) :
    ∃ sheet, (block.1, sheet) ∈ blocks ∧ block.2 = change block.1 sheet := by
  obtain ⟨⟨name, sheet⟩, hmem, rfl⟩ := List.mem_map.1 h
  exact ⟨sheet, hmem, rfl⟩

namespace MadeOf

theorem put (h : desk.MadeOf p) {items : List ι} (hitems : ∀ item ∈ items, p item) :
    (desk.put items).MadeOf p where
  main item hmem := by
    rcases Sheet.mem_put hmem with hmem | hmem
    · exact h.main item hmem
    · exact hitems item hmem
  blocks block hblock item hmem := by
    obtain ⟨sheet, hsheet, heq⟩ := mem_onSheets (fun _ sheet => sheet.put items) hblock
    rw [heq] at hmem
    rcases Sheet.mem_put hmem with hmem | hmem
    · exact h.blocks _ hsheet item hmem
    · exact hitems item hmem
  store := h.store

theorem hush (h : desk.MadeOf p) : desk.hush.MadeOf p where
  main := h.main
  blocks block hblock item hmem := by
    obtain ⟨sheet, hsheet, heq⟩ := mem_onSheets (fun _ sheet => sheet.setPaused true) hblock
    rw [heq] at hmem
    exact h.blocks _ hsheet item hmem
  store := h.store

theorem restore (h : desk.MadeOf p) (flags : PauseState) : (desk.restore flags).MadeOf p where
  main := h.main
  blocks block hblock item hmem := by
    obtain ⟨sheet, hsheet, heq⟩ := mem_onSheets (Sheet.restore flags.others) hblock
    rw [heq, Sheet.content_restore] at hmem
    exact h.blocks _ hsheet item hmem
  store := h.store

theorem shut (h : desk.MadeOf p) (name : String) : (desk.shut name).MadeOf p := by
  unfold Desk.shut
  split
  · exact h
  · next sheet hlookup =>
    refine ⟨h.main, fun block hblock => h.blocks block (List.mem_of_mem_eraseP hblock), ?_⟩
    intro other items hitems
    change keep desk.store name sheet other = some items at hitems
    by_cases hne : other = name
    · subst hne
      unfold keep at hitems
      split at hitems
      · exact h.store _ _ hitems
      · rw [Function.update_self] at hitems
        obtain rfl := Option.some.inj hitems
        exact h.blocks (other, sheet) (mem_of_lookup hlookup)
    · rw [keep_of_ne _ hne] at hitems
      exact h.store _ _ hitems

theorem openSheet (h : desk.MadeOf p) (name : String) (sheet : Sheet ι) (hsheet : sheet.content = [])
    (ends : List (String × Option PauseState)) :
    MadeOf p { desk with blocks := desk.blocks ++ [(name, sheet)], ends } where
  main := h.main
  blocks block hblock item hmem := by
    rcases List.mem_append.1 hblock with hblock | hblock
    · exact h.blocks block hblock item hmem
    · obtain rfl := List.mem_singleton.1 hblock
      rw [hsheet] at hmem
      cases hmem
  store := h.store

theorem openBlock (h : desk.MadeOf p) (name : String) : (desk.openBlock name).MadeOf p := by
  unfold Desk.openBlock
  have hshut := h.shut name
  dsimp only
  split
  · exact hshut.openSheet name {} rfl _
  · next stored hstored =>
    have hput := (hshut.openSheet name { kept := true } rfl (desk.shut name).ends).put
      (hshut.store name stored hstored)
    exact { hput.hush with }

theorem closeBlock (h : desk.MadeOf p) : desk.closeBlock.MadeOf p := by
  unfold Desk.closeBlock
  split
  · exact h
  · next name saved ends _ =>
    have hends : MadeOf p { desk with ends } := { h with }
    cases saved with
    | none => exact hends.shut name
    | some flags => exact (hends.shut name).restore flags

theorem act (h : desk.MadeOf p) {a : Act ι} (ha : a.Puts p) : (desk.act a).MadeOf p := by
  cases a with
  | turn => exact { h with }
  | put items => exact h.put ha
  | openBlock name => exact h.openBlock name
  | closeBlock => exact h.closeBlock
  | silence => exact { h with }
  | hush => exact h.hush

/-- **Nothing comes from nowhere**: a desk is made of what is put on it. -/
theorem play (h : desk.MadeOf p) {acts : List (Act ι)} (hacts : ∀ a ∈ acts, a.Puts p) :
    (desk.play acts).MadeOf p := by
  induction acts generalizing desk with
  | nil => exact h
  | cons a acts ih =>
    exact ih (h.act (hacts a List.mem_cons_self)) fun b hb => hacts b (List.mem_cons_of_mem _ hb)

end MadeOf

end Desk

end TemplateCompiler
