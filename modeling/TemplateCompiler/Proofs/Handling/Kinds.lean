import TemplateCompiler.Drain
import TemplateCompiler.Proofs.Outcome

/-!
# Kinds of actions

What is done about a directive is put together from a few actions and from the handlers that it calls.
If those actions are of some kind, and the handlers are, then so is all of it (`Action.Composes`).
-/
namespace TemplateCompiler

variable {σ : Type}

/-- The handlers of tags are of the kind. -/
def Dispatch.TagsAre (kind : ∀ α : Type, Action σ α → Prop) (dispatch : Dispatch σ) : Prop :=
  ∀ name handler, dispatch.tag? name = some handler → ∀ tag, kind PUnit (handler tag)

/-- The handlers of filters are of the kind. -/
def Dispatch.FiltersAre (kind : ∀ α : Type, Action σ α → Prop) (dispatch : Dispatch σ) : Prop :=
  ∀ name handler, dispatch.filter? name = some handler →
    ∀ call position, kind PUnit (handler call position)

/-! ## Libraries -/

namespace Library

variable {library : Library σ} {depth : Nat} {name : String}

/-- A handler that is dispatched to is one of the library's, unless it is too deep to be called. -/
theorem tag?_dispatch {handler : TagHandler σ}
    (h : (library.dispatch depth).tag? name = some handler) :
    depth = 0 ∧ handler = (fun _ => throw .unfinished) ∨
      ∃ make deeper, depth = deeper + 1 ∧ (name, make) ∈ library.tags ∧
        handler = make (library.dispatch deeper) := by
  cases depth with
  | zero =>
    obtain ⟨_, -, rfl⟩ := Option.map_eq_some_iff.1 h
    exact .inl ⟨rfl, rfl⟩
  | succ depth =>
    obtain ⟨make, hmake, rfl⟩ := Option.map_eq_some_iff.1 h
    exact .inr ⟨make, depth, rfl, mem_of_lookup hmake, rfl⟩

theorem filter?_dispatch {handler : FilterHandler σ}
    (h : (library.dispatch depth).filter? name = some handler) :
    depth = 0 ∧ handler = (fun _ _ => throw .unfinished) ∨
      ∃ make deeper, depth = deeper + 1 ∧ (name, make) ∈ library.filters ∧
        handler = make (library.dispatch deeper) := by
  cases depth with
  | zero =>
    obtain ⟨_, -, rfl⟩ := Option.map_eq_some_iff.1 h
    exact .inl ⟨rfl, rfl⟩
  | succ depth =>
    obtain ⟨make, hmake, rfl⟩ := Option.map_eq_some_iff.1 h
    exact .inr ⟨make, depth, rfl, mem_of_lookup hmake, rfl⟩

/-- Every handler is of the kind, as long as those are that it calls. -/
structure HandlersAre (kind : ∀ α : Type, Action σ α → Prop) (library : Library σ) : Prop where
  tags : ∀ entry ∈ library.tags, ∀ dispatch : Dispatch σ, dispatch.TagsAre kind →
    dispatch.FiltersAre kind → ∀ tag, kind PUnit (entry.2 dispatch tag)
  filters : ∀ entry ∈ library.filters, ∀ dispatch : Dispatch σ, dispatch.TagsAre kind →
    dispatch.FiltersAre kind → ∀ call position, kind PUnit (entry.2 dispatch call position)

/-- **Dispatching** is of the kind, however deep handlers nest. -/
theorem HandlersAre.dispatch {kind : ∀ α : Type, Action σ α → Prop} (h : library.HandlersAre kind)
    (hthrow : kind PUnit (throw .unfinished)) (depth : Nat) :
    (library.dispatch depth).TagsAre kind ∧ (library.dispatch depth).FiltersAre kind := by
  induction depth with
  | zero =>
    constructor
    · intro name handler hhandler tag
      obtain ⟨_, -, rfl⟩ := Option.map_eq_some_iff.1 hhandler
      exact hthrow
    · intro name handler hhandler call position
      obtain ⟨_, -, rfl⟩ := Option.map_eq_some_iff.1 hhandler
      exact hthrow
  | succ depth ih =>
    constructor
    · intro name handler hhandler tag
      obtain ⟨make, hmake, rfl⟩ := Option.map_eq_some_iff.1 hhandler
      exact h.tags _ (mem_of_lookup hmake) _ ih.1 ih.2 tag
    · intro name handler hhandler call position
      obtain ⟨make, hmake, rfl⟩ := Option.map_eq_some_iff.1 hhandler
      exact h.filters _ (mem_of_lookup hmake) _ ih.1 ih.2 call position

end Library

/-! ## Variables, tags and directives -/

namespace Action

/-- The kind has the actions by which variables and tags are written. -/
structure Composes (kind : ∀ α : Type, Action σ α → Prop) : Prop where
  pure : ∀ {α : Type} (a : α), kind α (pure a)
  bind : ∀ {α β : Type} {action : Action σ α} {f : α → Action σ β}, kind α action →
    (∀ a, kind β (f a)) → kind β (action >>= f)
  unknownTag : ∀ {α : Type} name, kind α (do throw (.unknownTag name (← location)))
  unknownFilter : ∀ {α : Type} name, kind α (do throw (.unknownFilter name (← location)))
  write : ∀ text, kind PUnit (write text)
  nextSlot : kind Nat nextSlot
  readVariable : ∀ text escape, kind Variable (reading fun scene => Variable.read scene text escape)

/-- The kind has the actions by which directives are met. -/
structure Meets (kind : ∀ α : Type, Action σ α → Prop) : Prop extends Composes kind where
  readTag : ∀ name text, kind Tag (reading fun scene => Tag.read scene name text)
  mark : ∀ f : Source → Source, (∀ source, ∃ currentTag tagsSeen atEnd,
    f source = { source with currentTag, tagsSeen, atEnd }) → kind PUnit (updateSource f)
  warn : ∀ message, kind PUnit (warn message)
  pass : ∀ text : Bytes, kind PUnit (updateSession (·.write text))

variable {kind : ∀ α : Type, Action σ α → Prop} {dispatch : Dispatch σ}

namespace Composes

variable (h : Composes kind) (hfilters : dispatch.FiltersAre kind)
include h hfilters

theorem applyFilters (position : Nat) (calls : List FilterCall) :
    kind PUnit (Variable.applyFilters dispatch position calls) := by
  induction calls generalizing position with
  | nil => exact h.pure _
  | cons call rest ih =>
    unfold Variable.applyFilters
    dsimp only
    split
    · have hunknown := h.bind (h.unknownFilter call.name) fun _ : PUnit => ih (position + 1)
      rwa [bind_assoc] at hunknown
    · next handler hhandler =>
      exact h.bind (hfilters _ _ hhandler _ _) fun _ => ih (position + 1)

theorem prepareVariable (v : Variable) : kind PUnit (v.prepare dispatch) :=
  h.bind (h.write _) fun _ => h.bind (h.applyFilters hfilters 1 v.filters) fun _ => h.write _

theorem writeVariable (v : Variable) : kind PUnit (v.write dispatch) := by
  unfold Variable.write
  split
  · exact h.bind (h.prepareVariable hfilters v) fun _ => h.write _
  · exact h.write _

theorem fillSlots (params : List Variable) : kind _ (Tag.fillSlots dispatch params) := by
  induction params with
  | nil => exact h.pure _
  | cons param rest ih =>
    have hmore (param : Variable) : kind (List Variable) (do
        let more ← Tag.fillSlots dispatch rest
        Pure.pure (param :: more)) := h.bind ih fun _ => h.pure _
    unfold Tag.fillSlots
    dsimp only
    split
    · have hslot : kind Variable (Tag.fillSlot dispatch param) :=
        h.bind (h.prepareVariable hfilters param) fun _ => h.bind h.nextSlot fun _ =>
          h.bind (h.write _) fun _ => h.readVariable _ _
      exact h.bind hslot hmore
    · exact h.bind (h.pure param) hmore

theorem writeTag (htags : dispatch.TagsAre kind) (tag : Tag) : kind PUnit (tag.write dispatch) := by
  unfold Tag.write
  split
  · exact h.unknownTag _
  · next handler hhandler =>
    exact h.bind (h.fillSlots hfilters tag.params) fun _ => htags _ _ hhandler _

end Composes

namespace Meets

variable (h : Meets kind) (htags : dispatch.TagsAre kind) (hfilters : dispatch.FiltersAre kind)
include h htags hfilters

theorem handle (d : Markup.Directive) : kind PUnit (handle dispatch d) := by
  unfold TemplateCompiler.handle
  split
  · exact h.bind (h.mark _ fun source => ⟨_, _, source.atEnd, rfl⟩) fun _ =>
      h.bind (h.readTag _ _) fun tag => h.toComposes.writeTag hfilters htags tag
  · exact h.bind (h.mark _ fun source => ⟨_, source.tagsSeen, source.atEnd, rfl⟩) fun _ =>
      h.bind (h.readVariable _ _) fun v => h.toComposes.writeVariable hfilters v

/-- **Meeting a directive** is of the kind. -/
theorem meet (before : Bytes) (d : Markup.Directive) (atEnd : Bool) :
    kind PUnit (meet dispatch before d atEnd) := by
  have hwrite : kind PUnit (do
      updateSession (·.write before)
      updateSource fun source => { source with atEnd }
      TemplateCompiler.handle dispatch d) :=
    h.bind (h.pass before) fun _ =>
      h.bind (h.mark _ fun source => ⟨source.currentTag, source.tagsSeen, _, rfl⟩) fun _ =>
        h.handle htags hfilters d
  unfold TemplateCompiler.meet
  dsimp only
  split
  · exact h.bind (h.warn _) fun _ => hwrite
  · exact hwrite

end Meets

end Action

end TemplateCompiler
