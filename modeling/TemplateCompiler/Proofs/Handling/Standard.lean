import TemplateCompiler.Proofs.Moment.Moves

/-!
# Kinds of standard handlers

The standard tags and filters are handled by a few actions too. If these are of some kind, besides
those by which directives are met, then so is everything that is done in a session whose library is
the standard one (`Action.Serves.meet_standard`).
-/
namespace TemplateCompiler

variable {σ : Type}

namespace Action

/-- The kind has the actions by which the standard tags are handled, and the handlers that open a block
and extend a template. -/
structure Serves (kind : ∀ α : Type, Action σ α → Prop) : Prop extends Meets kind where
  unfinished : kind PUnit (throw .unfinished)
  misuse : ∀ {α : Type} message, kind α (misuse message)
  push : ∀ tag data, kind PUnit (push tag data)
  pop : ∀ {α : Type} tag (view : FrameData → Option α), kind α (pop tag view)
  peek : ∀ {α : Type} tag (view : FrameData → Option α), kind α (peek tag view)
  replace : ∀ tag data, kind PUnit (replace tag data)
  setReading : ∀ reading, kind PUnit (Standard.setReading reading)
  pauseAll : kind PauseState pauseAll
  restore : ∀ state, kind PUnit (updateSession (·.restore state))
  removeDestination : ∀ name,
    kind PUnit (updateSession fun session => (session.removeDestination name).2)
  insertFile : ∀ requested, kind PUnit (ofSession (Session.insertFile requested))
  block : ∀ dispatch tag, kind PUnit (Standard.onBlock dispatch tag)
  extend : ∀ dispatch tag, kind PUnit (Standard.onExtends dispatch tag)

variable {kind : ∀ α : Type, Action σ α → Prop}

/-- The kind has what a tag does that expects a single name. -/
theorem Meets.singleName (h : Meets kind)
    (hmisuse : ∀ {α : Type} message, kind α (Action.misuse message)) (tag : Tag) :
    kind String (Standard.singleName tag) := by
  unfold Standard.singleName
  dsimp only
  split
  · split
    · exact h.pure _
    · exact hmisuse _
  · exact hmisuse _

/-- The kind has what a tag does that expects a quoted path. -/
theorem Meets.quotedPath (h : Meets kind)
    (hmisuse : ∀ {α : Type} message, kind α (Action.misuse message)) (tag : Tag) :
    kind String (Standard.quotedPath tag) := by
  unfold Standard.quotedPath
  split
  · split
    · exact h.pure _
    · exact hmisuse _
  · exact hmisuse _

/-- A kind that has the actions by which blocks are opened has the handler. -/
theorem Meets.onBlock (h : Meets kind)
    (hmisuse : ∀ {α : Type} message, kind α (Action.misuse message))
    (hsession : kind Session Action.session)
    (hadd : ∀ name, kind Bool (ofSession (Session.addDestination name true)))
    (hpath : ∀ (session : Session) name,
      kind Path (MonadExcept.ofExcept (session.artifactPath name true)))
    (hinsert : ∀ path, kind PUnit (ofSession (Session.insertArtifact path)))
    (hpause : kind PauseState Action.pauseAll) (hpush : ∀ tag data, kind PUnit (Action.push tag data))
    (dispatch : Dispatch σ) (tag : Tag) : kind PUnit (Standard.onBlock dispatch tag) := by
  unfold Standard.onBlock
  refine h.bind (h.singleName hmisuse tag) fun name => h.bind hsession fun session => ?_
  dsimp only
  generalize ArtifactCache.blockName session.id session.template name = destination
  refine h.bind (hadd destination) fun overridden => ?_
  split
  · exact h.bind (hpath session destination) fun path => h.bind (hinsert path) fun _ =>
      h.bind (h.bind hpause fun state => h.pure (some state)) fun _ => hpush _ _
  · exact h.bind (h.pure none) fun _ => hpush _ _

namespace Serves

open Standard

variable (h : Serves kind) (dispatch : Dispatch σ) (tag : Tag)
include h

/-! ## Tags -/

theorem emit (statement : Code.Statement) : kind PUnit (Action.emit statement) :=
  h.write _

theorem condition : kind Code.Condition (condition tag) := by
  unfold Standard.condition
  split
  · exact h.misuse _
  · exact h.pure _

theorem onIf : kind PUnit (onIf dispatch tag) :=
  h.bind (h.condition tag) fun _ => h.bind (h.emit _) fun _ => h.push _ _

theorem onElseIf : kind PUnit (onElseIf dispatch tag) :=
  h.bind (h.peek _ _) fun _ => h.bind (h.condition tag) fun _ => h.emit _

theorem onElse : kind PUnit (onElse dispatch tag) :=
  h.bind (h.peek _ _) fun _ => h.emit _

theorem onEndIf : kind PUnit (onEndIf dispatch tag) :=
  h.bind (h.pop _ _) fun _ => h.emit _

theorem onFor : kind PUnit (onFor dispatch tag) := by
  unfold Standard.onFor
  dsimp only
  split
  · split
    · exact h.bind (h.emit _) fun _ => h.push _ _
    · exact h.misuse _
  · exact h.misuse _

theorem onEmpty : kind PUnit (onEmpty dispatch tag) := by
  refine h.bind (h.peek _ _) fun hasNone => ?_
  split
  · exact h.misuse _
  · exact h.bind (h.replace _ _) fun _ => h.emit _

theorem onEndFor : kind PUnit (onEndFor dispatch tag) :=
  h.bind (h.pop _ _) fun _ => h.emit _

theorem onWith : kind PUnit (onWith dispatch tag) := by
  unfold Standard.onWith
  dsimp only
  split
  · split
    · exact h.bind (h.emit _) fun _ => h.push _ _
    · exact h.misuse _
  · exact h.misuse _

theorem onEndWith : kind PUnit (onEndWith dispatch tag) :=
  h.pop _ _

theorem onEndBlock : kind PUnit (onEndBlock dispatch tag) := by
  rw [onEndBlock_eq]
  refine h.bind (h.pop _ _) fun frame => ?_
  have hleave : kind PUnit (leaveBlock frame) := by
    refine h.bind (h.removeDestination _) fun _ => ?_
    cases frame.paused with
    | some state => exact h.restore state
    | none => exact h.pure _
  cases tag.params.head? with
  | none => exact hleave
  | some name =>
    dsimp only
    split
    · exact h.bind (h.misuse _) fun _ => hleave
    · exact hleave

theorem onInclude : kind PUnit (onInclude dispatch tag) := by
  unfold Standard.onInclude
  split
  · exact h.emit _
  · exact h.misuse _

theorem onInsert : kind PUnit (onInsert dispatch tag) :=
  h.bind (h.toMeets.quotedPath h.misuse tag) fun path => h.insertFile path

theorem onLiteral : kind PUnit (onLiteral dispatch tag) :=
  h.bind (h.setReading _) fun _ => h.push _ _

theorem onEndLiteral : kind PUnit (onEndLiteral dispatch tag) :=
  h.bind (h.pop _ _) fun _ => h.setReading _

theorem onComment : kind PUnit (onComment dispatch tag) :=
  h.bind h.pauseAll fun _ => h.bind (h.setReading _) fun _ => h.push _ _

theorem onEndComment : kind PUnit (onEndComment dispatch tag) :=
  h.bind (h.pop _ _) fun _ => h.bind (h.restore _) fun _ => h.setReading _

omit tag dispatch in
/-- Every standard tag is of the kind. -/
theorem tags : ∀ entry ∈ (tags : List (String × (Dispatch σ → TagHandler σ))),
    ∀ dispatch tag, kind PUnit (entry.2 dispatch tag) := by
  simp only [Standard.tags, List.forall_mem_cons]
  exact ⟨h.onIf, h.onElseIf, h.onElse, h.onEndIf, h.onFor, h.onEmpty, h.onEndFor, h.onWith,
    h.onEndWith, h.block, h.onEndBlock, h.extend, h.onInclude, h.onInsert, h.onLiteral,
    h.onEndLiteral, h.onComment, h.onEndComment, List.forall_mem_nil _⟩

/-! ## Filters -/

theorem plain (filtering : Code.Filtering) (call : FilterCall) (position : Nat) :
    kind PUnit (plain filtering dispatch call position) :=
  h.write _

theorem withArgument (filtering : Code.Expr → Code.Filtering) (call : FilterCall)
    (position : Nat) : kind PUnit (withArgument filtering dispatch call position) := by
  refine h.bind ?_ fun _ => h.write _
  unfold argument
  split
  · exact h.pure _
  · exact h.misuse _

theorem join (call : FilterCall) (position : Nat) : kind PUnit (join dispatch call position) :=
  h.write _

omit tag dispatch in
/-- Every standard filter is of the kind. -/
theorem filters : ∀ entry ∈ (filters : List (String × (Dispatch σ → FilterHandler σ))),
    ∀ dispatch call position, kind PUnit (entry.2 dispatch call position) := by
  simp only [Standard.filters, List.forall_mem_cons]
  exact ⟨fun d => h.plain d _, fun d => h.plain d _, fun d => h.plain d _, fun d => h.plain d _,
    fun d => h.plain d _, fun d => h.plain d _, fun d => h.withArgument d _, h.join,
    fun d => h.plain d _, fun d => h.plain d _, fun d => h.withArgument d _,
    fun d => h.withArgument d _, fun d => h.plain d _, fun d => h.plain d _, fun d => h.plain d _,
    fun d => h.withArgument d _, List.forall_mem_nil _⟩

omit tag dispatch in
/-- The handlers of the standard library are of the kind. -/
theorem handlersAre_standard : (Library.standard : Library σ).HandlersAre kind where
  tags entry hentry dispatch _ _ := h.tags entry hentry dispatch
  filters entry hentry dispatch _ _ := h.filters entry hentry dispatch

omit tag dispatch in
/-- **Meeting a directive** with the standard library is of the kind. -/
theorem meet_standard (depth : Nat) (before : Bytes) (d : Markup.Directive) (atEnd : Bool) :
    kind PUnit (meet ((Library.standard : Library σ).dispatch depth) before d atEnd) :=
  let hdispatch := h.handlersAre_standard.dispatch h.unfinished depth
  h.toMeets.meet hdispatch.1 hdispatch.2 before d atEnd

end Serves

end Action

end TemplateCompiler
