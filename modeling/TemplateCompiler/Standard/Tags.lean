import TemplateCompiler.Library

/-!
# The standard tags

Control structure (`if`, `for`, `with`), blocks and inheritance (`block`, `extends`), other
templates (`include`, `insert`) and text that is not read (`literal`, `comment`). An opening tag
leaves a frame in the hierarchy for its branches and its closing tag.
-/
namespace TemplateCompiler.Standard

variable {σ : Type}

/-! ### What frames hold -/

/-- The frame of a tag that remembers nothing. -/
def asNothing : FrameData → Option PUnit
  | .nothing => some ⟨⟩
  | _ => none

/-- The frame of a loop: whether it has had a branch for the empty list. -/
def asLoop : FrameData → Option Bool
  | .loop hasNone => some hasNone
  | _ => none

/-- What a block remembers. -/
structure BlockFrame where
  name : String
  destination : String
  paused : Option PauseState

/-- The frame of a block. -/
def asBlock : FrameData → Option BlockFrame
  | .block name destination paused => some ⟨name, destination, paused⟩
  | _ => none

/-- The frame of a comment: the pause flags before it. -/
def asPauses : FrameData → Option PauseState
  | .pauses state => some state
  | _ => none

/-! ### Parameters -/

/-- One word of a condition; `and`, `or` and `not` are spelled the runtime's way. -/
def term (param : Variable) : Code.Term :=
  if param.raw = "and" then .conjunction
  else if param.raw = "or" then .disjunction
  else if param.raw = "not" then .negation
  else .value param.expr

/-- The parameters as a condition. -/
def condition (tag : Tag) : Action σ Code.Condition :=
  if tag.params.isEmpty then Action.misuse (tag.name ++ " tag requires a condition")
  else pure (tag.params.map term)

/-- The only parameter, which must be a name. -/
def singleName (tag : Tag) : Action σ String :=
  let refusal := Action.misuse (tag.name ++ " tag expects a single name")
  match tag.params with
  | [name] => if Markup.isIdentifier name.raw then pure name.raw else refusal
  | _ => refusal

/-- The only parameter, which must be a quoted path. -/
def quotedPath (tag : Tag) : Action σ String :=
  match tag.params with
  | [path] =>
    match path.unquoted? with
    | some text => pure text
    | none => Action.misuse (tag.name ++ " tag expects a quoted template path")
  | _ => Action.misuse (tag.name ++ " tag expects one template path")

/-! ### Conditions -/

/-- Opens a condition: what follows runs if it holds. -/
def onIf (_ : Dispatch σ) : TagHandler σ := fun tag => do
  let condition ← condition tag
  Action.emit (.ifThen condition)
  Action.push "if" .nothing

/-- What follows runs if no branch before did and the condition holds. -/
def onElseIf (_ : Dispatch σ) : TagHandler σ := fun tag => do
  Action.peek "if" asNothing
  let condition ← condition tag
  Action.emit (.elseIf condition)

/-- What follows runs if no branch before did. -/
def onElse (_ : Dispatch σ) : TagHandler σ := fun _ => do
  Action.peek "if" asNothing
  Action.emit .otherwise

/-- Closes a condition. -/
def onEndIf (_ : Dispatch σ) : TagHandler σ := fun _ => do
  Action.pop "if" asNothing
  Action.emit .endIf

/-! ### Loops -/

/-- Opens a loop over a list. -/
def onFor (_ : Dispatch σ) : TagHandler σ := fun tag =>
  let refusal := Action.misuse "for tag expects \x60item in list\x60"
  match tag.params with
  | [item, keyword, list] =>
    if keyword.raw = "in" ∧ Markup.isIdentifier item.raw then do
      Action.emit (.forEach list.expr (.var item.raw))
      Action.push "for" (.loop false)
    else refusal
  | _ => refusal

/-- What follows runs if the list is empty. A loop has at most one such branch. -/
def onEmpty (_ : Dispatch σ) : TagHandler σ := fun _ => do
  let hasNone ← Action.peek "for" asLoop
  if hasNone then Action.misuse "for tag may only have one empty branch"
  else
    Action.replace "for" (.loop true)
    Action.emit .forNone

/-- Closes a loop. -/
def onEndFor (_ : Dispatch σ) : TagHandler σ := fun _ => do
  let hasNone ← Action.pop "for" asLoop
  Action.emit (.endFor hasNone)

/-! ### Names for values -/

/-- Gives a value a name. -/
def onWith (_ : Dispatch σ) : TagHandler σ := fun tag =>
  let refusal := Action.misuse "with tag expects \x60value as name\x60"
  match tag.params with
  | [value, keyword, name] =>
    if keyword.raw = "as" ∧ Markup.isIdentifier name.raw then do
      Action.emit (.assign (.var name.raw) value.expr)
      Action.push "with" .nothing
    else refusal
  | _ => refusal

/-- Closes a `with`; the name keeps its value. -/
def onEndWith (_ : Dispatch σ) : TagHandler σ := fun _ =>
  Action.pop "with" asNothing

/-! ### Blocks and inheritance -/

/-- Opens a block. Its content also goes to a temporary artifact, so that the template that this
one extends finds it there. If the artifact is there already, a template further down the chain
has overridden the block: that content is used, and this one is dropped. -/
def onBlock (_ : Dispatch σ) : TagHandler σ := fun tag => do
  let name ← singleName tag
  let session ← Action.session
  let destination := ArtifactCache.blockName session.id session.template name
  let overridden ← Action.ofSession (Session.addDestination destination true)
  let paused ←
    if overridden then do
      let path ← MonadExcept.ofExcept (session.artifactPath destination true)
      Action.ofSession (Session.insertArtifact path)
      some <$> Action.pauseAll
    else pure none
  Action.push "block" (.block name destination paused)

/-- Closes a block, whose name may be repeated. -/
def onEndBlock (_ : Dispatch σ) : TagHandler σ := fun tag => do
  let frame ← Action.pop "block" asBlock
  match tag.params.head? with
  | some name =>
    if name.raw ≠ frame.name then
      Action.misuse ("endblock " ++ name.raw ++ " does not match block " ++ frame.name)
  | none => pure ⟨⟩
  Action.updateSession fun session => (session.removeDestination frame.destination).2
  match frame.paused with
  | some state => Action.updateSession (·.restore state)
  | none => pure ⟨⟩

/-- Whether `path` is that of a source or of one of those that extend it. Links lead to earlier
sources, so as many steps as there are sources reach every one. -/
def chainHas (catalog : List Origin) (path : Path) : Nat → Option SourceId → Bool
  | _, none => false
  | 0, some _ => false
  | steps + 1, some id =>
    match catalog[id]? with
    | none => false
    | some origin => origin.path.same path || chainHas catalog path steps origin.child

/-- Makes the current template extend another one, which is queued; from here on the main artifact
drops what this template writes. A template that extends its own name means the next one of that
name along the search path. -/
def onExtends (_ : Dispatch σ) : TagHandler σ := fun tag => do
  let parent := Text.trimSlashes (← quotedPath tag)
  let source ← Action.source
  if 1 < source.tagsSeen ∨ source.extended.isSome then
    Action.misuse "extends must be the first tag in a template"
  else
    let skipped := if parent = source.requested then some source.level else none
    match ← Action.find parent skipped with
    | none => throw (.templateNotFound parent skipped)
    | some found =>
      let session ← Action.session
      if chainHas session.catalog found.path session.catalog.length (some source.id) then
        throw (.circularExtends parent source.location)
      else
        Action.updateSession (·.setMainPaused true)
        let _ ← Action.addSource parent skipped (some source.id)
        Action.updateSource fun source => { source with extended := some parent }

/-! ### Other templates -/

/-- Loads another template when the artifact runs. -/
def onInclude (_ : Dispatch σ) : TagHandler σ := fun tag =>
  match tag.params with
  | [path] => Action.emit (.load path.expr)
  | _ => Action.misuse "include tag expects one template path"

/-- Copies another template as it is. -/
def onInsert (_ : Dispatch σ) : TagHandler σ := fun tag => do
  let path ← quotedPath tag
  Action.ofSession (Session.insertFile path)

/-! ### Text that is not read -/

/-- Sets how the source is read on. -/
def setReading (reading : Reading) : Action σ PUnit :=
  Action.updateSource fun source => { source with reading }

/-- What follows is copied as it is. -/
def onLiteral (_ : Dispatch σ) : TagHandler σ := fun _ => do
  setReading (.verbatim (some "endliteral"))
  Action.push "literal" .nothing

/-- Reads directives again. -/
def onEndLiteral (_ : Dispatch σ) : TagHandler σ := fun _ => do
  Action.pop "literal" asNothing
  setReading .directives

/-- What follows is dropped. -/
def onComment (_ : Dispatch σ) : TagHandler σ := fun _ => do
  let state ← Action.pauseAll
  setReading (.verbatim (some "endcomment"))
  Action.push "comment" (.pauses state)

/-- Writes and reads directives again. -/
def onEndComment (_ : Dispatch σ) : TagHandler σ := fun _ => do
  let state ← Action.pop "comment" asPauses
  Action.updateSession (·.restore state)
  setReading .directives

/-- The standard tags by name. -/
def tags : List (String × (Dispatch σ → TagHandler σ)) :=
  [("if", onIf),
   ("elseif", onElseIf),
   ("else", onElse),
   ("endif", onEndIf),
   ("for", onFor),
   ("empty", onEmpty),
   ("endfor", onEndFor),
   ("with", onWith),
   ("endwith", onEndWith),
   ("block", onBlock),
   ("endblock", onEndBlock),
   ("extends", onExtends),
   ("include", onInclude),
   ("insert", onInsert),
   ("literal", onLiteral),
   ("endliteral", onEndLiteral),
   ("comment", onComment),
   ("endcomment", onEndComment)]

end TemplateCompiler.Standard
