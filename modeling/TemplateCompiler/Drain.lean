import TemplateCompiler.Feed
import TemplateCompiler.Library

/-!
# Draining a source

A source is drained piece by piece: text goes to the destinations as it is, and each directive is
handled where it stands. Draining stops at the end of the feed, or earlier when the source pauses;
what is then left of the feed is the result.
-/
namespace TemplateCompiler

variable {σ : Type}

/-- Handles a directive: a tag is read and handed to its handler, and a variable is written. -/
def handle (dispatch : Dispatch σ) (d : Markup.Directive) : Action σ PUnit :=
  match d.kind with
  | .tag => do
    Action.updateSource fun source =>
      { source with currentTag := some d.name, tagsSeen := source.tagsSeen + 1 }
    let tag ← Action.reading fun scene => Tag.read scene d.name d.params
    tag.write dispatch
  | .variable => do
    Action.updateSource fun source => { source with currentTag := none }
    let v ← Action.reading fun scene => Variable.interpolation scene d.content
    v.write dispatch

/-- Writes the text before a directive and handles the directive. One that has no closer on its
line is handled too, after a warning. -/
def meet (dispatch : Dispatch σ) (before : Bytes) (d : Markup.Directive) (atEnd : Bool) :
    Action σ PUnit := do
  if !d.isTerminated then Action.warn "line terminated before end of tag"
  Action.updateSession (·.write before)
  Action.updateSource fun source => { source with atEnd }
  handle dispatch d

/-- Drains the feed of the active source until it ends or the source pauses. -/
def drain (dispatch : Dispatch σ) (feed : Feed) : Action σ Feed := do
  let source ← Action.source
  if source.paused then pure feed
  else
    match _ : feed.step source.reading with
    | .done => pure feed
    | .newLine after =>
      Action.updateSource fun source => { source with line := source.line + 1 }
      drain dispatch after
    | .checked after => drain dispatch after
    | .forbidden => throw (.forbiddenMarker source.location)
    | .text content after =>
      Action.updateSession (·.write content)
      drain dispatch after
    | .directive before d after =>
      meet dispatch before d after.atEnd
      drain dispatch after
termination_by feed.size
decreasing_by
  all_goals
    rename_i h
    exact Feed.size_lt_of_step (by rw [h]; rfl)

end TemplateCompiler
