import TemplateCompiler.Feed
import TemplateCompiler.Proofs.Transcript.Passage
import TemplateCompiler.Tag
import TemplateCompiler.Standard.Tags

/-!
# Reading without writing

What the text of a source does is told by the text alone, without a session and without a disk: a
reader goes through it piece by piece and gives the events, in order. The meanings of the standard
tags and filters are tables beside those of their handlers.
-/
namespace TemplateCompiler

/-- The result of reading, if it succeeds, without the warnings. -/
def Diagnosed.value? {α : Type} (read : Diagnosed α) : Option α :=
  match read.run [] with
  | .ok a _ => some a
  | .error .. => none

/-! ## The state of a reader -/

/-- A tag that is open. -/
inductive OpenTag where
  | condition
  /-- A loop, and whether it has a branch for the empty list. -/
  | loop (hasNone : Bool)
  | naming
  | block (name : String)
  deriving DecidableEq, Repr

/-- How text is read. -/
inductive Mode where
  | directives
  | literal
  | comment
  deriving DecidableEq, Repr

/-- The tag that directives are read again after. -/
def Mode.reading : Mode → Reading
  | directives => .directives
  | literal => .verbatim (some "endliteral")
  | comment => .verbatim (some "endcomment")

/-- How far a source has been read. -/
structure Reader where
  options : Options
  requested : String
  path : Path
  line : Nat := 0
  mode : Mode := .directives
  /-- The tag being read; none while an interpolation is. -/
  tag : Option String := none
  tagsSeen : Nat := 0
  /-- The open tags, the innermost first. -/
  opened : List OpenTag := []
  /-- How many parameter slots have been handed out. -/
  slots : Nat := 0
  deriving DecidableEq, Repr

namespace Reader

/-- What the reading of a directive depends on. -/
def scene (reader : Reader) : Scene :=
  ⟨reader.options, reader.tag, reader.requested, ⟨reader.path, reader.line⟩⟩

/-- The reader with another tag open. -/
def push (reader : Reader) (tag : OpenTag) : Reader :=
  { reader with opened := tag :: reader.opened }

/-! ## Filters -/

/-- The meaning of a filter without an argument. -/
def plain (filtering : Code.Filtering) (_ : FilterCall) : Option Code.Filtering :=
  some filtering

/-- The meaning of a filter with an argument. -/
def withArgument (filtering : Code.Expr → Code.Filtering) (call : FilterCall) :
    Option Code.Filtering :=
  call.parameter.map filtering

/-- The standard filters. -/
def filters : List (String × (FilterCall → Option Code.Filtering)) :=
  [("upper", plain .upper),
   ("lower", plain .lower),
   ("capfirst", plain .capitalizeFirst),
   ("title", plain .title),
   ("trim", plain .trim),
   ("length", plain .length),
   ("default", withArgument .fallback),
   ("join", fun call => some (.join (call.parameter.getD (.literal "''")))),
   ("first", plain .first),
   ("last", plain .last),
   ("truncate", withArgument .truncate),
   ("date", withArgument .date),
   ("json", plain .json),
   ("urlencode", plain .urlEncode),
   ("escape", plain .escape),
   ("add", withArgument .add)]

/-- What a chain of filters does. -/
def filterings : List FilterCall → Option (List Code.Filtering)
  | [] => some []
  | call :: rest => do
    let meaning ← filters.lookup call.name
    let filtering ← meaning call
    let more ← filterings rest
    some (filtering :: more)

/-! ## Tags -/

/-- Fills a slot for each parameter that has filters; the slot is then the parameter. -/
def fill (scene : Scene) : Nat → List Variable → Option (List Fill × List Variable × Nat)
  | slots, [] => some ([], [], slots)
  | slots, param :: rest =>
    if param.hasFilters then do
      let chain ← filterings param.filters
      let slot ← (Variable.parameter scene (Code.slotName slots)).value?
      let (fills, params, more) ← fill scene (slots + 1) rest
      some (⟨slots, param.expr, chain⟩ :: fills, slot :: params, more)
    else do
      let (fills, params, more) ← fill scene slots rest
      some (fills, param :: params, more)

/-- What a tag does apart from filling slots. -/
inductive Effect where
  | none
  | emit (statement : Code.Statement)
  | insert (requested : String)
  | openBlock (name : String)
  | closeBlock
  | extend (parent : String)
  deriving DecidableEq, Repr

/-- The statement that an effect writes. -/
def Effect.statement? : Effect → Option Code.Statement
  | emit statement => some statement
  | _ => Option.none

/-- The events of an effect, apart from what it writes. -/
def Effect.events : Effect → List Event
  | insert requested => [.insert requested]
  | openBlock name => [.openBlock name]
  | closeBlock => [.closeBlock]
  | extend parent => [.extend parent]
  | none | emit _ => []

/-- What a tag means to a reader. -/
abbrev Meaning := Tag → Reader → Option (Effect × Reader)

/-- The only parameter, which must be a name. -/
def singleName (tag : Tag) : Option String :=
  match tag.params with
  | [name] => if Markup.isIdentifier name.raw then some name.raw else none
  | _ => none

/-- The only parameter, which must be a quoted path. -/
def quotedPath (tag : Tag) : Option String :=
  match tag.params with
  | [path] => path.unquoted?
  | _ => none

/-- A statement on the parameters as a condition. -/
def onCondition (statement : Code.Condition → Code.Statement) (tag : Tag) : Option Effect :=
  if tag.params.isEmpty then none else some (.emit (statement (tag.params.map Standard.term)))

/-- Opens a condition. -/
def onIf : Meaning := fun tag reader =>
  (onCondition .ifThen tag).map fun effect => (effect, reader.push .condition)

/-- The next branch of a condition, under a condition of its own. -/
def onElseIf : Meaning := fun tag reader =>
  match reader.opened with
  | .condition :: _ => (onCondition .elseIf tag).map fun effect => (effect, reader)
  | _ => none

/-- The last branch of a condition. -/
def onElse : Meaning := fun _ reader =>
  match reader.opened with
  | .condition :: _ => some (.emit .otherwise, reader)
  | _ => none

/-- Closes a condition. -/
def onEndIf : Meaning := fun _ reader =>
  match reader.opened with
  | .condition :: opened => some (.emit .endIf, { reader with opened })
  | _ => none

/-- Opens a loop. -/
def onFor : Meaning := fun tag reader =>
  match tag.params with
  | [item, keyword, list] =>
    if keyword.raw = "in" ∧ Markup.isIdentifier item.raw then
      some (.emit (.forEach list.expr (.var item.raw)), reader.push (.loop false))
    else none
  | _ => none

/-- The branch of a loop for the empty list. -/
def onEmpty : Meaning := fun _ reader =>
  match reader.opened with
  | .loop false :: opened => some (.emit .forNone, { reader with opened := .loop true :: opened })
  | _ => none

/-- Closes a loop. -/
def onEndFor : Meaning := fun _ reader =>
  match reader.opened with
  | .loop hasNone :: opened => some (.emit (.endFor hasNone), { reader with opened })
  | _ => none

/-- Gives a value a name. -/
def onWith : Meaning := fun tag reader =>
  match tag.params with
  | [value, keyword, name] =>
    if keyword.raw = "as" ∧ Markup.isIdentifier name.raw then
      some (.emit (.assign (.var name.raw) value.expr), reader.push .naming)
    else none
  | _ => none

/-- Closes a `with`. -/
def onEndWith : Meaning := fun _ reader =>
  match reader.opened with
  | .naming :: opened => some (.none, { reader with opened })
  | _ => none

/-- Opens a block. -/
def onBlock : Meaning := fun tag reader =>
  (singleName tag).map fun name => (.openBlock name, reader.push (.block name))

/-- Closes a block. -/
def onEndBlock : Meaning := fun _ reader =>
  match reader.opened with
  | .block _ :: opened => some (.closeBlock, { reader with opened })
  | _ => none

/-- Extends another template. -/
def onExtends : Meaning := fun tag reader =>
  if 1 < reader.tagsSeen then none
  else (quotedPath tag).map fun path => (.extend (Text.trimSlashes path), reader)

/-- Loads another template when the artifact runs. -/
def onInclude : Meaning := fun tag reader =>
  match tag.params with
  | [path] => some (.emit (.load path.expr), reader)
  | _ => none

/-- Copies another template. -/
def onInsert : Meaning := fun tag reader =>
  (quotedPath tag).map fun path => (.insert path, reader)

/-- Reads on in another mode. -/
def enter (mode : Mode) : Meaning := fun _ reader =>
  some (.none, { reader with mode })

/-- A closing tag without its opening tag. -/
def refuse : Meaning := fun _ _ =>
  none

/-- The standard tags. -/
def tags : List (String × Meaning) :=
  [("if", onIf),
   ("elseif", onElseIf),
   ("else", onElse),
   ("endif", onEndIf),
   ("for", onFor),
   ("empty", onEmpty),
   ("endfor", onEndFor),
   ("with", onWith),
   ("endwith", onEndWith),
   ("block", onBlock),
   ("endblock", onEndBlock),
   ("extends", onExtends),
   ("include", onInclude),
   ("insert", onInsert),
   ("literal", enter .literal),
   ("endliteral", refuse),
   ("comment", enter .comment),
   ("endcomment", refuse)]

/-! ## Reading -/

/-- Reads a variable. -/
def readVariable (reader : Reader) (d : Markup.Directive) : Option (List Event × Reader) := do
  let reader := { reader with tag := none }
  let v ← (Variable.interpolation reader.scene d.content).value?
  let chain ← filterings v.filters
  some ([.write (.shown v.expr chain)], reader)

/-- Reads a tag. -/
def readTag (reader : Reader) (d : Markup.Directive) : Option (List Event × Reader) := do
  let reader := { reader with tag := some d.name, tagsSeen := reader.tagsSeen + 1 }
  let tag ← (Tag.read reader.scene d.name d.params).value?
  let meaning ← tags.lookup tag.name
  let (fills, params, slots) ← fill reader.scene reader.slots tag.params
  let (effect, reader) ← meaning { tag with params } { reader with slots }
  some (.write (.tagged fills effect.statement?) :: effect.events, reader)

/-- Reads a directive. In a literal or a comment, only the tag that ends it is looked for. -/
def meet (reader : Reader) (d : Markup.Directive) : Option (List Event × Reader) :=
  match reader.mode with
  | .directives =>
    match d.kind with
    | .tag => reader.readTag d
    | .variable => reader.readVariable d
  | .literal | .comment =>
    some ([],
      { reader with mode := .directives, tag := some d.name, tagsSeen := reader.tagsSeen + 1 })

/-- The event of a text: what stands in a comment leaves none. -/
def chunk (reader : Reader) (content : Bytes) : List Event :=
  match reader.mode with
  | .directives => [.write (.text content)]
  | .literal => [.write (.verbatim content)]
  | .comment => []

/-- Reads a feed to its end, and gives the events in order. -/
def read (reader : Reader) (feed : Feed) : Option (List Event × Reader) :=
  match _ : feed.step reader.mode.reading with
  | .done => some ([], reader)
  | .newLine after => read { reader with line := reader.line + 1 } after
  | .checked after => read reader after
  | .forbidden => none
  | .text content after => do
    let (events, last) ← read reader after
    some (reader.chunk content ++ events, last)
  | .directive before d after => do
    let (events, next) ← reader.meet d
    let (more, last) ← read next after
    some (reader.chunk before ++ events ++ more, last)
termination_by feed.size
decreasing_by
  all_goals
    rename_i h
    exact Feed.size_lt_of_step (by rw [h]; rfl)

end Reader

end TemplateCompiler
