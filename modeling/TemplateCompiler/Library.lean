import TemplateCompiler.Action

/-!
# Libraries of handlers

A library gives a handler for each tag and each filter. A handler may itself write tags and
variables, so it is given the dispatch by which their handlers are found; each level of nesting
has one level less below it, and where none is left the compile ends with an error of its own.
-/
namespace TemplateCompiler

variable {σ : Type}

/-- What handles a tag. -/
abbrev TagHandler (σ : Type) := Tag → Action σ PUnit

/-- What handles a filter, given its position in the chain, which counts from one. -/
abbrev FilterHandler (σ : Type) := FilterCall → Nat → Action σ PUnit

/-- How handlers are found by name. -/
structure Dispatch (σ : Type) where
  tag? : String → Option (TagHandler σ)
  filter? : String → Option (FilterHandler σ)

/-- The handlers of tags and filters by name; of two with one name the first counts. -/
structure Library (σ : Type) where
  tags : List (String × (Dispatch σ → TagHandler σ)) := []
  filters : List (String × (Dispatch σ → FilterHandler σ)) := []

namespace Library

/-- The library with a handler for the tag `name`, in the stead of one that it had. -/
def withTag (library : Library σ) (name : String) (handler : Dispatch σ → TagHandler σ) :
    Library σ :=
  { library with tags := (name, handler) :: library.tags }

/-- The library with a handler for the filter `name`, in the stead of one that it had. -/
def withFilter (library : Library σ) (name : String) (handler : Dispatch σ → FilterHandler σ) :
    Library σ :=
  { library with filters := (name, handler) :: library.filters }

/-- Whether there is a handler for a tag. -/
def hasTag (library : Library σ) (name : String) : Bool :=
  (library.tags.lookup name).isSome

/-- Whether there is a handler for a filter. -/
def hasFilter (library : Library σ) (name : String) : Bool :=
  (library.filters.lookup name).isSome

/-- The dispatch of a library, whose handlers may nest to the given depth. -/
def dispatch (library : Library σ) : Nat → Dispatch σ
  | 0 =>
    { tag? := fun name => (library.tags.lookup name).map fun _ _ => throw .unfinished
      filter? := fun name => (library.filters.lookup name).map fun _ _ _ => throw .unfinished }
  | depth + 1 =>
    { tag? := fun name => (library.tags.lookup name).map (· (library.dispatch depth))
      filter? := fun name => (library.filters.lookup name).map (· (library.dispatch depth)) }

end Library

namespace Variable

/-- Runs the filters over the slot, in order; `position` is that of the first. -/
def applyFilters (dispatch : Dispatch σ) : Nat → List FilterCall → Action σ PUnit
  | _, [] => pure ⟨⟩
  | position, filter :: rest => do
    match dispatch.filter? filter.name with
    | none => throw (.unknownFilter filter.name (← Action.location))
    | some handler => handler filter position
    applyFilters dispatch (position + 1) rest

/-- Puts the value into the slot of the filters and runs them over it. -/
def prepare (dispatch : Dispatch σ) (v : Variable) : Action σ PUnit := do
  Action.write (Code.chainOpen v.expr)
  applyFilters dispatch 1 v.filters
  Action.write Code.chainClose

/-- Writes what shows the value, filtered if there are filters. -/
def write (dispatch : Dispatch σ) (v : Variable) : Action σ PUnit :=
  if v.hasFilters then do
    v.prepare dispatch
    Action.emit (.echo .filterSlot)
  else
    Action.emit (.echo v.expr)

end Variable

namespace Tag

/-- Evaluates a parameter that has filters into a fresh slot; the slot is then the parameter. -/
def fillSlot (dispatch : Dispatch σ) (param : Variable) : Action σ Variable := do
  param.prepare dispatch
  let slot ← Action.nextSlot
  Action.emit (.assign (.slot slot) .filterSlot)
  Action.reading fun scene => Variable.parameter scene (Code.slotName slot)

/-- Evaluates the parameters that have filters, from left to right. -/
def fillSlots (dispatch : Dispatch σ) : List Variable → Action σ (List Variable)
  | [] => pure []
  | param :: rest => do
    let param ← if param.hasFilters then fillSlot dispatch param else pure param
    let more ← fillSlots dispatch rest
    pure (param :: more)

/-- Runs the handler of a tag, after the parameters that have filters have been evaluated. -/
def write (dispatch : Dispatch σ) (tag : Tag) : Action σ PUnit := do
  match dispatch.tag? tag.name with
  | none => throw (.unknownTag tag.name (← Action.location))
  | some handler =>
    let params ← fillSlots dispatch tag.params
    handler { tag with params }

end Tag

end TemplateCompiler
