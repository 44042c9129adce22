/-!
# The hierarchy of open tags

A stack of the paired tags that are open, each with what its handler remembers until the closing
tag. Only the innermost tag can be looked at, changed or closed, and only under its own name; a
refused operation leaves the stack as it was.
-/
namespace TemplateCompiler

/-- One open tag. -/
structure Frame (α : Type) where
  tag : String
  data : α
  deriving DecidableEq, Repr

/-- The open tags, the innermost first. -/
structure Hierarchy (α : Type) where
  frames : List (Frame α) := []
  deriving DecidableEq, Repr

namespace Hierarchy

variable {α : Type}

/-- Why an operation was refused. -/
inductive Refusal where
  /-- Another tag is the innermost one. -/
  | mismatch (innermost : String)
  /-- No tag is open. -/
  | empty
  deriving DecidableEq, Repr

/-- Opens a tag. -/
def push (h : Hierarchy α) (tag : String) (data : α) : Hierarchy α :=
  ⟨⟨tag, data⟩ :: h.frames⟩

/-- What the innermost tag remembers, which must have the given name, and the hierarchy without
it. -/
def pop (h : Hierarchy α) (tag : String) : Except Refusal (α × Hierarchy α) :=
  match h.frames with
  | [] => .error .empty
  | frame :: rest =>
    if frame.tag = tag then .ok (frame.data, ⟨rest⟩) else .error (.mismatch frame.tag)

/-- What the innermost tag remembers, which must have the given name. -/
def peek (h : Hierarchy α) (tag : String) : Except Refusal α :=
  (h.pop tag).map (·.1)

/-- Changes what the innermost tag remembers, which must have the given name. -/
def replace (h : Hierarchy α) (tag : String) (data : α) : Except Refusal (Hierarchy α) :=
  (h.pop tag).map fun (_, rest) => rest.push tag data

/-- How many tags are open. -/
def depth (h : Hierarchy α) : Nat :=
  h.frames.length

/-- The name of the innermost tag. -/
def top? (h : Hierarchy α) : Option String :=
  h.frames.head?.map (·.tag)

@[simp] theorem pop_push (h : Hierarchy α) (tag : String) (data : α) :
    (h.push tag data).pop tag = .ok (data, h) := by
  simp [push, pop]

end Hierarchy

end TemplateCompiler
