import TemplateCompiler.Code.Statement
import TemplateCompiler.Proofs.Desk.Items
import TemplateCompiler.Text.Utf8

/-!
# Passages and events

A passage is what one piece of a template, a text or a directive, leaves in an artifact. An event is
what a piece does to the artifacts of a session: it writes a passage, or it opens or closes one of
them.
-/
namespace TemplateCompiler

/-- A value that is put through filters into a parameter slot. -/
structure Fill where
  slot : Nat
  value : Code.Expr
  filterings : List Code.Filtering
  deriving DecidableEq, Repr

/-- What one piece of a template leaves in an artifact. -/
inductive Passage where
  /-- Text in which directives were looked for. -/
  | text (chunk : Bytes)
  /-- Text that was copied as it is. -/
  | verbatim (chunk : Bytes)
  /-- A template or an artifact that was copied as a whole. -/
  | copied (content : Bytes)
  /-- A value that is shown. -/
  | shown (value : Code.Expr) (filterings : List Code.Filtering)
  /-- A tag: the slots that are filled for it, and its own statement, if it has one. -/
  | tagged (fills : List Fill) (statement : Option Code.Statement)
  deriving DecidableEq, Repr

namespace Passage

/-- The segment of a chain of filters on a value. -/
def chain (value : Code.Expr) (filterings : List Code.Filtering) : String :=
  Code.chainOpen value ++ String.join (filterings.map (·.render)) ++ Code.chainClose

end Passage

/-- The statement that a fill ends with. -/
def Fill.assignment (fill : Fill) : Code.Statement :=
  .assign (.slot fill.slot) .filterSlot

/-- The segments of a fill. -/
def Fill.render (fill : Fill) : String :=
  Passage.chain fill.value fill.filterings ++ fill.assignment.render

namespace Passage

/-- The segments that show a value. -/
def showing (value : Code.Expr) (filterings : List Code.Filtering) : String :=
  if filterings.isEmpty then (Code.Statement.echo value).render
  else chain value filterings ++ (Code.Statement.echo .filterSlot).render

/-- The segment of a statement, if there is one. -/
def stating (statement : Option Code.Statement) : String :=
  (statement.map (·.render)).getD ""

/-- The bytes of a passage. -/
def bytes : Passage → Bytes
  | text chunk => chunk
  | verbatim chunk => chunk
  | copied content => content
  | shown value filterings => Utf8.encode (showing value filterings)
  | tagged fills statement =>
    Utf8.encode (String.join (fills.map (·.render)) ++ stating statement)

end Passage

/-- What a piece of a template does to the artifacts. -/
inductive Event where
  /-- A source begins. -/
  | turn
  | write (passage : Passage)
  /-- Another template is copied. -/
  | insert (requested : String)
  | openBlock (name : String)
  | closeBlock
  /-- The rest of the source only defines blocks for another template. -/
  | extend (parent : String)
  /-- A source ends within a comment. -/
  | hush
  deriving DecidableEq, Repr

/-- The event takes place on a desk as the act, `inserted` telling which contents a template that is
copied may have. -/
inductive Event.Enacts (inserted : String → Bytes → Prop) : Event → Desk.Act Passage → Prop
  | turn : Enacts inserted .turn .turn
  | write (passage : Passage) : Enacts inserted (.write passage) (.put [passage])
  | insert {requested : String} {content : Bytes} (h : inserted requested content) :
    Enacts inserted (.insert requested) (.put [.copied content])
  | openBlock (name : String) : Enacts inserted (.openBlock name) (.openBlock name)
  | closeBlock : Enacts inserted .closeBlock .closeBlock
  | extend (parent : String) : Enacts inserted (.extend parent) .silence
  | hush : Enacts inserted .hush .hush

namespace Event

/-- The act of an event, `inserted` being the contents of the templates that are copied. -/
def act (inserted : String → Bytes) : Event → Desk.Act Passage
  | turn => .turn
  | write passage => .put [passage]
  | insert requested => .put [.copied (inserted requested)]
  | openBlock name => .openBlock name
  | closeBlock => .closeBlock
  | extend _ => .silence
  | hush => .hush

variable {may : String → Bytes → Prop} {events : List Event} {acts : List (Desk.Act Passage)}

/-- The acts of events are known if every template that is copied has one content. -/
theorem acts_eq {inserted : String → Bytes} (h : List.Forall₂ (Enacts may) events acts)
    (hinserted : ∀ requested, insert requested ∈ events →
      ∀ content, may requested content → content = inserted requested) :
    acts = events.map (act inserted) := by
  induction h with
  | nil => rfl
  | cons hhead htail ih =>
    have hrest := ih fun requested hmem => hinserted requested (List.mem_cons_of_mem _ hmem)
    rw [List.map_cons, ← hrest]
    congr 1
    cases hhead with
    | turn | openBlock | closeBlock | extend | hush | write => rfl
    | @insert requested content hcontent =>
      obtain rfl := hinserted requested List.mem_cons_self content hcontent
      rfl

/-- Acts put what the events write, and what they copy. -/
theorem puts_of_enacts {p : Passage → Prop} (h : List.Forall₂ (Enacts may) events acts)
    (hwrite : ∀ passage, write passage ∈ events → p passage)
    (hinsert : ∀ requested, insert requested ∈ events → ∀ content, p (.copied content)) :
    ∀ a ∈ acts, a.Puts p := by
  induction h with
  | nil => exact fun a ha => nomatch ha
  | cons hhead htail ih =>
    have hrest := ih (fun passage hmem => hwrite passage (List.mem_cons_of_mem _ hmem))
      (fun requested hmem => hinsert requested (List.mem_cons_of_mem _ hmem))
    intro a ha
    rcases List.mem_cons.1 ha with rfl | ha
    · cases hhead with
      | turn | openBlock | closeBlock | extend | hush => trivial
      | write passage =>
        intro item hitem
        rw [List.mem_singleton.1 hitem]
        exact hwrite passage List.mem_cons_self
      | insert =>
        intro item hitem
        rw [List.mem_singleton.1 hitem]
        exact hinsert _ List.mem_cons_self _
    · exact hrest a ha

end Event

end TemplateCompiler
