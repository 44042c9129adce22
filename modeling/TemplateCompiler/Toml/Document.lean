import TemplateCompiler.Toml.Grammar

/-!
# TOML documents

The table that a document stands for. A table is named by a header at most once, and what was given
a value keeps it: a document that says otherwise stands for nothing.
-/
namespace TemplateCompiler.Toml

/-- A document read in part: what it holds so far, and the table that pairs belong to. -/
structure Draft where
  entries : Entries := []
  current : Key := []

namespace Draft

/-- Names a table. One that is there already must have been on the way to another. -/
def addHeader (name : String) (entries : Entries) : Option Entries :=
  match entries.lookup name with
  | none => some (Entries.put name (.table .header []) entries)
  | some (.table .implied inner) => some (Entries.put name (.table .header inner) entries)
  | some _ => none

/-- Adds a table to an array of tables, which begins with the first. -/
def addTable (name : String) (entries : Entries) : Option Entries :=
  match entries.lookup name with
  | none => some (Entries.put name (.array [.table .header []] true) entries)
  | some (.array items true) =>
    some (Entries.put name (.array (items ++ [.table .header []]) true) entries)
  | some _ => none

/-- Adds a line. -/
def addLine (draft : Draft) (line : Line) : Option Draft :=
  let named (key : Key) (add : String → Entries → Option Entries) : Option Draft := do
    let name ← key.getLast?
    let entries ← changeAt false (fun _ => add name) key.dropLast .header draft.entries
    pure ⟨entries, key⟩
  match line with
  | .blank => some draft
  | .header key => named key addHeader
  | .arrayHeader key => named key addTable
  | .pair key value => do
    let entries ← changeAt false (addPair key value) draft.current .header draft.entries
    pure { draft with entries }

end Draft

/-- The table of a document, unless the text is none. A byte order mark at the front does not
count. -/
def document? (text : List Char) : Option Entries := do
  let text := if text.head? = some '\ufeff' then text.tail else text
  let lines ← Line.readAll text
  let draft ← lines.foldlM Draft.addLine {}
  pure draft.entries

end TemplateCompiler.Toml
