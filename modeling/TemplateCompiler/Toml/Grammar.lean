import TemplateCompiler.Toml.Quoted
import TemplateCompiler.Toml.Scalar

/-!
# The lines of a TOML document

A document is a sequence of lines: pairs of a key and a value, headers of tables and of arrays of
tables, and blank ones. Values may extend over several text lines. `Line.readAll` reads a document;
a text that is none has no lines.
-/
namespace TemplateCompiler.Toml

/-- The parts of a dotted key. -/
abbrev Key := List String

/-! ### Blanks, comments and line breaks -/

/-- Drops spaces and tabs. -/
def skipBlanks (text : List Char) : List Char :=
  text.dropWhile fun c => c == ' ' || c == '\t'

/-- Drops one line break, which must be there. -/
def lineBreak? : List Char → Option (List Char)
  | '\n' :: rest => some rest
  | '\r' :: '\n' :: rest => some rest
  | _ => none

/-- Drops a comment, if there is one, up to the end of its line. -/
def skipComment? (text : List Char) : Option (List Char) :=
  match text with
  | '#' :: rest =>
    let after := rest.dropWhile Quoted.isPlain
    if after.isEmpty || (lineBreak? after).isSome then some after else none
  | _ => some text

/-- Drops blanks, comments and line breaks, within the given number of lines. -/
def skipTrivia? : Nat → List Char → Option (List Char)
  | 0, _ => none
  | fuel + 1, text => do
    let text ← skipComment? (skipBlanks text)
    match lineBreak? text with
    | some rest => skipTrivia? fuel rest
    | none => some text

/-- Drops blanks, comments and line breaks. -/
def skipAll? (text : List Char) : Option (List Char) :=
  skipTrivia? (text.length + 1) text

/-- Drops what may follow on a line, and the line break unless the text ends. -/
def endLine? (text : List Char) : Option (List Char) := do
  let text ← skipComment? (skipBlanks text)
  if text.isEmpty then some [] else lineBreak? text

/-! ### Keys -/

/-- A character of a key without quotes. -/
def isBareChar (c : Char) : Bool :=
  c.isAlphanum || c == '_' || c == '-'

/-- Reads one part of a key. -/
def keyPart : Reader String := fun text =>
  match text with
  | '"' :: rest => Quoted.readLine '"' rest
  | '\'' :: rest => Quoted.readLine '\'' rest
  | _ =>
    let name := text.takeWhile isBareChar
    if name.isEmpty then none else some (String.ofList name, text.dropWhile isBareChar)

/-- Reads a key of at most the given number of parts. -/
def keyParts : Nat → Reader Key
  | 0, _ => none
  | fuel + 1, text => do
    let (part, text) ← keyPart (skipBlanks text)
    match skipBlanks text with
    | '.' :: rest =>
      let (more, rest) ← keyParts fuel rest
      pure (part :: more, rest)
    | rest => pure ([part], rest)

/-- Reads a key and the blanks around it. -/
def key : Reader Key := fun text =>
  keyParts (text.length + 1) text

/-! ### Tables -/

/-- The form of a table that a key is the way to. -/
def formOnWay (dotted : Bool) : TableForm :=
  if dotted then .dotted else .implied

/-- Whether a key may go on through a table: nothing goes on into a table written as a value, and a
dotted key does not go on into one that a header names. -/
def TableForm.isOpen (form : TableForm) (dotted : Bool) : Bool :=
  match form with
  | .implied | .dotted => true
  | .header => !dotted
  | .inline => false

/-- The entries with `value` under `name`, in the stead of what stood there. -/
def Entries.put (name : String) (value : Value) : Entries → Entries
  | [] => [(name, value)]
  | (n, v) :: rest => if n = name then (n, value) :: rest else (n, v) :: Entries.put name value rest

/-- Changes the table that a key leads to from a table of the given form; tables on the way are made
where there are none, and of an array of tables the last one is meant. -/
def changeAt (dotted : Bool) (change : TableForm → Entries → Option Entries) :
    Key → TableForm → Entries → Option Entries
  | [], form, entries => change form entries
  | name :: rest, _, entries =>
    match entries.lookup name with
    | none => do
      let inner ← changeAt dotted change rest (formOnWay dotted) []
      pure (Entries.put name (.table (formOnWay dotted) inner) entries)
    | some (.table form inner) =>
      if form.isOpen dotted then do
        let inner ← changeAt dotted change rest form inner
        pure (Entries.put name (.table form inner) entries)
      else none
    | some (.array items true) =>
      match dotted, items.getLast? with
      | false, some (.table form inner) => do
        let inner ← changeAt dotted change rest form inner
        pure (Entries.put name (.array (items.dropLast ++ [.table form inner]) true) entries)
      | _, _ => none
    | some _ => none

/-- Puts a value under a name that is new in a table. -/
def insertNew (name : String) (value : Value) (entries : Entries) : Option Entries :=
  if (entries.lookup name).isSome then none else some (Entries.put name value entries)

/-- Adds a pair to a table of the given form. A dotted key goes to a table that dotted keys made. -/
def addPair (key : Key) (value : Value) (form : TableForm) (entries : Entries) : Option Entries :=
  match key.getLast? with
  | none => none
  | some name =>
    changeAt true
      (fun reached inner =>
        if key.length = 1 ∨ reached = .dotted then insertNew name value inner else none)
      key.dropLast form entries

/-! ### Values -/

/-- How deep arrays and tables written as values may nest. -/
def nestingLimit : Nat := 80

/-- Reads the items of an array after its bracket, and at most the given number of them. -/
def items (item : Reader Value) : Nat → Reader (List Value)
  | 0, _ => none
  | fuel + 1, text => do
    match ← skipAll? text with
    | ']' :: rest => pure ([], rest)
    | text =>
      let (value, text) ← item text
      match ← skipAll? text with
      | ',' :: rest =>
        let (more, rest) ← items item fuel rest
        pure (value :: more, rest)
      | ']' :: rest => pure ([value], rest)
      | _ => none

/-- Reads a pair of a key and a value. -/
def pair (item : Reader Value) : Reader (Key × Value) := fun text => do
  match ← key text with
  | (key, '=' :: rest) =>
    let (value, rest) ← item (skipBlanks rest)
    pure ((key, value), rest)
  | _ => none

/-- Reads the pairs of a table written as a value after its brace, and at most the given number of
them; `entries` are those read before. -/
def members (item : Reader Value) : Nat → Entries → Reader Entries
  | 0, _, _ => none
  | fuel + 1, entries, text => do
    match ← skipAll? text with
    | '\x7d' :: rest => pure (entries, rest)
    | text =>
      let ((key, value), text) ← pair item text
      let entries ← addPair key value .inline entries
      match ← skipAll? text with
      | ',' :: rest => members item fuel entries rest
      | '\x7d' :: rest => pure (entries, rest)
      | _ => none

/-- Reads a value in which arrays and tables nest to at most the given depth. -/
def value : Nat → Reader Value
  | 0, _ => none
  | depth + 1, text =>
    match text with
    | '"' :: _ => (Quoted.read '"' text).map fun (s, rest) => (.text s, rest)
    | '\'' :: _ => (Quoted.read '\'' text).map fun (s, rest) => (.text s, rest)
    | '[' :: rest =>
      (items (value depth) (rest.length + 1) rest).map fun (xs, rest) => (.array xs false, rest)
    | '\x7b' :: rest =>
      (members (value depth) (rest.length + 1) [] rest).map fun (xs, rest) =>
        (.table .inline xs, rest)
    | _ => Scalar.read text

/-! ### Lines -/

/-- A line of a document. -/
inductive Line where
  | blank
  | pair (key : Key) (value : Value)
  /-- The table that the pairs below belong to. -/
  | header (key : Key)
  /-- The array whose new table the pairs below belong to. -/
  | arrayHeader (key : Key)

namespace Line

/-- Reads a key and the closing brackets of a header. -/
def headerKey (closing : List Char) : Reader Key := fun text => do
  let (key, rest) ← key text
  if closing.isPrefixOf rest then some (key, rest.drop closing.length) else none

/-- Reads what stands on a line. -/
def content : Reader Line := fun text =>
  match text with
  | [] | '#' :: _ | '\n' :: _ | '\r' :: _ => some (.blank, text)
  | '[' :: '[' :: rest =>
    (headerKey [']', ']'] rest).map fun (key, rest) => (.arrayHeader key, rest)
  | '[' :: rest => (headerKey [']'] rest).map fun (key, rest) => (.header key, rest)
  | _ =>
    (Toml.pair (value nestingLimit) text).map fun ((key, value), rest) => (.pair key value, rest)

/-- Reads at most the given number of lines, and no more text than they take. -/
def readMany : Nat → List Char → Option (List Line)
  | _, [] => some []
  | 0, _ :: _ => none
  | fuel + 1, text => do
    let (line, text) ← content (skipBlanks text)
    let more ← readMany fuel (← endLine? text)
    pure (line :: more)

/-- The lines of a document. -/
def readAll (text : List Char) : Option (List Line) :=
  readMany (text.length + 1) text

end Line

end TemplateCompiler.Toml
