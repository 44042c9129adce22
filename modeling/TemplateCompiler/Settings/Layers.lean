import TemplateCompiler.Disk
import TemplateCompiler.Settings.Basic
import TemplateCompiler.Toml.Document

/-!
# Layers of settings

Settings come from up to three files: the user's, and two of the project. Each later file is merged
over the earlier ones: tables entry by entry, all else as a whole. Only what results is read as
settings, so a wrong value that a later file replaces does no harm, while a file that is no
document does.
-/
namespace TemplateCompiler

namespace Settings

/-- Why there are no settings. -/
inductive Refusal where
  /-- A file is no document. -/
  | broken (file : Path)
  /-- A setting has a value of the wrong kind. -/
  | unsuitable (key : String)
  deriving DecidableEq, Repr

/-- The wording of a refusal, which is the same for all. -/
def Refusal.message (_ : Refusal) : String :=
  "Configuration build/deserialize error"

/-! ### Addresses

A key at the top of a file may be an address: a name, followed by names after points and indices in
brackets. An index below zero counts from the end. -/

/-- One step of an address. -/
inductive Step where
  | key (name : String)
  | index (n : Int)
  deriving DecidableEq, Repr

namespace Step

/-- What stands for nothing: no setting accepts it. -/
def nothing : Toml.Value :=
  .table .implied []

/-- Where an index leads in a list, which is filled up so that there is an item. -/
def position (n : Int) (items : List Toml.Value) : Nat × List Toml.Value :=
  if 0 ≤ n then
    (n.toNat, items ++ List.replicate (n.toNat + 1 - items.length) nothing)
  else if -n ≤ items.length then ((items.length + n).toNat, items)
  else (0, List.replicate (-n - items.length).toNat nothing ++ items)

/-- Changes what an address leads to; what is in the way is replaced. -/
def changeAt (change : Toml.Value → Toml.Value) : List Step → Toml.Value → Toml.Value
  | [], value => change value
  | .key name :: rest, value =>
    let entries := match value with
      | .table _ entries => entries
      | _ => []
    let inner := (entries.lookup name).getD nothing
    .table .implied (Toml.Entries.put name (changeAt change rest inner) entries)
  | .index n :: rest, value =>
    let items := match value with
      | .array items _ => items
      | _ => []
    let (n, items) := position n items
    .array (items.set n (changeAt change rest (items.getD n nothing))) false

/-- Reads the steps after the first name of an address. -/
def readRest : Nat → List Char → Option (List Step)
  | _, [] => some []
  | 0, _ :: _ => none
  | fuel + 1, c :: text =>
    if c = '.' then
      let name := text.takeWhile Toml.isBareChar
      if name.isEmpty then none
      else (readRest fuel (text.dropWhile Toml.isBareChar)).map (.key (String.ofList name) :: ·)
    else if c = '[' then
      let isSpace (c : Char) := c == ' ' || c == '\t'
      let text := text.dropWhile isSpace
      let negative := text.head? == some '-'
      let text := if negative then text.tail else text
      let digits := text.takeWhile Char.isDigit
      match (text.dropWhile Char.isDigit).dropWhile isSpace with
      | ']' :: rest =>
        if digits.isEmpty then none
        else
          let n : Int := Toml.Scalar.ofDigits 10 digits
          (readRest fuel rest).map (.index (if negative then -n else n) :: ·)
      | _ => none
    else none

/-- The address that a key is; a key that is none leads to an entry of its own name. -/
def ofKey (key : String) : List Step :=
  let text := key.toList
  let name := text.takeWhile Toml.isBareChar
  match readRest text.length (text.dropWhile Toml.isBareChar) with
  | some rest => if name.isEmpty then [.key key] else .key (String.ofList name) :: rest
  | none => [.key key]

end Step

/-! ### Merging -/

mutual

/-- Merges a later value over an earlier one. -/
def merge : Toml.Value → Toml.Value → Toml.Value
  | .table _ entries, earlier =>
    mergeEntries entries (match earlier with
      | .table form old => .table form old
      | _ => Step.nothing)
  | later, _ => later

/-- Merges the entries of a later table into an earlier one. -/
def mergeEntries : List (String × Toml.Value) → Toml.Value → Toml.Value
  | [], earlier => earlier
  | (name, value) :: rest, earlier =>
    mergeEntries rest (Step.changeAt (merge value) [.key name] earlier)

end

/-- Merges a file over what the earlier ones gave; its keys are addresses. -/
def mergeFile (earlier : Toml.Value) (entries : Toml.Entries) : Toml.Value :=
  entries.foldl (fun root (key, value) => Step.changeAt (merge value) (Step.ofKey key) root) earlier

/-! ### Reading -/

/-- The letters of a word in lower case. -/
def lower (word : String) : String :=
  String.ofList (word.toList.map Char.toLower)

/-- A flag, which may also be written as a number or a word. -/
def asFlag? : Toml.Value → Option Bool
  | .boolean b => some b
  | .integer n => some (n != 0)
  | .float x => some (!x.isZero)
  | .text word =>
    if ["1", "true", "on", "yes"].contains (lower word) then some true
    else if ["0", "false", "off", "no"].contains (lower word) then some false
    else none
  | _ => none

/-- A text, which may also be written as a flag or a number. -/
def asText? : Toml.Value → Option String
  | .text s => some s
  | .moment s => some s
  | .boolean b => some (if b then "true" else "false")
  | .integer n => some (toString n)
  | .float x => some x.render
  | _ => none

/-- A list of texts; nothing but an array is one. -/
def asTexts? : Toml.Value → Option (List String)
  | .array items _ => items.mapM asText?
  | _ => none

/-- The setting `key`, or its default if it is not given. -/
def field {α : Type} (entries : Toml.Entries) (key : String) (read : Toml.Value → Option α)
    (default : α) : Except Refusal α :=
  match entries.lookup key with
  | none => .ok default
  | some value =>
    match read value with
    | some a => .ok a
    | none => .error (.unsuitable key)

/-- The settings that a table gives. -/
def ofEntries (entries : Toml.Entries) : Except Refusal Settings := do
  let default : Settings := {}
  let debug ← field entries "debug" asFlag? default.debug
  let verbose ← field entries "verbose" asFlag? default.verbose
  let escaping ← field entries "escaping" asFlag? default.escaping
  let operatorTags ← field entries "operator_tags" asTexts? default.operatorTags
  let legacyUnescaped ← field entries "legacy_unescaped" asTexts? default.legacyUnescaped
  let plugins ← field entries "plugins" asTexts? default.plugins
  let systemPlugins ← field entries "system_plugins" asTexts? default.systemPlugins
  let cacheDir ← field entries "cache_dir" asText? default.cacheDir.text
  pure { debug, verbose, escaping, operatorTags, legacyUnescaped, plugins, systemPlugins,
         cacheDir := ⟨cacheDir⟩ }

/-! ### Files -/

/-- The files of settings, the one that counts least first. -/
def files (userDirectory project : Path) : List Path :=
  [userDirectory.join "tplc/tplc.toml", project.join ".tplc.toml", project.join "tplc.toml"]

/-- The content of a file of settings, or of one with another `.toml` after its name. -/
def contentOf? (disk : Disk) (file : Path) : Option Bytes :=
  (disk.read? file).or (disk.read? ⟨file.text ++ ".toml"⟩)

/-- The text of a file, whose byte order mark is set aside. -/
def textOf (content : Bytes) : List Char :=
  (Utf8.decode
    (if [0xef, 0xbb, 0xbf].isPrefixOf content then content.drop 3 else content)).toList

/-- Merges a file over what the earlier ones gave. A file that is not there changes nothing. -/
def addFile (disk : Disk) (earlier : Toml.Value) (file : Path) : Except Refusal Toml.Value :=
  match contentOf? disk file with
  | none => .ok earlier
  | some content =>
    match Toml.document? (textOf content) with
    | some entries => .ok (mergeFile earlier entries)
    | none => .error (.broken file)

/-- The settings of a project. -/
def load (disk : Disk) (userDirectory project : Path) : Except Refusal Settings := do
  let merged ← (files userDirectory project).foldlM (addFile disk) Step.nothing
  match merged with
  | .table _ entries => ofEntries entries
  | _ => pure {}

end Settings

end TemplateCompiler
