import TemplateCompiler.Toml.Value

/-!
# Quoted text in TOML

Four forms of text: basic text in double quotes, which has escapes, and literal text in single
quotes, which has none; each on one line, or over several lines between three quotes. First the
extent of a text is found, then what stands in it is read.
-/
namespace TemplateCompiler.Toml.Quoted

/-- A character that may stand in text and in comments: a tab, or anything but a control
character. -/
def isPlain (c : Char) : Bool :=
  c == '\t' || (' ' ≤ c && c ≤ '~') || 0x80 ≤ c.toNat

/-- The text up to the closing quote of a line, and what follows the quote. After a backslash a
quote does not close, if there are escapes. -/
def closeLine (quote : Char) (escapes : Bool) : Bool → List Char → Option (List Char × List Char)
  | _, [] => none
  | escaped, c :: rest =>
    if c = quote ∧ escaped = false then some ([], rest)
    else
      (closeLine quote escapes (escapes && !escaped && c == '\\') rest).map
        fun (raw, rest) => (c :: raw, rest)

/-- The text up to three closing quotes, and what follows them; `run` is the number of quotes read
just before. Up to two quotes before the closing ones belong to the text. -/
def closeLines (quote : Char) (escapes : Bool) :
    Nat → Bool → List Char → Option (List Char × List Char)
  | run, _, [] => if 3 ≤ run then some (List.replicate (run - 3) quote, []) else none
  | run, escaped, c :: rest =>
    if c = quote ∧ escaped = false then
      if run = 4 then some ([quote, quote], rest) else closeLines quote escapes (run + 1) false rest
    else if 3 ≤ run then some (List.replicate (run - 3) quote, c :: rest)
    else
      (closeLines quote escapes 0 (escapes && !escaped && c == '\\') rest).map
        fun (raw, rest) => (List.replicate run quote ++ c :: raw, rest)

/-- Drops a line break at the front of a text over several lines. -/
def dropFirstBreak : List Char → List Char
  | '\n' :: rest => rest
  | '\r' :: '\n' :: rest => rest
  | text => text

/-- The characters that one escape of two characters stands for. -/
def escapes : List (Char × Char) :=
  [('b', '\x08'), ('t', '\t'), ('n', '\n'), ('f', '\x0c'), ('r', '\r'), ('e', '\x1b'), ('"', '"'),
    ('\\', '\\')]

/-- How many hexadecimal digits follow the letter of an escape. -/
def hexLengths : List (Char × Nat) :=
  [('x', 2), ('u', 4), ('U', 8)]

/-- The value of a hexadecimal digit. -/
def hexValue? (c : Char) : Option Nat :=
  if c.isDigit then some (c.toNat - '0'.toNat)
  else if 'a' ≤ c ∧ c ≤ 'f' then some (c.toNat - 'a'.toNat + 10)
  else if 'A' ≤ c ∧ c ≤ 'F' then some (c.toNat - 'A'.toNat + 10)
  else none

/-- Where the reading of basic text stands. -/
inductive Mode where
  | plain
  /-- After a backslash. -/
  | escaped
  /-- Within an escape by number: the digits still owed, less one, and the value so far. -/
  | number (owed value : Nat)
  /-- After a backslash at the end of a line; blanks and line breaks are skipped. -/
  | folding (broken : Bool)
  deriving DecidableEq

/-- A line break, or the carriage return before one. -/
def isBreak (c : Char) (next : Option Char) : Bool :=
  c == '\n' || (c == '\r' && next == some '\n')

/-- A character of basic text that follows no escape: what it stands for, and the mode after it. -/
def plainStep (multiline : Bool) (c : Char) (next : Option Char) : Option (List Char × Mode) :=
  if c = '\\' then some ([], .escaped)
  else if isPlain c || (multiline && isBreak c next) then some ([c], .plain)
  else none

/-- A character of basic text: what it stands for, and the mode after it. -/
def step (multiline : Bool) (mode : Mode) (c : Char) (next : Option Char) :
    Option (List Char × Mode) :=
  match mode with
  | .plain => plainStep multiline c next
  | .escaped =>
    match escapes.lookup c, hexLengths.lookup c with
    | some meaning, _ => some ([meaning], .plain)
    | none, some digits => some ([], .number (digits - 1) 0)
    | none, none =>
      if multiline && (c == ' ' || c == '\t') then some ([], .folding false)
      else if multiline && isBreak c next then some ([], .folding true)
      else none
  | .number owed value => do
    let value := value * 16 + (← hexValue? c)
    match owed with
    | owed + 1 => some ([], .number owed value)
    | 0 => if value.isValidChar then some ([Char.ofNat value], .plain) else none
  | .folding broken =>
    if c == ' ' || c == '\t' then some ([], .folding broken)
    else if isBreak c next then some ([], .folding true)
    else if broken then plainStep multiline c next
    else none

/-- What basic text stands for. -/
def unescape (multiline : Bool) : Mode → List Char → Option (List Char)
  | .plain, [] => some []
  | .folding true, [] => some []
  | _, [] => none
  | mode, c :: rest => do
    let (meaning, mode) ← step multiline mode c rest.head?
    let more ← unescape multiline mode rest
    pure (meaning ++ more)

/-- Literal text stands for itself, if it has no character that must not stand in it. -/
def literal (multiline : Bool) : List Char → Option (List Char)
  | [] => some []
  | c :: rest =>
    if isPlain c || (multiline && isBreak c rest.head?) then (literal multiline rest).map (c :: ·)
    else none

/-- Reads a text on one line, its opening quote having been read. -/
def readLine (quote : Char) : Reader String := fun text => do
  let (raw, rest) ← closeLine quote (quote == '"') false text
  let meaning ← if quote = '"' then unescape false .plain raw else literal false raw
  pure (String.ofList meaning, rest)

/-- Reads a text over several lines, its opening quotes having been read. -/
def readLines (quote : Char) : Reader String := fun text => do
  let (raw, rest) ← closeLines quote (quote == '"') 0 false (dropFirstBreak text)
  let meaning ← if quote = '"' then unescape true .plain raw else literal true raw
  pure (String.ofList meaning, rest)

/-- Reads a text of any form; the text starts with `quote`. -/
def read (quote : Char) : Reader String := fun text =>
  if text.take 3 = [quote, quote, quote] then readLines quote (text.drop 3)
  else if text.take 1 = [quote] then readLine quote (text.drop 1)
  else none

example : (read '"' "\"a\\t\\u00e9\" x".toList).map (·.1) = some "a\té" := by decide
example : (read '\'' "'''a''b'''''c".toList).map (·.1) = some "a''b''" := by decide

end TemplateCompiler.Toml.Quoted
