import TemplateCompiler.Toml.Value

/-!
# Scalars of TOML

The values that are written without quotes: booleans, integers, floats, dates and times. `scalar?`
reads a whole word.
-/
namespace TemplateCompiler.Toml.Scalar

/-- Digits, of which any two may have one underscore between them. -/
def digits? (isDigit : Char → Bool) (text : List Char) : Option (List Char) :=
  let runs := text.splitOn '_'
  if runs.all fun run => !run.isEmpty && run.all isDigit then some runs.flatten else none

/-- The value of a digit, which may be a letter. -/
def digitValue (c : Char) : Nat :=
  if c.isDigit then c.toNat - '0'.toNat
  else if c.isLower then c.toNat - 'a'.toNat + 10
  else c.toNat - 'A'.toNat + 10

/-- The number that digits of the given base stand for. -/
def ofDigits (base : Nat) (digits : List Char) : Nat :=
  digits.foldl (fun n c => n * base + digitValue c) 0

/-- A digit of the given base. -/
def isDigitOf (base : Nat) (c : Char) : Bool :=
  c.isAlphanum && digitValue c < base

/-- Takes a sign off, if there is one; it says whether the number is negative. -/
def takeSign : List Char → Bool × List Char
  | '-' :: rest => (true, rest)
  | '+' :: rest => (false, rest)
  | text => (false, text)

/-- Decimal digits that do not start with a needless zero. -/
def decimal? (text : List Char) : Option (List Char) := do
  let digits ← digits? Char.isDigit text
  if digits.head? = some '0' ∧ digits ≠ ['0'] then none else some digits

/-- An integer of the format's range. -/
def inRange? (n : Int) : Option Value :=
  if Int64.minValue.toInt ≤ n ∧ n ≤ Int64.maxValue.toInt then some (.integer n) else none

/-- An integer; only a decimal one may have a sign. -/
def integer? (text : List Char) : Option Value :=
  let based (base : Nat) (digits : List Char) : Option Value := do
    inRange? (ofDigits base (← digits? (isDigitOf base) digits))
  match text with
  | '0' :: 'x' :: rest => based 16 rest
  | '0' :: 'o' :: rest => based 8 rest
  | '0' :: 'b' :: rest => based 2 rest
  | _ => do
    let (negative, rest) := takeSign text
    let n : Int := ofDigits 10 (← decimal? rest)
    inRange? (if negative then -n else n)

/-- An exponent after its letter. -/
def exponent? (text : List Char) : Option Int := do
  let (negative, rest) := takeSign text
  let n : Int := ofDigits 10 (← digits? Char.isDigit rest)
  pure (if negative then -n else n)

/-- A float has a fraction, an exponent or both; one that is too great for the format is none. -/
def finite? (negative : Bool) (text : List Char) : Option Value := do
  let isMark (c : Char) := c == 'e' || c == 'E'
  let significand := text.takeWhile (!isMark ·)
  let power := text.dropWhile (!isMark ·)
  let whole := significand.takeWhile (· != '.')
  let fraction := significand.dropWhile (· != '.')
  if power.isEmpty && fraction.isEmpty then none
  else
    let wholeDigits ← decimal? whole
    let fractionDigits ← if fraction.isEmpty then some [] else digits? Char.isDigit fraction.tail
    let exponent ← if power.isEmpty then some 0 else exponent? power.tail
    let magnitude ← Number.Magnitude.ofDecimal? (ofDigits 10 (wholeDigits ++ fractionDigits))
      (exponent - fractionDigits.length)
    pure (.float (.finite negative magnitude))

/-- A float, or one of the words for what is no finite number. -/
def float? (text : List Char) : Option Value :=
  let (negative, rest) := takeSign text
  if rest = ['i', 'n', 'f'] then some (.float (.infinite negative))
  else if rest = ['n', 'a', 'n'] then some (.float .notANumber)
  else finite? negative rest

/-! ### Dates and times -/

/-- Exactly `n` digits off the front of a text. -/
def number? (n : Nat) (text : List Char) : Option (Nat × List Char) :=
  let digits := text.take n
  if digits.length = n ∧ digits.all Char.isDigit then some (ofDigits 10 digits, text.drop n)
  else none

/-- The given character off the front of a text. -/
def char? (c : Char) : List Char → Option (List Char)
  | d :: rest => if d = c then some rest else none
  | [] => none

/-- `n` with zeros before it, so that it has at least `width` digits. -/
def padded (width n : Nat) : List Char :=
  let digits := Nat.toDigits 10 n
  List.replicate (width - digits.length) '0' ++ digits

/-- Whether a year has a leap day. -/
def isLeapYear (year : Nat) : Bool :=
  year % 4 == 0 && (year % 100 != 0 || year % 400 == 0)

/-- How many days a month has. -/
def daysIn (year month : Nat) : Nat :=
  if month = 2 then (if isLeapYear year then 29 else 28)
  else if month ∈ [4, 6, 9, 11] then 30
  else 31

/-- A date that exists, in its uniform spelling. -/
def date? (text : List Char) : Option (List Char × List Char) := do
  let (year, text) ← number? 4 text
  let (month, text) ← number? 2 (← char? '-' text)
  let (day, text) ← number? 2 (← char? '-' text)
  if 1 ≤ month ∧ month ≤ 12 ∧ 1 ≤ day ∧ day ≤ daysIn year month then
    some (padded 4 year ++ ['-'] ++ padded 2 month ++ ['-'] ++ padded 2 day, text)
  else none

/-- The fraction of a second after its point, to nine digits and without zeros at the end. -/
def fraction (digits : List Char) : List Char :=
  let kept := ((digits.take 9).reverse.dropWhile (· == '0')).reverse
  if kept.isEmpty then ['0'] else kept

/-- The seconds of a time, which may be left out. -/
def seconds? (text : List Char) : Option (List Char × List Char) :=
  match text with
  | ':' :: rest => do
    let (second, rest) ← number? 2 rest
    if 60 < second then none
    else
      match rest with
      | '.' :: rest =>
        let digits := rest.takeWhile Char.isDigit
        if digits.isEmpty then none
        else
          some ([':'] ++ padded 2 second ++ ['.'] ++ fraction digits, rest.dropWhile Char.isDigit)
      | _ => some ([':'] ++ padded 2 second, rest)
  | _ => some ([], text)

/-- A time of day, in its uniform spelling. -/
def time? (text : List Char) : Option (List Char × List Char) := do
  let (hour, text) ← number? 2 text
  let (minute, text) ← number? 2 (← char? ':' text)
  let (seconds, text) ← seconds? text
  if hour ≤ 23 ∧ minute ≤ 59 then
    some (padded 2 hour ++ [':'] ++ padded 2 minute ++ seconds, text)
  else none

/-- What a time is ahead of or behind universal time, in its uniform spelling. -/
def offset? (text : List Char) : Option (List Char) :=
  match text with
  | [] => some []
  | ['Z'] | ['z'] => some ['Z']
  | sign :: rest => do
    let (hour, rest) ← number? 2 rest
    let (minute, rest) ← number? 2 (← char? ':' rest)
    if (sign = '+' ∨ sign = '-') ∧ hour ≤ 23 ∧ minute ≤ 59 ∧ rest.isEmpty then
      let sign := if hour = 0 ∧ minute = 0 then '+' else sign
      some ([sign] ++ padded 2 hour ++ [':'] ++ padded 2 minute)
    else none

/-- A date, a time, or both with or without an offset, in its uniform spelling. -/
def moment? (text : List Char) : Option Value :=
  match date? text with
  | some (date, []) => some (.moment (String.ofList date))
  | some (date, mark :: rest) => do
    let (time, rest) ← time? rest
    let offset ← offset? rest
    if mark = 'T' ∨ mark = 't' ∨ mark = ' ' then
      some (.moment (String.ofList (date ++ ['T'] ++ time ++ offset)))
    else none
  | none =>
    match time? text with
    | some (time, []) => some (.moment (String.ofList time))
    | _ => none

/-! ### Words -/

/-- The value of a whole word. -/
def scalar? (word : List Char) : Option Value :=
  if word = "true".toList then some (.boolean true)
  else if word = "false".toList then some (.boolean false)
  else ((integer? word).or (float? word)).or (moment? word)

/-- A character that a word may hold. -/
def isWordChar (c : Char) : Bool :=
  c.isAlphanum || c == '_' || c == '+' || c == '-' || c == '.' || c == ':'

/-- Reads a word. A date may be followed by one space and a time. -/
def read : Reader Value := fun text => do
  let word := text.takeWhile isWordChar
  let rest := text.dropWhile isWordChar
  match rest with
  | ' ' :: next :: more =>
    if next.isDigit && (date? word).any (·.2.isEmpty) then
      let time := (next :: more).takeWhile isWordChar
      pure (← scalar? (word ++ [' '] ++ time), (next :: more).dropWhile isWordChar)
    else pure (← scalar? word, rest)
  | _ => pure (← scalar? word, rest)

end TemplateCompiler.Toml.Scalar
