import TemplateCompiler.Text.Blank

/-!
# Quotes

One automaton says where text is quoted: a quote opens when none is open, and only the same quote
closes it. Splitting and searching look for a delimiter outside quotes.
-/
namespace TemplateCompiler.Text

/-- The quote that is open after reading `c`, given the one that was open before it. -/
def quoteAfter {α : Type} [BEq α] (isQuote : α → Bool) (current : Option α) (c : α) : Option α :=
  match current with
  | some q => if c == q then none else some q
  | none => if isQuote c then some c else none

/-- A single or double quote. -/
def isQuote (c : Char) : Bool :=
  c == '\'' || c == '"'

/-- Puts `c` in front of the first piece. -/
def consFirst (c : Char) : List (List Char) → List (List Char)
  | [] => [[c]]
  | piece :: more => (c :: piece) :: more

/-- Splits at each `delimiter` that stands outside quotes, `current` being the quote open now. -/
def splitUnquotedFrom (delimiter : Char) : Option Char → List Char → List (List Char)
  | _, [] => [[]]
  | current, c :: rest =>
    if current.isNone && !isQuote c && c == delimiter then
      [] :: splitUnquotedFrom delimiter none rest
    else
      consFirst c (splitUnquotedFrom delimiter (quoteAfter isQuote current c) rest)

/-- Splits at each `delimiter` outside quotes. -/
def splitUnquoted (delimiter : Char) (text : List Char) : List (List Char) :=
  splitUnquotedFrom delimiter none text

/-- How many characters stand before the first `delimiter` outside quotes, `current` being the
quote open now. -/
def findUnquotedFrom (delimiter : Char) : Option Char → List Char → Option Nat
  | _, [] => none
  | current, c :: rest =>
    if current.isNone && !isQuote c && c == delimiter then some 0
    else (findUnquotedFrom delimiter (quoteAfter isQuote current c) rest).map (· + 1)

/-- The position of the first `delimiter` outside quotes. -/
def findUnquoted? (delimiter : Char) (text : List Char) : Option Nat :=
  findUnquotedFrom delimiter none text

/-- A text that begins and ends with the same quote, the two being different characters of it. -/
def isQuoted (text : List Char) : Bool :=
  2 ≤ text.length &&
    match text.head? with
    | some q => isQuote q && text.getLast? == some q
    | none => false

/-- What stands between the first and the last character. -/
def inner (text : List Char) : List Char :=
  text.tail.dropLast

end TemplateCompiler.Text
