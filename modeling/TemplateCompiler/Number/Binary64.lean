/-!
# Binary floating-point numbers

Numbers of the 64-bit binary format, their rounding from a decimal numeral, and their shortest
decimal text. All of it is exact arithmetic on natural numbers: a finite number is a mantissa times
a power of two, and `shortest` gives the fewest digits that round back to it.
-/
namespace TemplateCompiler.Number

/-- The magnitude `mantissa * 2 ^ exponent`. -/
structure Magnitude where
  mantissa : Nat
  exponent : Int
  deriving DecidableEq, Repr

/-- A number of the 64-bit format. -/
inductive Binary64 where
  | finite (negative : Bool) (magnitude : Magnitude)
  | infinite (negative : Bool)
  | notANumber
  deriving DecidableEq, Repr

namespace Magnitude

/-- The exponent of the least positive magnitude. -/
def leastExponent : Int := -1074

/-- The exponent of the greatest magnitudes. -/
def greatestExponent : Int := 971

/-- `n * 2 ^ e` as a fraction. -/
def scale2 (n : Nat) (e : Int) : Nat × Nat :=
  (n * Nat.pow 2 e.toNat, Nat.pow 2 (-e).toNat)

/-- `n * 10 ^ e` as a fraction. -/
def scale10 (n : Nat) (e : Int) : Nat × Nat :=
  (n * Nat.pow 10 e.toNat, Nat.pow 10 (-e).toNat)

/-- The quotient rounded to the nearest natural number, a half to the even one. -/
def roundDiv (num den : Nat) : Nat :=
  let q := num / den
  let r := num % den
  if den < 2 * r ∨ (den = 2 * r ∧ q % 2 = 1) then q + 1 else q

/-- The exponent with which the mantissa of `num / den` has 53 binary digits, but not less than the
least exponent. -/
def exponentFor (num den : Nat) : Int :=
  let log := (num.log2 : Int) - den.log2
  let (a, b) := scale2 den log
  max leastExponent (if num * b < a then log - 53 else log - 52)

/-- The magnitude nearest to `num / den`; there is none if it is too great. -/
def ofFraction? (num den : Nat) : Option Magnitude :=
  if num = 0 then some ⟨0, leastExponent⟩
  else
    let exponent := exponentFor num den
    let (a, b) := scale2 den exponent
    let mantissa := roundDiv (num * b) a
    let m : Magnitude :=
      if mantissa = Nat.pow 2 53 then ⟨Nat.pow 2 52, exponent + 1⟩ else ⟨mantissa, exponent⟩
    if greatestExponent < m.exponent then none else some m

/-- The magnitude nearest to `digits * 10 ^ exponent`. Exponents far outside of the format are
decided by the number of digits. -/
def ofDecimal? (digits : Nat) (exponent : Int) : Option Magnitude :=
  let size := (Nat.toDigits 10 digits).length + exponent
  if digits = 0 ∨ size < -400 then some ⟨0, leastExponent⟩
  else if 400 < size then none
  else
    let (num, den) := scale10 digits exponent
    ofFraction? num den

/-! ### Shortest text -/

/-- The ends of the interval that rounds to a magnitude, and the magnitude itself, in quarters of
its last place. Below a power of two the interval is narrower. -/
def interval (m : Magnitude) : Nat × Nat × Nat :=
  let low := if m.mantissa = Nat.pow 2 52 ∧ leastExponent < m.exponent then 1 else 2
  (4 * m.mantissa - low, 4 * m.mantissa, 4 * m.mantissa + 2)

/-- Of the two multiples of `10 ^ k` beside a magnitude those that round to it, the nearer one if
both do. -/
def onGrid? (m : Magnitude) (k : Int) : Option Nat :=
  let (low, value, high) := m.interval
  let (a, b) := scale2 1 (m.exponent - 2)
  let (c, d) := scale10 1 k
  -- in the unit `1 / (b * d)` a quarter is `unit` and a step of the grid is `step`
  let unit := a * d
  let step := c * b
  let inside (n : Nat) : Bool :=
    if m.mantissa % 2 = 0 then low * unit ≤ n * step && n * step ≤ high * unit
    else low * unit < n * step && n * step < high * unit
  let below := value * unit / step
  match inside below, inside (below + 1) with
  | true, true =>
    if value * unit - below * step ≤ (below + 1) * step - value * unit then some below
    else some (below + 1)
  | true, false => some below
  | false, true => some (below + 1)
  | false, false => none

/-- Tries finer and finer grids. -/
def shortestFrom (m : Magnitude) : Nat → Int → Nat × Int
  | 0, k => (0, k)
  | fuel + 1, k =>
    match m.onGrid? k with
    | some n => (n, k)
    | none => shortestFrom m fuel (k - 1)

/-- The fewest digits that round to a magnitude other than zero, and the power of ten they count.
Seventeen digits always do; the first grid tried is coarser than the magnitude. -/
def shortest (m : Magnitude) : Nat × Int :=
  let (num, den) := scale2 m.mantissa m.exponent
  let size := ((Nat.toDigits 10 num).length : Int) - (Nat.toDigits 10 den).length + 1
  shortestFrom m 24 size

/-- The digits of `n * 10 ^ k` without an exponent. -/
def positional (n : Nat) (k : Int) : String :=
  let digits := Nat.toDigits 10 n
  if 0 ≤ k then String.ofList (digits ++ List.replicate k.toNat '0')
  else
    let places := (-k).toNat
    let padded := List.replicate (places + 1 - digits.length) '0' ++ digits
    let whole := padded.length - places
    String.ofList (padded.take whole ++ ['.'] ++ padded.drop whole)

/-- The shortest text of a magnitude. -/
def render (m : Magnitude) : String :=
  if m.mantissa = 0 then "0"
  else
    let (n, k) := m.shortest
    positional n k

end Magnitude

namespace Binary64

/-- Whether a number is zero, of either sign. -/
def isZero : Binary64 → Bool
  | finite _ m => m.mantissa == 0
  | _ => false

/-- The sign of a number as it is written. -/
def signText (negative : Bool) : String :=
  if negative then "-" else ""

/-- The shortest text of a number, without an exponent. -/
def render : Binary64 → String
  | finite negative m => signText negative ++ m.render
  | infinite negative => signText negative ++ "inf"
  | notANumber => "NaN"

end Binary64

end TemplateCompiler.Number
