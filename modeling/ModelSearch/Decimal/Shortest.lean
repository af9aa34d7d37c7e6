/-!
# The shortest decimal that names a double

A finite double is a natural number of half-quarter units: its value, and the
two ends of the interval of reals that round to it, are multiples of a common
power of two.  `shortest` finds the coarsest decimal grid with a point in that
interval and takes the point nearest to the value.  `render` writes that point
positionally, never with an exponent.

All comparisons are exact comparisons of natural numbers.
-/

namespace ModelSearch.Decimal

/-- The reals `low`, `value` and `high`, each in units of `2 ^ exponent`.  The
ends belong to the interval exactly when `closed`. -/
structure Interval where
  low : Nat
  value : Nat
  high : Nat
  exponent : Int
  closed : Bool

/-- The rounding interval of a finite positive double, from its biased exponent
and its fraction field.  Below a power of two the neighbour is only half as far
away, except where the exponent can fall no further. -/
def Interval.ofFields (biased fraction : Nat) : Interval :=
  let mantissa := if biased = 0 then fraction else fraction + Nat.pow 2 52
  let exponent : Int := if biased = 0 then -1074 else (biased : Int) - 1075
  let below := if fraction = 0 ∧ 1 < biased then 1 else 2
  { low := 4 * mantissa - below
    value := 4 * mantissa
    high := 4 * mantissa + 2
    exponent := exponent - 2
    closed := mantissa % 2 == 0 }

/-- The number `coefficient * 10 ^ exponent`. -/
structure Scientific where
  coefficient : Nat
  exponent : Int
  deriving Repr, DecidableEq

namespace Interval

/-- Common multiples that put the unit of the interval and the grid of step
`10 ^ place` over one denominator: a unit becomes the first component, a grid
step the second. -/
def scales (interval : Interval) (place : Int) : Nat × Nat :=
  (Nat.pow 2 interval.exponent.toNat * Nat.pow 10 (-place).toNat,
    Nat.pow 2 (-interval.exponent).toNat * Nat.pow 10 place.toNat)

/-- Whether `coefficient * 10 ^ place` rounds to the value. -/
def admits (interval : Interval) (place : Int) (coefficient : Nat) : Bool :=
  let (unit, step) := interval.scales place
  let point := coefficient * step
  if interval.closed then
    interval.low * unit ≤ point && point ≤ interval.high * unit
  else
    interval.low * unit < point && point < interval.high * unit

/-- The point of the grid of step `10 ^ place` nearest to the value among the
two around it that round to it, if there is one; of two equally near points the
greater. -/
def nearest? (interval : Interval) (place : Int) : Option Nat :=
  let (unit, step) := interval.scales place
  let lower := interval.value * unit / step
  let twice := 2 * (interval.value * unit - lower * step)
  match interval.admits place lower, interval.admits place (lower + 1) with
  | true, true => some (if twice < step then lower else lower + 1)
  | true, false => some lower
  | false, true => some (lower + 1)
  | false, false => none

/-- Tries grids of step `10 ^ place`, `10 ^ (place - 1)` and so on; the last one
answers with the point below the value. -/
def descend (interval : Interval) : Nat → Int → Scientific
  | 0, place =>
      let (unit, step) := interval.scales place
      ⟨interval.value * unit / step, place⟩
  | tries + 1, place =>
      match interval.nearest? place with
      | some coefficient => ⟨coefficient, place⟩
      | none => interval.descend tries (place - 1)

/-- A place whose power of ten is above the interval: a bit is worth less than
0.30103 decimal digits. -/
def topPlace (interval : Interval) : Int :=
  (((Nat.log2 interval.high : Int) + 1 + interval.exponent) * 30103) / 100000 + 2

/-- The decimal of fewest digits in the interval, nearest to the value.
Seventeen digits always suffice, and the search starts at most three places
above the first of them. -/
def shortest (interval : Interval) : Scientific :=
  interval.descend 21 interval.topPlace

end Interval

/-- Positional notation: an integer has no point, and a number below one starts
with a zero. -/
def Scientific.render (number : Scientific) : String :=
  let digits := (Nat.toDigits 10 number.coefficient)
  let places := (-number.exponent).toNat
  if 0 ≤ number.exponent then
    String.ofList (digits ++ List.replicate number.exponent.toNat '0')
  else if digits.length ≤ places then
    String.ofList ('0' :: '.' :: List.replicate (places - digits.length) '0' ++ digits)
  else
    String.ofList (digits.take (digits.length - places) ++
      '.' :: digits.drop (digits.length - places))

/-- The text of a double: shortest digits that read back, no exponent, no point
on an integer, a sign also on negative zero. -/
def render (number : Float) : String :=
  let bits := number.toBits.toNat
  let biased := bits / Nat.pow 2 52 % Nat.pow 2 11
  let fraction := bits % Nat.pow 2 52
  let sign := if bits / Nat.pow 2 63 = 1 then "-" else ""
  if biased = 2047 then
    if fraction = 0 then sign ++ "inf" else "NaN"
  else if biased = 0 ∧ fraction = 0 then sign ++ "0"
  else sign ++ (Interval.ofFields biased fraction).shortest.render

end ModelSearch.Decimal
