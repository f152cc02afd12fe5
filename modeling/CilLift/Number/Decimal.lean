import CilLift.Number.Binary

/-! # Decimal text of floating-point numbers

    A finite number is written with the fewest decimal digits that still read
    back as the same number of its format. The reals that read back form an
    interval around the number, reaching half way to its two neighbours; its
    ends belong to it exactly when the mantissa is even. `Interval.place` is
    the coarsest power of ten with a multiple inside the interval, and the
    number is written as the nearest such multiple, the larger one if two are
    equally near.

    The text is always positional: there is no exponent, and an integer has no
    decimal point.
-/

namespace CilLift.Number

/-- The decimal number `coefficient * 10 ^ place`. -/
structure Decimal where
  coefficient : Nat
  place : Int
  deriving DecidableEq, Repr

/-- The reals between `low / denominator` and `high / denominator`, with or
    without the two ends, around the number `value / denominator`. -/
structure Interval where
  low : Nat
  value : Nat
  high : Nat
  denominator : Nat
  closed : Bool
  deriving DecidableEq, Repr

namespace Interval

/-- Every real that reads back as `mantissa * 2 ^ exponent`. All three points
    are written in quarters of the last mantissa bit. -/
def around (mantissa : Nat) (exponent : Int) (narrow : Bool) : Interval :=
  -- Of `scale` and `denominator` at least one is 1.
  let scale := Nat.pow 2 (exponent - 2).toNat
  { low := (4 * mantissa - if narrow then 1 else 2) * scale
    value := 4 * mantissa * scale
    high := (4 * mantissa + 2) * scale
    denominator := Nat.pow 2 (2 - exponent).toNat
    closed := mantissa % 2 = 0 }

variable (i : Interval)

/-- The factor on `low`, `value` and `high` for a grid of step `10 ^ place`. -/
def factor (place : Int) : Nat :=
  Nat.pow 10 (-place).toNat

/-- The step `10 ^ place` in the same units as the points times `factor`. -/
def step (place : Int) : Nat :=
  i.denominator * Nat.pow 10 place.toNat

/-- Whether `coefficient * 10 ^ place` lies in the interval. -/
def contains (d : Decimal) : Bool :=
  let x := d.coefficient * i.step d.place
  let low := i.low * factor d.place
  let high := i.high * factor d.place
  if i.closed then low ≤ x && x ≤ high else low < x && x < high

/-- The greatest multiple of `10 ^ place` that is at most the value. -/
def below (place : Int) : Decimal :=
  ⟨i.value * factor place / i.step place, place⟩

/-- The multiple of `10 ^ place` after `below`. -/
def above (place : Int) : Decimal :=
  ⟨i.value * factor place / i.step place + 1, place⟩

/-- Whether `below` is strictly nearer to the value than `above`. -/
def nearerBelow (place : Int) : Bool :=
  2 * (i.value * factor place % i.step place) < i.step place

/-- The multiple of `10 ^ place` in the interval that is nearest to the value,
    if there is one. -/
def pick? (place : Int) : Option Decimal :=
  let low := i.below place
  let high := i.above place
  match i.contains low, i.contains high with
  | true, true => some (if i.nearerBelow place then low else high)
  | true, false => some low
  | false, true => some high
  | false, false => none

/-- Tries `place`, then the next finer one, `tries` times in all. -/
def search : Nat → Int → Option Decimal
  | 0, _ => none
  | tries + 1, place =>
    match i.pick? place with
    | some d => some d
    | none => search tries (place - 1)

/-- A power of ten above the whole interval. -/
def coarsest : Int :=
  (Nat.toDigits 10 (i.high / i.denominator)).length

/-- The decimal that is written for the interval's value. The value itself is
    a multiple of one over its denominator, a power of two, so the search ends
    at the latest where the step is that power of ten. -/
def shortest : Decimal :=
  (i.search (i.coarsest.toNat + i.denominator.log2 + 1) i.coarsest).getD ⟨0, 0⟩

end Interval

/-- Positional text: the digits of an integer, or the digits before and after
    a decimal point with at least one digit before it. -/
def Decimal.text (d : Decimal) : String :=
  if 0 ≤ d.place then
    toString (d.coefficient * Nat.pow 10 d.place.toNat)
  else
    let count := (-d.place).toNat
    let digits := Nat.toDigits 10 d.coefficient
    let filled := List.replicate (count + 1 - digits.length) '0' ++ digits
    String.ofList (filled.take (filled.length - count)) ++ "." ++
      String.ofList (filled.drop (filled.length - count))

/-- Text of a floating-point number given by its bit pattern. A minus sign is
    also written in front of zero. -/
def Format.text (f : Format) (bits : Nat) : String :=
  match f.parts bits with
  | .notNumber => "NaN"
  | .infinite negative => (if negative then "-" else "") ++ "inf"
  | .finite negative mantissa exponent narrow =>
    (if negative then "-" else "") ++
      if mantissa = 0 then "0"
      else (Interval.around mantissa exponent narrow).shortest.text

end CilLift.Number
