/-! # Binary floating-point patterns

    A floating-point number is kept as its bit pattern. A `Format` gives the
    widths of the exponent and mantissa fields; one more bit in front of them
    is the sign. `Format.parts` reads a pattern as a number m · 2^q, an
    infinity or no number at all, and `Format.same` is the comparison of
    numbers: a pattern that is no number differs from everything, itself
    included, and the two zeros are one number.
-/

namespace CilLift.Number

/-- Field widths of a floating-point format. -/
structure Format where
  exponentBits : Nat
  mantissaBits : Nat
  deriving DecidableEq, Repr

namespace Format

/-- The 32-bit format. -/
def single : Format := ⟨8, 23⟩

/-- The 64-bit format. -/
def double : Format := ⟨11, 52⟩

/-- What a bit pattern stands for. -/
inductive Parts where
  | notNumber
  | infinite (negative : Bool)
  /-- The number `mantissa * 2 ^ exponent`. `narrow` tells that the next
      smaller number is only half as far away as the next larger one. -/
  | finite (negative : Bool) (mantissa : Nat) (exponent : Int) (narrow : Bool)
  deriving DecidableEq, Repr

variable (f : Format)

/-- The pattern without its sign bit. -/
def magnitude (bits : Nat) : Nat :=
  bits % Nat.pow 2 (f.exponentBits + f.mantissaBits)

/-- The sign bit. -/
def negative (bits : Nat) : Bool :=
  bits / Nat.pow 2 (f.exponentBits + f.mantissaBits) % 2 = 1

/-- The exponent field as it is stored. -/
def exponentField (bits : Nat) : Nat :=
  f.magnitude bits / Nat.pow 2 f.mantissaBits

/-- The mantissa field as it is stored, without the implied leading bit. -/
def mantissaField (bits : Nat) : Nat :=
  bits % Nat.pow 2 f.mantissaBits

/-- The stored exponent of the infinities and of the patterns that are no
    number: all bits set. -/
def topExponent : Nat :=
  Nat.pow 2 f.exponentBits - 1

/-- The exponent of the last mantissa bit of the smallest numbers. -/
def leastExponent : Int :=
  2 - (Nat.pow 2 (f.exponentBits - 1) : Nat) - (f.mantissaBits : Int)

/-- Whether the pattern is no number. -/
def isNotNumber (bits : Nat) : Bool :=
  f.exponentField bits = f.topExponent && f.mantissaField bits != 0

/-- Reads a pattern. A stored exponent of zero has no implied leading bit and
    shares the exponent of stored exponent one. -/
def parts (bits : Nat) : Parts :=
  let sign := f.negative bits
  let e := f.exponentField bits
  let m := f.mantissaField bits
  if e = f.topExponent then
    if m = 0 then .infinite sign else .notNumber
  else if e = 0 then
    .finite sign m f.leastExponent false
  else
    .finite sign (Nat.pow 2 f.mantissaBits + m) (f.leastExponent + (e - 1)) (m = 0 && e != 1)

/-- Equality as numbers. -/
def same (a b : Nat) : Bool :=
  !f.isNotNumber a && !f.isNotNumber b &&
    (a == b || (f.magnitude a == 0 && f.magnitude b == 0))

theorem same_comm (a b : Nat) : f.same a b = f.same b a := by
  simp only [same, Bool.and_comm (!f.isNotNumber a), Bool.beq_comm (a := a),
    Bool.and_comm (f.magnitude a == 0)]

theorem same_self (a : Nat) : f.same a a = !f.isNotNumber a := by
  simp [same]

end Format

end CilLift.Number
