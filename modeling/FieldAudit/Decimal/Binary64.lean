/-!
Binary floating-point numbers of 64 bits, as exact values: a sign, a mantissa below `2 ^ 53` and a
power of two. `ofDecimal` reads a decimal numeral as the nearest number, a half going to the even
mantissa, in exact arithmetic on natural numbers.

`ofDecimal` is how `json.load` reads a number with a fraction or a power of ten.
-/

set_option autoImplicit false

namespace FieldAudit.Decimal

/-- A power of two. -/
def twoTo (exponent : Nat) : Nat := Nat.pow 2 exponent

/-- A power of ten. -/
def tenTo (exponent : Nat) : Nat := Nat.pow 10 exponent

/-- A 64-bit binary floating-point number. A finite one is `mantissa * 2 ^ exponent`, its mantissa
at least `2 ^ 52` unless the exponent is the least one, -1074. -/
inductive Binary64
  | finite (negative : Bool) (mantissa : Nat) (exponent : Int)
  | infinite (negative : Bool)
  | nan
  deriving DecidableEq, Repr, Inhabited

namespace Binary64

/-- Whether the number is a zero of either sign. -/
def isZero : Binary64 → Bool
  | .finite _ mantissa _ => mantissa == 0
  | _ => false

/-- `numerator / denominator` rounded to the nearest natural number, a half to the even one. -/
def roundHalfEven (numerator denominator : Nat) : Nat :=
  let floor := numerator / denominator
  let twice := 2 * (numerator % denominator)
  if twice < denominator then floor
  else if denominator < twice then floor + 1
  else if floor % 2 = 0 then floor else floor + 1

/-- `value * 2 ^ (-exponent)` as a fraction, for the fraction `numerator / denominator`. -/
def scaleDown (numerator denominator : Nat) (exponent : Int) : Nat × Nat :=
  if 0 ≤ exponent then (numerator, denominator * twoTo exponent.toNat)
  else (numerator * twoTo (-exponent).toNat, denominator)

/-- The nearest number to a positive fraction. The exponent is the one that leaves 53 binary digits
before the point, and never below -1074; rounding up to `2 ^ 53` moves it by one. -/
def ofFraction (negative : Bool) (numerator denominator : Nat) : Binary64 :=
  let estimate : Int := (Nat.log2 numerator : Int) - Nat.log2 denominator - 52
  let scaled := scaleDown numerator denominator estimate
  let fitted : Int := if scaled.1 < scaled.2 * twoTo 52 then estimate - 1 else estimate
  let exponent : Int := if fitted < -1074 then -1074 else fitted
  let fraction := scaleDown numerator denominator exponent
  let mantissa := roundHalfEven fraction.1 fraction.2
  let number : Nat × Int :=
    if mantissa = twoTo 53 then (twoTo 52, exponent + 1) else (mantissa, exponent)
  if 971 < number.2 then .infinite negative else .finite negative number.1 number.2

/-- The nearest number to `digits * 10 ^ power`, where `digits` has `count` decimal digits. Beyond
the largest and below the smallest number no power of ten is worked out. -/
def ofDecimal (negative : Bool) (digits count : Nat) (power : Int) : Binary64 :=
  if digits = 0 then .finite negative 0 (-1074)
  else if 400 < power + count then .infinite negative
  else if power + count < -400 then .finite negative 0 (-1074)
  else if 0 ≤ power then ofFraction negative (digits * tenTo power.toNat) 1
  else ofFraction negative digits (tenTo (-power).toNat)

end Binary64

end FieldAudit.Decimal
