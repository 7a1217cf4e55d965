import FieldAudit.Decimal.Binary64

/-!
Shortest decimal text. Of the decimals that read back as the number, the one with the fewest digits
is written, of those the nearest to the number, and of two as near the one with the even last digit.
It is written positionally when the decimal exponent lies between -4 and 15, with an exponent
otherwise.

`text` is how such a number is written by `json.dump` and in messages.
-/

set_option autoImplicit false

namespace FieldAudit.Decimal

/-- Decimal digits and the power of ten of the last one. -/
structure Digits where
  digits : Nat
  power : Int
  deriving DecidableEq, Repr

/-- The reals that round to a number, as fractions over one denominator: the number itself, the
lower and the upper end, and whether the ends belong. -/
structure Interval where
  value : Nat
  lower : Nat
  upper : Nat
  denominator : Nat
  closed : Bool

/-- The interval of a positive finite number. Below a power of two the neighbours lie half as
far. -/
def interval (mantissa : Nat) (exponent : Int) : Interval :=
  let up := twoTo exponent.toNat
  let down := twoTo (-exponent).toNat
  let near := mantissa = twoTo 52 ∧ -1074 < exponent
  { value := 4 * mantissa * up
    lower := (if near then 4 * mantissa - 1 else 4 * mantissa - 2) * up
    upper := (4 * mantissa + 2) * up
    denominator := 4 * down
    closed := mantissa % 2 = 0 }

/-- Whether `n * 10 ^ power` lies in the interval. -/
def Interval.holds (i : Interval) (n : Nat) (power : Int) : Bool :=
  let point := n * tenTo power.toNat * i.denominator
  let scale := tenTo (-power).toNat
  if i.closed then i.lower * scale ≤ point && point ≤ i.upper * scale
  else i.lower * scale < point && point < i.upper * scale

/-- The two neighbours of the value on the grid of `10 ^ power`: the one below or at it, and how far
it is, in units of the grid over `10 ^ scale * denominator`. -/
def Interval.floorOn (i : Interval) (power : Int) : Nat × Nat × Nat :=
  let numerator := i.value * tenTo (-power).toNat
  let denominator := i.denominator * tenTo power.toNat
  (numerator / denominator, numerator % denominator, denominator)

/-- The best decimal on one grid that lies in the interval. -/
def Interval.onGrid (i : Interval) (power : Int) : Option Nat :=
  let (floor, remainder, denominator) := i.floorOn power
  let low := i.holds floor power && 0 < floor
  let high := i.holds (floor + 1) power
  if low && high then
    if 2 * remainder < denominator then some floor
    else if denominator < 2 * remainder then some (floor + 1)
    else if floor % 2 = 0 then some floor else some (floor + 1)
  else if low then some floor
  else if high then some (floor + 1)
  else none

/-- How many decimal digits a natural number has; zero has none. -/
def digitCount (n : Nat) : Nat := if n = 0 then 0 else (Nat.toDigits 10 n).length

/-- The decimal exponent of a positive fraction: the power of ten of its leading digit. -/
def leadingPower (numerator denominator : Nat) : Int :=
  if denominator ≤ numerator then (digitCount (numerator / denominator) : Int) - 1
  else
    let guess := digitCount (denominator / numerator)
    if denominator ≤ numerator * tenTo (guess - 1) then 1 - (guess : Int) else - (guess : Int)

/-- The first grid, from coarse to fine, that has a point in the interval. -/
def Interval.search (i : Interval) (leading : Int) : Nat → Nat → Digits
  | 0, tried => ⟨(i.floorOn (leading - tried)).1, leading - tried⟩
  | fuel + 1, tried =>
    match i.onGrid (leading - tried) with
    | some n => ⟨n, leading - tried⟩
    | none => i.search leading fuel (tried + 1)

/-- The shortest digits that read back as the positive number `mantissa * 2 ^ exponent`. -/
def shortest (mantissa : Nat) (exponent : Int) : Digits :=
  let i := interval mantissa exponent
  i.search (leadingPower i.value i.denominator) 17 0

/-- The digits of a number without zeros at its end, given most significant digit first. -/
def stripZeros (cs : List Char) : List Char := (cs.reverse.dropWhile (· == '0')).reverse

/-- The decimal digits of a natural number. -/
def digitChars (n : Nat) : List Char := Nat.toDigits 10 n

/-- A positive decimal with its point: digits without zeros at the end, the first one standing
before the power `leading` of ten. -/
def layOut (digits : List Char) (leading : Int) : List Char :=
  let sign := if leading < 0 then '-' else '+'
  let size := leading.natAbs
  if -4 ≤ leading ∧ leading < 16 then
    if leading < 0 then '0' :: '.' :: (List.replicate (size - 1) '0' ++ digits)
    else
      let whole := digits.take (size + 1)
      let fraction := digits.drop (size + 1)
      whole ++ List.replicate (size + 1 - whole.length) '0' ++
        ('.' :: (if fraction.isEmpty then ['0'] else fraction))
  else
    let power := digitChars size
    digits.take 1 ++ (if digits.length ≤ 1 then [] else '.' :: digits.drop 1) ++
      ('e' :: sign :: (List.replicate (2 - power.length) '0' ++ power))

/-- The words for the numbers that have no digits. -/
structure SpecialWords where
  infinity : String
  nan : String

/-- The shortest text of a number, with the given words for infinity and the undefined number. -/
def text (words : SpecialWords) : Binary64 → String
  | .nan => words.nan
  | .infinite negative => (if negative then "-" else "") ++ words.infinity
  | .finite negative mantissa exponent =>
    let body :=
      if mantissa = 0 then ['0', '.', '0']
      else
        let s := shortest mantissa exponent
        let all := digitChars s.digits
        layOut (stripZeros all) (s.power + all.length - 1)
    (if negative then "-" else "") ++ String.ofList body

end FieldAudit.Decimal
