import FieldAudit.Text.Basic

/-!
Hexadecimal numerals: writing a number with a least count of digits, reading digits, and the code
points that escapes of four digits name alone or as a surrogate pair.
-/

set_option autoImplicit false

namespace FieldAudit.Text

/-- The digit for a value below sixteen, in lower case. -/
def hexDigit (n : Nat) : Char :=
  if n < 10 then Char.ofNat (48 + n) else Char.ofNat (87 + n)

/-- The digits of `n`, least significant first, at most `fuel` of them. -/
def hexDigitsReversed : Nat → Nat → List Char
  | 0, _ => []
  | fuel + 1, n => if n = 0 then [] else hexDigit (n % 16) :: hexDigitsReversed fuel (n / 16)

/-- The digits of `n`, padded with zeros to at least `width` of them. -/
def hexDigits (width n : Nat) : List Char :=
  let digits := (hexDigitsReversed (n + 1) n).reverse
  List.replicate (width - digits.length) '0' ++ digits

/-- `n` in lower-case hexadecimal, with at least `width` digits. -/
def hex (width n : Nat) : Text := ofChars (hexDigits width n)

/-- `n` in upper-case hexadecimal, with at least `width` digits. -/
def hexUpper (width n : Nat) : Text := ofChars ((hexDigits width n).map Char.toUpper)

/-- The value of a hexadecimal digit of either case. -/
def hexValue? (p : Point) : Option Nat :=
  if '0' ≤ p ∧ p ≤ '9' then some (p.code - 48)
  else if 'a' ≤ p ∧ p ≤ 'f' then some (p.code - 87)
  else if 'A' ≤ p ∧ p ≤ 'F' then some (p.code - 55)
  else none

/-- The value of four hexadecimal digits at the front of a text. -/
def hexQuad? : Text → Option Nat
  | a :: b :: c :: d :: _ => do
    let a ← hexValue? a
    let b ← hexValue? b
    let c ← hexValue? c
    let d ← hexValue? d
    return ((a * 16 + b) * 16 + c) * 16 + d
  | _ => none

/-- Whether a UTF-16 unit opens a surrogate pair. -/
def isHighSurrogate (n : Nat) : Bool := 0xD800 ≤ n && n < 0xDC00

/-- Whether a UTF-16 unit closes a surrogate pair. -/
def isLowSurrogate (n : Nat) : Bool := 0xDC00 ≤ n && n < 0xE000

/-- The character of a surrogate pair. -/
def pairChar (high low : Nat) : Char :=
  Char.ofNat (0x10000 + (high - 0xD800) * 0x400 + (low - 0xDC00))

/-- Whether a number is the code point of a character. -/
def isScalar (n : Nat) : Bool := n < 0xD800 || (0xE000 ≤ n && n < 0x110000)

end FieldAudit.Text
