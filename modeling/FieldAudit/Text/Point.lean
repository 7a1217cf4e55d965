/-!
Code points. A code point is a character, or half of a surrogate pair that stands on its own:
escapes of JSON can name such halves, which are no characters and have no UTF-8 form. Points are
ordered by their numbers. Main statement: a number below 0x110000 is the code of exactly one point.
-/

set_option autoImplicit false

namespace FieldAudit

/-- A character, or half of a surrogate pair; the half counts from U+D800. -/
inductive Point
  | char (c : Char)
  | half (n : Fin 0x800)
  deriving DecidableEq, Repr, Inhabited

namespace Point

/-- The number of a point. -/
def code : Point → Nat
  | .char c => c.toNat
  | .half n => 0xD800 + n.val

/-- The point of a number; the null character stands for numbers that belong to none. -/
def ofCode (n : Nat) : Point :=
  if h : 0xD800 ≤ n ∧ n < 0xE000 then .half ⟨n - 0xD800, by omega⟩ else .char (Char.ofNat n)

/-- Whether a point is half of a surrogate pair. -/
def isHalf : Point → Bool
  | .char _ => false
  | .half _ => true

/-- The character of a point, if it is one. -/
def char? : Point → Option Char
  | .char c => some c
  | .half _ => none

/-- The character of a point; a half counts as U+FFFD. -/
def repaired : Point → Char
  | .char c => c
  | .half _ => '\uFFFD'

instance : Coe Char Point := ⟨.char⟩

instance : LT Point := ⟨fun a b => a.code < b.code⟩

instance : LE Point := ⟨fun a b => a.code ≤ b.code⟩

instance (a b : Point) : Decidable (a < b) := inferInstanceAs (Decidable (a.code < b.code))

instance (a b : Point) : Decidable (a ≤ b) := inferInstanceAs (Decidable (a.code ≤ b.code))

theorem ofCode_code (p : Point) : ofCode p.code = p := by
  cases p with
  | char c =>
    have valid := c.valid
    have same : c.val.toNat = c.toNat := rfl
    simp only [UInt32.isValidChar, Nat.isValidChar] at valid
    rw [same] at valid
    rw [code, ofCode, dif_neg (by omega), Char.ofNat_toNat]
  | half n =>
    have below := n.isLt
    have inside : 0xD800 ≤ 0xD800 + n.val ∧ 0xD800 + n.val < 0xE000 := by omega
    simp only [code, ofCode, dif_pos inside, Nat.add_sub_cancel_left]

theorem code_ofCode {n : Nat} (h : n < 0x110000) : (ofCode n).code = n := by
  by_cases inside : 0xD800 ≤ n ∧ n < 0xE000
  · rw [ofCode, dif_pos inside, code]
    show 0xD800 + (n - 0xD800) = n
    omega
  · have valid : n.isValidChar := by simp only [Nat.isValidChar]; omega
    rw [ofCode, dif_neg inside, code, Char.ofNat, dif_pos valid]
    rfl

end Point

end FieldAudit
