import FieldAudit.Report.Moment
import Mathlib.Algebra.Order.Group.Nat
import Mathlib.Data.List.Forall2
import Mathlib.Tactic.Common

/-!
The form of a stamp. A stamp consists of seven numbers with a fixed number of digits each and a mark
behind each one (`form`), and it is the writing of those numbers in that form (`stampText_eq`).
`readForm?` reads numbers in a form and knows nothing of how they were written: it takes as many
digits as the form says, and their value is found digit by digit. Numbers that fit their places are
read back as they were (`readForm?_writeForm`), and one writing is before another one, character by
character, when the numbers are, place by place (`writeForm_lt_iff`).
-/

set_option autoImplicit false

namespace FieldAudit.Moment

/-! ## 1. Writing and reading in a form -/

/-- The places of a stamp: how many digits a place has, and the mark behind it. -/
def form : List (Nat × Char) :=
  [(4, '-'), (2, '-'), (2, 'T'), (2, ':'), (2, ':'), (2, '.'), (3, 'Z')]

/-- A place has room for a number. -/
structure Fits (place : Nat × Char) (n : Nat) : Prop where
  room : 0 < place.1
  bound : n < 10 ^ place.1

/-- Numbers in the places of a form. -/
def writeForm : List (Nat × Char) → List Nat → List Char
  | (width, mark) :: places, n :: numbers => padded width n ++ mark :: writeForm places numbers
  | _, _ => []

/-- The numbers in the places of a form, if the text has that form. -/
def readForm? : List (Nat × Char) → List Char → Option (List Nat)
  | [], [] => some []
  | [], _ :: _ => none
  | (width, mark) :: places, s =>
    let digits := s.take width
    if digits.length = width ∧ digits.all Char.isDigit = true
      ∧ (s.drop width).head? = some mark then
      (readForm? places (s.drop (width + 1))).map (Nat.ofDigitChars 10 digits 0 :: ·)
    else none

/-- The numbers of a stamp. -/
def numbers (m : Moment) : List Nat :=
  [m.year, m.month, m.day, m.hour, m.minute, m.second, m.microsecond / 1000]

theorem stampText_eq (m : Moment) : stampText m = writeForm form m.numbers := rfl

/-! ## 2. The digits of a place -/

variable {place : Nat × Char} {n k : Nat}

/-- A number fills its place. -/
theorem Fits.length_padded (h : Fits place n) : (padded place.1 n).length = place.1 := by
  have hlength : (Nat.toDigits 10 n).length ≤ place.1 :=
    (Nat.length_toDigits_le_iff (by omega) h.room).2 h.bound
  unfold padded
  rw [List.length_append, List.length_replicate]
  omega

theorem isDigit_of_mem_padded {width : Nat} {c : Char} (h : c ∈ padded width n) :
    c.isDigit = true := by
  rcases List.mem_append.1 h with hzero | hdigit
  · rw [List.eq_of_mem_replicate hzero]
    rfl
  · exact Nat.isDigit_of_mem_toDigits (by omega) (by omega) hdigit

/-- The digits of a place have the value of the number. -/
theorem ofDigitChars_padded (width n : Nat) : Nat.ofDigitChars 10 (padded width n) 0 = n := by
  unfold padded
  rw [Nat.ofDigitChars_append, Nat.ofDigitChars_replicate_zero, Nat.mul_zero,
    Nat.ofDigitChars_ten_toDigits]

theorem padded_inj {width : Nat} : padded width n = padded width k ↔ n = k := by
  constructor
  · intro h
    rw [← ofDigitChars_padded width n, h, ofDigitChars_padded]
  · exact fun h => congrArg _ h

/-! ## 3. The order of digits -/

/-- Numbers that are made up of a leading and a lower part are in the order of the leading ones, and
then of the lower ones. -/
theorem mul_add_lt_mul_add_iff {base high low high' low' : Nat} (h : low < base)
    (h' : low' < base) :
    base * high + low < base * high' + low' ↔ high < high' ∨ high = high' ∧ low < low' := by
  rcases Nat.lt_trichotomy high high' with hless | rfl | hmore
  · have hstep : base * (high + 1) ≤ base * high' := Nat.mul_le_mul_left base hless
    rw [Nat.mul_add] at hstep
    constructor
    · exact fun _ => .inl hless
    · intro _
      omega
  · omega
  · have hstep : base * (high' + 1) ≤ base * high := Nat.mul_le_mul_left base hmore
    rw [Nat.mul_add] at hstep
    constructor
    · intro hlt
      omega
    · intro hlt
      omega

/-- Going on to what decides between equal numbers, the two parts may be told apart or taken
together. -/
theorem lt_or_eq_and_iff_mul_add {base high low high' low' : Nat} (h : low < base)
    (h' : low' < base) (p : Prop) :
    high < high' ∨ high = high' ∧ (low < low' ∨ low = low' ∧ p)
      ↔ base * high + low < base * high' + low' ∨ base * high + low = base * high' + low' ∧ p := by
  have heq : base * high + low = base * high' + low' ↔ high = high' ∧ low = low' := by
    have hless := @mul_add_lt_mul_add_iff base high low high' low' h h'
    have hmore := @mul_add_lt_mul_add_iff base high' low' high low h' h
    omega
  rw [heq, mul_add_lt_mul_add_iff h h']
  tauto

/-- The value of a digit is its distance from `0`. -/
theorem ofDigitChars_cons_zero (c : Char) (s : List Char) :
    Nat.ofDigitChars 10 (c :: s) 0 = 10 ^ s.length * (c.toNat - 48) + Nat.ofDigitChars 10 s 0 := by
  rw [Nat.ofDigitChars_cons, Nat.ofDigitChars_eq_ofDigitChars_zero, Nat.mul_zero, Nat.zero_add]
  rfl

/-- So many digits have a value below that power of ten. -/
theorem ofDigitChars_lt {s : List Char} (h : ∀ c ∈ s, c.isDigit = true) :
    Nat.ofDigitChars 10 s 0 < 10 ^ s.length := by
  induction s with
  | nil => exact Nat.one_pos
  | cons c s ih =>
    have hrest := ih fun d hd => h d (List.mem_cons_of_mem c hd)
    have hdigit : 48 ≤ c.toNat ∧ c.toNat ≤ 57 := Char.isDigit_iff_toNat.1 (h c List.mem_cons_self)
    have hroom : 10 ^ s.length * (c.toNat - 48 + 1) ≤ 10 ^ s.length * 10 :=
      Nat.mul_le_mul_left _ (by omega)
    rw [Nat.mul_add] at hroom
    rw [ofDigitChars_cons_zero, List.length_cons, Nat.pow_succ]
    omega

/-- Two digits are in the order of their values, and the same if they have the same value. -/
theorem digit_lt_iff_and_eq_iff {c d : Char} (hc : c.isDigit = true) (hd : d.isDigit = true) :
    (c < d ↔ c.toNat - 48 < d.toNat - 48) ∧ (c = d ↔ c.toNat - 48 = d.toNat - 48) := by
  have hc : 48 ≤ c.toNat ∧ c.toNat ≤ 57 := Char.isDigit_iff_toNat.1 hc
  have hd : 48 ≤ d.toNat ∧ d.toNat ≤ 57 := Char.isDigit_iff_toNat.1 hd
  constructor
  · rw [Char.lt_def, UInt32.lt_iff_toNat_lt, Char.toNat_val, Char.toNat_val]
    omega
  · rw [← Char.toNat_inj]
    omega

/-- **Digits of the same number of places are in the order of their values.** -/
theorem lt_iff_ofDigitChars_lt {s t : List Char} (hlength : s.length = t.length)
    (hs : ∀ c ∈ s, c.isDigit = true) (ht : ∀ c ∈ t, c.isDigit = true) :
    s < t ↔ Nat.ofDigitChars 10 s 0 < Nat.ofDigitChars 10 t 0 := by
  induction s generalizing t with
  | nil =>
    obtain rfl : t = [] := List.eq_nil_of_length_eq_zero hlength.symm
    exact ⟨fun h => absurd h (List.not_lt_nil []), fun h => absurd h (Nat.lt_irrefl _)⟩
  | cons c s ih =>
    cases t with
    | nil => simp at hlength
    | cons d t =>
      have hsame : s.length = t.length := Nat.succ.inj hlength
      have hs' : ∀ c ∈ s, c.isDigit = true := fun e he => hs e (List.mem_cons_of_mem c he)
      have ht' : ∀ c ∈ t, c.isDigit = true := fun e he => ht e (List.mem_cons_of_mem d he)
      have hbound := ofDigitChars_lt hs'
      have hbound' := ofDigitChars_lt ht'
      rw [← hsame] at hbound'
      obtain ⟨hlt, heq⟩ :=
        digit_lt_iff_and_eq_iff (hs c List.mem_cons_self) (ht d List.mem_cons_self)
      rw [ofDigitChars_cons_zero, ofDigitChars_cons_zero, ← hsame]
      calc c :: s < d :: t
          ↔ c < d ∨ c = d ∧ s < t := List.cons_lt_cons_iff
        _ ↔ c.toNat - 48 < d.toNat - 48 ∨ c.toNat - 48 = d.toNat - 48
              ∧ Nat.ofDigitChars 10 s 0 < Nat.ofDigitChars 10 t 0 := by
                rw [hlt, heq, ih hsame hs' ht']
        _ ↔ _ := (mul_add_lt_mul_add_iff hbound hbound').symm

/-- Numbers in one place are in the order of their digits. -/
theorem padded_lt_iff (h : Fits place n) (h' : Fits place k) :
    padded place.1 n < padded place.1 k ↔ n < k := by
  have hlength : (padded place.1 n).length = (padded place.1 k).length := by
    rw [h.length_padded, h'.length_padded]
  rw [lt_iff_ofDigitChars_lt hlength (fun c => isDigit_of_mem_padded)
    (fun c => isDigit_of_mem_padded), ofDigitChars_padded, ofDigitChars_padded]

/-! ## 4. All places -/

/-- Texts that begin with equally many characters are in the order of these, and then of the
rest. -/
theorem append_lt_append_iff {s t : List Char} (h : s.length = t.length) (u v : List Char) :
    s ++ u < t ++ v ↔ s < t ∨ s = t ∧ u < v := by
  induction s generalizing t with
  | nil =>
    obtain rfl : t = [] := List.eq_nil_of_length_eq_zero h.symm
    simp
  | cons c s ih =>
    cases t with
    | nil => simp at h
    | cons d t =>
      rw [List.cons_append, List.cons_append, List.cons_lt_cons_iff, List.cons_lt_cons_iff,
        ih (Nat.succ.inj h), List.cons_eq_cons]
      tauto

variable {places : List (Nat × Char)} {numbers others : List Nat}

theorem length_writeForm (h : List.Forall₂ Fits places numbers) :
    (writeForm places numbers).length = sumOf (places.map fun place => place.1 + 1) := by
  induction h with
  | nil => rfl
  | cons hfits hrest ih =>
    rw [writeForm, List.length_append, List.length_cons, hfits.length_padded, ih, List.map_cons,
      sumOf]
    omega

/-- **Numbers are read back from their places.** -/
theorem readForm?_writeForm (h : List.Forall₂ Fits places numbers) :
    readForm? places (writeForm places numbers) = some numbers := by
  induction h with
  | nil => rfl
  | @cons place n places numbers hfits hrest ih =>
    have hlength := hfits.length_padded
    have htake : (padded place.1 n ++ place.2 :: writeForm places numbers).take place.1
        = padded place.1 n :=
      List.take_left' hlength
    have hdrop : (padded place.1 n ++ place.2 :: writeForm places numbers).drop place.1
        = place.2 :: writeForm places numbers := List.drop_left' hlength
    have hbehind : (padded place.1 n ++ place.2 :: writeForm places numbers).drop (place.1 + 1)
        = writeForm places numbers := by
      rw [← List.drop_drop, hdrop, List.drop_one, List.tail_cons]
    have hdigits : (padded place.1 n).all Char.isDigit = true :=
      List.all_eq_true.2 fun c => isDigit_of_mem_padded
    rw [writeForm, readForm?, htake, hdrop, hbehind, if_pos ⟨hlength, hdigits, List.head?_cons⟩, ih,
      Option.map_some, ofDigitChars_padded]

/-- **Writings are in the order of the numbers,** of the first ones that differ. -/
theorem writeForm_lt_iff (h : List.Forall₂ Fits places numbers)
    (h' : List.Forall₂ Fits places others) :
    writeForm places numbers < writeForm places others ↔ numbers < others := by
  induction h generalizing others with
  | nil =>
    cases h'
    exact ⟨fun h => absurd h (List.not_lt_nil []), fun h => absurd h (List.not_lt_nil [])⟩
  | @cons place n places numbers hfits hrest ih =>
    cases h' with
    | @cons _ k _ others hfits' hrest' =>
      have hlength : (padded place.1 n).length = (padded place.1 k).length := by
        rw [hfits.length_padded, hfits'.length_padded]
      rw [writeForm, writeForm, append_lt_append_iff hlength, padded_lt_iff hfits hfits',
        padded_inj, List.cons_lt_cons_iff, List.cons_lt_cons_iff, ih hrest']
      simp

end FieldAudit.Moment
