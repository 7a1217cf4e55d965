import FieldAudit.Json.Reader
import FieldAudit.Json.Writer
import FieldAudit.Proofs.Text.Utf8

/-!
Texts and whole numbers are read back as they were written. A text is written point by point, and
the escape of a point reads as the point (`readInside_escapePoint`); so a text in quotes reads as
the text (`readText_writeText`), whatever points it has. A whole number is read back from its
digits, unless it has more of them than the limit says (`readPlain_ofInt`).
-/

set_option autoImplicit false

namespace FieldAudit.Json

/-! ## 1. Texts -/

/-- A point of a text that was read goes before the points that are read after it. -/
def before (p : Point) (read : Text × Text) : Text × Text := (p :: read.1, read.2)

theorem readInside_quote (rest : Text) : readInside ('\x22' :: rest) = .ok ([], rest) := by
  rw [readInside]

/-- A backslash and a letter read as the character that they stand for. -/
theorem readInside_simple {letter c : Char} (hletter : letter ≠ 'u')
    (h : simpleEscape? letter = some c) (rest : Text) :
    readInside ('\\' :: letter :: rest) = (readInside rest).map (before c) := by
  rw [readInside]
  · rw [h]
    rfl
  · intro hu
    exact hletter (Point.char.inj hu)

/-- A point that is neither quote, backslash nor control reads as itself. -/
theorem readInside_plain {p : Point} (hquote : p ≠ '\x22') (hbackslash : p ≠ '\\')
    (hcode : ¬ p.code < 0x20) (rest : Text) :
    readInside (p :: rest) = (readInside rest).map (before p) := by
  rw [readInside]
  · rw [if_neg hcode]
    rfl
  · exact hquote
  all_goals
    intros
    exact hbackslash ‹_›

/-- A control is written with four digits that read as its code. -/
theorem exists_hex_control :
    ∀ n < 0x20, ∃ a b c d, Text.hex 4 n = [a, b, c, d] ∧ Text.hexQuad? [a, b, c, d] = some n := by
  have hall : ∀ n < 0x20, (Text.hex 4 n).length = 4 ∧ Text.hexQuad? (Text.hex 4 n) = some n := by
    decide
  intro n hn
  obtain ⟨hlength, hread⟩ := hall n hn
  match hquad : Text.hex 4 n, hlength with
  | [a, b, c, d], _ =>
    rw [hquad] at hread
    exact ⟨a, b, c, d, rfl, hread⟩

/-- A unit escape of a control reads as the control. -/
theorem readInside_control {p : Point} (hcode : p.code < 0x20) {rest : Text} (hrest : rest ≠ []) :
    readInside ('\\' :: 'u' :: (Text.hex 4 p.code ++ rest)) = (readInside rest).map (before p) := by
  obtain ⟨a, b, c, d, hhex, hquad⟩ := exists_hex_control p.code hcode
  have hunit : unitEscape (a :: b :: c :: d :: rest) = .ok (p, 4) := by
    have hread : Text.hexQuad? (a :: b :: c :: d :: rest) = some p.code := hquad
    have hhigh : Text.isHighSurrogate p.code = false := by
      simp only [Text.isHighSurrogate, Bool.and_eq_false_imp, decide_eq_true_eq]
      omega
    have hfour : (List.drop 4 (a :: b :: c :: d :: rest)).isEmpty = false := by
      simpa using hrest
    rw [unitEscape, hfour, if_neg Bool.false_ne_true, hread]
    dsimp only
    rw [hhigh, Bool.false_and]
    dsimp only
    rw [Point.ofCode_code]
  rw [hhex, readInside]
  simp only [List.cons_append, List.nil_append]
  rw [hunit]
  rfl

/-- **A point reads as it was written**, in whatever form that was. -/
theorem readInside_escapePoint (p : Point) {rest : Text} (hrest : rest ≠ []) :
    readInside (escapePoint p ++ rest) = (readInside rest).map (before p) := by
  unfold escapePoint
  -- seven points have a short escape
  iterate 7
    split
    · next h =>
      rw [h]
      exact readInside_simple (by decide) rfl rest
  split
  · next hcode => exact readInside_control hcode hrest
  · next hquote hbackslash _ _ _ _ _ hcode => exact readInside_plain hquote hbackslash hcode rest

theorem writeText_append (t rest : Text) :
    writeText t ++ rest
      = Point.char '\x22' :: (t.flatMap escapePoint ++ Point.char '\x22' :: rest) := by
  rw [writeText, List.cons_append, List.append_assoc]
  rfl

/-- A text in quotes reads as the text. -/
theorem readText_writeText (t rest : Text) :
    readText (t.flatMap escapePoint ++ Point.char '\x22' :: rest) = .ok (t, rest) := by
  have hinside : readInside (t.flatMap escapePoint ++ Point.char '\x22' :: rest)
      = .ok (t, rest) := by
    induction t with
    | nil => exact readInside_quote rest
    | cons p t ih =>
      rw [List.flatMap_cons, List.append_assoc, readInside_escapePoint p (by simp), ih]
      rfl
  rw [readText, hinside]
  rfl

/-! ## 2. Texts without halves -/

theorem isHalf_of_mem_ofChars {p : Point} {cs : List Char} (h : p ∈ Text.ofChars cs) :
    p.isHalf = false := by
  obtain ⟨c, -, rfl⟩ := List.mem_map.mp h
  rfl

theorem isWhole_ofString (s : String) : Text.IsWhole s := fun _ hp => isHalf_of_mem_ofChars hp

/-- Escapes are made of characters. -/
theorem isHalf_of_mem_escapePoint {p q : Point} (hp : p.isHalf = false) (h : q ∈ escapePoint p) :
    q.isHalf = false := by
  have hpair : ∀ first second : Char, q ∈ [Point.char first, Point.char second] →
      q.isHalf = false := by
    intro first second hmem
    exact isHalf_of_mem_ofChars (show q ∈ Text.ofChars [first, second] from hmem)
  unfold escapePoint at h
  -- seven points have a short escape
  iterate 7
    split at h
    · exact hpair _ _ h
  split at h
  · rcases List.mem_cons.mp h with rfl | h
    · rfl
    · rcases List.mem_cons.mp h with rfl | h
      · rfl
      · exact isHalf_of_mem_ofChars h
  · rw [List.mem_singleton.mp h, hp]

/-- A text in quotes is whole if the text is. -/
theorem isWhole_writeText {t : Text} (h : Text.IsWhole t) : Text.IsWhole (writeText t) := by
  refine List.forall_mem_cons.mpr ⟨rfl, List.forall_mem_append.mpr ⟨?_, isWhole_ofString _⟩⟩
  intro p hp
  obtain ⟨q, hq, hp⟩ := List.mem_flatMap.mp hp
  exact isHalf_of_mem_escapePoint (h q hq) hp

/-! ## 3. Whole numbers -/

/-- A text that no number goes on in: what follows a value that was written, if anything does, is a
comma or a line break. -/
def Ends (t : Text) : Prop := ∀ p, t.head? = some p → p = ',' ∨ p = '\n'

theorem ends_nil : Ends [] := by
  intro p hp
  simp at hp

theorem ends_comma (t : Text) : Ends (',' :: t) := by
  intro p hp
  exact .inl (Option.some.inj hp).symm

theorem ends_lineFeed (t : Text) : Ends ('\n' :: t) := by
  intro p hp
  exact .inr (Option.some.inj hp).symm

theorem isDigit_of_mem_ofNat {n : Nat} {p : Point} (h : p ∈ Text.ofNat n) : isDigit p = true := by
  obtain ⟨c, hc, rfl⟩ := List.mem_map.mp h
  have hdigit := Nat.isDigit_of_mem_toDigits (by decide) (by decide) hc
  obtain ⟨hlow, hhigh⟩ := Char.isDigit_iff_toNat.mp hdigit
  simp only [isDigit, Bool.and_eq_true, decide_eq_true_eq]
  exact ⟨hlow, hhigh⟩

/-- A number is its last digit after the others. -/
theorem ofNat_of_le {n : Nat} (h : 10 ≤ n) :
    Text.ofNat n = Text.ofNat (n / 10) ++ [Point.char (n % 10).digitChar] := by
  rw [Text.ofNat, Nat.toDigits_of_base_le (by decide) h, Text.ofChars, List.map_append]
  rfl

theorem ofNat_of_lt {n : Nat} (h : n < 10) : Text.ofNat n = [Point.char n.digitChar] := by
  rw [Text.ofNat, Nat.toDigits_of_lt_base h]
  rfl

/-- The digits of a number have its value. -/
theorem digitsValue_ofNat (n : Nat) : digitsValue (Text.ofNat n) = n := by
  induction n using Nat.strongRecOn with
  | ind n ih =>
    have hdigit : ∀ d < 10, (Point.char (Nat.digitChar d)).code - 48 = d :=
      fun d hd => Nat.toNat_digitChar_sub_48_of_lt_ten hd
    by_cases hn : n < 10
    · rw [ofNat_of_lt hn, digitsValue, List.foldl_cons, List.foldl_nil, hdigit n hn]
      omega
    · have hrest := ih (n / 10) (by omega)
      rw [digitsValue] at hrest
      rw [ofNat_of_le (by omega), digitsValue, List.foldl_append, hrest, List.foldl_cons,
        List.foldl_nil, hdigit _ (by omega)]
      omega

/-- A number starts with a digit, and only zero starts with a zero. -/
theorem exists_ofNat_cons (n : Nat) :
    ∃ p t, Text.ofNat n = p :: t ∧ isDigit p = true ∧ (p = '0' → n = 0) := by
  induction n using Nat.strongRecOn with
  | ind n ih =>
    by_cases hn : n < 10
    · have hdigits := ofNat_of_lt hn
      refine ⟨_, [], hdigits, isDigit_of_mem_ofNat (hdigits ▸ List.mem_cons_self), fun hzero => ?_⟩
      exact Nat.digitChar_eq_zero.mp (Point.char.inj hzero)
    · obtain ⟨p, t, hdigits, hp, hzero⟩ := ih (n / 10) (by omega)
      refine ⟨p, t ++ [Point.char (n % 10).digitChar], ?_, hp, fun hfirst => ?_⟩
      · rw [ofNat_of_le (by omega), hdigits, List.cons_append]
      · have := hzero hfirst
        omega

section Ending

variable {rest : Text} (hrest : Ends rest)
include hrest

theorem takeWhile_isDigit_of_ends : rest.takeWhile isDigit = [] := by
  cases rest with
  | nil => rfl
  | cons p t =>
    rcases hrest p rfl with rfl | rfl
    · exact List.takeWhile_cons_of_neg (by decide)
    · exact List.takeWhile_cons_of_neg (by decide)

theorem dropWhile_isDigit_of_ends : rest.dropWhile isDigit = rest := by
  cases rest with
  | nil => rfl
  | cons p t =>
    rcases hrest p rfl with rfl | rfl
    · exact List.dropWhile_cons_of_neg (by decide)
    · exact List.dropWhile_cons_of_neg (by decide)

theorem fractionPart_of_ends : fractionPart rest = (none, rest) := by
  cases rest with
  | nil => rfl
  | cons p t =>
    rcases hrest p rfl with rfl | rfl
    · rfl
    · rfl

theorem powerPart_of_ends : powerPart rest = (none, rest) := by
  cases rest with
  | nil => rfl
  | cons p t =>
    have hp : ¬ (p = 'e' ∨ p = 'E') := by
      rcases hrest p rfl with rfl | rfl
      · decide
      · decide
    exact if_neg hp

theorem takeWhile_ofNat_append (n : Nat) :
    (Text.ofNat n ++ rest).takeWhile isDigit = Text.ofNat n := by
  rw [List.takeWhile_append_of_pos fun p hp => isDigit_of_mem_ofNat hp,
    takeWhile_isDigit_of_ends hrest, List.append_nil]

theorem dropWhile_ofNat_append (n : Nat) : (Text.ofNat n ++ rest).dropWhile isDigit = rest := by
  rw [List.dropWhile_append_of_pos fun p hp => isDigit_of_mem_ofNat hp,
    dropWhile_isDigit_of_ends hrest]

/-- The whole part of a number that was written is the number. -/
theorem wholePart?_ofNat (n : Nat) :
    wholePart? (Text.ofNat n ++ rest) = some (Text.ofNat n, rest) := by
  obtain ⟨p, t, hdigits, -, hzero⟩ := exists_ofNat_cons n
  by_cases hp : p = '0'
  · rw [hzero hp]
    rfl
  · have htake := takeWhile_ofNat_append hrest n
    have hdrop := dropWhile_ofNat_append hrest n
    rw [hdigits, List.cons_append] at htake hdrop ⊢
    rw [wholePart?]
    · rw [htake, hdrop]
      rfl
    · exact fun tail htail => hp (List.cons.inj htail).1

theorem readUnsigned_ofNat (negative : Bool) (n : Nat) :
    readUnsigned negative (Text.ofNat n ++ rest)
      = some (.int (if negative then -n else n), rest) := by
  rw [readUnsigned, wholePart?_ofNat hrest]
  dsimp only [bind, Option.bind]
  rw [fractionPart_of_ends hrest]
  dsimp only
  rw [powerPart_of_ends hrest, digitsValue_ofNat]
  rfl

theorem readNumber_ofInt (n : Int) : readNumber (Text.ofInt n ++ rest) = some (.int n, rest) := by
  unfold Text.ofInt
  split
  · next hnegative =>
    have hsize : -(n.natAbs : Int) = n := by omega
    rw [List.cons_append, readNumber, readUnsigned_ofNat hrest, if_pos rfl, hsize]
  · next hpositive =>
    have hsize : (n.natAbs : Int) = n := by omega
    obtain ⟨p, t, hdigits, hp, -⟩ := exists_ofNat_cons n.natAbs
    have hread := readUnsigned_ofNat hrest false n.natAbs
    rw [hdigits, List.cons_append] at hread ⊢
    rw [readNumber]
    · rw [hread, if_neg Bool.false_ne_true, hsize]
    · intro tail htail
      rw [(List.cons.inj htail).1] at hp
      exact absurd hp (by decide)

theorem wholeDigits_ofInt (n : Int) :
    wholeDigits (.int n) (Text.ofInt n ++ rest) = (Text.ofNat n.natAbs).length := by
  obtain ⟨p, t, hdigits, hp, -⟩ := exists_ofNat_cons n.natAbs
  have hminus : (p == Point.char '-') = false := by
    rw [beq_eq_false_iff_ne]
    rintro rfl
    exact absurd hp (by decide)
  have htake := takeWhile_ofNat_append hrest n.natAbs
  have hdrop : (Text.ofNat n.natAbs ++ rest).dropWhile (fun q : Point => q == '-')
      = Text.ofNat n.natAbs ++ rest := by
    rw [hdigits, List.cons_append]
    exact List.dropWhile_cons_of_neg (by rw [hminus]; exact Bool.false_ne_true)
  rw [wholeDigits]
  unfold Text.ofInt
  split
  · rw [List.cons_append, List.dropWhile_cons_of_pos (by decide), hdrop, htake]
  · rw [hdrop, htake]

end Ending

/-- No word starts with a digit, or with a sign and a digit. -/
theorem afterWord?_of_digit {d : Point} (hd : isDigit d = true) (t : Text) :
    ∀ entry ∈ wordValues, afterWord? entry.1 (d :: t) = none
      ∧ afterWord? entry.1 ('-' :: d :: t) = none := by
  have hletter : ∀ c : Char, isDigit c = false → (Point.char c == d) = false := by
    intro c hc
    rw [beq_eq_false_iff_ne]
    rintro rfl
    rw [hd] at hc
    simp at hc
  have hnull := hletter 'n' (by decide)
  have htrue := hletter 't' (by decide)
  have hfalse := hletter 'f' (by decide)
  have hnan := hletter 'N' (by decide)
  have hinfinity := hletter 'I' (by decide)
  have hminus := hletter '-' (by decide)
  intro entry hentry
  simp only [wordValues, List.mem_cons, List.not_mem_nil, or_false] at hentry
  rcases hentry with rfl | rfl | rfl | rfl | rfl | rfl <;>
    simp [afterWord?, Text.ofString, Text.ofChars, List.isPrefixOf, *]

/-- **A whole number reads as it was written**, unless it has too many digits. -/
theorem readPlain_ofInt {limit : Nat} {n : Int} (hlimit : (Text.ofNat n.natAbs).length ≤ limit)
    {rest : Text} (hrest : Ends rest) :
    readPlain limit (Text.ofInt n ++ rest) = .ok (.int n, rest) := by
  have hnone : wordValues.findSome?
      (fun entry => (afterWord? entry.1 (Text.ofInt n ++ rest)).map (entry.2, ·)) = none := by
    rw [List.findSome?_eq_none_iff]
    intro entry hentry
    obtain ⟨p, t, hdigits, hp, -⟩ := exists_ofNat_cons n.natAbs
    obtain ⟨hplain, hsigned⟩ := afterWord?_of_digit hp (t ++ rest) entry hentry
    unfold Text.ofInt
    split
    · rw [hdigits, List.cons_append, List.cons_append, hsigned]
      rfl
    · rw [hdigits, List.cons_append, hplain]
      rfl
  unfold readPlain
  rw [hnone, readNumber_ofInt hrest]
  dsimp only
  rw [wholeDigits_ofInt hrest, if_neg (by omega)]

end FieldAudit.Json
