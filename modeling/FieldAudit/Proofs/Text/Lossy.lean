import FieldAudit.Text.Utf8
import Mathlib.Data.List.Basic

/-!
Decoding of bytes that need not be UTF-8. Every byte below 0x80 reads as the character of its
number, and all others, well formed or not, read as points from 0x80 on (`reads_decodeLossy`). What
breaks off a character is read again on its own, so malformed bytes neither take away a character
below 0x80 nor add one, and such a character divides a text where its byte divides the bytes
(`decodeLossy_append`).
-/

set_option autoImplicit false

namespace FieldAudit.Text.Utf8

/-! ## 1. The front of a byte sequence -/

/-- What stands at the front of a byte sequence as a point, and how many bytes after the first one
belong to it. -/
def Front.read : Front → Point × Nat
  | .scalar c more => (.char c, more)
  | .malformed _ more => (.char '\uFFFD', more)

theorem decodeLossy_cons (lead : UInt8) (rest : List UInt8) :
    decodeLossy (lead :: rest)
      = (front lead rest).read.1 :: decodeLossy (rest.drop (front lead rest).read.2) := by
  rw [decodeLossy]
  cases front lead rest with
  | scalar c more => rfl
  | malformed fault more => rfl

/-- A byte below 0x80 is a character by itself. -/
theorem front_of_lt {lead : UInt8} (h : lead < 0x80) (rest : List UInt8) :
    front lead rest = .scalar (Char.ofNat lead.toNat) 0 := by
  unfold front
  rw [if_pos h]

/-- Bytes that are characters by themselves read as these characters. -/
theorem decodeLossy_toUInt8 {chars : List Char} (h : (chars.all fun c => c.toNat < 0x80) = true) :
    decodeLossy (chars.map Char.toUInt8) = Text.ofChars chars := by
  induction chars with
  | nil =>
    rw [List.map_nil, decodeLossy]
    rfl
  | cons c chars ih =>
    rw [List.all_cons, Bool.and_eq_true, decide_eq_true_eq] at h
    obtain ⟨hfirst, hrest⟩ := h
    have hbyte : c.toUInt8.toNat = c.toNat := by
      change c.toNat % 256 = c.toNat
      omega
    have hlt : c.toUInt8 < 0x80 := by
      rw [UInt8.lt_iff_toNat_lt, hbyte]
      exact hfirst
    rw [List.map_cons, decodeLossy_cons, front_of_lt hlt, hbyte, Char.ofNat_toNat]
    exact congrArg (Point.char c :: ·) (ih hrest)

theorem isContinuation_of_lt {b : UInt8} (h : b < 0x80) : isContinuation b = false := by
  unfold isContinuation
  grind

theorem secondFits_of_lt {b : UInt8} (h : b < 0x80) (lead : UInt8) : secondFits lead b = false := by
  rw [secondFits, isContinuation_of_lt h]
  rfl

/-- A byte below 0x80 ends what stands before it as the end of the bytes does: the fault may be
another one, but what is read is the same. -/
theorem read_front_append {b : UInt8} (hb : b < 0x80) (lead : UInt8) (rest tail : List UInt8) :
    (front lead (rest ++ b :: tail)).read = (front lead rest).read := by
  have hcont := isContinuation_of_lt hb
  have hfits := secondFits_of_lt hb lead
  unfold front
  -- in the order of the definition; bytes after the first one are looked at one by one
  by_cases hascii : lead < 0x80
  · rw [if_pos hascii, if_pos hascii]
  rw [if_neg hascii, if_neg hascii]
  by_cases hstray : lead < 0xC2
  · rw [if_pos hstray, if_pos hstray]
  rw [if_neg hstray, if_neg hstray]
  by_cases htwo : lead < 0xE0
  · rw [if_pos htwo, if_pos htwo]
    cases rest with
    | nil => simp [hcont, Front.read]
    | cons x rest => rfl
  rw [if_neg htwo, if_neg htwo]
  by_cases hthree : lead < 0xF0
  · rw [if_pos hthree, if_pos hthree]
    rcases rest with _ | ⟨x, _ | ⟨y, rest⟩⟩
    · simp [hfits, Front.read]
    · cases hx : secondFits lead x with
      | false => simp [hx]
      | true => simp [hx, hcont, Front.read]
    · rfl
  rw [if_neg hthree, if_neg hthree]
  by_cases hfour : lead < 0xF5
  · rw [if_pos hfour, if_pos hfour]
    rcases rest with _ | ⟨x, _ | ⟨y, _ | ⟨z, rest⟩⟩⟩
    · simp [hfits, Front.read]
    · cases hx : secondFits lead x with
      | false => simp [hx]
      | true => simp [hx, hcont, Front.read]
    · cases hx : secondFits lead x with
      | false => simp [hx]
      | true =>
        cases hy : isContinuation y with
        | false => simp [hx, hy]
        | true => simp [hx, hy, hcont, Front.read]
    · rfl
  rw [if_neg hfour, if_neg hfour]

/-! ## 2. Points of several bytes -/

theorem bounds_of_isContinuation {b : UInt8} (h : isContinuation b = true) :
    0x80 ≤ b.toNat ∧ b.toNat < 0xC0 := by
  simpa [isContinuation, UInt8.le_iff_toNat_le, UInt8.lt_iff_toNat_lt] using h

theorem bounds_of_secondFits {lead b : UInt8} (h : secondFits lead b = true) :
    0x80 ≤ b.toNat ∧ b.toNat < 0xC0 ∧ (lead.toNat = 0xE0 → 0xA0 ≤ b.toNat)
      ∧ (lead.toNat = 0xED → b.toNat < 0xA0)
      ∧ (lead.toNat = 0xF0 → 0x90 ≤ b.toNat) ∧ (lead.toNat = 0xF4 → b.toNat < 0x90) := by
  simp [secondFits, isContinuation, UInt8.le_iff_toNat_le, UInt8.lt_iff_toNat_lt,
    ← UInt8.toNat_inj] at h
  omega

theorem code_ofNat {n : Nat} (h : n.isValidChar) : (Point.char (Char.ofNat n)).code = n := by
  rw [Char.ofNat, dif_pos h]
  rfl

theorem le_code_ofNat {n : Nat} (hle : 0x80 ≤ n) (hvalid : n.isValidChar) :
    0x80 ≤ (Point.char (Char.ofNat n)).code := by
  rw [code_ofNat hvalid]
  exact hle

/-- Two bytes that fit write a number from 0x80 on that belongs to a character; so do three and
four. -/
theorem le_code_of_two {lead b : UInt8} (hlead : ¬ lead < 0xC2) (hlast : lead < 0xE0)
    (hb : isContinuation b = true) :
    0x80 ≤ (Point.char (Char.ofNat ((lead.toNat - 0xC0) * 64 + payload b))).code := by
  obtain ⟨hlow, hhigh⟩ := bounds_of_isContinuation hb
  rw [UInt8.lt_iff_toNat_lt] at hlead hlast
  change ¬ lead.toNat < 0xC2 at hlead
  change lead.toNat < 0xE0 at hlast
  unfold payload
  refine le_code_ofNat (by omega) (.inl (by omega))

theorem le_code_of_three {lead b c : UInt8} (hlead : ¬ lead < 0xE0) (hlast : lead < 0xF0)
    (hb : secondFits lead b = true) :
    0x80 ≤ (Point.char
      (Char.ofNat (((lead.toNat - 0xE0) * 64 + payload b) * 64 + payload c))).code := by
  have hbounds := bounds_of_secondFits hb
  rw [UInt8.lt_iff_toNat_lt] at hlead hlast
  change ¬ lead.toNat < 0xE0 at hlead
  change lead.toNat < 0xF0 at hlast
  unfold payload
  -- the bounds of the second byte leave out what two bytes could write, and the halves of surrogate
  -- pairs
  refine le_code_ofNat (by omega) ?_
  unfold Nat.isValidChar
  omega

theorem le_code_of_four {lead b c d : UInt8} (hlead : ¬ lead < 0xF0) (hlast : lead < 0xF5)
    (hb : secondFits lead b = true) :
    0x80 ≤ (Point.char (Char.ofNat
      ((((lead.toNat - 0xF0) * 64 + payload b) * 64 + payload c) * 64 + payload d))).code := by
  have hbounds := bounds_of_secondFits hb
  rw [UInt8.lt_iff_toNat_lt] at hlead hlast
  change ¬ lead.toNat < 0xF0 at hlead
  change lead.toNat < 0xF5 at hlast
  unfold payload
  -- here they leave out what three bytes could write, and what lies above U+10FFFF
  refine le_code_ofNat (by omega) ?_
  unfold Nat.isValidChar
  omega

/-! ## 3. Runs of other bytes -/

theorem le_of_isContinuation {b : UInt8} (h : isContinuation b = true) : 0x80 ≤ b := by
  unfold isContinuation at h
  grind

theorem le_of_secondFits {lead b : UInt8} (h : secondFits lead b = true) : 0x80 ≤ b := by
  apply le_of_isContinuation
  unfold secondFits at h
  grind

/-- Bytes from 0x80 on are read as one point from 0x80 on: a first one, and some of those after
it. -/
structure ReadsRun (front : Front) (rest : List UInt8) : Prop where
  code : 0x80 ≤ front.read.1.code
  length : front.read.2 ≤ rest.length
  run : ∀ b ∈ rest.take front.read.2, 0x80 ≤ b

theorem readsRun_scalar {c : Char} (hc : 0x80 ≤ (Point.char c).code) (run after : List UInt8)
    (hrun : ∀ b ∈ run, 0x80 ≤ b) : ReadsRun (.scalar c run.length) (run ++ after) where
  code := hc
  length := by simp [Front.read]
  run := by simpa [Front.read] using hrun

/-- A malformed sequence reads as U+FFFD, whatever its fault is. -/
theorem readsRun_malformed (fault : Fault) (run after : List UInt8) (hrun : ∀ b ∈ run, 0x80 ≤ b) :
    ReadsRun (.malformed fault run.length) (run ++ after) where
  code := (by decide : 0x80 ≤ (Point.char '\uFFFD').code)
  length := by simp [Front.read]
  run := by simpa [Front.read] using hrun

theorem readsRun_alone (fault : Fault) (rest : List UInt8) : ReadsRun (.malformed fault 0) rest :=
  readsRun_malformed fault [] rest fun _ hb => absurd hb List.not_mem_nil

theorem readsRun_of_two {lead : UInt8} (hlow : ¬ lead < 0xC2) (hhigh : lead < 0xE0)
    (rest : List UInt8) :
    ReadsRun (front lead rest) rest := by
  have hascii : ¬ lead < 0x80 := by grind
  unfold front
  rw [if_neg hascii, if_neg hlow, if_pos hhigh]
  cases rest with
  | nil => exact readsRun_alone _ _
  | cons x rest =>
    dsimp only
    by_cases hx : isContinuation x = true
    · rw [if_pos hx]
      exact readsRun_scalar (le_code_of_two hlow hhigh hx) [x] rest
        (by simpa using le_of_isContinuation hx)
    · rw [if_neg hx]
      exact readsRun_alone _ _

theorem readsRun_of_three {lead : UInt8} (hlow : ¬ lead < 0xE0) (hhigh : lead < 0xF0)
    (rest : List UInt8) :
    ReadsRun (front lead rest) rest := by
  have hascii : ¬ lead < 0x80 := by grind
  have hstray : ¬ lead < 0xC2 := by grind
  unfold front
  rw [if_neg hascii, if_neg hstray, if_neg hlow, if_pos hhigh]
  cases rest with
  | nil => exact readsRun_alone _ _
  | cons x rest =>
    dsimp only
    by_cases hx : secondFits lead x = true
    · have hx' := le_of_secondFits hx
      rw [if_neg (by simpa using hx)]
      cases rest with
      | nil => exact readsRun_malformed _ [x] [] (by simpa using hx')
      | cons y rest =>
        dsimp only
        by_cases hy : isContinuation y = true
        · rw [if_pos hy]
          exact readsRun_scalar (le_code_of_three hlow hhigh hx) [x, y] rest
            (by simpa using ⟨hx', le_of_isContinuation hy⟩)
        · rw [if_neg hy]
          exact readsRun_malformed _ [x] (y :: rest) (by simpa using hx')
    · rw [if_pos (by simpa using hx)]
      exact readsRun_alone _ _

theorem readsRun_of_four {lead : UInt8} (hlow : ¬ lead < 0xF0) (hhigh : lead < 0xF5)
    (rest : List UInt8) :
    ReadsRun (front lead rest) rest := by
  have hascii : ¬ lead < 0x80 := by grind
  have hstray : ¬ lead < 0xC2 := by grind
  have htwo : ¬ lead < 0xE0 := by grind
  unfold front
  rw [if_neg hascii, if_neg hstray, if_neg htwo, if_neg hlow, if_pos hhigh]
  cases rest with
  | nil => exact readsRun_alone _ _
  | cons x rest =>
    dsimp only
    by_cases hx : secondFits lead x = true
    · have hx' := le_of_secondFits hx
      rw [if_neg (by simpa using hx)]
      cases rest with
      | nil => exact readsRun_malformed _ [x] [] (by simpa using hx')
      | cons y rest =>
        dsimp only
        by_cases hy : isContinuation y = true
        · have hy' := le_of_isContinuation hy
          rw [if_neg (by simpa using hy)]
          cases rest with
          | nil => exact readsRun_malformed _ [x, y] [] (by simpa using ⟨hx', hy'⟩)
          | cons z rest =>
            dsimp only
            by_cases hz : isContinuation z = true
            · rw [if_pos hz]
              exact readsRun_scalar (le_code_of_four hlow hhigh hx) [x, y, z] rest
                (by simpa using ⟨hx', hy', le_of_isContinuation hz⟩)
            · rw [if_neg hz]
              exact readsRun_malformed _ [x, y] (z :: rest) (by simpa using ⟨hx', hy'⟩)
        · rw [if_pos (by simpa using hy)]
          exact readsRun_malformed _ [x] (y :: rest) (by simpa using hx')
    · rw [if_pos (by simpa using hx)]
      exact readsRun_alone _ _

/-- A byte from 0x80 on is read together with bytes from 0x80 on, as a point from 0x80 on. -/
theorem readsRun_front {lead : UInt8} (h : ¬ lead < 0x80) (rest : List UInt8) :
    ReadsRun (front lead rest) rest := by
  by_cases hstray : lead < 0xC2
  · have hfront : front lead rest = .malformed .invalidStart 0 := by
      unfold front
      rw [if_neg h, if_pos hstray]
    rw [hfront]
    exact readsRun_alone _ _
  by_cases htwo : lead < 0xE0
  · exact readsRun_of_two hstray htwo rest
  by_cases hthree : lead < 0xF0
  · exact readsRun_of_three htwo hthree rest
  by_cases hfour : lead < 0xF5
  · exact readsRun_of_four hthree hfour rest
  · have hfront : front lead rest = .malformed .invalidStart 0 := by
      unfold front
      rw [if_neg h, if_neg hstray, if_neg htwo, if_neg hthree, if_neg hfour]
    rw [hfront]
    exact readsRun_alone _ _

/-! ## 4. Whole sequences -/

theorem length_read_front (lead : UInt8) (rest : List UInt8) :
    (front lead rest).read.2 ≤ rest.length := by
  by_cases h : lead < 0x80
  · rw [front_of_lt h]
    exact Nat.zero_le _
  · exact (readsRun_front h rest).length

/-- **A byte below 0x80 stands for itself**, wherever it stands and whatever stands before it: the
texts of what is before it and of what is after it are those that they have alone. -/
theorem decodeLossy_append {b : UInt8} (hb : b < 0x80) (before after : List UInt8) :
    decodeLossy (before ++ b :: after)
      = decodeLossy before ++ .char (Char.ofNat b.toNat) :: decodeLossy after := by
  induction hlength : before.length using Nat.strongRecOn generalizing before with
  | ind n ih =>
    cases before with
    | nil =>
      rw [List.nil_append, decodeLossy_cons, front_of_lt hb, decodeLossy]
      rfl
    | cons lead rest =>
      have hmore := length_read_front lead rest
      have hshorter : (rest.drop (front lead rest).read.2).length < n := by
        rw [← hlength, List.length_drop, List.length_cons]
        omega
      rw [List.cons_append, decodeLossy_cons, decodeLossy_cons, read_front_append hb,
        List.drop_append_of_le_length hmore, ih _ hshorter _ rfl]
      rfl

/-- A byte sequence and a text that reads it: bytes below 0x80 stand for themselves, and runs of
other bytes for points from 0x80 on. -/
inductive Reads : List UInt8 → Text → Prop
  | nil : Reads [] []
  | ascii {b : UInt8} {bytes : List UInt8} {text : Text} (hb : b < 0x80) (h : Reads bytes text) :
    Reads (b :: bytes) (.char (Char.ofNat b.toNat) :: text)
  | run {lead : UInt8} {run bytes : List UInt8} {p : Point} {text : Text} (hp : 0x80 ≤ p.code)
    (hrun : ∀ b ∈ lead :: run, ¬ b < 0x80) (h : Reads bytes text) :
    Reads (lead :: (run ++ bytes)) (p :: text)

theorem reads_decodeLossy (bytes : List UInt8) : Reads bytes (decodeLossy bytes) := by
  induction hlength : bytes.length using Nat.strongRecOn generalizing bytes with
  | ind n ih =>
    cases bytes with
    | nil =>
      rw [decodeLossy]
      exact .nil
    | cons lead rest =>
      have hshorter : (rest.drop (front lead rest).read.2).length < n := by
        rw [← hlength, List.length_drop, List.length_cons]
        omega
      have hrest := ih _ hshorter _ rfl
      rw [decodeLossy_cons]
      by_cases hlead : lead < 0x80
      · rw [front_of_lt hlead] at hrest ⊢
        exact .ascii hlead hrest
      · have hread := readsRun_front hlead rest
        have hsplit : rest
            = rest.take (front lead rest).read.2 ++ rest.drop (front lead rest).read.2 :=
          (List.take_append_drop _ _).symm
        have hrun : ∀ b ∈ lead :: rest.take (front lead rest).read.2, ¬ b < 0x80 := by
          refine List.forall_mem_cons.mpr ⟨hlead, ?_⟩
          intro b hb
          exact UInt8.not_lt.mpr (hread.run b hb)
        have hwhole := Reads.run hread.code hrun hrest
        rwa [← hsplit] at hwhole

theorem code_of_lt {b : UInt8} (h : b < 0x80) :
    (Point.char (Char.ofNat b.toNat)).code = b.toNat := by
  rw [UInt8.lt_iff_toNat_lt] at h
  change b.toNat < 0x80 at h
  exact code_ofNat (.inl (by omega))

/-- Different bytes below 0x80 stand for different characters, and no point from 0x80 on is one of
them. -/
theorem char_eq_iff {b other : UInt8} (hb : b < 0x80) (hother : other < 0x80) :
    Point.char (Char.ofNat other.toNat) = .char (Char.ofNat b.toNat) ↔ other = b := by
  constructor
  · intro h
    have hcode := congrArg Point.code h
    rw [code_of_lt hother, code_of_lt hb] at hcode
    exact UInt8.toNat_inj.mp hcode
  · rintro rfl
    rfl

theorem ne_char_of_le {b : UInt8} (hb : b < 0x80) {p : Point} (hp : 0x80 ≤ p.code) :
    p ≠ .char (Char.ofNat b.toNat) := by
  rintro rfl
  rw [code_of_lt hb] at hp
  rw [UInt8.lt_iff_toNat_lt] at hb
  exact absurd hb (Nat.not_lt.mpr hp)

section Reads

variable {bytes : List UInt8} {text : Text}

/-- A text that reads bytes has every character below 0x80 as often as the bytes have it. -/
theorem Reads.count (h : Reads bytes text) {b : UInt8} (hb : b < 0x80) :
    text.count (.char (Char.ofNat b.toNat)) = bytes.count b := by
  induction h with
  | nil => rfl
  | @ascii other bytes text hother _ ih =>
    rw [List.count_cons, List.count_cons, ih]
    simp only [beq_iff_eq, char_eq_iff hb hother]
  | @run lead run bytes p text hp hrun _ ih =>
    have hnone : (lead :: run).count b = 0 := List.count_eq_zero.mpr fun hmem => hrun b hmem hb
    rw [List.count_cons_of_ne (ne_char_of_le hb hp), ← List.cons_append, List.count_append, hnone,
      Nat.zero_add, ih]

/-- A text that reads bytes starts with a character below 0x80 exactly if the bytes do. -/
theorem Reads.head?_eq_some_iff (h : Reads bytes text) {b : UInt8} (hb : b < 0x80) :
    text.head? = some (.char (Char.ofNat b.toNat)) ↔ bytes.head? = some b := by
  cases h with
  | nil => simp
  | ascii hother _ =>
    rw [List.head?_cons, List.head?_cons, Option.some.injEq, Option.some.injEq]
    exact char_eq_iff hb hother
  | @run lead run bytes p text hp hrun _ =>
    have hlead : lead ≠ b := by
      rintro rfl
      exact hrun _ List.mem_cons_self hb
    rw [List.head?_cons, List.head?_cons, Option.some.injEq, Option.some.injEq]
    exact iff_of_false (ne_char_of_le hb hp) hlead

end Reads

end FieldAudit.Text.Utf8
