import FieldAudit.Proofs.Text.Lossy
import FieldAudit.Proofs.Text.Utf8

/-!
The bytes of a text decode to the text (`decode_of_encode`). The bytes of a character have one of
the four forms that can stand at the front of a byte sequence, and the form gives the character back
(`front_utf8EncodeChar`): each byte holds its share of the character's number, and the bounds on the
bytes are those that the number keeps.
-/

set_option autoImplicit false

namespace FieldAudit.Text.Utf8

/-! ## 1. The forms -/

section Forms

variable {lead b c d : UInt8}

theorem not_lt_of_le_toNat (h : b.toNat ≤ lead.toNat) : ¬ lead < b :=
  UInt8.not_lt.mpr (UInt8.le_iff_toNat_le.mpr h)

theorem secondFits_of_bounds (hb : isContinuation b = true)
    (hlow : lead.toNat = 0xE0 → 0xA0 ≤ b.toNat) (hhalf : lead.toNat = 0xED → b.toNat < 0xA0)
    (hplane : lead.toNat = 0xF0 → 0x90 ≤ b.toNat) (hlast : lead.toNat = 0xF4 → b.toNat < 0x90) :
    secondFits lead b = true := by
  simp [secondFits, hb, UInt8.le_iff_toNat_le, UInt8.lt_iff_toNat_lt, ← UInt8.toNat_inj]
  omega

theorem front_of_two (hlow : 0xC2 ≤ lead.toNat) (hhigh : lead.toNat < 0xE0)
    (hb : isContinuation b = true) (rest : List UInt8) :
    front lead (b :: rest) = .scalar (Char.ofNat ((lead.toNat - 0xC0) * 64 + payload b)) 1 := by
  have hone : ¬ lead < 0x80 := not_lt_of_le_toNat (Nat.le_trans (by decide) hlow)
  have hstray : ¬ lead < 0xC2 := not_lt_of_le_toNat hlow
  have htwo : lead < 0xE0 := UInt8.lt_iff_toNat_lt.mpr hhigh
  unfold front
  rw [if_neg hone, if_neg hstray, if_pos htwo]
  dsimp only
  rw [if_pos hb]

theorem front_of_three (hlow : 0xE0 ≤ lead.toNat) (hhigh : lead.toNat < 0xF0)
    (hb : secondFits lead b = true) (hc : isContinuation c = true) (rest : List UInt8) :
    front lead (b :: c :: rest)
      = .scalar (Char.ofNat (((lead.toNat - 0xE0) * 64 + payload b) * 64 + payload c)) 2 := by
  have hone : ¬ lead < 0x80 := not_lt_of_le_toNat (Nat.le_trans (by decide) hlow)
  have hstray : ¬ lead < 0xC2 := not_lt_of_le_toNat (Nat.le_trans (by decide) hlow)
  have htwo : ¬ lead < 0xE0 := not_lt_of_le_toNat hlow
  have hthree : lead < 0xF0 := UInt8.lt_iff_toNat_lt.mpr hhigh
  unfold front
  rw [if_neg hone, if_neg hstray, if_neg htwo, if_pos hthree]
  dsimp only
  rw [hb, Bool.not_true, if_neg Bool.false_ne_true, if_pos hc]

theorem front_of_four (hlow : 0xF0 ≤ lead.toNat) (hhigh : lead.toNat < 0xF5)
    (hb : secondFits lead b = true) (hc : isContinuation c = true) (hd : isContinuation d = true)
    (rest : List UInt8) :
    front lead (b :: c :: d :: rest)
      = .scalar (Char.ofNat
        ((((lead.toNat - 0xF0) * 64 + payload b) * 64 + payload c) * 64 + payload d)) 3 := by
  have hone : ¬ lead < 0x80 := not_lt_of_le_toNat (Nat.le_trans (by decide) hlow)
  have hstray : ¬ lead < 0xC2 := not_lt_of_le_toNat (Nat.le_trans (by decide) hlow)
  have htwo : ¬ lead < 0xE0 := not_lt_of_le_toNat (Nat.le_trans (by decide) hlow)
  have hthree : ¬ lead < 0xF0 := not_lt_of_le_toNat hlow
  have hfour : lead < 0xF5 := UInt8.lt_iff_toNat_lt.mpr hhigh
  unfold front
  rw [if_neg hone, if_neg hstray, if_neg htwo, if_neg hthree, if_pos hfour]
  dsimp only
  rw [hb, Bool.not_true, if_neg Bool.false_ne_true, hc, Bool.not_true, if_neg Bool.false_ne_true,
    if_pos hd]

end Forms

/-! ## 2. The bytes of a character -/

theorem toNat_ofNat_of_lt {n : Nat} (h : n < 256) : (UInt8.ofNat n).toNat = n := by
  rw [UInt8.toNat_ofNat']
  exact Nat.mod_eq_of_lt h

/-- A byte that is made of six bits of a number continues, and holds the bits. -/
theorem share_ofNat (n : Nat) : (UInt8.ofNat (n % 64 + 0x80)).toNat = n % 64 + 0x80
    ∧ isContinuation (UInt8.ofNat (n % 64 + 0x80)) = true
    ∧ payload (UInt8.ofNat (n % 64 + 0x80)) = n % 64 := by
  have hn : (UInt8.ofNat (n % 64 + 0x80)).toNat = n % 64 + 0x80 := toNat_ofNat_of_lt (by omega)
  refine ⟨hn, ?_, ?_⟩
  · simp only [isContinuation, Bool.and_eq_true, decide_eq_true_eq, UInt8.le_iff_toNat_le,
      UInt8.lt_iff_toNat_lt, hn]
    exact ⟨Nat.le_add_left _ _, show n % 64 + 0x80 < 0xC0 by omega⟩
  · rw [payload, hn]
    omega

/-- **The bytes of a character** stand for it at the front of any bytes. -/
theorem front_utf8EncodeChar (c : Char) : ∃ lead more, String.utf8EncodeChar c = lead :: more
    ∧ ∀ rest, front lead (more ++ rest) = .scalar c more.length := by
  have hvalid : c.val.toNat < 0xD800 ∨ 0xDFFF < c.val.toNat ∧ c.val.toNat < 0x110000 := c.valid
  have hchar : ∀ n, n = c.val.toNat → Char.ofNat n = c := by
    rintro n rfl
    exact Char.ofNat_toNat c
  obtain ⟨hfirst, hfirstCont, hfirstBits⟩ := share_ofNat c.val.toNat
  obtain ⟨hnext, hnextCont, hnextBits⟩ := share_ofNat (c.val.toNat / 64)
  obtain ⟨hlast, hlastCont, hlastBits⟩ := share_ofNat (c.val.toNat / 4096)
  unfold String.utf8EncodeChar
  dsimp only
  split
  · next hone =>
    have hlead : (UInt8.ofNat c.val.toNat).toNat = c.val.toNat := toNat_ofNat_of_lt (by omega)
    refine ⟨_, [], rfl, fun rest => ?_⟩
    rw [front_of_lt, hlead, hchar _ rfl]
    · rfl
    · rw [UInt8.lt_iff_toNat_lt, hlead]
      exact Nat.lt_succ_of_le hone
  split
  · next hone htwo =>
    have hlead : (UInt8.ofNat (c.val.toNat / 64 % 0x20 + 0xC0)).toNat
        = c.val.toNat / 64 % 0x20 + 0xC0 :=
      toNat_ofNat_of_lt (by omega)
    refine ⟨_, _, rfl, fun rest => ?_⟩
    rw [List.cons_append, front_of_two (by omega) (by omega) hfirstCont, hlead, hfirstBits,
      hchar _ (by omega)]
    rfl
  split
  · next hone htwo hthree =>
    have hlead : (UInt8.ofNat (c.val.toNat / 4096 % 0x10 + 0xE0)).toNat
        = c.val.toNat / 4096 % 0x10 + 0xE0 :=
      toNat_ofNat_of_lt (by omega)
    refine ⟨_, _, rfl, fun rest => ?_⟩
    rw [List.cons_append, List.cons_append, front_of_three (by omega) (by omega)
      (secondFits_of_bounds hnextCont (by omega) (by omega) (by omega) (by omega)) hfirstCont,
      hlead, hnextBits, hfirstBits, hchar _ (by omega)]
    rfl
  · next hone htwo hthree =>
    have hlead : (UInt8.ofNat (c.val.toNat / 262144 % 0x08 + 0xF0)).toNat
        = c.val.toNat / 262144 % 0x08 + 0xF0 :=
      toNat_ofNat_of_lt (by omega)
    refine ⟨_, _, rfl, fun rest => ?_⟩
    rw [List.cons_append, List.cons_append, List.cons_append, front_of_four (by omega) (by omega)
      (secondFits_of_bounds hlastCont (by omega) (by omega) (by omega) (by omega)) hnextCont
      hfirstCont, hlead, hlastBits, hnextBits, hfirstBits, hchar _ (by omega)]
    rfl

/-! ## 3. The bytes of a text -/

theorem decodeFrom_utf8EncodeChar (c : Char) (rest : List UInt8) (position : Nat) :
    ∃ next, decodeFrom position (String.utf8EncodeChar c ++ rest)
      = (decodeFrom next rest).map (.char c :: ·) := by
  obtain ⟨lead, more, hbytes, hfront⟩ := front_utf8EncodeChar c
  refine ⟨position + more.length + 1, ?_⟩
  rw [hbytes, List.cons_append, decodeFrom, hfront]
  dsimp only
  rw [List.drop_left]

/-- **The bytes of a text decode to the text.** -/
theorem decode_of_encode {t : Text} {bytes : List UInt8} (h : encode t = .ok bytes) :
    decode bytes = .ok t := by
  have hall : ∀ position, decodeFrom position bytes = .ok t := by
    unfold encode at h
    induction t generalizing bytes with
    | nil =>
      intro position
      rw [← Except.ok.inj h, decodeFrom]
    | cons p t ih =>
      obtain ⟨first, rest, hfirst, hrest, rfl⟩ := (encodeFrom_cons_eq_ok_iff 0 p t bytes).mp h
      intro position
      cases p with
      | half n => simp [bytesOf?] at hfirst
      | char c =>
        rw [← Option.some.inj hfirst]
        obtain ⟨next, hnext⟩ := decodeFrom_utf8EncodeChar c rest position
        rw [hnext, ih (encodeFrom_of_encodeFrom hrest 0)]
        rfl
  exact hall 0

end FieldAudit.Text.Utf8
