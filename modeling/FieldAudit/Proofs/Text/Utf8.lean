import FieldAudit.Text.Utf8

/-!
Bytes of a text and of its parts. Whether a text has bytes is settled point by point, wherever the
text stands, so texts one after the other have bytes if each of them has
(`encode_append_eq_ok_iff`), and a text with points left out has bytes if the whole has
(`encodeFrom_sublist`).
-/

set_option autoImplicit false

namespace FieldAudit.Text

/-- A text is whole if no half of a surrogate pair stands in it. -/
def IsWhole (t : Text) : Prop := ∀ p ∈ t, p.isHalf = false

instance (t : Text) : Decidable (IsWhole t) :=
  inferInstanceAs (Decidable (∀ p ∈ t, p.isHalf = false))

namespace Utf8

open scoped List

variable {bytes? : Point → Option (List UInt8)}

/-- A text has bytes if its first point and the rest have, and these are theirs. -/
theorem encodeFrom_cons_eq_ok_iff (position : Nat) (p : Point) (t : Text) (bytes : List UInt8) :
    encodeFrom bytes? position (p :: t) = .ok bytes
      ↔ ∃ own rest, bytes? p = some own ∧ encodeFrom bytes? (position + 1) t = .ok rest
        ∧ bytes = own ++ rest := by
  rw [encodeFrom]
  cases bytes? p with
  | none => simp
  | some own =>
    dsimp only
    cases encodeFrom bytes? (position + 1) t with
    | error unencodable => simp [Except.map]
    | ok rest => simp [Except.map, eq_comm]

/-- Whether a text has bytes does not depend on where it stands, and neither do the bytes. -/
theorem encodeFrom_of_encodeFrom {t : Text} {position : Nat} {bytes : List UInt8}
    (h : encodeFrom bytes? position t = .ok bytes) (other : Nat) :
    encodeFrom bytes? other t = .ok bytes := by
  induction t generalizing position other bytes with
  | nil => exact h
  | cons p t ih =>
    rw [encodeFrom_cons_eq_ok_iff] at h ⊢
    obtain ⟨own, rest, hp, hrest, rfl⟩ := h
    exact ⟨own, rest, hp, ih hrest (other + 1), rfl⟩

/-- Two texts, one after the other, have bytes if both have, and these are theirs. -/
theorem encodeFrom_append_eq_ok_iff (first second : Text) (position : Nat) (bytes : List UInt8) :
    encodeFrom bytes? position (first ++ second) = .ok bytes
      ↔ ∃ start rest, encodeFrom bytes? position first = .ok start
        ∧ encodeFrom bytes? (position + first.length) second = .ok rest
        ∧ bytes = start ++ rest := by
  induction first generalizing position bytes with
  | nil =>
    -- an empty text has no bytes and does not move the other
    constructor
    · intro h
      exact ⟨[], bytes, rfl, h, rfl⟩
    · rintro ⟨start, rest, hstart, hrest, rfl⟩
      obtain rfl := Except.ok.inj hstart
      exact hrest
  | cons p first ih =>
    have hlength : position + (p :: first).length = position + 1 + first.length := by
      rw [List.length_cons]
      omega
    rw [List.cons_append, encodeFrom_cons_eq_ok_iff, hlength]
    constructor
    · rintro ⟨own, others, hp, hothers, rfl⟩
      obtain ⟨start, rest, hstart, hrest, rfl⟩ := (ih (position + 1) others).mp hothers
      refine ⟨own ++ start, rest, ?_, hrest, (List.append_assoc own start rest).symm⟩
      exact (encodeFrom_cons_eq_ok_iff position p first _).mpr ⟨own, start, hp, hstart, rfl⟩
    · rintro ⟨whole, rest, hwhole, hrest, rfl⟩
      obtain ⟨own, start, hp, hstart, rfl⟩ :=
        (encodeFrom_cons_eq_ok_iff position p first whole).mp hwhole
      exact ⟨own, start ++ rest, hp, (ih (position + 1) _).mpr ⟨start, rest, hstart, hrest, rfl⟩,
        List.append_assoc own start rest⟩

/-- The same for texts from their beginnings. -/
theorem encodeFrom_zero_append_eq_ok_iff (first second : Text) (bytes : List UInt8) :
    encodeFrom bytes? 0 (first ++ second) = .ok bytes
      ↔ ∃ start rest, encodeFrom bytes? 0 first = .ok start ∧ encodeFrom bytes? 0 second = .ok rest
        ∧ bytes = start ++ rest := by
  rw [encodeFrom_append_eq_ok_iff]
  constructor
  · rintro ⟨start, rest, hstart, hrest, rfl⟩
    exact ⟨start, rest, hstart, encodeFrom_of_encodeFrom hrest 0, rfl⟩
  · rintro ⟨start, rest, hstart, hrest, rfl⟩
    exact ⟨start, rest, hstart, encodeFrom_of_encodeFrom hrest _, rfl⟩

theorem encode_append_eq_ok_iff (first second : Text) (bytes : List UInt8) :
    encode (first ++ second) = .ok bytes
      ↔ ∃ start rest, encode first = .ok start ∧ encode second = .ok rest ∧ bytes = start ++ rest :=
  encodeFrom_zero_append_eq_ok_iff first second bytes

/-- A text with points left out has bytes if the whole text has: its own, in the order of the
whole. -/
theorem encodeFrom_sublist {part whole : Text} (hpart : part <+ whole) {position : Nat}
    {bytes : List UInt8} (h : encodeFrom bytes? position whole = .ok bytes) :
    ∃ own, encodeFrom bytes? position part = .ok own ∧ own <+ bytes := by
  induction hpart generalizing position bytes with
  | slnil => exact ⟨bytes, h, List.Sublist.refl bytes⟩
  | cons p _ ih =>
    obtain ⟨first, rest, -, hrest, rfl⟩ := (encodeFrom_cons_eq_ok_iff position p _ _).mp h
    obtain ⟨own, hown, hsub⟩ := ih hrest
    exact ⟨own, encodeFrom_of_encodeFrom hown position,
      hsub.trans (List.sublist_append_right first rest)⟩
  | cons_cons p _ ih =>
    obtain ⟨first, rest, hp, hrest, rfl⟩ := (encodeFrom_cons_eq_ok_iff position p _ _).mp h
    obtain ⟨own, hown, hsub⟩ := ih hrest
    refine ⟨first ++ own, ?_, hsub.append_left first⟩
    exact (encodeFrom_cons_eq_ok_iff position p _ _).mpr ⟨first, own, hp, hown, rfl⟩

/-- A whole text has bytes. -/
theorem exists_encode_of_chars {t : Text} (h : IsWhole t) :
    ∃ bytes, encode t = .ok bytes := by
  unfold encode
  induction t with
  | nil => exact ⟨[], rfl⟩
  | cons p t ih =>
    obtain ⟨rest, hrest⟩ := ih fun q hq => h q (List.mem_cons_of_mem p hq)
    have hp := h p List.mem_cons_self
    cases p with
    | half n => simp [Point.isHalf] at hp
    | char c =>
      refine ⟨String.utf8EncodeChar c ++ rest, (encodeFrom_cons_eq_ok_iff 0 _ t _).mpr ?_⟩
      exact ⟨_, rest, rfl, encodeFrom_of_encodeFrom hrest 1, rfl⟩

end Utf8

end FieldAudit.Text
