import FieldAudit.Json.Reader
import FieldAudit.Proofs.Attempt
import FieldAudit.Proofs.Entries

/-!
Parts of JSON values. A part of a value is the value itself, or a part of one of its items or
members. What is read from a text names every member of an object once, however deep the object lies
in it (`distinct_of_read`): a name that comes again replaces the value of its first occurrence.
-/

set_option autoImplicit false

namespace FieldAudit

namespace Json

/-! ## 1. Parts -/

namespace Value

/-- A value that stands in another one, at any depth. -/
inductive IsPart (part : Value) : Value → Prop
  | self : IsPart part part
  | item {item : Value} {items : List Value} (hitem : item ∈ items) (hpart : IsPart part item) :
      IsPart part (.array items)
  | member {name : Text} {value : Value} {members : Entries Value}
      (hmember : (name, value) ∈ members) (hpart : IsPart part value) :
      IsPart part (.object members)

theorem IsPart.trans {part middle whole : Value} (hfirst : IsPart part middle)
    (hsecond : IsPart middle whole) : IsPart part whole := by
  induction hsecond with
  | self => exact hfirst
  | item hitem _ ih => exact .item hitem ih
  | member hmember _ ih => exact .member hmember ih

/-- A member that is not null is there. -/
theorem mem_of_member_eq {name : Text} {members : Entries Value} {value : Value}
    (h : Value.member name members = value) (hvalue : value.isNull = false) :
    (name, value) ∈ members := by
  apply Entries.mem_of_get?_eq_some
  unfold Value.member at h
  cases hget : Entries.get? name members with
  | none =>
    rw [hget, Option.getD_none] at h
    rw [← h] at hvalue
    simp [isNull] at hvalue
  | some found =>
    rw [hget, Option.getD_some] at h
    rw [h]

/-- No object in the value names a member twice. -/
def Distinct (value : Value) : Prop :=
  ∀ members, IsPart (.object members) value → (Entries.keys members).Nodup

theorem distinct_array {items : List Value} (h : ∀ item ∈ items, Distinct item) :
    Distinct (.array items) := by
  intro members hpart
  cases hpart with
  | item hitem hpart => exact h _ hitem members hpart

theorem distinct_object {members : Entries Value} (hkeys : (Entries.keys members).Nodup)
    (h : ∀ member ∈ members, Distinct member.2) : Distinct (.object members) := by
  intro inner hpart
  cases hpart with
  | self => exact hkeys
  | member hmember hpart => exact h _ hmember inner hpart

/-- A value that is neither list nor object. -/
def IsPlain (value : Value) : Prop :=
  (∀ items, value ≠ .array items) ∧ ∀ members, value ≠ .object members

theorem IsPlain.distinct {value : Value} (h : IsPlain value) : Distinct value := by
  intro members hpart
  cases hpart with
  | self => exact absurd rfl (h.2 members)
  | item => exact absurd rfl (h.1 _)
  | member => exact absurd rfl (h.2 _)

end Value

/-! ## 2. What is read -/

open Value

theorem isPlain_of_mem_wordValues {word : String} {value : Value} (h : (word, value) ∈ wordValues) :
    IsPlain value := by
  simp only [wordValues, List.mem_cons, List.not_mem_nil, or_false, Prod.mk.injEq] at h
  rcases h with ⟨-, rfl⟩ | ⟨-, rfl⟩ | ⟨-, rfl⟩ | ⟨-, rfl⟩ | ⟨-, rfl⟩ | ⟨-, rfl⟩ <;> simp [IsPlain]

theorem isPlain_of_readUnsigned {negative : Bool} {t rest : Text} {value : Value}
    (h : readUnsigned negative t = some (value, rest)) : IsPlain value := by
  unfold readUnsigned at h
  obtain ⟨⟨whole, afterWhole⟩, -, h⟩ := Option.bind_eq_some_iff.mp h
  dsimp only at h
  split at h
  · obtain ⟨rfl, -⟩ := Prod.mk.inj (Option.some.inj h)
    simp [IsPlain]
  · obtain ⟨rfl, -⟩ := Prod.mk.inj (Option.some.inj h)
    simp [IsPlain]

theorem isPlain_of_readNumber {t rest : Text} {value : Value}
    (h : readNumber t = some (value, rest)) : IsPlain value := by
  unfold readNumber at h
  split at h
  · exact isPlain_of_readUnsigned h
  · exact isPlain_of_readUnsigned h

theorem isPlain_of_readPlain {limit : Nat} {t rest : Text} {value : Value}
    (h : readPlain limit t = .ok (value, rest)) : IsPlain value := by
  unfold readPlain at h
  split at h
  · next found hfound =>
    obtain rfl := Except.ok.inj h
    obtain ⟨⟨word, value⟩, hmem, hword⟩ := List.exists_of_findSome?_eq_some hfound
    obtain ⟨_, -, hvalue⟩ := Option.map_eq_some_iff.mp hword
    obtain ⟨rfl, -⟩ := Prod.mk.inj hvalue
    exact isPlain_of_mem_wordValues hmem
  · split at h
    · next number hnumber =>
      dsimp only at h
      split at h
      · simp at h
      · obtain ⟨rfl, -⟩ := Prod.mk.inj (Except.ok.inj h)
        exact isPlain_of_readNumber hnumber
    · simp at h

/-- The readers that have some fuel read values without double names. -/
structure ReadDistinct (limit fuel : Nat) : Prop where
  value : ∀ {levels t value rest}, readValue limit levels fuel t = .ok (value, rest) →
    Distinct value
  items : ∀ {levels t items rest}, readItems limit levels fuel t = .ok (items, rest) →
    ∀ item ∈ items, Distinct item
  members : ∀ {levels t members rest}, readMembers limit levels fuel t = .ok (members, rest) →
    ∀ member ∈ members, Distinct member.2

namespace ReadDistinct

variable {limit fuel levels : Nat} {t rest : Text}

theorem readValue_succ (ih : ReadDistinct limit fuel) {value : Value}
    (h : readValue limit levels (fuel + 1) t = .ok (value, rest)) : Distinct value := by
  unfold readValue at h
  split at h
  · -- a text
    obtain ⟨read, -, hread⟩ := (map_eq_ok_iff _ _ _).mp h
    obtain ⟨rfl, -⟩ := Prod.mk.inj hread
    exact IsPlain.distinct (by simp [IsPlain])
  · simp at h
  · -- a list, empty or from its first item on
    split at h
    · obtain ⟨rfl, -⟩ := Prod.mk.inj (Except.ok.inj h)
      exact distinct_array fun item hitem => absurd hitem List.not_mem_nil
    · obtain ⟨⟨items, after⟩, hitems, hread⟩ := (map_eq_ok_iff _ _ _).mp h
      obtain ⟨rfl, -⟩ := Prod.mk.inj hread
      exact distinct_array (ih.items hitems)
  · simp at h
  · -- an object, empty or from its first member on, whose members are put one after the other
    split at h
    · obtain ⟨rfl, -⟩ := Prod.mk.inj (Except.ok.inj h)
      exact distinct_object List.nodup_nil fun member hmember => absurd hmember List.not_mem_nil
    · obtain ⟨⟨members, after⟩, hmembers, hread⟩ := (map_eq_ok_iff _ _ _).mp h
      obtain ⟨rfl, -⟩ := Prod.mk.inj hread
      refine distinct_object (Entries.nodup_keys_ofPairs members) fun member hmember => ?_
      exact ih.members hmembers member (Entries.mem_of_mem_ofPairs hmember)
  · exact (isPlain_of_readPlain h).distinct

theorem readItems_succ (ih : ReadDistinct limit fuel) {items : List Value}
    (h : readItems limit levels (fuel + 1) t = .ok (items, rest)) :
    ∀ item ∈ items, Distinct item := by
  unfold readItems at h
  split at h
  · simp at h
  · next first after hfirst =>
    have hdistinct : Distinct first := ih.value hfirst
    split at h
    · obtain ⟨rfl, -⟩ := Prod.mk.inj (Except.ok.inj h)
      exact List.forall_mem_singleton.mpr hdistinct
    · obtain ⟨⟨more, last⟩, hmore, hread⟩ := (map_eq_ok_iff _ _ _).mp h
      obtain ⟨rfl, -⟩ := Prod.mk.inj hread
      exact List.forall_mem_cons.mpr ⟨hdistinct, ih.items hmore⟩
    · simp at h

theorem readMembers_succ (ih : ReadDistinct limit fuel) {members : Entries Value}
    (h : readMembers limit levels (fuel + 1) t = .ok (members, rest)) :
    ∀ member ∈ members, Distinct member.2 := by
  unfold readMembers at h
  split at h
  · split at h
    · simp at h
    · split at h
      · split at h
        · simp at h
        · next value after hvalue =>
          have hdistinct : Distinct value := ih.value hvalue
          split at h
          · obtain ⟨rfl, -⟩ := Prod.mk.inj (Except.ok.inj h)
            exact List.forall_mem_singleton.mpr hdistinct
          · obtain ⟨⟨more, last⟩, hmore, hread⟩ := (map_eq_ok_iff _ _ _).mp h
            obtain ⟨rfl, -⟩ := Prod.mk.inj hread
            exact List.forall_mem_cons.mpr ⟨hdistinct, ih.members hmore⟩
          · simp at h
      · simp at h
  · simp at h

end ReadDistinct

/-- Every reader reads values without double names. By induction on the fuel, for values, items and
members at once: each reader calls the others with one unit less. -/
theorem readDistinct (limit fuel : Nat) : ReadDistinct limit fuel := by
  induction fuel with
  | zero =>
    refine ⟨?_, ?_, ?_⟩
    · intro levels t value rest h
      simp [readValue] at h
    · intro levels t items rest h
      simp [readItems] at h
    · intro levels t members rest h
      simp [readMembers] at h
  | succ fuel ih => exact ⟨ih.readValue_succ, ih.readItems_succ, ih.readMembers_succ⟩

/-- **What is read names every member once.** -/
theorem distinct_of_read {t : Text} {value : Value} (h : read t = .ok value) : Distinct value := by
  have hwhole : readWhole t = .ok value := (mapError_eq_ok_iff _ _ _).mp h
  unfold readWhole readWithin at hwhole
  split at hwhole
  · simp at hwhole
  · split at hwhole
    · simp at hwhole
    · next found rest hfound =>
      have hdistinct : Distinct found := (readDistinct _ _).value hfound
      split at hwhole
      · rw [← Except.ok.inj hwhole]
        exact hdistinct
      · simp at hwhole

end Json

end FieldAudit
