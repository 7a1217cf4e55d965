import FieldAudit.Text.Basic

/-!
Entries in insertion order: a list of keyed values in which a key that comes again keeps its first
place and takes its last value. Main statements: what `put` does to a look-up, at the key and
elsewhere, and to the keys.

Entries stand for the dictionaries of the program: `get?` looks a key up, and `put` assigns to it.
-/

set_option autoImplicit false

namespace FieldAudit

/-- Values under text keys, in the order in which the keys first came. -/
abbrev Entries (α : Type) := List (Text × α)

namespace Entries

variable {α : Type}

/-- The value under a key. -/
def get? (key : Text) : Entries α → Option α
  | [] => none
  | (k, v) :: rest => if k = key then some v else get? key rest

/-- Sets the value under a key: in place if the key is there, at the end otherwise. -/
def put (key : Text) (value : α) : Entries α → Entries α
  | [] => [(key, value)]
  | (k, v) :: rest => if k = key then (k, value) :: rest else (k, v) :: put key value rest

/-- Replaces the value under a key by a function of it; the function sees `none` at a new key. -/
def modify (key : Text) (f : Option α → α) (entries : Entries α) : Entries α :=
  put key (f (get? key entries)) entries

/-- The keys, in order. -/
def keys (entries : Entries α) : List Text := entries.map Prod.fst

/-- The entries of a list of pairs, in which keys may repeat. -/
def ofPairs (pairs : List (Text × α)) : Entries α :=
  pairs.foldl (fun entries pair => put pair.1 pair.2 entries) []

/-- Whether a key is there. -/
def has (key : Text) (entries : Entries α) : Bool := (get? key entries).isSome

@[simp] theorem get?_nil (key : Text) : get? key ([] : Entries α) = none := rfl

@[simp] theorem get?_put_self (key : Text) (value : α) (entries : Entries α) :
    get? key (put key value entries) = some value := by
  induction entries with
  | nil => simp only [put, get?, if_pos]
  | cons entry rest ih =>
    obtain ⟨k, v⟩ := entry
    by_cases h : k = key
    · simp only [put, h, if_pos, get?]
    · simp only [put, h, if_neg, get?, not_false_eq_true, ih]

theorem get?_put_of_ne {key other : Text} (h : other ≠ key) (value : α) (entries : Entries α) :
    get? other (put key value entries) = get? other entries := by
  induction entries with
  | nil => simp only [put, get?, if_neg h.symm]
  | cons entry rest ih =>
    obtain ⟨k, v⟩ := entry
    by_cases hk : k = key
    · subst hk
      simp only [put, if_pos, get?, if_neg h.symm]
    · by_cases ho : k = other
      · simp only [put, if_neg hk, get?, if_pos ho]
      · simp only [put, if_neg hk, get?, if_neg ho, ih]

theorem keys_put_of_mem {key : Text} {entries : Entries α} (h : key ∈ keys entries) (value : α) :
    keys (put key value entries) = keys entries := by
  induction entries with
  | nil => simp [keys] at h
  | cons entry rest ih =>
    obtain ⟨k, v⟩ := entry
    by_cases hk : k = key
    · subst hk
      simp only [put, if_pos, keys, List.map_cons]
    · simp only [keys, List.map_cons, List.mem_cons, Ne.symm hk, false_or] at h
      simp only [put, if_neg hk, keys, List.map_cons, List.cons.injEq, true_and]
      exact ih h

/-- Setting the value that is there changes nothing. -/
theorem put_of_get?_eq_some {key : Text} {value : α} {entries : Entries α}
    (h : get? key entries = some value) : put key value entries = entries := by
  induction entries with
  | nil => simp only [get?_nil, reduceCtorEq] at h
  | cons entry rest ih =>
    obtain ⟨k, v⟩ := entry
    unfold get? at h
    unfold put
    by_cases hk : k = key
    · rw [if_pos hk] at h ⊢
      rw [Option.some.inj h]
    · rw [if_neg hk] at h ⊢
      rw [ih h]

/-- A new key comes last. -/
theorem put_of_not_mem {key : Text} {entries : Entries α} (h : key ∉ keys entries) (value : α) :
    put key value entries = entries ++ [(key, value)] := by
  induction entries with
  | nil => rfl
  | cons entry rest ih =>
    obtain ⟨k, v⟩ := entry
    simp only [keys, List.map_cons, List.mem_cons, not_or] at h
    unfold put
    rw [if_neg (Ne.symm h.1), ih h.2, List.cons_append]

theorem keys_put_of_not_mem {key : Text} {entries : Entries α} (h : key ∉ keys entries)
    (value : α) : keys (put key value entries) = keys entries ++ [key] := by
  rw [put_of_not_mem h, keys, List.map_append]
  rfl

@[simp] theorem get?_modify_self (key : Text) (f : Option α → α) (entries : Entries α) :
    get? key (modify key f entries) = some (f (get? key entries)) := by
  rw [modify, get?_put_self]

theorem get?_modify_of_ne {key other : Text} (h : other ≠ key) (f : Option α → α)
    (entries : Entries α) : get? other (modify key f entries) = get? other entries := by
  rw [modify, get?_put_of_ne h]

end Entries

end FieldAudit
