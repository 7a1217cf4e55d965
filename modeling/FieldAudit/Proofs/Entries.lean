import FieldAudit.Entries
import Mathlib.Data.List.Nodup

/-!
Entries whose keys are all different. Setting a value keeps the keys apart and adds no other entry,
so what is put together from pairs has every key once, with a value that one of the pairs gave it.
Other values under the same keys are found and set as the first ones are (`mapValues`).
-/

set_option autoImplicit false

namespace FieldAudit

namespace Entries

variable {α : Type}

/-! ## 1. Keys that are all different -/

theorem mem_of_get?_eq_some {key : Text} {value : α} {entries : Entries α}
    (h : get? key entries = some value) : (key, value) ∈ entries := by
  induction entries with
  | nil => simp only [get?_nil, reduceCtorEq] at h
  | cons entry rest ih =>
    obtain ⟨k, v⟩ := entry
    unfold get? at h
    by_cases hk : k = key
    · rw [if_pos hk] at h
      rw [hk, Option.some.inj h]
      exact List.mem_cons_self
    · rw [if_neg hk] at h
      exact List.mem_cons_of_mem _ (ih h)

/-- If the keys are all different, every entry is found under its key. -/
theorem get?_eq_some_iff_mem {entries : Entries α} (h : (keys entries).Nodup) (key : Text)
    (value : α) :
    get? key entries = some value ↔ (key, value) ∈ entries := by
  refine ⟨mem_of_get?_eq_some, fun hmem => ?_⟩
  induction entries with
  | nil => exact absurd hmem List.not_mem_nil
  | cons entry rest ih =>
    obtain ⟨k, v⟩ := entry
    obtain ⟨hfirst, hrest⟩ : k ∉ keys rest ∧ (keys rest).Nodup := List.nodup_cons.mp h
    unfold get?
    rcases List.mem_cons.mp hmem with hsame | hother
    · obtain ⟨rfl, rfl⟩ := Prod.mk.inj hsame
      exact if_pos rfl
    · have hne : k ≠ key := by
        rintro rfl
        exact hfirst (List.mem_map_of_mem hother)
      rw [if_neg hne]
      exact ih hrest hother

/-- Setting a value adds no other entry. -/
theorem mem_put {key : Text} {value : α} {entries : Entries α} {entry : Text × α}
    (h : entry ∈ put key value entries) : entry = (key, value) ∨ entry ∈ entries := by
  induction entries with
  | nil => exact .inl (List.mem_singleton.mp h)
  | cons first rest ih =>
    obtain ⟨k, v⟩ := first
    unfold put at h
    by_cases hk : k = key
    · rw [if_pos hk] at h
      rcases List.mem_cons.mp h with hsame | hrest
      · rw [hsame, hk]
        exact .inl rfl
      · exact .inr (List.mem_cons_of_mem _ hrest)
    · rw [if_neg hk] at h
      rcases List.mem_cons.mp h with hsame | hrest
      · rw [hsame]
        exact .inr List.mem_cons_self
      · exact (ih hrest).imp_right (List.mem_cons_of_mem _)

theorem nodup_keys_put {entries : Entries α} (h : (keys entries).Nodup) (key : Text) (value : α) :
    (keys (put key value entries)).Nodup := by
  by_cases hkey : key ∈ keys entries
  · rw [keys_put_of_mem hkey]
    exact h
  · rw [keys_put_of_not_mem hkey]
    refine List.nodup_append.mpr ⟨h, List.nodup_singleton key, ?_⟩
    intro other hother same hsame
    rw [List.mem_singleton.mp hsame]
    exact fun heq => hkey (heq ▸ hother)

/-- Pairs that are put one after the other keep the keys apart, and add no other entry. -/
theorem foldl_put {pairs : List (Text × α)} {entries : Entries α} (h : (keys entries).Nodup) :
    (keys (pairs.foldl (fun all pair => put pair.1 pair.2 all) entries)).Nodup
      ∧ ∀ entry ∈ pairs.foldl (fun all pair => put pair.1 pair.2 all) entries,
        entry ∈ pairs ∨ entry ∈ entries := by
  induction pairs generalizing entries with
  | nil => exact ⟨h, fun entry hentry => .inr hentry⟩
  | cons pair pairs ih =>
    obtain ⟨hnodup, hmem⟩ := ih (nodup_keys_put h pair.1 pair.2)
    refine ⟨hnodup, ?_⟩
    intro entry hentry
    rcases hmem entry hentry with hpairs | hput
    · exact .inl (List.mem_cons_of_mem _ hpairs)
    · rcases mem_put hput with hpair | hbefore
      · rw [hpair]
        exact .inl List.mem_cons_self
      · exact .inr hbefore

theorem nodup_keys_nil : (keys ([] : Entries α)).Nodup := List.nodup_nil

theorem nodup_keys_ofPairs (pairs : List (Text × α)) : (keys (ofPairs pairs)).Nodup :=
  (foldl_put nodup_keys_nil).1

theorem mem_of_mem_ofPairs {pairs : List (Text × α)} {entry : Text × α}
    (h : entry ∈ ofPairs pairs) : entry ∈ pairs :=
  ((foldl_put nodup_keys_nil).2 entry h).resolve_right List.not_mem_nil

/-- Pairs with different keys are the entries that they make. -/
theorem ofPairs_of_nodup {pairs : List (Text × α)} (h : (keys pairs).Nodup) :
    ofPairs pairs = pairs := by
  -- put after entries with other keys, the pairs come after them
  have hput : ∀ (rest : List (Text × α)) (entries : Entries α), (keys (entries ++ rest)).Nodup →
      rest.foldl (fun all pair => put pair.1 pair.2 all) entries = entries ++ rest := by
    intro rest
    induction rest with
    | nil => exact fun entries _ => (List.append_nil entries).symm
    | cons pair rest ih =>
      intro entries hnodup
      have hnew : pair.1 ∉ keys entries := by
        intro hmem
        rw [keys, List.map_append, List.nodup_append] at hnodup
        exact hnodup.2.2 _ hmem _ List.mem_cons_self rfl
      have hassoc : entries ++ pair :: rest = (entries ++ [pair]) ++ rest := by
        rw [List.append_assoc, List.singleton_append]
      rw [hassoc] at hnodup ⊢
      rw [List.foldl_cons, put_of_not_mem hnew]
      exact ih _ hnodup
  rw [ofPairs, hput pairs [] h, List.nil_append]

/-! ## 2. Other values under the same keys -/

variable {β : Type}

/-- Entries with every value replaced by a function of it. -/
def mapValues (f : α → β) (entries : Entries α) : Entries β :=
  entries.map fun entry => (entry.1, f entry.2)

@[simp] theorem keys_mapValues (f : α → β) (entries : Entries α) :
    keys (mapValues f entries) = keys entries := by
  rw [mapValues, keys, List.map_map]
  rfl

theorem mapValues_injective {f : α → β} (hf : Function.Injective f) :
    Function.Injective (mapValues f) := by
  refine Function.Injective.list_map ?_
  intro first second h
  obtain ⟨hkey, hvalue⟩ := Prod.mk.inj h
  exact Prod.ext hkey (hf hvalue)

theorem get?_mapValues (f : α → β) (key : Text) (entries : Entries α) :
    get? key (mapValues f entries) = (get? key entries).map f := by
  induction entries with
  | nil => rfl
  | cons entry rest ih =>
    obtain ⟨k, v⟩ := entry
    rw [mapValues, List.map_cons, get?, get?]
    by_cases hk : k = key
    · rw [if_pos hk, if_pos hk]
      rfl
    · rw [if_neg hk, if_neg hk]
      exact ih

theorem put_mapValues (f : α → β) (key : Text) (value : α) (entries : Entries α) :
    put key (f value) (mapValues f entries) = mapValues f (put key value entries) := by
  induction entries with
  | nil => rfl
  | cons entry rest ih =>
    obtain ⟨k, v⟩ := entry
    rw [mapValues, List.map_cons, put, put]
    by_cases hk : k = key
    · rw [if_pos hk, if_pos hk]
      rfl
    · rw [if_neg hk, if_neg hk, mapValues, List.map_cons]
      exact congrArg _ ih

end Entries

end FieldAudit
