import FieldAudit.Report
import Mathlib.Data.List.Induction

/-!
The join of a listing of types with usages. The report has the types of the listing in order; every
type has the fields that the listing gives it, and one usage for each field, in the order in which
the fields first come. A usage holds the sites that are recorded for its type and field, and nothing
is in the report that the listing does not name (`mem_typesOf_iff`, `entryOf_usages`). A field
counts as unused if it has no site (`unusedCount_eq`).
-/

set_option autoImplicit false

namespace FieldAudit

namespace Entries

variable {α : Type}

theorem keys_map_pair (f : Text → α) (names : List Text) :
    keys (names.map fun name => (name, f name)) = names := by
  rw [keys, List.map_map]
  exact List.map_id names

/-- A value that depends on its key alone is found under every key that is there. -/
theorem get?_map_pair_of_mem (f : Text → α) {names : List Text} {name : Text} (h : name ∈ names) :
    get? name (names.map fun name => (name, f name)) = some (f name) := by
  induction names with
  | nil => exact absurd h List.not_mem_nil
  | cons first rest ih =>
    rw [List.map_cons, get?]
    by_cases hfirst : first = name
    · rw [if_pos hfirst, hfirst]
    · rw [if_neg hfirst]
      exact ih ((List.mem_cons.mp h).resolve_left (Ne.symm hfirst))

theorem get?_map_pair_of_not_mem (f : Text → α) {names : List Text} {name : Text}
    (h : name ∉ names) :
    get? name (names.map fun name => (name, f name)) = none := by
  induction names with
  | nil => rfl
  | cons first rest ih =>
    obtain ⟨hfirst, hrest⟩ := List.ne_and_not_mem_of_not_mem_cons h
    rw [List.map_cons, get?, if_neg (Ne.symm hfirst)]
    exact ih hrest

/-- Pairs whose value depends on the key alone leave one entry for each key, in the order in which
the keys first come. The induction is on the list from the right, so its step is one `put`. -/
theorem ofPairs_map_pair (f : Text → α) (names : List Text) :
    ofPairs (names.map fun name => (name, f name))
      = names.eraseDups.map fun name => (name, f name) := by
  induction names using List.reverseRecOn with
  | nil => rfl
  | append_singleton names name ih =>
    have hfold : ofPairs ((names ++ [name]).map fun name => (name, f name))
        = put name (f name) (ofPairs (names.map fun name => (name, f name))) := by
      rw [List.map_append, ofPairs, List.foldl_append]
      rfl
    rw [hfold, ih, List.eraseDups_append]
    by_cases h : name ∈ names
    · -- the key is there, with the very value that is put under it
      have hremoved : [name].removeAll names = [] := by
        rw [List.removeAll, List.filter_cons_of_neg (by simpa using h), List.filter_nil]
      rw [hremoved, List.eraseDups_nil, List.append_nil]
      exact put_of_get?_eq_some (get?_map_pair_of_mem f (List.mem_eraseDups.mpr h))
    · -- the key is new and goes to the end
      have hremoved : [name].removeAll names = [name] := by
        rw [List.removeAll, List.filter_cons_of_pos (by simpa using h), List.filter_nil]
      have hnew : name ∉ keys (names.eraseDups.map fun name => (name, f name)) := by
        rw [keys_map_pair]
        exact fun hmem => h (List.mem_eraseDups.mp hmem)
      rw [hremoved, put_of_not_mem hnew, List.map_append]
      rfl

end Entries

namespace Report

/-! ## 1. One type -/

/-- A type has one usage for each of its fields, with the sites that are recorded for the field. -/
theorem entryOf_usages (usages : UsageMap) (type : Text) (fields : List Text) :
    (entryOf usages type fields).usages
      = fields.eraseDups.map fun field => (field, usageOf (usages.sites type field)) :=
  Entries.ofPairs_map_pair (fun field => usageOf (usages.sites type field)) fields

theorem keys_entryOf_usages (usages : UsageMap) (type : Text) (fields : List Text) :
    Entries.keys (entryOf usages type fields).usages = fields.eraseDups := by
  rw [entryOf_usages, Entries.keys_map_pair]

/-- A field is used exactly when it has a site. -/
theorem used_usageOf_iff (sites : List Site) : (usageOf sites).used = true ↔ sites ≠ [] := by
  cases sites with
  | nil => simp only [usageOf, List.isEmpty_nil, Bool.not_true, Bool.false_eq_true, ne_eq,
      not_true_eq_false]
  | cons site rest => simp only [usageOf, List.isEmpty_cons, Bool.not_false, ne_eq, reduceCtorEq,
      not_false_eq_true]

/-! ## 2. All types -/

/-- The types of a report and their fields are those of the listing. -/
theorem map_fields_typesOf (listing : Entries (List Text)) (usages : UsageMap) :
    (typesOf listing usages).map (fun entry => (entry.1, entry.2.fields)) = listing := by
  rw [typesOf, List.map_map]
  exact List.map_id listing

theorem keys_typesOf (listing : Entries (List Text)) (usages : UsageMap) :
    Entries.keys (typesOf listing usages) = Entries.keys listing := by
  rw [typesOf, Entries.keys, List.map_map]
  rfl

/-- A report has an entry under a name if the listing has one, with the usage of the fields that it
lists. -/
theorem get?_typesOf (listing : Entries (List Text)) (usages : UsageMap) (type : Text) :
    Entries.get? type (typesOf listing usages)
      = (Entries.get? type listing).map fun fields => entryOf usages type fields := by
  induction listing with
  | nil => rfl
  | cons entry rest ih =>
    obtain ⟨name, fields⟩ := entry
    rw [typesOf, List.map_cons, Entries.get?, Entries.get?]
    by_cases hname : name = type
    · rw [if_pos hname, if_pos hname, hname]
      rfl
    · rw [if_neg hname, if_neg hname]
      exact ih

theorem mem_typesOf_iff (listing : Entries (List Text)) (usages : UsageMap) (type : Text)
    (entry : TypeEntry) :
    (type, entry) ∈ typesOf listing usages
      ↔ ∃ fields, (type, fields) ∈ listing ∧ entry = entryOf usages type fields := by
  rw [typesOf, List.mem_map]
  constructor
  · rintro ⟨⟨listed, fields⟩, hlisted, hsame⟩
    obtain ⟨rfl, hentry⟩ := Prod.mk.inj hsame
    exact ⟨fields, hlisted, hentry.symm⟩
  · rintro ⟨fields, hlisted, rfl⟩
    exact ⟨(type, fields), hlisted, rfl⟩

theorem types_of_build?_eq_some {endpoint : Json.Value} {listing : Entries (List Text)}
    {usages : UsageMap} {moment : Moment} {report : Report}
    (h : build? endpoint listing usages moment = some report) :
    report.types = typesOf listing usages := by
  obtain ⟨stamp, -, rfl⟩ := Option.map_eq_some_iff.mp h
  rfl

/-! ## 3. Single fields -/

/-- What a report says about a field of a type, if it lists it. -/
def usage? (report : Report) (type field : Text) : Option FieldUsage :=
  (Entries.get? type report.types).bind fun entry => Entries.get? field entry.usages

/-- A report says of every field that the listing has under a type what is recorded for it, and
nothing of others. -/
theorem usage?_eq {report : Report} {listing : Entries (List Text)} {usages : UsageMap}
    (htypes : report.types = typesOf listing usages) (type field : Text) :
    report.usage? type field
      = if field ∈ (Entries.get? type listing).getD [] then some (usageOf (usages.sites type field))
        else none := by
  rw [usage?, htypes, get?_typesOf]
  cases Entries.get? type listing with
  | none => exact (if_neg List.not_mem_nil).symm
  | some fields =>
    rw [Option.map_some, Option.bind_some, Option.getD_some, entryOf_usages]
    by_cases hfield : field ∈ fields
    · rw [if_pos hfield]
      exact Entries.get?_map_pair_of_mem _ (List.mem_eraseDups.mpr hfield)
    · rw [if_neg hfield]
      exact Entries.get?_map_pair_of_not_mem _ fun hmem => hfield (List.mem_eraseDups.mp hmem)

theorem usage?_eq_some_iff {report : Report} {listing : Entries (List Text)} {usages : UsageMap}
    (htypes : report.types = typesOf listing usages) (type field : Text) (usage : FieldUsage) :
    report.usage? type field = some usage
      ↔ field ∈ (Entries.get? type listing).getD []
        ∧ usage = usageOf (usages.sites type field) := by
  rw [usage?_eq htypes]
  by_cases hlisted : field ∈ (Entries.get? type listing).getD []
  · rw [if_pos hlisted, Option.some.injEq, and_iff_right hlisted, eq_comm]
  · simp [hlisted]

theorem usage?_eq_none_iff {report : Report} {listing : Entries (List Text)} {usages : UsageMap}
    (htypes : report.types = typesOf listing usages) (type field : Text) :
    report.usage? type field = none ↔ field ∉ (Entries.get? type listing).getD [] := by
  rw [usage?_eq htypes]
  by_cases hlisted : field ∈ (Entries.get? type listing).getD []
  · simp [hlisted]
  · simp [hlisted]

/-- The fields of a type that count as unused are those without a site. -/
theorem unusedCount_entryOf (usages : UsageMap) (type : Text) (fields : List Text) :
    TypeEntry.unusedCount (entryOf usages type fields)
      = fields.eraseDups.countP fun field => (usages.sites type field).isEmpty := by
  rw [TypeEntry.unusedCount, entryOf_usages, List.filter_map, List.length_map,
    List.countP_eq_length_filter]
  congr 1
  refine List.filter_congr fun field _ => ?_
  show (!(!(usages.sites type field).isEmpty)) = (usages.sites type field).isEmpty
  rw [Bool.not_not]

theorem unusedCount_eq {report : Report} {listing : Entries (List Text)} {usages : UsageMap}
    (htypes : report.types = typesOf listing usages) :
    report.unusedCount = sumOf (listing.map fun entry =>
      entry.2.eraseDups.countP fun field => (usages.sites entry.1 field).isEmpty) := by
  have hcount : ∀ entry : Text × List Text,
      TypeEntry.unusedCount (entryOf usages entry.1 entry.2)
        = entry.2.eraseDups.countP fun field => (usages.sites entry.1 field).isEmpty :=
    fun entry => unusedCount_entryOf usages entry.1 entry.2
  rw [unusedCount, htypes, typesOf, List.map_map]
  exact congrArg sumOf (List.map_congr_left fun entry _ => hcount entry)

/-- A report that joins more usages with the same listing has at most as many unused fields. -/
theorem unusedCount_le {fewer more : Report} {listing : Entries (List Text)}
    {usages others : UsageMap} (hfewer : fewer.types = typesOf listing usages)
    (hmore : more.types = typesOf listing others)
    (h : ∀ type field, usages.sites type field ≠ [] → others.sites type field ≠ []) :
    more.unusedCount ≤ fewer.unusedCount := by
  rw [unusedCount_eq hfewer, unusedCount_eq hmore]
  refine sumOf_map_le fun entry => List.countP_mono_left fun field _ hempty => ?_
  rw [List.isEmpty_iff] at hempty ⊢
  by_contra hused
  exact h entry.1 field hused hempty

end Report

end FieldAudit
