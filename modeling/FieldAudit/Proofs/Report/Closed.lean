import FieldAudit.Proofs.Entries
import FieldAudit.Proofs.Glob.Found
import FieldAudit.Proofs.Report.Join
import FieldAudit.Proofs.Usage.Recording

/-!
The join of a listing with usages is total, faithful and closed. Usages are a list of entries, one
for each field of a type under which something is recorded (`UsageMap.entries`), in which every
field comes once, whatever was recorded (`distinct_recordEach`). The join has the types and fields
of the listing, each with the entry of the field or with nothing; entries of other fields have no
part in it, wherever they stand, and the fields without a site are counted once each
(`typesOf_join`).
-/

set_option autoImplicit false

namespace FieldAudit

namespace UsageMap

/-! ## 1. Entries -/

/-- The entries of usages: the fields, each with its type, and the sites that are recorded for
them. -/
def entries (usages : UsageMap) : List (Coordinate × List Site) :=
  usages.flatMap fun (type, fields) => fields.map fun (field, sites) => (⟨type, field⟩, sites)

/-- No type comes twice in usages, and no field of a type. -/
structure Distinct (usages : UsageMap) : Prop where
  types : (Entries.keys usages).Nodup
  fields : ∀ entry ∈ usages, (Entries.keys entry.2).Nodup

theorem distinct_nil : Distinct [] where
  types := List.nodup_nil
  fields := fun _ hentry => absurd hentry List.not_mem_nil

/-- Recording keeps types and fields apart. -/
theorem Distinct.record {usages : UsageMap} (h : usages.Distinct) (type field : Text)
    (site : Site) :
    (usages.record type field site).Distinct where
  types := Entries.nodup_keys_put h.types _ _
  fields := by
    intro entry hentry
    rcases Entries.mem_put hentry with rfl | hbefore
    · refine Entries.nodup_keys_put ?_ _ _
      cases hfields : Entries.get? type usages with
      | none => exact Entries.nodup_keys_nil
      | some fields => exact h.fields _ (Entries.mem_of_get?_eq_some hfields)
    · exact h.fields entry hbefore

theorem distinct_recordEach {usages : UsageMap} (h : usages.Distinct)
    (found : List (Coordinate × Site)) :
    (usages.recordEach found).Distinct := by
  induction found generalizing usages with
  | nil => exact h
  | cons use found ih => exact ih (h.record use.1.type use.1.field use.2)

theorem mem_entries_iff {usages : UsageMap} {coordinate : Coordinate} {sites : List Site} :
    (coordinate, sites) ∈ usages.entries
      ↔ ∃ fields, (coordinate.type, fields) ∈ usages ∧ (coordinate.field, sites) ∈ fields := by
  rw [entries, List.mem_flatMap]
  constructor
  · rintro ⟨⟨type, fields⟩, hfields, hmem⟩
    obtain ⟨⟨field, found⟩, hfound, hsame⟩ := List.mem_map.mp hmem
    obtain ⟨rfl, rfl⟩ := Prod.mk.inj hsame
    exact ⟨fields, hfields, hfound⟩
  · rintro ⟨fields, hfields, hmem⟩
    exact ⟨(coordinate.type, fields), hfields,
      List.mem_map.mpr ⟨(coordinate.field, sites), hmem, rfl⟩⟩

theorem Distinct.sites_of_mem {usages : UsageMap} (h : usages.Distinct) {coordinate : Coordinate}
    {found : List Site} (hmem : (coordinate, found) ∈ usages.entries) :
    usages.sites coordinate.type coordinate.field = found := by
  obtain ⟨fields, hfields, hfound⟩ := mem_entries_iff.mp hmem
  rw [sites_eq_getD, (Entries.get?_eq_some_iff_mem h.types _ _).mpr hfields, Option.getD_some,
    (Entries.get?_eq_some_iff_mem (h.fields _ hfields) _ _).mpr hfound, Option.getD_some]

/-- A field has no sites, or an entry with them. -/
theorem sites_eq_nil_or_mem (usages : UsageMap) (coordinate : Coordinate) :
    usages.sites coordinate.type coordinate.field = []
      ∨ (coordinate, usages.sites coordinate.type coordinate.field) ∈ usages.entries := by
  rw [sites_eq_getD]
  cases hfields : Entries.get? coordinate.type usages with
  | none => exact .inl rfl
  | some fields =>
    rw [Option.getD_some]
    cases hfound : Entries.get? coordinate.field fields with
    | none => exact .inl rfl
    | some found =>
      exact .inr (mem_entries_iff.mpr
        ⟨fields, Entries.mem_of_get?_eq_some hfields, Entries.mem_of_get?_eq_some hfound⟩)

/-- The sites of a field are those of its entry; without an entry it has none. -/
theorem Distinct.sites_eq_iff {usages : UsageMap} (h : usages.Distinct) (coordinate : Coordinate)
    (found : List Site) :
    usages.sites coordinate.type coordinate.field = found
      ↔ (coordinate, found) ∈ usages.entries
        ∨ found = [] ∧ ∀ other, (coordinate, other) ∉ usages.entries := by
  constructor
  · rintro rfl
    by_cases hentry : ∃ other, (coordinate, other) ∈ usages.entries
    · obtain ⟨other, hother⟩ := hentry
      rw [h.sites_of_mem hother]
      exact .inl hother
    · have hnone : ∀ other, (coordinate, other) ∉ usages.entries := not_exists.mp hentry
      exact .inr ⟨(sites_eq_nil_or_mem usages coordinate).resolve_right (hnone _), hnone⟩
  · rintro (hmem | ⟨rfl, hnone⟩)
    · exact h.sites_of_mem hmem
    · exact (sites_eq_nil_or_mem usages coordinate).resolve_right (hnone _)

/-- Usages with the same entry for a field have the same sites for it. -/
theorem Distinct.sites_congr {usages others : UsageMap} (h : usages.Distinct)
    (hothers : others.Distinct) {coordinate : Coordinate}
    (hsame : ∀ found, (coordinate, found) ∈ others.entries ↔ (coordinate, found) ∈ usages.entries) :
    others.sites coordinate.type coordinate.field
      = usages.sites coordinate.type coordinate.field := by
  rw [hothers.sites_eq_iff]
  simp only [hsame]
  exact (h.sites_eq_iff coordinate _).mp rfl

end UsageMap

namespace Report

/-! ## 2. The fields of a listing -/

/-- The fields that a listing names, each with its type. A field that a type repeats comes as
often. -/
def coordinatesOf (listing : Entries (List Text)) : List Coordinate :=
  listing.flatMap fun (type, fields) => fields.map fun field => ⟨type, field⟩

theorem mem_coordinatesOf_iff {listing : Entries (List Text)} {coordinate : Coordinate} :
    coordinate ∈ coordinatesOf listing
      ↔ ∃ fields, (coordinate.type, fields) ∈ listing ∧ coordinate.field ∈ fields := by
  rw [coordinatesOf, List.mem_flatMap]
  constructor
  · rintro ⟨⟨type, fields⟩, hfields, hmem⟩
    obtain ⟨field, hfield, rfl⟩ := List.mem_map.mp hmem
    exact ⟨fields, hfields, hfield⟩
  · rintro ⟨fields, hfields, hfield⟩
    exact ⟨(coordinate.type, fields), hfields, List.mem_map.mpr ⟨coordinate.field, hfield, rfl⟩⟩

/-- A listing that names no type twice, and no field of a type, names no field twice. -/
theorem nodup_coordinatesOf {listing : Entries (List Text)} (htypes : (Entries.keys listing).Nodup)
    (hfields : ∀ entry ∈ listing, entry.2.Nodup) : (coordinatesOf listing).Nodup := by
  rw [coordinatesOf, List.nodup_flatMap]
  constructor
  · rintro ⟨type, fields⟩ hlisted
    refine (hfields _ hlisted).map ?_
    intro first second hsame
    exact (Coordinate.mk.inj hsame).2
  · -- fields of different types differ in their types
    refine (List.pairwise_map.mp htypes).imp ?_
    intro first second hne coordinate hfirst hsecond
    obtain ⟨_, -, rfl⟩ := List.mem_map.mp hfirst
    obtain ⟨_, -, hsame⟩ := List.mem_map.mp hsecond
    exact hne (Coordinate.mk.inj hsame).1.symm

/-- The fields of a listing are counted type by type. -/
theorem countP_coordinatesOf (counted : Coordinate → Bool) (listing : Entries (List Text)) :
    (coordinatesOf listing).countP counted
      = sumOf (listing.map fun entry => entry.2.countP fun field => counted ⟨entry.1, field⟩) := by
  unfold coordinatesOf
  induction listing with
  | nil => rfl
  | cons entry rest ih =>
    rw [List.flatMap_cons, List.countP_append, List.countP_map, ih]
    rfl

/-- Each type with its fields in the order in which they first come. -/
def withoutRepetitions (listing : Entries (List Text)) : Entries (List Text) :=
  listing.map fun (type, fields) => (type, fields.eraseDups)

/-- A listing names the same fields with repetitions in its types and without them. -/
theorem perm_coordinatesOf {listing : Entries (List Text)} (htypes : (Entries.keys listing).Nodup) :
    (coordinatesOf (withoutRepetitions listing)).Perm (coordinatesOf listing).eraseDups := by
  have hkeys : Entries.keys (withoutRepetitions listing) = Entries.keys listing := by
    rw [withoutRepetitions, Entries.keys, List.map_map]
    rfl
  have hnodup : (coordinatesOf (withoutRepetitions listing)).Nodup := by
    refine nodup_coordinatesOf (hkeys ▸ htypes) ?_
    intro entry hentry
    obtain ⟨listed, -, rfl⟩ := List.mem_map.mp hentry
    exact nodup_eraseDups listed.2
  refine (List.perm_ext_iff_of_nodup hnodup (nodup_eraseDups _)).mpr fun coordinate => ?_
  rw [List.mem_eraseDups, mem_coordinatesOf_iff, mem_coordinatesOf_iff]
  constructor
  · rintro ⟨fields, hfields, hfield⟩
    obtain ⟨listed, hlisted, hsame⟩ := List.mem_map.mp hfields
    obtain ⟨htype, rfl⟩ := Prod.mk.inj hsame
    exact ⟨listed.2, htype ▸ hlisted, List.mem_eraseDups.mp hfield⟩
  · rintro ⟨fields, hfields, hfield⟩
    exact ⟨fields.eraseDups, List.mem_map.mpr ⟨(coordinate.type, fields), hfields, rfl⟩,
      List.mem_eraseDups.mpr hfield⟩

/-! ## 3. The join -/

/-- Usages with the same sites for the fields of a listing give the same join. -/
theorem typesOf_congr {listing : Entries (List Text)} {usages others : UsageMap}
    (h : ∀ coordinate ∈ coordinatesOf listing,
      others.sites coordinate.type coordinate.field
        = usages.sites coordinate.type coordinate.field) :
    typesOf listing others = typesOf listing usages := by
  unfold typesOf entryOf
  refine List.map_congr_left ?_
  rintro ⟨type, fields⟩ hlisted
  dsimp only
  congr 3
  refine List.map_congr_left fun field hfield => ?_
  rw [h ⟨type, field⟩ (mem_coordinatesOf_iff.mpr ⟨fields, hlisted, hfield⟩)]

/-- **The join is total, faithful and closed.** Whatever a listing of types names, each type once,
and whatever usages are recorded: the join has the types of the listing with their fields, in order.
Every type has one usage for each of its fields, in the order in which they first come; it holds the
sites of the entry of the field, in order, or none if there is no entry, and the field is used
exactly if there is one. Other usages with the same entries for the fields of the listing, in any
order and among any others, give the same join. And the fields that a report counts as unused are
the different fields of the listing without a site. -/
theorem typesOf_join {listing : Entries (List Text)} (hlisting : (Entries.keys listing).Nodup)
    {usages : UsageMap} (husages : usages.Distinct) :
    let types := typesOf listing usages
    types.map (fun entry => (entry.1, entry.2.fields)) = listing
    ∧ (∀ type entry, (type, entry) ∈ types →
      Entries.keys entry.usages = entry.fields.eraseDups
      ∧ ∀ field usage, (field, usage) ∈ entry.usages →
        usage.sites = usages.sites type field
        ∧ ((⟨type, field⟩, usage.sites) ∈ usages.entries
          ∨ usage.sites = [] ∧ ∀ sites, (⟨type, field⟩, sites) ∉ usages.entries)
        ∧ (usage.used = true ↔ usage.sites ≠ []))
    ∧ (∀ others : UsageMap, others.Distinct →
      (∀ coordinate ∈ coordinatesOf listing, ∀ sites,
        (coordinate, sites) ∈ others.entries ↔ (coordinate, sites) ∈ usages.entries) →
      typesOf listing others = types)
    ∧ ∀ report : Report, report.types = types →
      report.unusedCount = (coordinatesOf listing).eraseDups.countP fun coordinate =>
        (usages.sites coordinate.type coordinate.field).isEmpty := by
  intro types
  refine ⟨map_fields_typesOf listing usages, ?_, ?_, ?_⟩
  · intro type entry hentry
    obtain ⟨fields, -, rfl⟩ := (mem_typesOf_iff listing usages type entry).mp hentry
    refine ⟨keys_entryOf_usages usages type fields, ?_⟩
    intro field usage husage
    rw [entryOf_usages] at husage
    obtain ⟨name, -, hsame⟩ := List.mem_map.mp husage
    obtain ⟨rfl, rfl⟩ := Prod.mk.inj hsame
    exact ⟨rfl, (husages.sites_eq_iff ⟨type, name⟩ _).mp rfl, used_usageOf_iff _⟩
  · intro others hothers hsame
    exact typesOf_congr fun coordinate hlisted =>
      husages.sites_congr hothers (hsame coordinate hlisted)
  · intro report htypes
    rw [unusedCount_eq htypes, ← (perm_coordinatesOf hlisting).countP_eq, countP_coordinatesOf,
      withoutRepetitions, List.map_map]
    rfl

/-- A listing in which a type repeats a field. -/
def repeatingListing : Entries (List Text) := [("User", ["id", "name", "id"]), ("Query", ["user"])]

/-- Usages of fields of that listing, between usages of fields and types that it does not name. -/
def strayUsages : UsageMap :=
  UsageMap.recordEach [] [(⟨"Ghost", "id"⟩, ⟨"/a.ts", 1⟩), (⟨"User", "age"⟩, ⟨"/a.ts", 2⟩),
  (⟨"User", "id"⟩, ⟨"/a.ts", 2⟩), (⟨"Query", "user"⟩, ⟨"/a.ts", 3⟩), (⟨"User", "id"⟩, ⟨"/b.ts", 1⟩)]

/-- The usages of fields of that listing alone, recorded in another order of types. -/
def listedUsages : UsageMap :=
  UsageMap.recordEach [] [(⟨"Query", "user"⟩, ⟨"/a.ts", 3⟩), (⟨"User", "id"⟩, ⟨"/a.ts", 2⟩),
  (⟨"User", "id"⟩, ⟨"/b.ts", 1⟩)]

theorem typesOf_join_repeatingListing :
    (Entries.keys repeatingListing).Nodup ∧ strayUsages.Distinct
      ∧ typesOf repeatingListing listedUsages = typesOf repeatingListing strayUsages
      ∧ (typesOf repeatingListing strayUsages).map (fun entry => (entry.1, entry.2.fields))
        = repeatingListing
      ∧ (⟨"", .null, typesOf repeatingListing strayUsages⟩ : Report).unusedCount = 1 := by
  have hlisting : (Entries.keys repeatingListing).Nodup := by decide
  have hstray : strayUsages.Distinct := UsageMap.distinct_recordEach UsageMap.distinct_nil _
  have hlisted : listedUsages.Distinct := UsageMap.distinct_recordEach UsageMap.distinct_nil _
  obtain ⟨hfields, -, hclosed, hcount⟩ := typesOf_join hlisting hstray
  -- the entries of listed fields are the same but for their order
  have hperm :
      (listedUsages.entries.filter fun entry => entry.1 ∈ coordinatesOf repeatingListing).Perm
        (strayUsages.entries.filter fun entry => entry.1 ∈ coordinatesOf repeatingListing) := by
    decide
  refine ⟨hlisting, hstray, hclosed listedUsages hlisted ?_, hfields, ?_⟩
  · intro coordinate hcoordinate sites
    have hsame := hperm.mem_iff (a := (coordinate, sites))
    simpa only [List.mem_filter, hcoordinate, decide_true, and_true] using hsame
  · rw [hcount _ rfl]
    decide

end Report

end FieldAudit
