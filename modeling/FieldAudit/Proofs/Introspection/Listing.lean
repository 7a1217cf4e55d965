import FieldAudit.Proofs.Entries
import FieldAudit.Schema

/-!
The listing of a schema. If the types of the schema have different names, the listing has one entry
for each object type, under the name and with the fields of its declaration, and none for a type of
another kind (`get?_listing_eq_some_iff`).
-/

set_option autoImplicit false

namespace FieldAudit

namespace Schema

/-- The listing has the object types, those of introspection aside, each with the names of its
fields. -/
theorem mem_listing_iff (schema : Schema) (name : Text) (fields : List Text) :
    (name, fields) ∈ schema.listing
      ↔ ∃ declared, (name, .object declared) ∈ schema.types ∧ isReservedName name = false
        ∧ fields = Entries.keys declared := by
  rw [listing, List.mem_filterMap]
  constructor
  · rintro ⟨⟨other, type⟩, hmem, hlisted⟩
    cases type with
    | object declared =>
      cases hreserved : isReservedName other with
      | true => simp [hreserved] at hlisted
      | false =>
        dsimp only at hlisted
        rw [hreserved] at hlisted
        obtain ⟨rfl, rfl⟩ := Prod.mk.inj (Option.some.inj hlisted)
        exact ⟨declared, hmem, hreserved, rfl⟩
    | scalar | interface | union | enum | inputObject => simp at hlisted
  · rintro ⟨declared, hmem, hreserved, rfl⟩
    refine ⟨(name, .object declared), hmem, ?_⟩
    simp [hreserved]

theorem keys_listing_sublist (schema : Schema) :
    (Entries.keys schema.listing).Sublist (Entries.keys schema.types) := by
  rw [listing, Entries.keys, Entries.keys]
  induction schema.types with
  | nil => exact List.Sublist.refl _
  | cons entry rest ih =>
    obtain ⟨name, type⟩ := entry
    cases type with
    | object declared =>
      cases hreserved : isReservedName name with
      | true =>
        rw [List.filterMap_cons_none (by simp [hreserved])]
        exact ih.cons name
      | false =>
        rw [List.filterMap_cons_some (b := (name, Entries.keys declared)) (by simp [hreserved])]
        exact ih.cons_cons name
    | scalar | interface | union | enum | inputObject => exact ih.cons name

/-- If the types of a schema have different names, the listing gives the fields of the object types,
those of introspection aside, and of no other type. -/
theorem get?_listing_eq_some_iff {schema : Schema} (h : (Entries.keys schema.types).Nodup)
    (name : Text) (fields : List Text) :
    Entries.get? name schema.listing = some fields
      ↔ ∃ declared, Entries.get? name schema.types = some (.object declared)
        ∧ isReservedName name = false ∧ fields = Entries.keys declared := by
  have hlisting : (Entries.keys schema.listing).Nodup := h.sublist (keys_listing_sublist schema)
  rw [Entries.get?_eq_some_iff_mem hlisting, mem_listing_iff]
  simp only [Entries.get?_eq_some_iff_mem h]

end Schema

end FieldAudit
