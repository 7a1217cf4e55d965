import FieldAudit.Usage.Map

/-!
Recording usages one after the other. A usage is a field of a type with the site of its selection.
What is recorded under a field is read off the list of usages alone: the sites that were there, and
then the sites of the usages of that field, in their order (`sites_recordEach`). Everything that is
said about the usages of a document, a file or a project is said about such a list.
-/

set_option autoImplicit false

namespace FieldAudit

/-- A field of a type. -/
structure Coordinate where
  type : Text
  field : Text
  deriving DecidableEq, Repr

namespace UsageMap

/-! ## 1. Lists of usages -/

/-- Records usages one after the other. -/
def recordEach (usages : UsageMap) (found : List (Coordinate × Site)) : UsageMap :=
  found.foldl (fun usages use => usages.record use.1.type use.1.field use.2) usages

/-- The sites of the usages of one field, in order. -/
def sitesAmong (found : List (Coordinate × Site)) (coordinate : Coordinate) : List Site :=
  (found.filter fun use => use.1 = coordinate).map Prod.snd

@[simp] theorem recordEach_nil (usages : UsageMap) : usages.recordEach [] = usages := rfl

theorem recordEach_append (usages : UsageMap) (first second : List (Coordinate × Site)) :
    usages.recordEach (first ++ second) = (usages.recordEach first).recordEach second := by
  simp only [recordEach, List.foldl_append]

@[simp] theorem sitesAmong_nil (coordinate : Coordinate) : sitesAmong [] coordinate = [] := rfl

theorem sitesAmong_append (first second : List (Coordinate × Site)) (coordinate : Coordinate) :
    sitesAmong (first ++ second) coordinate
      = sitesAmong first coordinate ++ sitesAmong second coordinate := by
  simp only [sitesAmong, List.filter_append, List.map_append]

theorem sitesAmong_flatMap {α : Type} (parts : List α) (found : α → List (Coordinate × Site))
    (coordinate : Coordinate) :
    sitesAmong (parts.flatMap found) coordinate
      = parts.flatMap fun part => sitesAmong (found part) coordinate := by
  induction parts with
  | nil => rfl
  | cons part rest ih =>
    rw [List.flatMap_cons, List.flatMap_cons, sitesAmong_append, ih]

/-- Usages that all have one site leave one copy of it for each time the field comes up. -/
theorem sitesAmong_map_site (coordinates : List Coordinate) (site : Site)
    (coordinate : Coordinate) :
    sitesAmong (coordinates.map fun found => (found, site)) coordinate
      = List.replicate (coordinates.count coordinate) site := by
  induction coordinates with
  | nil => rfl
  | cons found rest ih =>
    unfold sitesAmong at ih ⊢
    by_cases h : found = coordinate
    · rw [List.map_cons, List.filter_cons_of_pos (by simpa using h), List.map_cons, ih, h,
        List.count_cons_self, List.replicate_succ]
    · rw [List.map_cons, List.filter_cons_of_neg (by simpa using h), ih,
        List.count_cons_of_ne h]

/-! ## 2. What is recorded -/

/-- **Recording is read back from the list.** Under every field stand the sites that were there
before, and then those of its usages, in order. -/
theorem sites_recordEach (usages : UsageMap) (found : List (Coordinate × Site))
    (type field : Text) :
    (usages.recordEach found).sites type field
      = usages.sites type field ++ sitesAmong found ⟨type, field⟩ := by
  induction found generalizing usages with
  | nil => rw [recordEach_nil, sitesAmong_nil, List.append_nil]
  | cons use rest ih =>
    obtain ⟨coordinate, site⟩ := use
    have hstep : usages.recordEach ((coordinate, site) :: rest)
        = (usages.record coordinate.type coordinate.field site).recordEach rest := rfl
    rw [hstep, ih]
    by_cases h : coordinate = ⟨type, field⟩
    · have hhead : sitesAmong ((coordinate, site) :: rest) ⟨type, field⟩
          = site :: sitesAmong rest ⟨type, field⟩ := by
        unfold sitesAmong
        rw [List.filter_cons_of_pos (by simpa using h), List.map_cons]
      rw [hhead, h, sites_record_self, List.append_assoc, List.singleton_append]
    · have hhead : sitesAmong ((coordinate, site) :: rest) ⟨type, field⟩
          = sitesAmong rest ⟨type, field⟩ := by
        unfold sitesAmong
        rw [List.filter_cons_of_neg (by simpa using h)]
      -- the map is nested, so the two differ in the outer key or in the inner one
      have hother : type ≠ coordinate.type ∨ field ≠ coordinate.field := by
        by_cases htype : type = coordinate.type
        · refine .inr fun hfield => h ?_
          rw [htype, hfield]
        · exact .inl htype
      rw [hhead, sites_record_of_ne hother]

end UsageMap

end FieldAudit
