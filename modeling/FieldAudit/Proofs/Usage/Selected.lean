import FieldAudit.Proofs.Usage.Recording
import FieldAudit.Usage.Attribution

/-!
The fields that a document selects, by recursion on the document with the type of the selection set
in hand. The walk keeps that type in a stack, and the type of the next selection set in a place that
is written by whatever opens one and stays behind when a selection set is left. The invariant that
ties the two together is `foldl_walkSelection`: whatever a selection leaves waiting, it leaves the
stack as it was and records just the fields that the recursion finds at the type on top of the
stack.
-/

set_option autoImplicit false

namespace FieldAudit.Usage

open GraphQL

/-! ## 1. The types of fields -/

/-- The fields that a type declares: only objects and interfaces declare any. -/
def Declares (schema : Schema) (parent : Text) (fields : Entries TypeRef) : Prop :=
  schema.type? parent = some (.object fields) ∨ schema.type? parent = some (.interface fields)

/-- The type, without wrappers, of a field that is selected on a type. Every type has `__typename`,
the query root leads to introspection, and apart from these a field has the type that it is declared
with. -/
inductive Returns (schema : Schema) (parent : Text) : Text → Text → Prop
  | typename : Returns schema parent "__typename" "String"
  | schema (hroot : schema.query? = some parent) : Returns schema parent "__schema" "__Schema"
  | type (hroot : schema.query? = some parent) : Returns schema parent "__type" "__Type"
  | declared {field : Text} {fields : Entries TypeRef} {ref : TypeRef}
      (htypename : field ≠ "__typename")
      (hroot : schema.query? = some parent → field ≠ "__schema" ∧ field ≠ "__type")
      (hfields : Declares schema parent fields) (hfield : Entries.get? field fields = some ref) :
      Returns schema parent field ref.core

/-- The declared fields of a type are those of its declaration; a scalar, an enum, a union and an
input object have none. -/
theorem get?_fields_eq_some_iff (schema : Schema) (parent field : Text) (ref : TypeRef) :
    (∃ type, schema.type? parent = some type ∧ Entries.get? field type.fields = some ref)
      ↔ ∃ fields, Declares schema parent fields ∧ Entries.get? field fields = some ref := by
  constructor
  · rintro ⟨type, htype, hfield⟩
    cases type with
    | object fields => exact ⟨fields, .inl htype, hfield⟩
    | interface fields => exact ⟨fields, .inr htype, hfield⟩
    | scalar | union | enum | inputObject =>
      have hnone : Entries.get? field ([] : Entries TypeRef) = some ref := hfield
      rw [Entries.get?_nil] at hnone
      simp at hnone
  · rintro ⟨fields, htype | htype, hfield⟩
    · exact ⟨_, htype, hfield⟩
    · exact ⟨_, htype, hfield⟩

/-- `Schema.fieldType?` gives a type exactly where one of the rules does. -/
theorem fieldType?_eq_some_iff (schema : Schema) (parent field type : Text) :
    schema.fieldType? parent field = some type ↔ Returns schema parent field type := by
  unfold Schema.fieldType?
  constructor
  · intro h
    -- in the order of the definition: each rule may deny the conditions of those before it
    by_cases htypename : field = "__typename"
    · rw [if_pos htypename] at h
      rw [htypename, ← Option.some.inj h]
      exact .typename
    rw [if_neg htypename] at h
    by_cases hschema : schema.query? = some parent ∧ field = "__schema"
    · rw [if_pos hschema] at h
      rw [hschema.2, ← Option.some.inj h]
      exact .schema hschema.1
    rw [if_neg hschema] at h
    by_cases htype : schema.query? = some parent ∧ field = "__type"
    · rw [if_pos htype] at h
      rw [htype.2, ← Option.some.inj h]
      exact .type htype.1
    rw [if_neg htype] at h
    cases hparent : schema.type? parent with
    | none => rw [hparent] at h; simp at h
    | some parentType =>
      rw [hparent] at h
      obtain ⟨ref, hfield, rfl⟩ := Option.map_eq_some_iff.mp h
      obtain ⟨fields, hfields, hfield⟩ :=
        (get?_fields_eq_some_iff schema parent field ref).mp ⟨parentType, hparent, hfield⟩
      exact .declared htypename
        (fun hroot => ⟨fun h => hschema ⟨hroot, h⟩, fun h => htype ⟨hroot, h⟩⟩) hfields hfield
  · intro h
    cases h with
    | typename => rfl
    | schema hroot => rw [if_neg (by decide), if_pos ⟨hroot, rfl⟩]
    | type hroot =>
      rw [if_neg (by decide), if_neg (fun h => absurd h.2 (by decide)), if_pos ⟨hroot, rfl⟩]
    | @declared _ fields ref htypename hroot hfields hfield =>
      obtain ⟨parentType, hparent, hfield⟩ :=
        (get?_fields_eq_some_iff schema parent field ref).mpr ⟨fields, hfields, hfield⟩
      rw [if_neg htypename, if_neg (fun h => (hroot h.1).1 h.2),
        if_neg (fun h => (hroot h.1).2 h.2), hparent]
      exact congrArg (Option.map TypeRef.core) hfield

/-! ## 2. The fields of a document -/

mutual

/-- The fields that a selection selects, with their types, in a selection set of the given type. A
field counts if fields can be selected on that type; where they cannot, nothing below the field has
a type either. -/
def selectedBy (schema : Schema) (context : Context) : Selection → List Coordinate
  | .field _ name _ _ none =>
    match context.filter schema.isComposite with
    | some parent => [⟨parent, name⟩]
    | none => []
  | .field _ name _ _ (some selections) =>
    match context.filter schema.isComposite with
    | some parent => ⟨parent, name⟩ :: selectedIn schema (schema.fieldType? parent name) selections
    | none => selectedIn schema none selections
  | .spread _ _ => []
  | .inline none _ selections => selectedIn schema context selections
  | .inline (some condition) _ selections =>
    selectedIn schema ((schema.type? condition).map fun _ => condition) selections

/-- The fields that selections select, one after the other, in a selection set of the given type. -/
def selectedIn (schema : Schema) (context : Context) : List Selection → List Coordinate
  | [] => []
  | selection :: selections =>
    selectedBy schema context selection ++ selectedIn schema context selections

end

/-- The fields that a definition selects: an operation from the root type of its kind, a fragment
from the type that its condition names. Type-system definitions select nothing. -/
def selectedByDefinition (schema : Schema) : Definition → List Coordinate
  | .operation op => selectedIn schema (schema.root? op.kind) op.selections
  | .fragment f =>
    selectedIn schema ((schema.type? f.condition).map fun _ => f.condition) f.selections
  | _ => []

/-- The fields that a document selects. -/
def selected (schema : Schema) (document : Document) : List Coordinate :=
  document.flatMap (selectedByDefinition schema)

/-! ## 3. The walk and the recursion agree -/

namespace Attribution

/-- The state after fields have been recorded at a site. -/
def withFields (state : Attribution) (site : Site) (found : List Coordinate) (pending : Context) :
    Attribution where
  stack := state.stack
  pending := pending
  usages := state.usages.recordEach (found.map fun coordinate => (coordinate, site))
  recorded := state.recorded + found.length

theorem withFields_append (state : Attribution) (site : Site) (first second : List Coordinate)
    (waiting pending : Context) :
    (state.withFields site first waiting).withFields site second pending
      = state.withFields site (first ++ second) pending := by
  unfold withFields
  rw [List.map_append, UsageMap.recordEach_append, List.length_append, Nat.add_assoc]

/-- A name as the type of a selection set is the name, if the schema has a type for it. -/
theorem known_eq_map (schema : Schema) (name : Text) :
    known schema name = (schema.type? name).map fun _ => name := by
  unfold known
  cases schema.type? name <;> rfl

/-- A selection set leaves the state of its walk as the recursion says, if its selections do. The
type that waits on entry is the type of the selection set: what opens it has just written it. -/
theorem foldl_set {schema : Schema} {site : Site} {selections : List Selection}
    (hwalk : ∀ state : Attribution, ∃ pending,
      (walkSelections selections).foldl (step schema site) state
        = state.withFields site (selectedIn schema state.current selections) pending)
    (state : Attribution) :
    ∃ pending, (walkSet selections).foldl (step schema site) state
      = state.withFields site (selectedIn schema state.pending selections) pending := by
  obtain ⟨pending, hinside⟩ := hwalk (state.step schema site .enter)
  have hcurrent : (state.step schema site .enter).current = state.pending := rfl
  -- leaving the set takes the type off the stack again, and what waits then does not matter
  refine ⟨pending, ?_⟩
  rw [walkSet, List.foldl_cons, List.foldl_append, hinside, hcurrent]
  rfl

mutual

/-- The invariant of the walk, for one selection. By recursion on the selection, a case for each
kind. -/
theorem foldl_walkSelection (schema : Schema) (site : Site) (state : Attribution) :
    ∀ selection : Selection, ∃ pending,
      (walkSelection selection).foldl (step schema site) state
        = state.withFields site (selectedBy schema state.current selection) pending
  | .field _ name _ _ none => by
    rw [walkSelection, List.foldl_cons, List.foldl_nil, selectedBy]
    simp only [step, parent?]
    cases state.current.filter schema.isComposite with
    | none => exact ⟨none, rfl⟩
    | some parent => exact ⟨schema.fieldType? parent name, rfl⟩
  | .field _ name _ _ (some selections) => by
    rw [walkSelection, List.foldl_cons, selectedBy]
    -- the field has written the type of its own selection set when that is entered
    have hset := foldl_set (foldl_walkSelections schema site selections)
      (state.step schema site (.field name))
    obtain ⟨pending, hset⟩ := hset
    refine ⟨pending, ?_⟩
    rw [← walkSet, hset]
    simp only [step, parent?]
    cases state.current.filter schema.isComposite with
    | none => rfl
    | some parent =>
      exact withFields_append state site [⟨parent, name⟩] _ (schema.fieldType? parent name) pending
  | .spread _ _ => ⟨state.pending, by rw [walkSelection, selectedBy]; rfl⟩
  | .inline none _ selections => by
    -- without a condition, what is written is the type on top of the stack
    rw [walkSelection, List.foldl_cons, selectedBy, ← walkSet]
    obtain ⟨pending, hset⟩ := foldl_set (foldl_walkSelections schema site selections)
      (state.step schema site (.inline none))
    exact ⟨pending, hset⟩
  | .inline (some condition) _ selections => by
    rw [walkSelection, List.foldl_cons, selectedBy, ← walkSet, ← known_eq_map]
    obtain ⟨pending, hset⟩ := foldl_set (foldl_walkSelections schema site selections)
      (state.step schema site (.inline (some condition)))
    exact ⟨pending, hset⟩

/-- The invariant of the walk, for selections one after the other. -/
theorem foldl_walkSelections (schema : Schema) (site : Site) :
    ∀ (selections : List Selection) (state : Attribution), ∃ pending,
      (walkSelections selections).foldl (step schema site) state
        = state.withFields site (selectedIn schema state.current selections) pending
  | [], state => ⟨state.pending, by rw [walkSelections, selectedIn]; rfl⟩
  | selection :: selections, state => by
    rw [walkSelections, List.foldl_append, selectedIn]
    obtain ⟨waiting, hfirst⟩ := foldl_walkSelection schema site state selection
    obtain ⟨pending, hrest⟩ := foldl_walkSelections schema site selections
      (state.withFields site (selectedBy schema state.current selection) waiting)
    -- the stack is as before, and with it the type that the other selections see
    have hcurrent :
        (state.withFields site (selectedBy schema state.current selection) waiting).current
          = state.current := rfl
    refine ⟨pending, ?_⟩
    rw [hfirst, hrest, hcurrent, withFields_append]

end

theorem foldl_walkDefinition (schema : Schema) (site : Site) (state : Attribution)
    (definition : Definition) :
    ∃ pending, (walkDefinition definition).foldl (step schema site) state
      = state.withFields site (selectedByDefinition schema definition) pending := by
  cases definition with
  | operation op =>
    rw [walkDefinition, List.foldl_cons, selectedByDefinition]
    exact foldl_set (foldl_walkSelections schema site op.selections)
      (state.step schema site (.operation op.kind))
  | fragment f =>
    rw [walkDefinition, List.foldl_cons, selectedByDefinition, ← known_eq_map]
    exact foldl_set (foldl_walkSelections schema site f.selections)
      (state.step schema site (.fragment f.condition))
  | schema _ _ _ _ => exact ⟨state.pending, rfl⟩
  | type _ _ _ _ _ => exact ⟨state.pending, rfl⟩
  | directive _ _ _ _ _ _ => exact ⟨state.pending, rfl⟩
  | directiveExtension _ _ => exact ⟨state.pending, rfl⟩

theorem foldl_walk (schema : Schema) (site : Site) (document : Document) (state : Attribution) :
    ∃ pending, (walk document).foldl (step schema site) state
      = state.withFields site (selected schema document) pending := by
  induction document generalizing state with
  | nil => exact ⟨state.pending, rfl⟩
  | cons definition rest ih =>
    obtain ⟨waiting, hfirst⟩ := foldl_walkDefinition schema site state definition
    obtain ⟨pending, hrest⟩ :=
      ih (state.withFields site (selectedByDefinition schema definition) waiting)
    refine ⟨pending, ?_⟩
    have hwalk : walk (definition :: rest) = walkDefinition definition ++ walk rest :=
      List.flatMap_cons
    have hselected : selected schema (definition :: rest)
        = selectedByDefinition schema definition ++ selected schema rest := List.flatMap_cons
    rw [hwalk, List.foldl_append, hfirst, hrest, withFields_append, hselected]

end Attribution

/-! ## 4. Recording a document -/

/-- Recording a document records the fields that it selects, all at the site. -/
theorem recordAll_eq (schema : Schema) (document : Document) (site : Site) (usages : UsageMap) :
    recordAll schema document site usages
      = (usages.recordEach ((selected schema document).map fun coordinate => (coordinate, site)),
        (selected schema document).length) := by
  obtain ⟨pending, hwalk⟩ := Attribution.foldl_walk schema site document (.start usages)
  unfold recordAll
  rw [hwalk]
  simp only [Attribution.withFields, Attribution.start, Nat.zero_add]

/-- What recording a document leaves under a field: the sites that were there, and then the site of
the document once for each time it selects the field. -/
theorem sites_recordAll (schema : Schema) (document : Document) (site : Site) (usages : UsageMap)
    (type field : Text) :
    (recordAll schema document site usages).1.sites type field
      = usages.sites type field
        ++ List.replicate ((selected schema document).count ⟨type, field⟩) site := by
  rw [recordAll_eq, UsageMap.sites_recordEach, UsageMap.sitesAmong_map_site]

/-- **Attribution is static typing.** A walk with a stack of types and one type in waiting records
what the recursion finds that hands the type of the selection set down, in the same order and
whatever was recorded before; under each field the site comes once for each time that the recursion
finds the field. The recursion takes the types of fields from `Schema.fieldType?`, which is what the
rules of `Returns` say. -/
theorem recordAll_static_typing (schema : Schema) (document : Document) (site : Site)
    (usages : UsageMap) :
    recordAll schema document site usages
        = (usages.recordEach ((selected schema document).map fun coordinate => (coordinate, site)),
          (selected schema document).length)
      ∧ (∀ type field, (recordAll schema document site usages).1.sites type field
          = usages.sites type field
            ++ List.replicate ((selected schema document).count ⟨type, field⟩) site)
      ∧ ∀ parent field type,
          schema.fieldType? parent field = some type ↔ Returns schema parent field type :=
  ⟨recordAll_eq schema document site usages, sites_recordAll schema document site usages,
    fieldType?_eq_some_iff schema⟩

end FieldAudit.Usage
