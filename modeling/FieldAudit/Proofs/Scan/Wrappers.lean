import FieldAudit.Proofs.Entries
import FieldAudit.Scan

/-!
Schemas without wrappers. A list and a type that is never null are wrappers around a type, and
selections go through them. A schema in which every field is declared with the type inside its
wrappers has the same listing, and a scan against it records, counts and prints the same
(`files_bare`).
-/

set_option autoImplicit false

namespace FieldAudit

/-! ## 1. Schemas without wrappers -/

/-- A type whose fields are declared without wrappers. -/
def SchemaType.bare : SchemaType → SchemaType
  | .object fields => .object (fields.mapValues fun type => .named type.core)
  | .interface fields => .interface (fields.mapValues fun type => .named type.core)
  | type => type

/-- A schema whose fields are declared without wrappers. -/
def Schema.bare (schema : Schema) : Schema :=
  { schema with types := schema.types.mapValues SchemaType.bare }

namespace SchemaType

@[simp] theorem isComposite_bare (type : SchemaType) :
    type.bare.isComposite = type.isComposite := by
  cases type <;> rfl

/-- The named type of a field does not depend on wrappers. -/
theorem core_bare (type : SchemaType) (field : Text) :
    (Entries.get? field type.bare.fields).map TypeRef.core
      = (Entries.get? field type.fields).map TypeRef.core := by
  cases type with
  | object declared | interface declared =>
    change (Entries.get? field (declared.mapValues fun type => .named type.core)).map TypeRef.core
      = (Entries.get? field declared).map TypeRef.core
    rw [Entries.get?_mapValues, Option.map_map]
    rfl
  | scalar | union | enum | inputObject => rfl

@[simp] theorem bare_bare (type : SchemaType) : type.bare.bare = type.bare := by
  cases type with
  | object fields | interface fields =>
    unfold bare Entries.mapValues
    simp [TypeRef.core]
  | scalar | union | enum | inputObject => rfl

end SchemaType

namespace Schema

variable (schema : Schema)

theorem type?_bare (name : Text) :
    schema.bare.type? name
      = match Entries.get? name schema.types with
        | some type => some type.bare
        | none => Entries.get? name MetaType.declarations := by
  rw [type?, bare, Entries.get?_mapValues]
  cases Entries.get? name schema.types with
  | none => rfl
  | some type => rfl

theorem isSome_type?_bare (name : Text) :
    (schema.bare.type? name).isSome = (schema.type? name).isSome := by
  rw [type?_bare, type?]
  cases Entries.get? name schema.types with
  | none => rfl
  | some type => rfl

theorem isComposite_bare (name : Text) :
    schema.bare.isComposite name = schema.isComposite name := by
  rw [isComposite, isComposite, type?_bare, type?]
  cases Entries.get? name schema.types with
  | none => rfl
  | some type => exact type.isComposite_bare

theorem root?_bare (kind : GraphQL.OperationKind) : schema.bare.root? kind = schema.root? kind := by
  cases kind <;> rfl

theorem fieldType?_bare (parent field : Text) :
    schema.bare.fieldType? parent field = schema.fieldType? parent field := by
  have hquery : schema.bare.query? = schema.query? := rfl
  unfold fieldType?
  rw [type?_bare, type?, hquery]
  cases Entries.get? parent schema.types with
  | none => rfl
  | some type => simp only [type.core_bare]

theorem listing_bare : schema.bare.listing = schema.listing := by
  unfold listing bare Entries.mapValues
  rw [List.filterMap_map]
  refine List.filterMap_congr fun entry _ => ?_
  obtain ⟨name, type⟩ := entry
  cases type with
  | object fields => simp [SchemaType.bare]
  | scalar | interface | union | enum | inputObject => rfl

end Schema

/-! ## 2. Scans -/

namespace Usage

open Schema

theorem step_bare (schema : Schema) (site : Site) (state : Attribution) (event : Event) :
    Attribution.step schema.bare site state event = Attribution.step schema site state event := by
  have hknown : ∀ name, Attribution.known schema.bare name = Attribution.known schema name := by
    intro name
    rw [Attribution.known, Attribution.known, isSome_type?_bare]
  have hparent : state.parent? schema.bare = state.parent? schema := by
    rw [Attribution.parent?, Attribution.parent?]
    congr 1
    funext name
    exact isComposite_bare schema name
  cases event with
  | operation kind => rw [Attribution.step, Attribution.step, root?_bare]
  | fragment condition => rw [Attribution.step, Attribution.step, hknown]
  | inline condition? =>
    cases condition? with
    | none => rfl
    | some condition => rw [Attribution.step, Attribution.step, hknown]
  | field name =>
    rw [Attribution.step, Attribution.step, hparent]
    simp only [fieldType?_bare]
  | enter | leave => rfl

theorem recordAll_bare (schema : Schema) (document : GraphQL.Document) (site : Site)
    (usages : UsageMap) :
    recordAll schema.bare document site usages = recordAll schema document site usages := by
  have hstep : Attribution.step schema.bare site = Attribution.step schema site := by
    funext state event
    exact step_bare schema site state event
  rw [recordAll, recordAll, hstep]

end Usage

namespace Scan

theorem snippet_bare (schema : Schema) (verbose : Bool) (file code : Text) :
    Scan.snippet schema.bare verbose file code = Scan.snippet schema verbose file code := by
  funext progress snippet
  unfold Scan.snippet
  simp only [Usage.recordAll_bare]

/-- Scanning files gives the same whether types have wrappers or not: the same usages, the same
counts, the same lines. -/
theorem files_bare (schema : Schema) (verbose : Bool) (w : Workspace) (files : List Text)
    (scan : Scan) :
    Scan.files schema.bare verbose w files scan = Scan.files schema verbose w files scan := by
  have hsource : Scan.source schema.bare verbose = Scan.source schema verbose := by
    funext file code scan
    unfold Scan.source
    rw [snippet_bare]
  induction files generalizing scan with
  | nil => rfl
  | cons file rest ih =>
    unfold Scan.files
    rw [hsource]
    simp only [ih]

end Scan

end FieldAudit
