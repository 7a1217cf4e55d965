import FieldAudit.Entries
import FieldAudit.GraphQL.Document

/-!
GraphQL schemas, as far as the use of fields is concerned: every type by its name, with the fields
of objects and interfaces, and the root types of the three kinds of operations. The types of
introspection itself belong to every schema.

`Schema` is what the program asks of a `GraphQLSchema`: `listing` is `build_type_field_map`, and
`root?`, `type?` and `fieldType?` are `_root_type`, `_named_type` and `_field_def` of `UsageBinder`.
-/

set_option autoImplicit false

namespace FieldAudit

/-- A reference to a type: its name, inside any wrappers for lists and for values that are never
null. -/
inductive TypeRef
  | named (name : Text)
  | list (item : TypeRef)
  | nonNull (type : TypeRef)
  deriving DecidableEq, Repr, Inhabited

namespace TypeRef

/-- The name inside the wrappers. -/
def core : TypeRef → Text
  | .named name => name
  | .list item => item.core
  | .nonNull type => type.core

/-- The reference as schemas write it. -/
def words : TypeRef → Text
  | .named name => name
  | .list item => "[" ++ item.words ++ "]"
  | .nonNull type => type.words ++ "!"

end TypeRef

/-- A type of a schema. -/
inductive SchemaType
  | scalar
  | object (fields : Entries TypeRef)
  | interface (fields : Entries TypeRef)
  | union
  | enum
  | inputObject
  deriving DecidableEq, Repr, Inhabited

namespace SchemaType

/-- Whether fields can be selected on the type. -/
def isComposite : SchemaType → Bool
  | .object _ | .interface _ | .union => true
  | _ => false

/-- The fields that the type declares. -/
def fields : SchemaType → Entries TypeRef
  | .object fields | .interface fields => fields
  | _ => []

end SchemaType

/-! ## 1. The types of introspection -/

namespace MetaType

/-- A reference to a list without nulls of values of a type that are never null. -/
def all (name : Text) : TypeRef := .nonNull (.list (.nonNull (.named name)))

/-- A reference to a list of values of a type that are never null. -/
def many (name : Text) : TypeRef := .list (.nonNull (.named name))

/-- A text, possibly null. -/
def text : TypeRef := .named "String"

/-- A text. -/
def name : TypeRef := .nonNull text

/-- A truth value. -/
def flag : TypeRef := .nonNull (.named "Boolean")

/-- The types that describe schemas, and the scalars that every schema may use. -/
def declarations : Entries SchemaType := [
  ("Int", .scalar), ("Float", .scalar), ("String", .scalar), ("Boolean", .scalar), ("ID", .scalar),
  ("__Schema", .object [
    ("description", text), ("types", all "__Type"), ("queryType", .nonNull (.named "__Type")),
    ("mutationType", .named "__Type"), ("subscriptionType", .named "__Type"),
    ("directives", all "__Directive")]),
  ("__Directive", .object [
    ("name", name), ("description", text), ("isRepeatable", flag),
    ("locations", all "__DirectiveLocation"), ("args", all "__InputValue"), ("isDeprecated", flag),
    ("deprecationReason", text)]),
  ("__DirectiveLocation", .enum),
  ("__Type", .object [
    ("kind", .nonNull (.named "__TypeKind")), ("name", text), ("description", text),
    ("specifiedByURL", text), ("fields", many "__Field"), ("interfaces", many "__Type"),
    ("possibleTypes", many "__Type"), ("enumValues", many "__EnumValue"),
    ("inputFields", many "__InputValue"), ("ofType", .named "__Type"),
    ("isOneOf", .named "Boolean")]),
  ("__Field", .object [
    ("name", name), ("description", text), ("args", all "__InputValue"),
    ("type", .nonNull (.named "__Type")), ("isDeprecated", flag), ("deprecationReason", text)]),
  ("__InputValue", .object [
    ("name", name), ("description", text), ("type", .nonNull (.named "__Type")),
    ("defaultValue", text), ("isDeprecated", flag), ("deprecationReason", text)]),
  ("__EnumValue", .object [
    ("name", name), ("description", text), ("isDeprecated", flag), ("deprecationReason", text)]),
  ("__TypeKind", .enum)]

end MetaType

/-! ## 2. Schemas -/

/-- A schema: its own types in order, and the names of its root types. -/
structure Schema where
  types : Entries SchemaType
  query? : Option Text
  mutation? : Option Text
  subscription? : Option Text
  deriving DecidableEq, Repr, Inhabited

namespace Schema

/-- The type of a name. -/
def type? (schema : Schema) (name : Text) : Option SchemaType :=
  match Entries.get? name schema.types with
  | some type => some type
  | none => Entries.get? name MetaType.declarations

/-- The root type of a kind of operation. -/
def root? (schema : Schema) : GraphQL.OperationKind → Option Text
  | .query => schema.query?
  | .mutation => schema.mutation?
  | .subscription => schema.subscription?

/-- Whether a name is a type on which fields can be selected. -/
def isComposite (schema : Schema) (name : Text) : Bool :=
  match schema.type? name with
  | some type => type.isComposite
  | none => false

/-- The type of a field selected on a type, without its wrappers. Every type has `__typename`; the
query root has the two fields that lead to introspection. -/
def fieldType? (schema : Schema) (parent field : Text) : Option Text :=
  if field = "__typename" then some "String"
  else if schema.query? = some parent ∧ field = "__schema" then some "__Schema"
  else if schema.query? = some parent ∧ field = "__type" then some "__Type"
  else
    match schema.type? parent with
    | some type => (Entries.get? field type.fields).map TypeRef.core
    | none => none

/-- The mark of the names that introspection reserves. -/
def isReservedName (name : Text) : Bool := (Text.ofString "__").isPrefixOf name

/-- The object types of a schema with the names of their fields, introspection aside. -/
def listing (schema : Schema) : Entries (List Text) :=
  schema.types.filterMap fun (name, type) =>
    match type with
    | .object fields => if isReservedName name then none else some (name, Entries.keys fields)
    | _ => none

end Schema

end FieldAudit
