import FieldAudit.Proofs.Introspection.Declared
import FieldAudit.Proofs.Sweep.Used

/-!
What is listed of the schema that is fetched. The listing has every object type that the data of the
answer describe, introspection aside, in the order of the data, with its fields in the order of the
data (`fetch_listing_eq_declared`).
-/

set_option autoImplicit false

namespace FieldAudit.Sweep

open Introspection (declaredObjects itemsUnder namesUnder scalarNames schemaMembers)
open Json (Value)

/-- **The listing is complete, and in order.** Whatever answer a schema is fetched from: if its data
name every type once, and every field of a type once, and give no object type the name of a built-in
scalar, then the listing of the schema is the list of the object types that the data describe, each
with the names of its fields. The types that these refer to, and the types that refer to them, have
no part in it. -/
theorem fetch_listing_eq_declared (endpoint : Value) (headers : Entries Text) (verbose : Bool)
    (reply : Reply) (data : Value) (schema : Schema)
    (hdata : (Exchange.introspect endpoint headers verbose reply).result = .ok data)
    (hschema : (Exchange.fetch endpoint headers verbose reply).result = .ok schema)
    (htypes : (namesUnder "types" (schemaMembers data)).Nodup)
    (hfields : ∀ type ∈ itemsUnder "types" (schemaMembers data),
      (namesUnder "fields" (type.members?.getD [])).Nodup)
    (hscalars : ∀ object ∈ declaredObjects data, object.1 ∉ scalarNames) :
    schema.listing = declaredObjects data := by
  rw [Exchange.result_fetch hdata, mapError_eq_ok_iff] at hschema
  exact Introspection.listing_of_build hschema htypes hfields hscalars

/-- The description of users that know each other and their groups, of a page that nothing refers
to, and of types of other kinds. -/
def groupTypes : List Value := [
  typeOf "OBJECT" "User"
    [fieldOf "friend" (referenceTo "OBJECT" "User"),
      fieldOf "group" (referenceTo "OBJECT" "Group")]
    [referenceTo "INTERFACE" "Named"],
  referenceTo "SCALAR" "String",
  typeOf "INTERFACE" "Named" [fieldOf "name" (referenceTo "SCALAR" "String")] [],
  typeOf "OBJECT" "__Kept" [fieldOf "name" (referenceTo "SCALAR" "String")] [],
  typeOf "OBJECT" "Page"
    [fieldOf "title" (referenceTo "SCALAR" "String"),
      fieldOf "body" (referenceTo "SCALAR" "String")] [],
  typeOf "OBJECT" "Group" [fieldOf "owner" (referenceTo "OBJECT" "User")] []]

/-- The answer with that description. -/
def groupAnswer : Reply :=
  let body := Json.render (.object [("data", .object [("__schema", .object [
    ("queryType", .object [("name", .string "User")]), ("types", .array groupTypes)])])])
  .answer 200 (some "OK") ((Text.Utf8.encode body).toOption.getD [])

/-- The object types of that answer. -/
def groupObjects : Entries (List Text) :=
  [("User", ["friend", "group"]), ("Page", ["title", "body"]), ("Group", ["owner"])]

/-- What the answer comes to, and what its data name and declare. -/
theorem groupAnswer_values :
    let data? :=
      (Exchange.introspect (.string "http://localhost") [] false groupAnswer).result.toOption
    (Exchange.fetch (.string "http://localhost") [] false groupAnswer).result.toOption.isSome = true
    ∧ data?.all (fun data => (namesUnder "types" (schemaMembers data)).Nodup) = true
    ∧ data?.all (fun data => ∀ type ∈ itemsUnder "types" (schemaMembers data),
      (namesUnder "fields" (type.members?.getD [])).Nodup) = true
    ∧ data?.map declaredObjects = some groupObjects := by
  decide +kernel

/-- The listing of that answer: users refer to groups and groups to users, and the page stands
alone. -/
theorem fetch_listing_eq_declared_groupAnswer :
    ∃ data schema,
      (Exchange.introspect (.string "http://localhost") [] false groupAnswer).result = .ok data
      ∧ (Exchange.fetch (.string "http://localhost") [] false groupAnswer).result = .ok schema
      ∧ schema.listing = groupObjects := by
  obtain ⟨hsome, htypes, hfields, hdeclared⟩ := groupAnswer_values
  obtain ⟨schema, hsome⟩ := Option.isSome_iff_exists.mp hsome
  have hschema := eq_ok_of_toOption_eq_some hsome
  obtain ⟨data, hdata, -⟩ := Exchange.exists_build_eq_ok hschema
  rw [hdata] at htypes hfields hdeclared
  have hobjects : declaredObjects data = groupObjects := Option.some.inj hdeclared
  refine ⟨data, schema, hdata, hschema, ?_⟩
  rw [← hobjects]
  refine fetch_listing_eq_declared (.string "http://localhost") [] false groupAnswer data schema
    hdata hschema (of_decide_eq_true htypes) (of_decide_eq_true hfields) ?_
  rw [hobjects]
  decide

end FieldAudit.Sweep
