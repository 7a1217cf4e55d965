import FieldAudit.Json.Writer
import FieldAudit.Report.Moment
import FieldAudit.Text.Utf8
import FieldAudit.Usage.Map

/-!
The report: every object type of a schema with its fields, and for every field whether and where it
is used. Types and fields keep the order of the schema; a usage that belongs to no field of the
schema is left out.

`build?` is `build_report`, `typesOf` is `build_types_section`, and `unusedCount` is
`count_unused_fields`.
-/

set_option autoImplicit false

namespace FieldAudit

/-- Where a field is used; it is used when there is a site. -/
structure FieldUsage where
  used : Bool
  sites : List Site
  deriving DecidableEq, Repr, Inhabited

/-- A type of a report: its fields as the schema lists them, and their usage. -/
structure TypeEntry where
  fields : List Text
  usages : Entries FieldUsage
  deriving DecidableEq, Repr, Inhabited

/-- A report. -/
structure Report where
  stamp : String
  endpoint : Json.Value
  types : Entries TypeEntry
  deriving Repr, Inhabited

namespace Report

/-- The usage of a field at its sites. -/
def usageOf (sites : List Site) : FieldUsage := ⟨!sites.isEmpty, sites⟩

/-- A type with the usage of its fields. -/
def entryOf (usages : UsageMap) (type : Text) (fields : List Text) : TypeEntry :=
  ⟨fields, Entries.ofPairs (fields.map fun field => (field, usageOf (usages.sites type field)))⟩

/-- The types of a schema with the usage of their fields. -/
def typesOf (listing : Entries (List Text)) (usages : UsageMap) : Entries TypeEntry :=
  listing.map fun (type, fields) => (type, entryOf usages type fields)

/-- The report on a schema, or none if the moment has no stamp. -/
def build? (endpoint : Json.Value) (listing : Entries (List Text)) (usages : UsageMap)
    (moment : Moment) : Option Report :=
  moment.stamp?.map fun stamp => ⟨stamp, endpoint, typesOf listing usages⟩

/-- How many fields of a type are not used. -/
def TypeEntry.unusedCount (entry : TypeEntry) : Nat :=
  (entry.usages.filter fun (_, usage) => !usage.used).length

/-- How many fields are not used. -/
def unusedCount (report : Report) : Nat :=
  sumOf (report.types.map fun (_, entry) => TypeEntry.unusedCount entry)

/-! ## 1. The report as JSON -/

/-- A site. -/
def siteValue (site : Site) : Json.Value :=
  .object [("filePath", .string site.file), ("line", .int site.line)]

/-- The usage of a field. -/
def usageValue (usage : FieldUsage) : Json.Value :=
  .object [("used", .bool usage.used), ("locations", .array (usage.sites.map siteValue))]

/-- A type. -/
def entryValue (entry : TypeEntry) : Json.Value :=
  .object [
    ("fields", .array (entry.fields.map .string)),
    ("fieldUsages", .object (entry.usages.map fun (field, usage) => (field, usageValue usage)))]

/-- A report. -/
def value (report : Report) : Json.Value :=
  .object [
    ("generatedAt", .string report.stamp),
    ("graphqlEndpoint", report.endpoint),
    ("types", .object (report.types.map fun (type, entry) => (type, entryValue entry)))]

/-- The text of a report. -/
def text (report : Report) : Text := Json.render report.value

end Report

end FieldAudit
