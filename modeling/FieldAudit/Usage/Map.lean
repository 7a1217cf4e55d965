import FieldAudit.Entries
import FieldAudit.Sums

/-!
Usages of fields. A usage map lists, for every type and field that is selected somewhere, the sites
of the selections in the order in which they were recorded. Main statements: recording adds the site
after those of its own field, and leaves every other field as it is.

`record` is `record_usage`, a site is a `FieldUsageLocation`, and a usage map is a `UsageMap`.
-/

set_option autoImplicit false

namespace FieldAudit

/-- A place where a field is selected: a file and a line of it. -/
structure Site where
  file : Text
  line : Int
  deriving DecidableEq, Repr, Inhabited

/-- Sites by type and field. -/
abbrev UsageMap := Entries (Entries (List Site))

namespace UsageMap

/-- The sites at which a field of a type is selected. -/
def sites (usages : UsageMap) (type field : Text) : List Site :=
  match Entries.get? type usages with
  | some fields => (Entries.get? field fields).getD []
  | none => []

/-- Adds a site after those that are recorded for the field. -/
def record (type field : Text) (site : Site) (usages : UsageMap) : UsageMap :=
  Entries.modify type (fun fields? =>
    Entries.modify field (fun sites? => sites?.getD [] ++ [site]) (fields?.getD [])) usages

/-- How many sites are recorded. -/
def total (usages : UsageMap) : Nat :=
  sumOf (usages.map fun (_, fields) => sumOf (fields.map fun (_, sites) => sites.length))

@[simp] theorem sites_nil (type field : Text) : sites [] type field = [] := rfl

theorem sites_eq_getD (usages : UsageMap) (type field : Text) :
    usages.sites type field
      = (Entries.get? field ((Entries.get? type usages).getD [])).getD [] := by
  unfold sites
  cases Entries.get? type usages <;> rfl

theorem sites_record_self (type field : Text) (site : Site) (usages : UsageMap) :
    (usages.record type field site).sites type field = usages.sites type field ++ [site] := by
  rw [sites_eq_getD, sites_eq_getD, record, Entries.get?_modify_self, Option.getD_some,
    Entries.get?_modify_self, Option.getD_some]

theorem sites_record_of_ne {type field : Text} {otherType otherField : Text}
    (h : otherType ≠ type ∨ otherField ≠ field) (site : Site) (usages : UsageMap) :
    (usages.record type field site).sites otherType otherField
      = usages.sites otherType otherField := by
  rw [sites_eq_getD, sites_eq_getD, record]
  by_cases htype : otherType = type
  · have hfield : otherField ≠ field := h.resolve_left (not_not_intro htype)
    rw [htype, Entries.get?_modify_self, Option.getD_some, Entries.get?_modify_of_ne hfield]
  · rw [Entries.get?_modify_of_ne htype]

end UsageMap

end FieldAudit
