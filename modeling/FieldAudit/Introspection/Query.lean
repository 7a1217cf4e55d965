/-!
The query that asks an endpoint to describe its schema.

`query` is `INTROSPECTION_QUERY`.
-/

set_option autoImplicit false

namespace FieldAudit.Introspection

/-- The lines of the query with the levels of their indentation. -/
def queryLines : List (Nat × String) := [
  (0, "query IntrospectionQuery \x7b"),
  (1, "__schema \x7b"),
  (0, ""),
  (2, "queryType \x7b name kind \x7d"),
  (2, "mutationType \x7b name kind \x7d"),
  (2, "subscriptionType \x7b name kind \x7d"),
  (2, "types \x7b"),
  (3, "...FullType"),
  (2, "\x7d"),
  (2, "directives \x7b"),
  (3, "name"),
  (3, "description"),
  (0, ""),
  (0, ""),
  (0, ""),
  (3, "locations"),
  (3, "args \x7b"),
  (4, "...InputValue"),
  (3, "\x7d"),
  (2, "\x7d"),
  (1, "\x7d"),
  (0, "\x7d"),
  (0, ""),
  (0, "fragment FullType on __Type \x7b"),
  (1, "kind"),
  (1, "name"),
  (1, "description"),
  (0, ""),
  (0, ""),
  (1, "fields(includeDeprecated: true) \x7b"),
  (2, "name"),
  (2, "description"),
  (2, "args \x7b"),
  (3, "...InputValue"),
  (2, "\x7d"),
  (2, "type \x7b"),
  (3, "...TypeRef"),
  (2, "\x7d"),
  (2, "isDeprecated"),
  (2, "deprecationReason"),
  (1, "\x7d"),
  (1, "inputFields \x7b"),
  (2, "...InputValue"),
  (1, "\x7d"),
  (1, "interfaces \x7b"),
  (2, "...TypeRef"),
  (1, "\x7d"),
  (1, "enumValues(includeDeprecated: true) \x7b"),
  (2, "name"),
  (2, "description"),
  (2, "isDeprecated"),
  (2, "deprecationReason"),
  (1, "\x7d"),
  (1, "possibleTypes \x7b"),
  (2, "...TypeRef"),
  (1, "\x7d"),
  (0, "\x7d"),
  (0, ""),
  (0, "fragment InputValue on __InputValue \x7b"),
  (1, "name"),
  (1, "description"),
  (1, "type \x7b ...TypeRef \x7d"),
  (1, "defaultValue"),
  (0, ""),
  (0, ""),
  (0, "\x7d"),
  (0, ""),
  (0, "fragment TypeRef on __Type \x7b"),
  (1, "kind"),
  (1, "name"),
  (1, "ofType \x7b"),
  (2, "name"),
  (2, "kind"),
  (2, "ofType \x7b"),
  (3, "name"),
  (3, "kind"),
  (3, "ofType \x7b"),
  (4, "name"),
  (4, "kind"),
  (4, "ofType \x7b"),
  (5, "name"),
  (5, "kind"),
  (5, "ofType \x7b"),
  (6, "name"),
  (6, "kind"),
  (6, "ofType \x7b"),
  (7, "name"),
  (7, "kind"),
  (7, "ofType \x7b"),
  (8, "name"),
  (8, "kind"),
  (8, "ofType \x7b"),
  (9, "name"),
  (9, "kind"),
  (9, "ofType \x7b"),
  (10, "name"),
  (10, "kind"),
  (9, "\x7d"),
  (8, "\x7d"),
  (7, "\x7d"),
  (6, "\x7d"),
  (5, "\x7d"),
  (4, "\x7d"),
  (3, "\x7d"),
  (2, "\x7d"),
  (1, "\x7d"),
  (0, "\x7d")]

/-- The query, between two line breaks. -/
def query : String :=
  let lines := queryLines.map fun (level, line) => "".pushn ' ' (2 * level) ++ line
  "\n" ++ "\n".intercalate lines ++ "\n"

end FieldAudit.Introspection
