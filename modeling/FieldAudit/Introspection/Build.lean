import FieldAudit.Introspection.Defect

/-!
Building a schema from the description that an endpoint gives. `build` goes through the description
in a fixed order, and the first defect ends it: the types by name, the root types, the directives,
and then for every type its interfaces, fields or members. A name that comes again keeps its first
place and takes its last meaning.

`build` is the `build_client_schema` that `SchemaClient.fetch_schema` calls on the data of an
answer.
-/

set_option autoImplicit false

namespace FieldAudit.Introspection

open Json (Value)

/-- The result of a step of building. -/
abbrev Build (α : Type) := Except Defect α

/-! ## 1. Members of descriptions -/

/-- A mismatch as a defect. -/
def matching {α : Type} (result : Except Json.Mismatch α) : Build α := result.mapError .mismatch

/-- The members of a value that is taken apart. -/
def membersOf (value : Value) : Build (Entries Value) := matching value.membersOf

/-- The items of a value that is gone through. -/
def itemsOf (value : Value) : Build (List Value) := matching value.itemsOf

/-- The members of a value that is asked for members which may be missing. -/
def askedMembers (value : Value) : Build (Entries Value) :=
  match value with
  | .object members => .ok members
  | value => .error (.noMembers value)

/-- A member that has to be there. -/
def require (key : Text) (members : Entries Value) : Build Value :=
  match Entries.get? key members with
  | some value => .ok value
  | none => .error (.missingKey key)

/-- A list that has to be there, apart from null. -/
def requirePart (words : String) (key : Text) (members : Entries Value) : Build Value :=
  let value := Value.member key members
  if value.isNull then .error (.missingPart words (.object members)) else .ok value

/-- The name of a described thing, as it must be to stand in a schema. -/
def checkName : Value → Build Text
  | .null => .error .noName
  | .string name =>
    match name with
    | [] => .error .emptyName
    | first :: rest =>
      if !rest.all GraphQL.isNameContinue then .error (.badNameCharacter name)
      else if !GraphQL.isNameStart first then .error (.badNameStart name)
      else .ok name
  | _ => .error .nameNotText

/-- Things by what their descriptions give as names, which nobody has checked. -/
abbrev Unchecked (α : Type) := List (Value × α)

/-- Adds a thing under a key. A text that is there already keeps its place. -/
def putUnchecked {α : Type} (key : Value) (thing : α) : Unchecked α → Unchecked α
  | [] => [(key, thing)]
  | (k, t) :: rest =>
    match key, k with
    | .string a, .string b =>
      if a = b then (k, thing) :: rest else (k, t) :: putUnchecked key thing rest
    | _, _ => (k, t) :: putUnchecked key thing rest

/-- Builds a thing from every description of a list, under the name that the description gives. -/
def buildNamed {α : Type} (build : Entries Value → Build α) (descriptions : List Value) :
    Build (Unchecked α) :=
  descriptions.foldlM (fun things description => do
    let members ← membersOf description
    let key ← require "name" members
    let thing ← build members
    let key ← matching key.asKey
    return putUnchecked key thing things) []

/-- Checks the names, in order. -/
def checkNames {α : Type} (things : Unchecked α) : Build (Entries α) :=
  things.mapM fun (key, thing) => do
    return (← checkName key, thing)

/-! ## 2. Types by name -/

/-- The kind of a described type, with what is needed to work out the rest of it. A type whose name
is that of a built-in one stands for the built-in one. -/
inductive Described
  | builtIn (type : SchemaType)
  | scalar
  | object (members : Entries Value)
  | interface (members : Entries Value)
  | union (members : Entries Value) (possible : Value)
  | enum
  | inputObject (members : Entries Value) (fields : Value)

namespace Described

/-- Whether values of the type can be given back. -/
def isOutput : Described → Bool
  | .inputObject _ _ => false
  | .builtIn .inputObject => false
  | _ => true

/-- Whether values of the type can be given in. -/
def isInput : Described → Bool
  | .scalar | .enum | .inputObject _ _ => true
  | .builtIn .scalar | .builtIn .enum | .builtIn .inputObject => true
  | _ => false

/-- Whether the type is an object type. -/
def isObject : Described → Bool
  | .object _ | .builtIn (.object _) => true
  | _ => false

/-- Whether the type is an interface type. -/
def isInterface : Described → Bool
  | .interface _ | .builtIn (.interface _) => true
  | _ => false

end Described

/-- The built-in type of a name. -/
def builtIn? (name : Value) : Build (Option SchemaType) := do
  match ← matching name.asKey with
  | .string name => return Entries.get? name MetaType.declarations
  | _ => return none

/-- A type whose name may be that of a built-in one. -/
def orBuiltIn (name : Value) (build : Build Described) : Build Described := do
  match ← builtIn? name with
  | some type => return .builtIn type
  | none => build

/-- A type whose name may not be that of a built-in one. -/
def notBuiltIn (name : Value) (described : Described) : Build Described := do
  match ← builtIn? name, name with
  | some _, .string name => .error (.reservedName name)
  | _, _ =>
    let _ ← checkName name
    return described

/-- A type with a checked name. -/
def named (name : Value) (described : Described) : Build Described := do
  let _ ← checkName name
  return described

/-- The values of an enum have to have names, which may be anything that can be a key. -/
def checkEnumValues (values : Value) : Build Unit := do
  let _ ← buildNamed (fun _ => .ok ()) (← itemsOf values)

/-- Reads a described type, given its members and its name. -/
def describe (members : Entries Value) (name : Value) : Build Described := do
  let unknown : Build Described := .error (.unknownKind (.object members))
  match Entries.get? "kind" members with
  | none => unknown
  | some kind =>
    match (← matching kind.asKey).word? with
    | some "SCALAR" => orBuiltIn name (named name .scalar)
    | some "OBJECT" => orBuiltIn name (named name (.object members))
    | some "INTERFACE" => notBuiltIn name (.interface members)
    | some "UNION" =>
      let possible ← requirePart "possibleTypes" "possibleTypes" members
      notBuiltIn name (.union members possible)
    | some "ENUM" =>
      let values ← requirePart "enumValues" "enumValues" members
      orBuiltIn name do
        checkEnumValues values
        named name .enum
    | some "INPUT_OBJECT" =>
      let fields ← requirePart "inputFields" "inputFields" members
      notBuiltIn name (.inputObject members fields)
    | _ => unknown

/-- The described types by name. -/
def describeAll (descriptions : List Value) : Build (Entries Described) :=
  descriptions.foldlM (fun types description => do
    let members ← membersOf description
    let name ← require "name" members
    let described ← describe members name
    match name with
    | .string name => return Entries.put name described types
    | _ => return types) []

/-! ## 3. References -/

mutual

/-- How many levels of lists and objects a value has. -/
def depth : Value → Nat
  | .array items => depthOfItems items + 1
  | .object members => depthOfMembers members + 1
  | _ => 0

/-- How many levels the deepest item has. -/
def depthOfItems : List Value → Nat
  | [] => 0
  | item :: items => max (depth item) (depthOfItems items)

/-- How many levels the deepest member has. -/
def depthOfMembers : List (Text × Value) → Nat
  | [] => 0
  | (_, value) :: members => max (depth value) (depthOfMembers members)

end

/-- The type that a reference names. -/
def namedType (types : Entries Described) (reference : Value) : Build (Text × Described) := do
  let members ← askedMembers reference
  let name := Value.member "name" members
  if !name.isGiven then .error (.unnamedReference reference)
  else
    match ← matching name.asKey with
    | .string key =>
      match Entries.get? key types with
      | some described => return (key, described)
      | none => .error (.unknownType name)
    | _ => .error (.unknownType name)

/-- What a wrapper wraps. -/
def wrapped (members : Entries Value) : Build Value :=
  let inner := Value.member "ofType" members
  if inner.isGiven then .ok inner else .error .emptyWrapper

/-- The type that a reference stands for, given how many levels the reference has. -/
def resolveWithin (types : Entries Described) : Nat → Value → Build (TypeRef × Described)
  | 0, reference => .error (.noMembers reference)
  | levels + 1, reference => do
    let members ← askedMembers reference
    match (Value.member "kind" members).word? with
    | some "LIST" =>
      let (item, described) ← resolveWithin types levels (← wrapped members)
      return (.list item, described)
    | some "NON_NULL" =>
      let (type, described) ← resolveWithin types levels (← wrapped members)
      match type with
      | .nonNull _ => .error (.doubleNonNull type)
      | type => return (.nonNull type, described)
    | _ =>
      let (name, described) ← namedType types reference
      return (.named name, described)

/-- The type that a reference stands for, with its wrappers and the type inside them. -/
def resolve (types : Entries Described) (reference : Value) : Build (TypeRef × Described) :=
  resolveWithin types (depth reference) reference

/-- An object type. -/
def objectType (types : Entries Described) (reference : Value) : Build Text := do
  let (type, described) ← resolve types reference
  match type, described.isObject with
  | .named name, true => return name
  | _, _ => .error (.wrongKind type "Object")

/-- An interface type. -/
def interfaceType (types : Entries Described) (reference : Value) : Build Text := do
  let (type, described) ← resolve types reference
  match type, described.isInterface with
  | .named name, true => return name
  | _, _ => .error (.wrongKind type "Interface")

/-! ## 4. Inputs, fields and directives -/

/-- A text has to be a constant value. -/
def checkConstant (source : Text) : Build Unit :=
  match GraphQL.parseConstant source with
  | .ok _ => .ok ()
  | .error error => .error (.badDefault error)

/-- A default value has to be written as a constant value. -/
def checkDefault : Value → Build Unit
  | .null => .ok ()
  | .string source => checkConstant source
  | .array items => (ListedDefault.check items).mapError .badItems
  | value => .error (.defaultNotText value)

/-- An argument or an input field. -/
def buildInput (use : Use) (types : Entries Described) (members : Entries Value) : Build Unit := do
  let (type, described) ← resolve types (← require "type" members)
  if !described.isInput then .error (.wrongDirection use type)
  checkDefault (Value.member "defaultValue" members)

/-- The arguments of a field or a directive. -/
def buildArguments (types : Entries Described) (descriptions : Value) : Build (Unchecked Unit) := do
  buildNamed (buildInput .argument types) (← itemsOf descriptions)

/-- A field with its type. -/
def buildField (types : Entries Described) (members : Entries Value) : Build TypeRef := do
  let (type, described) ← resolve types (← require "type" members)
  if !described.isOutput then .error (.wrongDirection .field type)
  let given ← buildArguments types (← requirePart "field args" "args" members)
  let _ ← checkNames given
  return type

/-- The places that a directive names have to exist. -/
def checkLocations (directive : Text) (locations : List Value) : Build Unit :=
  if locations.all fun
      | .string location => GraphQL.Grammar.directiveLocations.contains location
      | _ => false
  then .ok () else .error (.badLocations directive)

/-- A directive. -/
def checkDirective (types : Entries Described) (description : Value) : Build Unit := do
  let members ← askedMembers description
  let given ← requirePart "directive args" "args" members
  let locations ← requirePart "directive locations" "locations" members
  let key ← require "name" members
  let locations ← itemsOf locations
  let built ← buildArguments types given
  let name ← checkName key
  checkLocations name locations
  let _ ← checkNames built

/-! ## 5. Facets of types -/

/-- A facet of a type; its defects are reported with the type. -/
def facet {α : Type} (type : Text) (facet : Facet) (build : Build α) : Build α :=
  build.mapError (.within type facet)

/-- The interfaces of an object or an interface; an interface may leave them out. -/
def checkInterfaces (types : Entries Described) (optional : Bool) (members : Entries Value) :
    Build Unit := do
  let listed := Value.member "interfaces" members
  if listed.isNull then
    if optional then return else .error (.missingPart "interfaces" (.object members))
  else
    let _ ← (← itemsOf listed).mapM (interfaceType types)

/-- The fields of an object or an interface. -/
def buildFields (types : Entries Described) (members : Entries Value) :
    Build (Unchecked TypeRef) := do
  let listed := Value.member "fields" members
  if listed.isNull then .error (.missingFields (.object members))
  else buildNamed (buildField types) (← itemsOf listed)

/-- Works out the facets of a type. -/
def finish (types : Entries Described) (name : Text) : Described → Build SchemaType
  | .builtIn type => .ok type
  | .scalar => .ok .scalar
  | .enum => .ok .enum
  | .object members => do
    facet name .interfaces (checkInterfaces types false members)
    let fields ← facet name .fields (buildFields types members)
    return .object (← checkNames fields)
  | .interface members => do
    facet name .interfaces (checkInterfaces types true members)
    let fields ← facet name .fields (buildFields types members)
    return .interface (← checkNames fields)
  | .union _ possible => do
    let _ ← facet name .members do (← itemsOf possible).mapM (objectType types)
    return .union
  | .inputObject _ listed => do
    let fields ← facet name .fields do buildNamed (buildInput .inputField types) (← itemsOf listed)
    let _ ← checkNames fields
    return .inputObject

/-! ## 6. Schemas -/

/-- A root type, if one is given. -/
def rootType (types : Entries Described) (reference : Value) : Build (Option Text) :=
  if reference.isNull then .ok none else (objectType types reference).map some

/-- The description in the data of an answer. -/
def description (data : Value) : Build (Entries Value) :=
  match data with
  | .object members =>
    match Value.member "__schema" members with
    | .object description => .ok description
    | _ => .error (.notDescribed data)
  | _ => .error (.notDescribed data)

/-- The schema that the data of an answer describes. -/
def build (data : Value) : Build Schema := do
  let members ← description data
  let types ← describeAll (← itemsOf (← require "types" members))
  let query? ← rootType types (Value.member "queryType" members)
  let mutation? ← rootType types (Value.member "mutationType" members)
  let subscription? ← rootType types (Value.member "subscriptionType" members)
  let directives := Value.member "directives" members
  if directives.isGiven then
    (← itemsOf directives).forM (checkDirective types)
  let finished ← types.mapM fun (name, described) => do
    return (name, ← finish types name described)
  return ⟨finished, query?, mutation?, subscription?⟩

end FieldAudit.Introspection
