import FieldAudit.GraphQL.Parse
import FieldAudit.Introspection.ListedDefault
import FieldAudit.Json.Mismatch
import FieldAudit.Json.Spelling
import FieldAudit.Schema

/-!
What can be wrong with the description of a schema that an endpoint gives about itself. Each defect
belongs to a family, by which callers tell defects that mean an unusable answer from defects of
names and of texts.

A defect is what `build_client_schema` raises, and its family is the class of that.
-/

set_option autoImplicit false

namespace FieldAudit.Introspection

open Json (Value)

/-- The families of defects. -/
inductive Family
  /-- A value has the wrong kind or does not fit the others. -/
  | type
  /-- A member is missing. -/
  | key
  /-- A value that is no object is asked for a member. -/
  | attribute
  /-- A name breaks the rules for names. -/
  | name
  /-- A text is no GraphQL value. -/
  | syntaxError
  deriving DecidableEq, Repr

/-- What a value is used for when its type has the wrong direction. -/
inductive Use
  | field
  | argument
  | inputField
  deriving DecidableEq, Repr

/-- The parts of a type that are worked out after all types are known. -/
inductive Facet
  | interfaces
  | fields
  | members
  deriving DecidableEq, Repr

/-- A defect of a described schema. -/
inductive Defect
  /-- A value of the wrong kind is taken apart. -/
  | mismatch (mismatch : Json.Mismatch)
  /-- A value that is no object is asked for a member. -/
  | noMembers (value : Value)
  /-- An object lacks a member. -/
  | missingKey (key : Text)
  /-- The answer holds no description. -/
  | notDescribed (data : Value)
  /-- A type has no kind, or one that is not known. -/
  | unknownKind (entry : Value)
  /-- A type or a directive lacks a list. -/
  | missingPart (part : String) (entry : Value)
  /-- A type lacks its fields. -/
  | missingFields (entry : Value)
  /-- There is no name. -/
  | noName
  /-- A name is no text. -/
  | nameNotText
  /-- A name is empty. -/
  | emptyName
  /-- A name holds a character that names do not have. -/
  | badNameCharacter (name : Text)
  /-- A name starts with a character with which names do not start. -/
  | badNameStart (name : Text)
  /-- A type that may not be defined again has a reserved name. -/
  | reservedName (name : Text)
  /-- A type has not the kind that its place needs. -/
  | wrongKind (type : TypeRef) (kind : String)
  /-- A wrapper says that nothing can be null, around another one that says so. -/
  | doubleNonNull (type : TypeRef)
  /-- A wrapper has nothing inside. -/
  | emptyWrapper
  /-- A reference names no type. -/
  | unnamedReference (reference : Value)
  /-- A reference names a type that the schema lacks. -/
  | unknownType (name : Value)
  /-- The type of a field is for input only, or the type of an input for output only. -/
  | wrongDirection (use : Use) (type : TypeRef)
  /-- The places of a directive are not those that exist. -/
  | badLocations (directive : Text)
  /-- A default value is neither a text nor a list. -/
  | defaultNotText (value : Value)
  /-- The items of a default value are not written as a value. -/
  | badItems (problem : ItemProblem)
  /-- A default value is not written as a value. -/
  | badDefault (error : GraphQL.SyntaxError)
  /-- A facet of a type has a defect. -/
  | within (type : Text) (facet : Facet) (cause : Defect)

/-- The words for a facet. -/
def Facet.words : Facet → String
  | .interfaces => "interfaces"
  | .fields => "fields"
  | .members => "types"

/-- The words for a use. -/
def Use.words : Use → String
  | .field => "output type for fields"
  | .argument => "input type for arguments"
  | .inputField => "input type for input fields"

/-- What is reported of a default value that is neither a text nor a list. -/
def defaultNotTextMessage : Value → String
  | .object [] => "expected string or bytes-like object, got 'dict'"
  | .object _ => "0"
  | value => s!"object of type '{value.kindName}' has no len()"

/-- What is reported of a defect. -/
def Defect.message : Defect → Text
  | .mismatch m => m.message
  | .noMembers value => "'" ++ value.kindName ++ "' object has no attribute 'get'"
  | .missingKey key => key.quoted
  | .notDescribed data =>
    "Invalid or incomplete introspection result. Ensure that you are passing the 'data' attribute of " ++
      "an introspection response and no 'errors' were returned alongside: " ++ data.outline ++ "."
  | .unknownKind entry =>
    "Invalid or incomplete introspection result. Ensure that a full introspection query is used in " ++
      "order to build a client schema: " ++ entry.outline ++ "."
  | .missingPart part entry =>
    "Introspection result missing " ++ part ++ ": " ++ entry.outline ++ "."
  | .missingFields entry => "Introspection result missing fields: " ++ entry.quoted ++ "."
  | .noName => "Must provide name."
  | .nameNotText => "Expected name to be a string."
  | .emptyName => "Expected name to be a non-empty string."
  | .badNameCharacter name =>
    "Names must only contain [_a-zA-Z0-9] but " ++ name.quoted ++ " does not."
  | .badNameStart name => "Names must start with [_a-zA-Z] but " ++ name.quoted ++ " does not."
  | .reservedName name => "Redefinition of reserved type " ++ name.quoted
  | .wrongKind type kind => "Expected " ++ type.words ++ " to be a GraphQL " ++ kind ++ " type."
  | .doubleNonNull type => "Expected " ++ type.words ++ " to be a GraphQL nullable type."
  | .emptyWrapper => "Decorated type deeper than introspection query."
  | .unnamedReference reference => "Unknown type reference: " ++ reference.outline ++ "."
  | .unknownType name =>
    "Invalid or incomplete schema, unknown type: " ++ name.bare ++
      ". Ensure that a full introspection " ++ "query is used in order to build a client schema."
  | .wrongDirection use type =>
    "Introspection must provide " ++ use.words ++ ", but received: " ++ type.words ++ "."
  | .badLocations directive =>
    directive ++ " locations must be specified as a collection of DirectiveLocation enum values."
  | .defaultNotText value => defaultNotTextMessage value
  | .badItems problem => problem.message
  | .badDefault error => error.message
  | .within type facet cause =>
    type ++ " " ++ facet.words ++ " cannot be resolved. " ++ cause.message

/-- The family of a defect. A facet's defect is one of names if its cause is one of names or of
texts, and one of kinds otherwise. -/
def Defect.family : Defect → Family
  | .missingKey _ => .key
  | .noMembers _ => .attribute
  | .emptyName | .badNameCharacter _ | .badNameStart _ => .name
  | .badDefault _ => .syntaxError
  | .defaultNotText (.object (_ :: _)) => .key
  | .badItems problem => if problem.isLack then .attribute else .type
  | .within _ _ cause =>
    match cause.family with
    | .name | .syntaxError => .name
    | _ => .type
  | _ => .type

end FieldAudit.Introspection
