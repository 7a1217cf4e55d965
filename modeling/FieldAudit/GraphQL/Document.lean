import FieldAudit.Text.Basic

/-!
GraphQL documents: operations, fragments and type-system definitions, as their grammar builds them.

The constructors are the nodes of the `DocumentNode` that `parse_literal` returns, which it asks for
without places.
-/

set_option autoImplicit false

namespace FieldAudit.GraphQL

/-! ## 1. Values and types -/

/-- A value written in a document. Numbers keep their text. -/
inductive Literal
  | variableUse (name : Text)
  | int (text : Text)
  | float (text : Text)
  | text (value : Text) (block : Bool)
  | bool (b : Bool)
  | null
  | enum (name : Text)
  | list (items : List Literal)
  | object (fields : List (Text × Literal))
  deriving Repr, Inhabited

/-- A type written in a document. -/
inductive TypeExpr
  | named (name : Text)
  | list (item : TypeExpr)
  | nonNull (type : TypeExpr)
  deriving DecidableEq, Repr, Inhabited

/-- A named argument. -/
structure Argument where
  name : Text
  value : Literal
  deriving Repr, Inhabited

/-- A directive with its arguments. -/
structure Directive where
  name : Text
  arguments : List Argument
  deriving Repr, Inhabited

/-- A text that describes a definition. -/
structure Description where
  value : Text
  block : Bool
  deriving DecidableEq, Repr, Inhabited

/-! ## 2. Executable definitions -/

/-- The three kinds of operations. -/
inductive OperationKind
  | query
  | mutation
  | subscription
  deriving DecidableEq, Repr, Inhabited

/-- The keyword of an operation. -/
def OperationKind.keyword : OperationKind → String
  | .query => "query"
  | .mutation => "mutation"
  | .subscription => "subscription"

/-- The operation that a keyword names. -/
def OperationKind.ofKeyword? (word : Text) : Option OperationKind :=
  [OperationKind.query, .mutation, .subscription].find? (·.keyword == word)

/-- A variable of an operation. -/
structure VariableDefinition where
  description : Option Description
  name : Text
  type : TypeExpr
  default : Option Literal
  directives : List Directive
  deriving Repr, Inhabited

/-- What a selection set selects. A field without braces has no selection set, which differs from an
empty one. -/
inductive Selection
  | field (alias? : Option Text) (name : Text) (arguments : List Argument)
    (directives : List Directive) (selections? : Option (List Selection))
  | spread (name : Text) (directives : List Directive)
  | inline (condition? : Option Text) (directives : List Directive) (selections : List Selection)
  deriving Repr, Inhabited

/-- An operation. -/
structure Operation where
  description : Option Description
  kind : OperationKind
  name? : Option Text
  inputs : List VariableDefinition
  directives : List Directive
  selections : List Selection
  deriving Repr, Inhabited

/-- A fragment. -/
structure Fragment where
  description : Option Description
  name : Text
  condition : Text
  directives : List Directive
  selections : List Selection
  deriving Repr, Inhabited

/-! ## 3. Type-system definitions -/

/-- An argument or an input field in a type-system definition. -/
structure InputDefinition where
  description : Option Description
  name : Text
  type : TypeExpr
  default : Option Literal
  directives : List Directive
  deriving Repr, Inhabited

/-- A field in a type-system definition. -/
structure FieldDefinition where
  description : Option Description
  name : Text
  arguments : List InputDefinition
  type : TypeExpr
  directives : List Directive
  deriving Repr, Inhabited

/-- An enum value in a type-system definition. -/
structure EnumValueDefinition where
  description : Option Description
  name : Text
  directives : List Directive
  deriving Repr, Inhabited

/-- What a named type-system definition holds besides its name and directives. -/
inductive TypeBody
  | scalar
  | object (interfaces : List Text) (fields : List FieldDefinition)
  | interface (interfaces : List Text) (fields : List FieldDefinition)
  | union (members : List Text)
  | enum (values : List EnumValueDefinition)
  | input (fields : List InputDefinition)
  deriving Repr, Inhabited

/-- A definition of a document. An extension has the body of what it extends. -/
inductive Definition
  | operation (op : Operation)
  | fragment (fragment : Fragment)
  | schema (extension : Bool) (description : Option Description) (directives : List Directive)
    (roots : List (OperationKind × Text))
  | type (extension : Bool) (description : Option Description) (name : Text)
    (directives : List Directive) (body : TypeBody)
  | directive (description : Option Description) (name : Text) (arguments : List InputDefinition)
    (directives : List Directive) (repeatable : Bool) (locations : List Text)
  | directiveExtension (name : Text) (directives : List Directive)
  deriving Repr, Inhabited

/-- A document is a list of definitions. -/
abbrev Document := List Definition

/-- The words for the body of a type. -/
def TypeBody.words : TypeBody → String
  | .scalar => "scalar_type"
  | .object _ _ => "object_type"
  | .interface _ _ => "interface_type"
  | .union _ => "union_type"
  | .enum _ => "enum_type"
  | .input _ => "input_object_type"

/-- The words for the kind of a definition. -/
def Definition.kindWords : Definition → String
  | .operation _ => "operation_definition"
  | .fragment _ => "fragment_definition"
  | .schema extension _ _ _ => if extension then "schema_extension" else "schema_definition"
  | .type extension _ _ _ body => body.words ++ if extension then "_extension" else "_definition"
  | .directive _ _ _ _ _ _ => "directive_definition"
  | .directiveExtension _ _ => "directive_extension"

/-- The name of a definition, if it has one. -/
def Definition.name? : Definition → Option Text
  | .operation op => op.name?
  | .fragment f => some f.name
  | .schema _ _ _ _ => none
  | .type _ _ name _ _ => some name
  | .directive _ name _ _ _ _ => some name
  | .directiveExtension name _ => some name

end FieldAudit.GraphQL
