import FieldAudit.GraphQL.Document
import FieldAudit.GraphQL.Token

/-!
The grammar of GraphQL documents, as readers of token lists. A reader looks at the front token and
takes tokens from the front; the token that ends the text is never taken away. It fails at a token,
or because the tokens break off. Selection sets, lists, objects and list types nest at most
`deepest` levels together: every reader that opens a level is a recursion on the levels that are
left.

The readers are the rules of the `parse` that `parse_literal` calls, and `deepest` is its limit on
levels.
-/

set_option autoImplicit false

namespace FieldAudit.GraphQL

/-- What is wrong with a token at its place in the document. -/
inductive GrammarProblem
  /-- Something else has to stand here, given in the words of messages. -/
  | expected (words : Text)
  /-- Nothing allows the token here. -/
  | unexpected
  /-- The token is a word that no enum value may have. -/
  | reservedEnumValue
  /-- Too many levels are open. -/
  | tooDeep
  /-- An operation without keyword is described. -/
  | describedShorthand
  /-- Something that is no definition is described. -/
  | describedOther
  /-- A variable stands in a value that has to be constant. -/
  | variableInConstant (name : Text)
  deriving DecidableEq, Repr

/-- The words for a problem at a token. -/
def GrammarProblem.message (token : Token) : GrammarProblem → Text
  | .expected words => "Expected " ++ words ++ ", found " ++ token.words ++ "."
  | .unexpected => "Unexpected " ++ token.words ++ "."
  | .reservedEnumValue => token.words ++ " is reserved and cannot be used for an enum value."
  | .tooDeep => "Document is nested too deeply. Parsing aborted."
  | .describedShorthand =>
    "Unexpected description, descriptions are not supported on shorthand queries."
  | .describedOther => "Unexpected description, only GraphQL definitions support descriptions."
  | .variableInConstant name => "Unexpected variable '$" ++ name ++ "' in constant value."

/-- Why a reader fails: a problem at a token, or tokens that break off before the end of the
text. -/
inductive Fault
  | brokenOff
  | problem (problem : GrammarProblem) (token : Token)
  deriving DecidableEq, Repr

/-- A reader of tokens. -/
abbrev Reader := StateT (List Token) (Except Fault)

namespace Grammar

variable {α : Type}

/-! ## 1. Single tokens -/

/-- The front token. -/
def peek : Reader Token := fun tokens =>
  match tokens with
  | [] => .error .brokenOff
  | token :: _ => .ok (token, tokens)

/-- The token after the front one. -/
def peekSecond : Reader Token := fun tokens =>
  match tokens with
  | _ :: token :: _ => .ok (token, tokens)
  | _ => .error .brokenOff

/-- Takes the front token. A token has to follow it, unless it ends the text. -/
def advance : Reader Token := fun tokens =>
  match tokens with
  | [] => .error .brokenOff
  | [token] => if token.kind = .endOfText then .ok (token, tokens) else .error .brokenOff
  | token :: rest => .ok (token, rest)

/-- Fails at a token. -/
def failAt (problem : GrammarProblem) (token : Token) : Reader α :=
  throw (.problem problem token)

/-- Fails at the front token, which nothing allows here. -/
def unexpected : Reader α := do
  failAt .unexpected (← peek)

/-- Takes a token of a kind. -/
def expect (kind : TokenKind) : Reader Token := do
  let token ← peek
  if token.kind = kind then advance else failAt (.expected kind.words) token

/-- Takes a token of a kind if one is at the front, and says whether. -/
def skip? (kind : TokenKind) : Reader Bool := do
  let token ← peek
  if token.kind = kind then
    let _ ← advance
    return true
  else return false

/-- Takes a word. -/
def expectWord (word : String) : Reader Unit := do
  let token ← peek
  if token.isWord word then
    let _ ← advance
  else failAt (.expected ("'" ++ word ++ "'")) token

/-- Takes a word if it is at the front, and says whether. -/
def skipWord? (word : String) : Reader Bool := do
  let token ← peek
  if token.isWord word then
    let _ ← advance
    return true
  else return false

/-- Takes a name. -/
def name : Reader Text := do
  return (← expect .name).value

/-! ## 2. Repetition -/

/-- Items up to a closing token, which is taken; every item takes a token. -/
def untilClose (close : TokenKind) (item : Reader α) : Nat → Reader (List α)
  | 0 => throw .brokenOff
  | fuel + 1 => do
    if ← skip? close then return []
    let first ← item
    let others ← untilClose close item fuel
    return first :: others

/-- Items up to a closing token. There are no more of them than tokens are left. -/
def upTo (close : TokenKind) (item : Reader α) : Reader (List α) := do
  untilClose close item (← get).length

/-- Any number of items between two tokens. -/
def anyBetween (opening close : TokenKind) (item : Reader α) : Reader (List α) := do
  let _ ← expect opening
  upTo close item

/-- One item or more up to a closing token. -/
def someUpTo (close : TokenKind) (item : Reader α) : Reader (List α) := do
  let first ← item
  let others ← upTo close item
  return first :: others

/-- One item or more between two tokens. -/
def someBetween (opening close : TokenKind) (item : Reader α) : Reader (List α) := do
  let _ ← expect opening
  someUpTo close item

/-- One item or more between two tokens, or nothing at all. -/
def optionalBetween (opening close : TokenKind) (item : Reader α) : Reader (List α) := do
  if ← skip? opening then someUpTo close item else return []

/-- Items with a token between them. -/
def separatedFrom (separator : TokenKind) (item : Reader α) : Nat → Reader (List α)
  | 0 => throw .brokenOff
  | fuel + 1 => do
    let first ← item
    if ← skip? separator then
      let others ← separatedFrom separator item fuel
      return first :: others
    else return [first]

/-- One item or more with a token between them, which may also stand before the first. -/
def separated (separator : TokenKind) (item : Reader α) : Reader (List α) := do
  let _ ← skip? separator
  separatedFrom separator item (← get).length

/-! ## 3. Values and types -/

/-- How many levels of selection sets, lists, objects and list types may be open at once. -/
def deepest : Nat := 200

/-- A text. -/
def text : Reader Description := do
  let token ← advance
  return ⟨token.value, token.kind == .blockText⟩

/-- A description, if a text is at the front. -/
def description? : Reader (Option Description) := do
  if (← peek).isText then
    return some (← text)
  else return none

/-- The literal that a word stands for. -/
def wordLiteral (word : Text) : Literal :=
  if word = "true" then .bool true
  else if word = "false" then .bool false
  else if word = "null" then .null
  else .enum word

/-- A variable, or a failure at its sign where the value has to be constant. -/
def variableUse (constant : Bool) : Reader Literal := do
  let sign ← expect .dollar
  if constant then
    let token ← peek
    if token.kind = .name then failAt (.variableInConstant token.value) sign
    else failAt .unexpected sign
  else return .variableUse (← name)

/-- A field of an object value. -/
def objectField (value : Reader Literal) : Reader (Text × Literal) := do
  let key ← name
  let _ ← expect .colon
  return (key, ← value)

/-- A value, given the reader of the values in a list or an object, if one more level may open. -/
def literalWith (constant : Bool) (inner? : Option (Reader Literal)) : Reader Literal := do
  let token ← peek
  match token.kind with
  | .bracketOpen =>
    match inner? with
    | none => failAt .tooDeep token
    | some inner => return .list (← anyBetween .bracketOpen .bracketClose inner)
  | .braceOpen =>
    match inner? with
    | none => failAt .tooDeep token
    | some inner => return .object (← anyBetween .braceOpen .braceClose (objectField inner))
  | .int =>
    let _ ← advance
    return .int token.value
  | .float =>
    let _ ← advance
    return .float token.value
  | .text | .blockText =>
    let string ← text
    return .text string.value string.block
  | .name =>
    let _ ← advance
    return wordLiteral token.value
  | .dollar => variableUse constant
  | _ => failAt .unexpected token

/-- A value, with a count of levels that may still open. -/
def literal (constant : Bool) : Nat → Reader Literal
  | 0 => literalWith constant none
  | levels + 1 => literalWith constant (some (literal constant levels))

/-- A type that an exclamation mark may follow, given the reader of the types in a list. -/
def typeWith (inner : Reader TypeExpr) : Reader TypeExpr := do
  let base ←
    if ← skip? .bracketOpen then do
      let item ← inner
      let _ ← expect .bracketClose
      pure (TypeExpr.list item)
    else do
      pure (TypeExpr.named (← name))
  if ← skip? .bang then return .nonNull base else return base

/-- A type, with a count of levels that may still open; a level opens after its bracket. -/
def typeExpr : Nat → Reader TypeExpr
  | 0 => typeWith (do failAt .tooDeep (← peek))
  | levels + 1 => typeWith (typeExpr levels)

/-- A value that is given after an equals sign, if there is one. -/
def default? : Reader (Option Literal) := do
  if ← skip? .equals then
    return some (← literal true deepest)
  else return none

/-! ## 4. Directives and selections -/

/-- A named argument. -/
def argument (constant : Bool) (levels : Nat) : Reader Argument := do
  let key ← name
  let _ ← expect .colon
  return ⟨key, ← literal constant levels⟩

/-- Arguments in parentheses, if there are any. -/
def arguments (constant : Bool) (levels : Nat) : Reader (List Argument) :=
  optionalBetween .parenOpen .parenClose (argument constant levels)

/-- A directive. -/
def directive (constant : Bool) (levels : Nat) : Reader Directive := do
  let _ ← expect .atSign
  let key ← name
  return ⟨key, ← arguments constant levels⟩

/-- Directives one after the other; every one of them takes a token. -/
def directivesFrom (constant : Bool) (levels : Nat) : Nat → Reader (List Directive)
  | 0 => throw .brokenOff
  | fuel + 1 => do
    if (← peek).kind = .atSign then
      let first ← directive constant levels
      let others ← directivesFrom constant levels fuel
      return first :: others
    else return []

/-- The directives at the front. -/
def directives (constant : Bool) (levels : Nat) : Reader (List Directive) := do
  directivesFrom constant levels (← get).length

/-- The name of a fragment: any but the word that introduces a type condition. -/
def fragmentName : Reader Text := do
  let token ← peek
  if token.value = "on" then failAt .unexpected token else name

/-- A field, given the reader of its selection set. -/
def field (levels : Nat) (inner : Reader (List Selection)) : Reader Selection := do
  let first ← name
  let renamed ← skip? .colon
  let second ← if renamed then name else pure first
  let given ← arguments false levels
  let marks ← directives false levels
  let selections? ← if (← peek).kind = .braceOpen then some <$> inner else pure none
  return .field (if renamed then some first else none) second given marks selections?

/-- A spread or an inline fragment, given the reader of its selection set. -/
def spreadOrInline (levels : Nat) (inner : Reader (List Selection)) : Reader Selection := do
  let _ ← expect .spread
  if ← skipWord? "on" then
    let condition ← name
    let marks ← directives false levels
    return .inline (some condition) marks (← inner)
  else if (← peek).kind = .name then
    let target ← fragmentName
    return .spread target (← directives false levels)
  else
    let marks ← directives false levels
    return .inline none marks (← inner)

/-- What a selection set selects, given the reader of the selection sets in it. -/
def selection (levels : Nat) (inner : Reader (List Selection)) : Reader Selection := do
  if (← peek).kind = .spread then spreadOrInline levels inner else field levels inner

/-- A selection set, with a count of levels that may still open. It may be empty. -/
def selectionSet : Nat → Reader (List Selection)
  | 0 => do failAt .tooDeep (← peek)
  | levels + 1 =>
    anyBetween .braceOpen .braceClose (selection levels (selectionSet levels))

/-! ## 5. Operations and fragments -/

/-- The word for an operation. -/
def operationKind : Reader OperationKind := do
  let token ← expect .name
  match OperationKind.ofKeyword? token.value with
  | some kind => return kind
  | none => failAt .unexpected token

/-- A variable of an operation. -/
def variableDefinition : Reader VariableDefinition := do
  let description ← description?
  let _ ← expect .dollar
  let key ← name
  let _ ← expect .colon
  let type ← typeExpr deepest
  let default ← default?
  return ⟨description, key, type, default, ← directives true deepest⟩

/-- An operation that is only a selection set. -/
def shorthand : Reader Definition := do
  return .operation ⟨none, .query, none, [], [], ← selectionSet deepest⟩

/-- An operation with its word. -/
def operation : Reader Definition := do
  let description ← description?
  let kind ← operationKind
  let key? ← if (← peek).kind = .name then some <$> name else pure none
  let inputs ← optionalBetween .parenOpen .parenClose variableDefinition
  let marks ← directives false deepest
  return .operation ⟨description, kind, key?, inputs, marks, ← selectionSet deepest⟩

/-- A fragment. -/
def fragment : Reader Definition := do
  let description ← description?
  expectWord "fragment"
  let key ← fragmentName
  expectWord "on"
  let condition ← name
  let marks ← directives false deepest
  return .fragment ⟨description, key, condition, marks, ← selectionSet deepest⟩

/-! ## 6. Type-system definitions -/

/-- An argument or an input field of a type. -/
def inputDefinition : Reader InputDefinition := do
  let description ← description?
  let key ← name
  let _ ← expect .colon
  let type ← typeExpr deepest
  let default ← default?
  return ⟨description, key, type, default, ← directives true deepest⟩

/-- The arguments of a field or a directive, if there are any. -/
def argumentDefinitions : Reader (List InputDefinition) :=
  optionalBetween .parenOpen .parenClose inputDefinition

/-- A field of a type. -/
def fieldDefinition : Reader FieldDefinition := do
  let description ← description?
  let key ← name
  let given ← argumentDefinitions
  let _ ← expect .colon
  let type ← typeExpr deepest
  return ⟨description, key, given, type, ← directives true deepest⟩

/-- The words that no enum value may have. -/
def reservedEnumValues : List Text := ["true", "false", "null"]

/-- A value of an enum. -/
def enumValueDefinition : Reader EnumValueDefinition := do
  let description ← description?
  let token ← peek
  if reservedEnumValues.contains token.value then failAt .reservedEnumValue token
  let key ← name
  return ⟨description, key, ← directives true deepest⟩

/-- The interfaces of a type, if it has any. -/
def interfaces : Reader (List Text) := do
  if ← skipWord? "implements" then separated .ampersand name else return []

/-- The fields of a type, if they are given. -/
def fieldDefinitions : Reader (List FieldDefinition) :=
  optionalBetween .braceOpen .braceClose fieldDefinition

/-- The members of a union, if they are given. -/
def unionMembers : Reader (List Text) := do
  if ← skip? .equals then separated .pipe name else return []

/-- The words for the kinds of types, with the reader of what follows the name of such a type. -/
def typeBodies : List (String × Reader (List Directive × TypeBody)) := [
  ("scalar", do return (← directives true deepest, .scalar)),
  ("type", do
    let parents ← interfaces
    let marks ← directives true deepest
    return (marks, .object parents (← fieldDefinitions))),
  ("interface", do
    let parents ← interfaces
    let marks ← directives true deepest
    return (marks, .interface parents (← fieldDefinitions))),
  ("union", do
    let marks ← directives true deepest
    return (marks, .union (← unionMembers))),
  ("enum", do
    let marks ← directives true deepest
    return (marks, .enum (← optionalBetween .braceOpen .braceClose enumValueDefinition))),
  ("input", do
    let marks ← directives true deepest
    return (marks, .input (← optionalBetween .braceOpen .braceClose inputDefinition)))]

/-- An operation and its root type. -/
def rootType : Reader (OperationKind × Text) := do
  let kind ← operationKind
  let _ ← expect .colon
  return (kind, ← name)

/-- A schema definition. -/
def schemaDefinition : Reader Definition := do
  let description ← description?
  expectWord "schema"
  let marks ← directives true deepest
  return .schema false description marks (← someBetween .braceOpen .braceClose rootType)

/-- A type definition with its word. -/
def typeDefinition (word : String) (body : Reader (List Directive × TypeBody)) :
    Reader Definition := do
  let description ← description?
  expectWord word
  let key ← name
  let (marks, body) ← body
  return .type false description key marks body

/-- The places where a directive may stand. -/
def directiveLocations : List Text := [
  "QUERY", "MUTATION", "SUBSCRIPTION", "FIELD", "FRAGMENT_DEFINITION", "FRAGMENT_SPREAD",
  "INLINE_FRAGMENT", "VARIABLE_DEFINITION", "FRAGMENT_VARIABLE_DEFINITION", "SCHEMA", "SCALAR",
  "OBJECT", "FIELD_DEFINITION", "ARGUMENT_DEFINITION", "INTERFACE", "UNION", "ENUM", "ENUM_VALUE",
  "INPUT_OBJECT", "INPUT_FIELD_DEFINITION", "DIRECTIVE_DEFINITION"]

/-- A place where a directive may stand. -/
def directiveLocation : Reader Text := do
  let token ← expect .name
  if directiveLocations.contains token.value then return token.value
  else failAt .unexpected token

/-- A directive definition. -/
def directiveDefinition : Reader Definition := do
  let description ← description?
  expectWord "directive"
  let _ ← expect .atSign
  let key ← name
  let given ← argumentDefinitions
  let marks ← directives true deepest
  let repeatable ← skipWord? "repeatable"
  expectWord "on"
  return .directive description key given marks repeatable (← separated .pipe directiveLocation)

/-! ## 7. Extensions -/

/-- Whether the body of a type says nothing. -/
def isEmptyBody : TypeBody → Bool
  | .scalar => true
  | .object interfaces fields | .interface interfaces fields => interfaces.isEmpty && fields.isEmpty
  | .union members => members.isEmpty
  | .enum values => values.isEmpty
  | .input fields => fields.isEmpty

/-- The extension of a schema, which has to add something. -/
def schemaExtension : Reader Definition := do
  expectWord "extend"
  expectWord "schema"
  let marks ← directives true deepest
  let roots ← optionalBetween .braceOpen .braceClose rootType
  if marks.isEmpty && roots.isEmpty then unexpected
  return .schema true none marks roots

/-- The extension of a type, which has to add something. -/
def typeExtension (word : String) (body : Reader (List Directive × TypeBody)) :
    Reader Definition := do
  expectWord "extend"
  expectWord word
  let key ← name
  let (marks, body) ← body
  if marks.isEmpty && isEmptyBody body then unexpected
  return .type true none key marks body

/-- The extension of a directive, which has to add directives. -/
def directiveExtension : Reader Definition := do
  expectWord "extend"
  expectWord "directive"
  let _ ← expect .atSign
  let key ← name
  let marks ← directives true deepest
  if marks.isEmpty then unexpected
  return .directiveExtension key marks

/-- An extension; the word after the first one says of what. -/
def extension : Reader Definition := do
  let token ← peekSecond
  if token.isWord "schema" then schemaExtension
  else if token.isWord "directive" then directiveExtension
  else
    match typeBodies.find? fun entry => token.isWord entry.1 with
    | some (word, body) => typeExtension word body
    | none => failAt .unexpected token

/-! ## 8. Documents -/

/-- The definition that a keyword introduces, apart from extensions. -/
def definitionOf (token : Token) : Option (Reader Definition) :=
  if token.kind ≠ .name then none
  else if token.value = "schema" then some schemaDefinition
  else if token.value = "directive" then some directiveDefinition
  else if token.value = "fragment" then some fragment
  else if (OperationKind.ofKeyword? token.value).isSome then some operation
  else
    (typeBodies.find? fun entry => token.value == entry.1).map fun (word, body) =>
      typeDefinition word body

/-- A definition. Its keyword stands at the front, or after the text that describes it. -/
def definition : Reader Definition := do
  let first ← peek
  if first.kind = .braceOpen then shorthand
  else
    let described := first.isText
    let keyword ← if described then peekSecond else pure first
    if described && keyword.kind == .braceOpen then failAt .describedShorthand first
    match definitionOf keyword with
    | some reader => reader
    | none =>
      if keyword.kind = .name && described then failAt .describedOther first
      else if keyword.isWord "extend" then extension
      else failAt .unexpected keyword

/-- A document: one definition or more, up to the end of the text. -/
def document : Reader Document := someUpTo .endOfText definition

/-- A constant value that is a whole text. -/
def constantValue : Reader Literal := do
  let value ← literal true deepest
  let _ ← expect .endOfText
  return value

end Grammar

end FieldAudit.GraphQL
