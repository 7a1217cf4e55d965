import FieldAudit.Text.Basic

/-!
Tokens of a GraphQL document. A token has a kind, a value (for names, numbers and texts) and the
offset at which it starts; what a document means depends on kinds and values alone.
-/

set_option autoImplicit false

namespace FieldAudit.GraphQL

/-- The kinds of tokens. -/
inductive TokenKind
  | endOfText
  | bang
  | dollar
  | ampersand
  | parenOpen
  | parenClose
  | spread
  | colon
  | equals
  | atSign
  | bracketOpen
  | bracketClose
  | braceOpen
  | pipe
  | braceClose
  | name
  | int
  | float
  | text
  | blockText
  deriving DecidableEq, Repr, Inhabited

namespace TokenKind

/-- How messages show a kind: a punctuator in single quotes, any other kind by its word. -/
def words : TokenKind → String
  | .endOfText => "<EOF>"
  | .bang => "'!'"
  | .dollar => "'$'"
  | .ampersand => "'&'"
  | .parenOpen => "'('"
  | .parenClose => "')'"
  | .spread => "'...'"
  | .colon => "':'"
  | .equals => "'='"
  | .atSign => "'@'"
  | .bracketOpen => "'['"
  | .bracketClose => "']'"
  | .braceOpen => "'\x7b'"
  | .pipe => "'|'"
  | .braceClose => "'\x7d'"
  | .name => "Name"
  | .int => "Int"
  | .float => "Float"
  | .text => "String"
  | .blockText => "BlockString"

/-- Whether tokens of the kind carry a value. -/
def hasValue : TokenKind → Bool
  | .name | .int | .float | .text | .blockText => true
  | _ => false

end TokenKind

/-- A token. The value of a punctuator and of the end is empty. -/
structure Token where
  kind : TokenKind
  value : Text
  start : Nat
  deriving DecidableEq, Repr, Inhabited

namespace Token

/-- How messages show a token: its kind, and its value in single quotes if it has one. -/
def words (t : Token) : Text :=
  if t.kind.hasValue then t.kind.words ++ " '" ++ t.value ++ "'" else t.kind.words

/-- Whether the token is the given word. -/
def isWord (t : Token) (word : String) : Bool := t.kind == .name && t.value == word

/-- Whether the token can describe a definition. -/
def isText (t : Token) : Bool := t.kind == .text || t.kind == .blockText

end Token

end FieldAudit.GraphQL
