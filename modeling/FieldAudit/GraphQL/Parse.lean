import FieldAudit.GraphQL.Excerpt
import FieldAudit.GraphQL.Grammar
import FieldAudit.GraphQL.Lexer

/-!
Parsing a text: its tokens are read by the grammar. The first failure wins, whether the grammar
meets it at a token or the tokens break off before it. Tokens are read one ahead of the grammar, and
so a fault in the text counts as soon as the token before it is taken.

`parse` is `parse_literal`; of the `LiteralParseError` that it raises the message is kept.
-/

set_option autoImplicit false

namespace FieldAudit.GraphQL

/-- Why a text is not a document. -/
inductive SyntaxProblem
  /-- No token can be read. -/
  | lexical (problem : LexProblem)
  /-- The token does not fit the grammar. -/
  | grammatical (problem : GrammarProblem) (token : Token)
  deriving DecidableEq, Repr

/-- A problem, its offset, and the text in which it was found. -/
structure SyntaxError where
  problem : SyntaxProblem
  offset : Nat
  source : Text
  deriving DecidableEq, Repr

/-- The words for a problem. -/
def SyntaxProblem.message : SyntaxProblem → Text
  | .lexical problem => problem.message
  | .grammatical problem token => problem.message token

/-- The words for a problem, and the excerpt that shows its place. -/
def SyntaxError.message (e : SyntaxError) : Text :=
  "Syntax Error: " ++ e.problem.message ++ "\n\n" ++ excerpt e.source e.offset

/-- Why a reader failed on the tokens of a text. Tokens that break off do so at the lexical
fault. -/
def SyntaxError.ofFault (source : Text) (lexed : Lexed) : Fault → SyntaxError
  | .problem problem token => ⟨.grammatical problem token, token.start, source⟩
  | .brokenOff =>
    match lexed.fault with
    | some fault => ⟨.lexical fault.problem, fault.offset, source⟩
    | none => ⟨.lexical .unterminated, source.length, source⟩

/-- What a reader makes of a text. -/
def readWith {α : Type} (reader : Reader α) (source : Text) : Except SyntaxError α :=
  let lexed := tokenize source
  match reader.run lexed.tokens with
  | .ok (value, _) => .ok value
  | .error fault => .error (.ofFault source lexed fault)

/-- The document that a text writes. -/
def parse (source : Text) : Except SyntaxError Document := readWith Grammar.document source

/-- The constant value that a text writes. -/
def parseConstant (source : Text) : Except SyntaxError Literal :=
  readWith Grammar.constantValue source

end FieldAudit.GraphQL
