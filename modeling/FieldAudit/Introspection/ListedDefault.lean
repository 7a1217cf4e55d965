import FieldAudit.GraphQL.Grammar
import FieldAudit.GraphQL.Lexer
import FieldAudit.Json.Value

/-!
Default values that are given as lists. The items of a list are read as if they were the characters
of a written value: an item that is a text counts as one character, whatever its length, and a name
or a number may consist of several items. What a character cannot be (an item that is no text), and
what cannot be made of items (a quoted text, a number that something follows), has a problem of its
own kind.

This is what `build_client_schema` makes of a default value that is a list.
-/

set_option autoImplicit false

namespace FieldAudit.Introspection

open Json (Value)

/-- Why the items of a list are not read as a value. -/
inductive ItemProblem
  /-- They write no constant value. -/
  | notValue
  /-- Something that is no text is looked up in a text. -/
  | notText (kind : String)
  /-- Something that is no text is asked for the class of its characters. -/
  | noClass (kind : String)
  /-- Something that is no text is compared with a text. -/
  | notComparable (kind : String)
  /-- Two items are halves of one character. -/
  | halves
  /-- An item of several points is asked for its code. -/
  | severalPoints (count : Nat)
  /-- Items are escaped. -/
  | escaped
  /-- Items are quoted. -/
  | quoted
  deriving DecidableEq, Repr

/-- What is reported of a problem. -/
def ItemProblem.message : ItemProblem → Text
  | .notValue => "expected string or bytes-like object, got 'list'"
  | .notText kind => "'in <string>' requires string as left operand, not " ++ kind
  | .noClass kind => "'" ++ kind ++ "' object has no attribute 'isascii'"
  | .notComparable kind => "'<=' not supported between instances of 'str' and '" ++ kind ++ "'"
  | .halves => "'list' object has no attribute 'encode'"
  | .severalPoints count =>
    "ord() expected a character, but string of length " ++ .ofNat count ++ " found"
  | .escaped => "unhashable type: 'list'"
  | .quoted => "sequence item 0: expected str instance, list found"

/-- Whether the problem is that something has not got what it is asked for. -/
def ItemProblem.isLack : ItemProblem → Bool
  | .noClass _ | .halves => true
  | _ => false

namespace ListedDefault

/-! ## 1. Items -/

/-- The text of an item that is looked up among others. -/
def lookedUp : Value → Except ItemProblem Text
  | .string t => .ok t
  | item => .error (.notText item.kindName)

/-- The text of an item that is asked for its class. -/
def classed : Value → Except ItemProblem Text
  | .string t => .ok t
  | item => .error (.noClass item.kindName)

/-- A letter of a name. -/
def isLetter (p : Point) : Bool := GraphQL.isNameStart p && p != '_'

/-- An item that may start a name: letters, or a single underscore. -/
def isNameStart (t : Text) : Bool := t == "_" || (!t.isEmpty && t.all isLetter)

/-- An item that may continue a name: letters and digits, or a single underscore. -/
def isNameContinue (t : Text) : Bool :=
  t == "_" || (!t.isEmpty && t.all fun p => isLetter p || GraphQL.isDigit p)

/-- An item of digits. -/
def isDigits (t : Text) : Bool := !t.isEmpty && t.all GraphQL.isDigit

/-- The characters that separate tokens on a line; any run of them is an item that does. -/
def separators : Text := " \t,\uFEFF"

/-- The characters that end lines. -/
def lineEnds : Text := "\r\n"

/-- An item that stands, in the order of texts, where characters stand. -/
def isCharacter (t : Text) : Bool :=
  (("\x00" : Text) ≤ t && t ≤ [.ofCode 0xD7FF]) || ([.ofCode 0xE000] ≤ t && t ≤ [.ofCode 0x10FFFF])

/-- Whether an item and the one after it are halves of one character. -/
def opensPair (t : Text) (rest : List Value) : Except ItemProblem Bool :=
  if [.ofCode 0xD800] ≤ t ∧ t ≤ [.ofCode 0xDBFF] then
    match rest with
    | [] => .ok false
    | .string next :: _ => .ok (decide ([.ofCode 0xDC00] ≤ next ∧ next ≤ [.ofCode 0xDFFF]))
    | next :: _ => .error (.notComparable next.kindName)
  else .ok false

/-- The problem of an item that starts no token, or does not belong where it stands. -/
def misplaced (t : Text) (rest : List Value) : ItemProblem :=
  if (" " : Text) ≤ t ∧ t ≤ "~" then .notValue
  else
    match opensPair t rest with
    | .error problem => problem
    | .ok true => .halves
    | .ok false => if t.length = 1 then .notValue else .severalPoints t.length

/-! ## 2. Tokens -/

/-- The items after those that belong to a class. -/
def afterRun (belongs : Text → Bool) : List Value → Except ItemProblem (List Value)
  | [] => .ok []
  | item :: rest => do
    if belongs (← classed item) then afterRun belongs rest else return item :: rest

/-- The items after a comment. -/
def afterComment : List Value → Except ItemProblem (List Value)
  | [] => .ok []
  | item :: rest => do
    let t ← lookedUp item
    if Text.occursIn t lineEnds then return item :: rest
    else if isCharacter t then afterComment rest
    else if ← opensPair t rest then afterComment (rest.drop 1)
    else return item :: rest
  termination_by items => items.length
  decreasing_by all_goals simp only [List.length_drop, List.length_cons]; omega

/-- The items after a number that starts with an item. Only digits that nothing follows make one. -/
def afterNumber (t : Text) (rest : List Value) : Except ItemProblem (List Value) := do
  if t = "-" ∨ t = "0" then .error (.noClass "list")
  else
    match ← afterRun isDigits rest with
    | [] => return []
    | _ => .error (.notText "list")

/-- The problem of quoted items, given what follows the opening quote. -/
def quotedProblem : List Value → ItemProblem
  | [] => .notValue
  | item :: rest =>
    match item with
    | .string t =>
      if t = "\x22" then .quoted
      else if t = "\\" then .escaped
      else if Text.occursIn t lineEnds then .notValue
      else if isCharacter t then quotedProblem rest
      else
        match opensPair t rest with
        | .error problem => problem
        | .ok true => quotedProblem (rest.drop 1)
        | .ok false => misplaced t rest
    | item => .notText item.kindName
  termination_by items => items.length
  decreasing_by all_goals simp only [List.length_drop, List.length_cons]; omega

/-- The tokens of items, up to the end or to the first problem. -/
structure Lexed where
  tokens : List GraphQL.Token
  problem? : Option ItemProblem
  deriving DecidableEq, Repr

/-- The kind of the token that starts with an item, and the items after it. -/
def scanToken (t : Text) (rest : List Value) :
    Except ItemProblem (GraphQL.TokenKind × List Value) :=
  match t with
  | [p] =>
    match GraphQL.punctuator? p with
    | some kind => .ok (kind, rest)
    | none =>
      if p = '\x22' then .error (quotedProblem rest)
      else if p = '.' then .error (.noClass "list")
      else others
  | _ => others
where
  others : Except ItemProblem (GraphQL.TokenKind × List Value) :=
    if isDigits t || t == "-" then (afterNumber t rest).map fun rest => (.int, rest)
    else if isNameStart t then (afterRun isNameContinue rest).map fun rest => (.name, rest)
    else .error (misplaced t rest)

/-- The tokens of items; the fuel bounds the steps, and the count of items is enough. -/
def tokenize : Nat → List Value → Lexed
  | 0, _ | _, [] => ⟨[⟨.endOfText, [], 0⟩], none⟩
  | fuel + 1, item :: rest =>
    match lookedUp item with
    | .error problem => ⟨[], some problem⟩
    | .ok t =>
      if Text.occursIn t separators || t == "\n" || t == "\r" then tokenize fuel rest
      else if t = "#" then
        match afterComment rest with
        | .error problem => ⟨[], some problem⟩
        | .ok rest => tokenize fuel rest
      else
        match scanToken t rest with
        | .error problem => ⟨[], some problem⟩
        | .ok (kind, rest) =>
          let lexed := tokenize fuel rest
          { lexed with tokens := ⟨kind, t, 0⟩ :: lexed.tokens }

/-! ## 3. Values -/

/-- The items of a list have to write a constant value. -/
def check (items : List Value) : Except ItemProblem Unit :=
  let lexed := tokenize items.length items
  match GraphQL.Grammar.constantValue.run lexed.tokens with
  | .ok _ => .ok ()
  | .error .brokenOff => .error (lexed.problem?.getD .notValue)
  | .error (.problem _ _) => .error .notValue

end ListedDefault

end FieldAudit.Introspection
