import FieldAudit.Attempt
import FieldAudit.Introspection.Build
import FieldAudit.Introspection.Query
import FieldAudit.Json.Reader
import FieldAudit.Text.Utf8

/-!
The exchange with an endpoint: one request with the introspection query, one reply, and the schema
that the reply describes. The reply is a value here; who sends the request is not said.

`introspect` and `fetch` are `SchemaClient.introspect` and `SchemaClient.fetch_schema`,
`spellErrors` is `_format_errors`, and an `ExchangeProblem` is a `SchemaFetchError`.
-/

set_option autoImplicit false

namespace FieldAudit

open Json (Value)

/-- A request to an endpoint; its body is the introspection query. -/
structure Request where
  endpoint : Value
  headers : Entries Text
  deriving Repr

/-- What comes of a request: an answer with a status, a reason and a body, or a broken
connection. -/
inductive Reply
  /-- An answer. Its body is read as UTF-8, and what is malformed in it as U+FFFD, whatever charset
  the answer names. -/
  | answer (status : Int) (reason? : Option Text) (body : List UInt8)
  /-- A connection that broke, with the class and the message of what was raised. -/
  | broken (kind : String) (message : Text)
  deriving Repr

/-- An effect that others can see: a printed line or a sent request. -/
inductive Effect
  /-- A line on standard output, which is taken to accept every text, halves of surrogate pairs
  included: an output whose encoding refuses a text, and so stops the program at the line, is left
  out. -/
  | print (line : Text)
  /-- A request that is sent. -/
  | send (request : Request)
  deriving Repr

/-- An answer that is no schema. -/
inductive ExchangeProblem
  /-- The status says that the request failed. -/
  | refused (status : Int) (reason? : Option Text) (body : Text)
  /-- The body is no JSON. -/
  | notJson (status : Int) (body : Text) (error : Json.ReadError)
  /-- The body holds no data; null stands for errors that it does not hold either. -/
  | noData (status : Int) (body : Text) (errors : Value)
  /-- The data describe no schema. -/
  | unusable (defect : Introspection.Defect)

namespace ExchangeProblem

/-- What is reported of a problem. -/
def message : ExchangeProblem → Text
  | .refused status reason? body =>
    "Failed introspection " ++ .ofInt status ++ " " ++ reason?.getD Value.null.quoted ++
      ": " ++ body
  | .notJson _ _ error => "Introspection response is not JSON: " ++ error.message
  | .noData _ _ _ => "No data returned from introspection query"
  | .unusable defect => "Invalid introspection result: " ++ defect.message

/-- The status of the answer, if the problem lies in the answer. -/
def status? : ExchangeProblem → Option Int
  | .refused status _ _ | .notJson status _ _ | .noData status _ _ => some status
  | .unusable _ => none

/-- The body of the answer, if the problem lies in the answer. -/
def body : ExchangeProblem → Text
  | .refused _ _ body | .notJson _ body _ | .noData _ body _ => body
  | .unusable _ => []

/-- The errors that the answer gives, or null. -/
def errors : ExchangeProblem → Value
  | .noData _ _ errors => errors
  | _ => .null

end ExchangeProblem

/-- Why no schema comes of an exchange. -/
inductive ExchangeFailure
  /-- The answer is no schema. -/
  | problem (problem : ExchangeProblem)
  /-- The connection broke. -/
  | broken (kind : String) (message : Text)
  /-- The answer is nested too deeply. -/
  | nested (error : Json.ReadError)
  /-- An error that the answer gives has a message that is no text. -/
  | notSpellable (index : Nat) (message : Value)
  /-- A name or a text of the data breaks the rules of GraphQL. -/
  | defect (defect : Introspection.Defect)

/-- What is reported of a failure. -/
def ExchangeFailure.message : ExchangeFailure → Text
  | .problem p => p.message
  | .broken _ message => message
  | .nested error => error.message
  | .notSpellable index message =>
    "sequence item " ++ .ofNat index ++ ": expected str instance, " ++ message.kindName ++ " found"
  | .defect d => d.message

namespace Exchange

/-- The header that says what the body of the request is. -/
def ownHeaders : Entries Text := [("content-type", "application/json")]

/-- The request for a schema: a given header takes the place of an own one of the same name. -/
def request (endpoint : Value) (headers : Entries Text) : Request :=
  ⟨endpoint, headers.foldl (fun all header => Entries.put header.1 header.2 all) ownHeaders⟩

/-- What is printed of a request on demand. -/
def requestLines (endpoint : Value) (headers : Entries Text) : List Text :=
  ("  POST " ++ endpoint.bare ++ " (" ++ .ofNat Introspection.query.length ++ " chars)") ::
    if headers.isEmpty then []
    else ["  Extra headers: " ++ Json.commaSeparated (Text.sorted (Entries.keys headers))]

/-- Whether a status says that a request succeeded. -/
def isSuccess (status : Int) : Bool := !(400 ≤ status && status < 600)

/-- The message of an error in an answer: its own one, if it is an object with a message. -/
def errorMessage : Value → Value
  | .object members => (Entries.get? "message" members).getD (.string (Value.object members).bare)
  | value => .string value.bare

/-- The texts of messages, the first of which has an index; fails at the first one that is no
text. -/
def spellMessages (index : Nat) : List Value → Except ExchangeFailure (List Text)
  | [] => .ok []
  | .string t :: rest => (spellMessages (index + 1) rest).map (t :: ·)
  | value :: _ => .error (.notSpellable index value)

/-- The errors of an answer in one line. -/
def spellErrors : Value → Except ExchangeFailure Text
  | .array errors => (spellMessages 0 (errors.map errorMessage)).map (.join "; ")
  | value => .ok value.bare

/-- The data of an answer, which has to be JSON. -/
def dataOf (status : Int) (body : Text) : Attempt Effect ExchangeFailure Value :=
  match Json.read body with
  | .error error =>
    .fail (if error.problem.isDepth then .nested error else .problem (.notJson status body error))
  | .ok value =>
    let members := value.members?.getD []
    let data := Value.member "data" members
    if data.isGiven then pure data
    else do
      let errors := Value.member "errors" members
      if errors.isGiven then
        let line ← Attempt.ofExcept (spellErrors errors)
        Attempt.emit (.print ("  Introspection errors: " ++ line))
      Attempt.fail (.problem (.noData status body errors))

/-- Asks an endpoint for the data about its schema. -/
def introspect (endpoint : Value) (headers : Entries Text) (verbose : Bool) (reply : Reply) :
    Attempt Effect ExchangeFailure Value := do
  if verbose then
    Attempt.emitAll ((requestLines endpoint headers).map .print)
  Attempt.emit (.send (request endpoint headers))
  match reply with
  | .broken kind message => Attempt.fail (.broken kind message)
  | .answer status reason? bytes =>
    let body := Text.Utf8.decodeLossy bytes
    if isSuccess status then dataOf status body
    else Attempt.fail (.problem (.refused status reason? body))

/-- A defect of the data: one of kinds or missing keys makes the answer unusable. -/
def failureOf (defect : Introspection.Defect) : ExchangeFailure :=
  match defect.family with
  | .type | .key => .problem (.unusable defect)
  | _ => .defect defect

/-- Asks an endpoint for its schema. -/
def fetch (endpoint : Value) (headers : Entries Text) (verbose : Bool) (reply : Reply) :
    Attempt Effect ExchangeFailure Schema := do
  let data ← introspect endpoint headers verbose reply
  Attempt.ofExcept ((Introspection.build data).mapError failureOf)

end Exchange

end FieldAudit
