import FieldAudit.Text.Blank
import FieldAudit.Text.Lines

/-!
Snippets of GraphQL in source text. A snippet stands between two consecutive backticks, paired from
the start of the text; it is kept when its trimmed text holds the word of an operation or a fragment
before a space. What the snippet means is not looked at here.

`pluck` is `pluck_graphql_strings`, a snippet is a `LiteralSpan`, and `lineOf` is `index_to_line`.
-/

set_option autoImplicit false

namespace FieldAudit

/-- A kept snippet: its trimmed text, and the offset of its opening backtick. -/
structure Snippet where
  source : Text
  index : Nat
  deriving DecidableEq, Repr

namespace Snippet

/-- The character around snippets. -/
def backtick : Point := .char '\x60'

/-- The texts between consecutive pairs of backticks, with the offsets of the opening ones. An
unpaired last backtick opens nothing. -/
def between (offset : Nat) : Text → List (Nat × Text)
  | [] => []
  | p :: rest =>
    if p = backtick then
      let body := rest.takeWhile (· != backtick)
      match found : rest.drop body.length with
      | [] => []
      | _ :: after => (offset, body) :: between (offset + body.length + 2) after
    else between (offset + 1) rest
  termination_by t => t.length
  decreasing_by
    · have shorter := congrArg List.length found
      simp only [List.length_drop, List.length_cons] at shorter ⊢
      omega
    · simp only [List.length_cons]; omega

/-- The words of which a snippet has to hold one. -/
def keywords : List Text := ["query ", "mutation ", "fragment "]

/-- Whether a trimmed text is kept. -/
def isKept (trimmed : Text) : Bool := keywords.any fun word => Text.occursIn word trimmed

/-- The kept snippets of a text, in order. -/
def pluck (code : Text) : List Snippet :=
  (between 0 code).filterMap fun (index, body) =>
    let trimmed := Text.trim body
    if isKept trimmed then some ⟨trimmed, index⟩ else none

/-- The line of an offset, counted from one. An offset below zero counts from the end of the
text. -/
def lineOf (code : Text) (offset : Int) : Nat :=
  let before := if offset < 0 then (code.length + offset).toNat else offset.toNat
  Text.newlines (code.take before) + 1

end Snippet

end FieldAudit
