import FieldAudit.Text.Lines

/-!
Brace alternatives. A group is a pair of braces with no brace inside; one that holds a comma stands
for the choice between the texts around its commas. `expandBraces` makes every choice, innermost
groups first, and lists every result once. A group without comma stands for itself.

`expandBraces` is `expand_braces`, which calls itself once more for every group that it resolves.
The limit of the interpreter on calls inside each other is left out here, other than in
`Json.depthLimit`: it would stop the expansion of a pattern with some 900 groups.
-/

set_option autoImplicit false

namespace FieldAudit.Glob

/-- A point of a group's inside. -/
def isPlain (p : Point) : Bool := p != '\x7b' && p != '\x7d'

/-- The first group that holds a comma: the text before it, its inside and the text after it. -/
def splitGroup : Text → Option (Text × Text × Text)
  | [] => none
  | p :: rest =>
    let inside := rest.takeWhile isPlain
    if p = '\x7b' ∧ (rest.drop inside.length).head? = some (.char '\x7d') ∧ .char ',' ∈ inside then
      some ([], inside, rest.drop (inside.length + 1))
    else (splitGroup rest).map fun (head, inside, tail) => (p :: head, inside, tail)

/-- The results of all choices. A choice takes one opening brace away, and so the fuel, the count of
opening braces, is enough. -/
def expandWith : Nat → Text → List Text
  | 0, pattern => [pattern]
  | fuel + 1, pattern =>
    match splitGroup pattern with
    | none => [pattern]
    | some (head, inside, tail) =>
      ((Text.pieces ',' inside).flatMap fun choice =>
        expandWith fuel (head ++ choice ++ tail)).eraseDups

/-- The patterns that a pattern with brace alternatives stands for. -/
def expandBraces (pattern : Text) : List Text :=
  expandWith (pattern.count (Point.char '\x7b')) pattern

end FieldAudit.Glob
