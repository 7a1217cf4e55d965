import FieldAudit.Proofs.GraphQL.Documents
import FieldAudit.Proofs.Scan.Replaced

/-!
What the tokens of a snippet tell about a scan. Reformatting a snippet changes nothing in what is
recorded for it: its lexemes tell whether it is a document and which one (`snippet_reformatted`). A
snippet with a fault, or with brackets that are not well nested, is no document, and nothing is
recorded for it (`snippet_unbalanced`).
-/

set_option autoImplicit false

namespace FieldAudit.Scan

open GraphQL (brackets tokenize WellNested)
open GraphQL.Grammar (Alike)
open Usage (selected)

/-! ## 1. What is recorded for a snippet -/

/-- Fields that are recorded for a snippet. Wherever it stands in a text, a scan of the text records
these fields at its line, between the usages of the snippets in front and those of the snippets
behind it. -/
def Records (schema : Schema) (source : Text) (found : List Coordinate) : Prop :=
  ∀ (verbose : Bool) (file code : Text) (scan : Scan) (before behind : List Snippet) (index : Nat),
    Snippet.pluck code = before ++ ⟨source, index⟩ :: behind →
    let usages := before.flatMap (usagesOfSnippet schema file code)
      ++ ((found.map fun coordinate => (coordinate, siteOf file code ⟨source, index⟩))
        ++ behind.flatMap (usagesOfSnippet schema file code))
    (Scan.source schema verbose file code scan).scan.usages = scan.usages.recordEach usages
      ∧ (Scan.source schema verbose file code scan).recorded = usages.length

theorem records_of_usagesOfSnippet {schema : Schema} {source : Text} {found : List Coordinate}
    (h : ∀ file code index, usagesOfSnippet schema file code ⟨source, index⟩
      = found.map fun coordinate => (coordinate, siteOf file code ⟨source, index⟩)) :
    Records schema source found := by
  intro verbose file code scan before behind index hpluck usages
  have husages : usagesOfSource schema file code = usages := by
    rw [usagesOfSource, hpluck, List.flatMap_append, List.flatMap_cons, h]
  rw [← husages]
  exact usages_source schema verbose file code scan

theorem records_of_parse_eq_ok {source : Text} {document : GraphQL.Document}
    (h : GraphQL.parse source = .ok document) (schema : Schema) :
    Records schema source (selected schema document) :=
  records_of_usagesOfSnippet fun file code index => by rw [usagesOfSnippet, h]

theorem records_of_parse_eq_error {source : Text} {error : GraphQL.SyntaxError}
    (h : GraphQL.parse source = .error error) (schema : Schema) : Records schema source [] :=
  records_of_usagesOfSnippet fun file code index => by rw [usagesOfSnippet, h, List.map_nil]

/-! ## 2. Reformatted snippets -/

/-- **Reformatting changes nothing.** Two texts whose tokens are alike in kinds and values, in
order, are both parsed as one document, and then the same fields are recorded for both under every
schema; or both are refused, and nothing is recorded for them. It does not matter where the tokens
stand, what is ignored between them and how their texts are spelled. If the tokens break off at a
fault, both texts are refused. -/
theorem snippet_reformatted {source other : Text}
    (h : (tokenize source).tokens.map GraphQL.Token.lexeme
      = (tokenize other).tokens.map GraphQL.Token.lexeme) :
    (∃ document, GraphQL.parse source = .ok document ∧ GraphQL.parse other = .ok document
      ∧ ∀ schema, Records schema source (selected schema document)
        ∧ Records schema other (selected schema document))
    ∨ ∃ error error', GraphQL.parse source = .error error ∧ GraphQL.parse other = .error error'
      ∧ ∀ schema, Records schema source [] ∧ Records schema other [] := by
  rcases GraphQL.parse_of_alike h with
    ⟨document, hsource, hother⟩ | ⟨error, error', hsource, hother⟩
  · exact .inl ⟨document, hsource, hother, fun schema =>
      ⟨records_of_parse_eq_ok hsource schema, records_of_parse_eq_ok hother schema⟩⟩
  · exact .inr ⟨error, error', hsource, hother, fun schema =>
      ⟨records_of_parse_eq_error hsource schema, records_of_parse_eq_error hother schema⟩⟩

/-- A query on one line, with an escape in its text. -/
def plainQuery : Text := "query A \x7b a(x: \x22\\u0041\x22) \x7b b \x7d \x7d"

/-- The same query with commas, a comment and line breaks, and without the escape. -/
def spreadQuery : Text := "query A\x7b,\n  a(x:\x22A\x22) # \x7d\n  \x7b b,,\x7d\x7d"

/-- The two queries are one document, and two fields are recorded for each of them. -/
theorem snippet_reformatted_spreadQuery :
    (tokenize plainQuery).tokens.map GraphQL.Token.lexeme
      = (tokenize spreadQuery).tokens.map GraphQL.Token.lexeme
    ∧ (∃ document, GraphQL.parse plainQuery = .ok document
      ∧ GraphQL.parse spreadQuery = .ok document)
    ∧ (Scan.source loopSchema false "/a.ts" (Snippet.quoted plainQuery) start).recorded = 2
    ∧ (Scan.source loopSchema false "/a.ts" (Snippet.quoted spreadQuery) start).recorded = 2 := by
  have halike : (tokenize plainQuery).tokens.map GraphQL.Token.lexeme
      = (tokenize spreadQuery).tokens.map GraphQL.Token.lexeme := by decide +kernel
  have hplain : (Scan.source loopSchema false "/a.ts" (Snippet.quoted plainQuery) start).recorded
      = 2 := by
    decide +kernel
  have hpluck : Snippet.pluck (Snippet.quoted plainQuery) = [⟨plainQuery, 0⟩] := by decide +kernel
  have hspread : Snippet.pluck (Snippet.quoted spreadQuery) = [⟨spreadQuery, 0⟩] := by
    decide +kernel
  rcases snippet_reformatted halike with
    ⟨document, hsource, hother, hrecords⟩ | ⟨_, _, -, -, hrecords⟩
  · obtain ⟨hone, htwo⟩ := hrecords loopSchema
    have hone := (hone false "/a.ts" (Snippet.quoted plainQuery) start [] [] 0 hpluck).2
    have htwo := (htwo false "/a.ts" (Snippet.quoted spreadQuery) start [] [] 0 hspread).2
    simp only [List.flatMap_nil, List.nil_append, List.append_nil, List.length_map] at hone htwo
    exact ⟨halike, ⟨document, hsource, hother⟩, hplain, htwo.trans (hone.symm.trans hplain)⟩
  · -- the plain query is no failure, for something is recorded for it
    have hnone :=
      ((hrecords loopSchema).1 false "/a.ts" (Snippet.quoted plainQuery) start [] [] 0 hpluck).2
    exact absurd (hnone.symm.trans hplain) (by decide)

/-! ## 3. Unbalanced snippets -/

/-- A text that has no fault, and in which the brackets that are tokens are well nested. -/
def IsBalanced (source : Text) : Prop :=
  (tokenize source).fault = none ∧ WellNested (brackets (tokenize source).tokens)

instance (source : Text) : Decidable (IsBalanced source) := inferInstanceAs (Decidable (_ ∧ _))

/-- **Unbalanced snippets are never accepted.** A text that is parsed is balanced. So a text that is
not, for it was cut off or a bracket is missing or too many, is refused, and nothing is recorded for
it. -/
theorem snippet_unbalanced (source : Text) :
    (∀ document, GraphQL.parse source = .ok document → IsBalanced source)
    ∧ (¬ IsBalanced source →
      (∃ error, GraphQL.parse source = .error error) ∧ ∀ schema, Records schema source []) := by
  have hbalanced : ∀ document, GraphQL.parse source = .ok document → IsBalanced source :=
    fun _ h => GraphQL.balanced_of_parse h
  refine ⟨hbalanced, fun hunbalanced => ?_⟩
  cases hparse : GraphQL.parse source with
  | ok document => exact absurd (hbalanced document hparse) hunbalanced
  | error error => exact ⟨⟨error, rfl⟩, records_of_parse_eq_error hparse⟩

/-- A query with brackets of all sorts, and others within a text and a comment. -/
def bracketQuery : Text := "query A \x7b a(x: [\x22)\x22]) \x7b b \x7d \x7d #("

/-- The same query without its last brace. -/
def cutQuery : Text := "query A \x7b a(x: [\x22)\x22]) \x7b b \x7d #("

/-- The brackets in the text and in the comment do not close what the cut left open. -/
theorem snippet_unbalanced_cutQuery :
    IsBalanced bracketQuery ∧ ¬ IsBalanced cutQuery
      ∧ (∃ error, GraphQL.parse cutQuery = .error error)
      ∧ (Scan.source loopSchema false "/a.ts" (Snippet.quoted cutQuery) start).scan.usages
        = [] := by
  have hunbalanced : ¬ IsBalanced cutQuery := by decide +kernel
  have hpluck : Snippet.pluck (Snippet.quoted cutQuery) = [⟨cutQuery, 0⟩] := by decide +kernel
  have hparsed : (GraphQL.parse bracketQuery).isOk = true := by decide +kernel
  obtain ⟨document, hdocument⟩ : ∃ document, GraphQL.parse bracketQuery = .ok document := by
    cases hparse : GraphQL.parse bracketQuery with
    | ok document => exact ⟨document, rfl⟩
    | error error =>
      rw [hparse] at hparsed
      exact absurd hparsed Bool.false_ne_true
  obtain ⟨herror, hrecords⟩ := (snippet_unbalanced cutQuery).2 hunbalanced
  exact ⟨(snippet_unbalanced bracketQuery).1 document hdocument, hunbalanced, herror,
    (hrecords loopSchema false "/a.ts" _ start [] [] 0 hpluck).1⟩

end FieldAudit.Scan
