import FieldAudit.Proofs.GraphQL.Parsed
import FieldAudit.Proofs.Scan.Usages
import FieldAudit.Proofs.Snippet.Pairing

/-!
Documents between backticks. A document that is written between the only two backticks of a source
text is the one snippet of the text. If it nests no more selection sets than the grammar allows, a
scan of the text counts it as parsed and records its fields, and nothing else; if it nests more, the
scan reports it as a failure and records nothing (`source_written`).
-/

set_option autoImplicit false

namespace FieldAudit

namespace Snippet

/-! ## 1. The snippet between two backticks -/

/-- A source text with two backticks has one snippet, if that is kept. -/
theorem pluck_of_two_backticks {before text after : Text} (hbefore : backtick ∉ before)
    (htext : backtick ∉ text) (hafter : backtick ∉ after) (hkept : isKept (Text.trim text) = true) :
    pluck (before ++ backtick :: (text ++ backtick :: after))
      = [⟨Text.trim text, before.length⟩] := by
  unfold pluck
  rw [between_append hbefore, between_backtick htext, between_of_not_mem hafter, Nat.zero_add,
    List.filterMap_cons]
  simp only [hkept, if_true, List.filterMap_nil]

end Snippet

namespace Scan

open GraphQL

variable {before text after : Text}

/-! ## 2. A scan of one snippet -/

/-- Scanning a source text with one snippet scans the snippet. -/
theorem source_of_pluck_eq_singleton {schema : Schema} {verbose : Bool} {file code : Text}
    {scan : Scan} {snippet : Snippet} {progress : Progress}
    (hpluck : Snippet.pluck code = [snippet]) (hsnippet : Scan.snippet schema verbose file code
      ⟨{ scan with counts := { scan.counts with files := scan.counts.files + 1 } }, 0, []⟩ snippet
        = progress) :
    Scan.source schema verbose file code scan
      = { progress with
          scan := { progress.scan with
            counts := { progress.scan.counts with
              filesWithSnippets := progress.scan.counts.filesWithSnippets + 1
              occurrences := progress.scan.counts.occurrences + progress.recorded } } } := by
  unfold Scan.source
  rw [hpluck, ← hsnippet]
  rfl

/-- The line of the opening backtick. -/
theorem lineOf_length (before rest : Text) :
    Snippet.lineOf (before ++ rest) (before.length : Int) = Text.newlines before + 1 := by
  rw [lineOf_natCast, List.take_left]

/-- **No selection is missed.** A document is written, in any layout, between the only two backticks
of a source text, so that the snippet is kept. If the document nests at most `Grammar.deepest`
selection sets, the snippet is parsed as exactly this document, and the scan records its fields at
the line of the opening backtick, counts the snippet as parsed, reports no failure and changes
nothing else. If it nests more, the snippet is refused as nested too deeply, the scan reports one
failure for the file and records nothing. -/
theorem source_written (schema : Schema) (verbose : Bool) (file : Text) (scan : Scan)
    {document : Document} {lexemes : List Lexeme} (hwritten : Written document lexemes)
    (hlayout : Layout lexemes text) (hne : document ≠ [])
    (hbefore : Snippet.backtick ∉ before) (htext : Snippet.backtick ∉ text)
    (hafter : Snippet.backtick ∉ after) (hkept : Snippet.isKept (Text.trim text) = true) :
    (Document.depth document ≤ Grammar.deepest →
      parse (Text.trim text) = .ok document
        ∧ ∀ usages count,
          Usage.recordAll schema document ⟨file, (Text.newlines before + 1 : Nat)⟩ scan.usages
            = (usages, count) →
          Scan.source schema verbose file
              (before ++ Snippet.backtick :: (text ++ Snippet.backtick :: after)) scan
            = { scan := {
                  counts := { scan.counts with
                    files := scan.counts.files + 1
                    filesWithSnippets := scan.counts.filesWithSnippets + 1
                    found := scan.counts.found + 1
                    parsed := scan.counts.parsed + 1
                    occurrences := scan.counts.occurrences + count }
                  usages := usages }
                recorded := count
                printed := if verbose then
                    ["  " ++ file ++ ":" ++ .ofNat (Text.newlines before + 1) ++ " -> "
                      ++ .ofNat count ++ " field(s)"]
                  else [] })
    ∧ (Grammar.deepest < Document.depth document →
      ∃ token error, parse (Text.trim text) = .error error
        ∧ error.problem = .grammatical .tooDeep token
        ∧ Scan.source schema verbose file
              (before ++ Snippet.backtick :: (text ++ Snippet.backtick :: after)) scan
            = { scan := {
                  counts := { scan.counts with
                    files := scan.counts.files + 1
                    filesWithSnippets := scan.counts.filesWithSnippets + 1
                    found := scan.counts.found + 1
                    failures := scan.counts.failures ++ [file] }
                  usages := scan.usages }
                recorded := 0
                printed := ["  Warning: Failed to parse GraphQL in " ++ file ++ ": "
                  ++ error.message] }) := by
  have hpluck := Snippet.pluck_of_two_backticks hbefore htext hafter hkept
  -- the snippet is the trimmed text, and that is a layout of the same lexemes
  constructor
  · intro hdepth
    have hparse : parse (Text.trim text) = .ok document :=
      parse_layout hwritten hlayout.trim hne hdepth
    refine ⟨hparse, ?_⟩
    intro usages count hrecord
    refine (source_of_pluck_eq_singleton hpluck rfl).trans ?_
    unfold Scan.snippet
    simp only [hparse, lineOf_length, hrecord, Nat.zero_add, List.nil_append]
  · intro hdeep
    obtain ⟨token, error, hparse, hproblem⟩ := parse_layout_of_deep hwritten hlayout.trim hdeep
    refine ⟨token, error, hparse, hproblem, ?_⟩
    refine (source_of_pluck_eq_singleton hpluck rfl).trans ?_
    unfold Scan.snippet
    simp only [hparse, Nat.add_zero, List.nil_append]

/-- A document whose names are words with a meaning of their own elsewhere. -/
def keywordDocument : Document :=
  [.operation ⟨none, .query, some "query", [], [],
    [.field (some "fragment") "a" [] []
      (some [.inline (some "Query") [] [.field none "b" [] [] none, .spread "mutation" []]])]⟩,
    .fragment ⟨none, "mutation", "Query", [],
      [.inline none [] [.field (some "on") "a" [] [] none]]⟩]

/-- The text of that document. -/
def keywordText : Text :=
  "query query \x7b fragment : a \x7b ... on Query \x7b b ... mutation \x7d \x7d \x7d fragment mutation on Query \x7b ... \x7b on : a \x7d \x7d "

theorem source_written_keywordDocument :
    Snippet.isKept (Text.trim keywordText) = true
      ∧ parse (Text.trim keywordText) = .ok keywordDocument
      ∧ ∃ usages, (Scan.source loopSchema false "/a.ts"
          (.char '\n' :: Snippet.backtick :: (keywordText ++ [Snippet.backtick])) Scan.start)
          = ⟨⟨⟨1, 1, 1, 1, [], 3⟩, usages⟩, 3, []⟩
        ∧ usages.sites "Query" "a" = [⟨"/a.ts", 2⟩, ⟨"/a.ts", 2⟩]
        ∧ usages.sites "Query" "b" = [⟨"/a.ts", 2⟩] := by
  have hnone : ∀ a ∈ (none : Option Text), isName a = true := by simp
  have hname : ∀ {name : Text}, isName name = true → ∀ a ∈ some name, isName a = true := by
    rintro name h a ha
    rwa [Option.mem_some_iff.mp ha] at h
  have hinner : ∀ selection ∈ [Selection.field none "b" [] [] none, .spread "mutation" []],
      IsPlain selection := by
    refine List.forall_mem_cons.mpr ⟨.field hnone (by decide), ?_⟩
    exact List.forall_mem_singleton.mpr (.spread (by decide) (by decide))
  have hwritten : ∃ lexemes, Written keywordDocument lexemes ∧ spaced lexemes = keywordText := by
    refine ⟨_, .cons (.operation (hname (by decide)) ?_)
      (.cons (.fragment (by decide) (by decide) (by decide) ?_) .nil), by decide⟩
    · refine List.forall_mem_singleton.mpr (.fieldSet (hname (by decide)) (by decide) ?_)
      exact List.forall_mem_singleton.mpr (.inline (hname (by decide)) hinner)
    · refine List.forall_mem_singleton.mpr (.inline hnone ?_)
      exact List.forall_mem_singleton.mpr (.field (hname (by decide)) (by decide))
  obtain ⟨lexemes, hwritten, htext⟩ := hwritten
  have hlayout : Layout lexemes keywordText := htext ▸ hwritten.layout_spaced
  have hkept : Snippet.isKept (Text.trim keywordText) = true := by decide
  have hbefore : Snippet.backtick ∉ [Point.char '\n'] := by decide
  have hafter : Snippet.backtick ∉ ([] : Text) := List.not_mem_nil
  obtain ⟨hparse, hscan⟩ := (source_written loopSchema false "/a.ts" Scan.start hwritten hlayout
    (List.cons_ne_nil _ _) hbefore (by decide) hafter hkept).1 (by decide)
  refine ⟨hkept, hparse, _, hscan _ 3 rfl, ?_, ?_⟩
  · decide
  · decide

/-! ## 3. Documents that are missed -/

/-- A field in so many selection sets, one inside the other. -/
def nested : Nat → Selection
  | 0 => .field none "a" [] [] none
  | levels + 1 => .field none "a" [] [] (some [nested levels])

theorem isPlain_nested (levels : Nat) : IsPlain (nested levels) := by
  induction levels with
  | zero => exact .field (by simp) (by decide)
  | succ levels ih => exact .fieldSet (by simp) (by decide) (List.forall_mem_singleton.mpr ih)

theorem depthOf_nested (levels : Nat) : depthOf (nested levels) = levels := by
  induction levels with
  | zero => rw [nested, depthOf]
  | succ levels ih =>
    rw [nested, depthOf, depthOfAll, depthOfAll, ih]
    omega

/-- The sets open one after the other, and close one after the other. -/
theorem lexemesOf_nested (levels : Nat) :
    lexemesOf (nested levels)
      = (List.replicate levels [Lexeme.word "a", .opening]).flatten
        ++ .word "a" :: List.replicate levels .closing := by
  induction levels with
  | zero => rw [nested, lexemesOf]; rfl
  | succ levels ih =>
    rw [nested, lexemesOf, lexemesOfAll, lexemesOfAll, ih, List.replicate_succ, List.flatten_cons,
      List.replicate_succ']
    simp [aliasLexemes]

/-- A query one selection set deeper than the grammar allows. -/
def deepDocument : Document :=
  [.operation ⟨none, .query, some "Deep", [], [], [nested Grammar.deepest]⟩]

/-- The lexemes of that query. -/
def deepLexemes : List Lexeme :=
  .word "query" :: .word "Deep" :: .opening
    :: ((List.replicate Grammar.deepest [Lexeme.word "a", .opening]).flatten
      ++ .word "a" :: List.replicate (Grammar.deepest + 1) .closing)

/-- A query of one field, with a comment behind it that holds the word of a query at its end. -/
def commentText : Text := "\x7ba\x7d# query "

/-- A written document may be missed. It may be nested too deeply to be parsed; and the word for
which a snippet is kept may stand in a comment at its end, where trimming takes the space behind the
word away. -/
theorem source_written_missed :
    (Written deepDocument deepLexemes ∧ Layout deepLexemes (spaced deepLexemes)
      ∧ Snippet.backtick ∉ spaced deepLexemes
      ∧ Snippet.isKept (Text.trim (spaced deepLexemes)) = true
      ∧ parse (Text.trim (spaced deepLexemes)) ≠ .ok deepDocument)
    ∧ ∃ document lexemes, Written document lexemes ∧ Layout lexemes commentText
      ∧ Document.depth document = 1 ∧ Snippet.backtick ∉ commentText
      ∧ Text.occursIn "query " commentText = true
      ∧ Snippet.pluck (Snippet.backtick :: (commentText ++ [Snippet.backtick])) = [] := by
  constructor
  · -- the first document is kept and written well, and one level too deep
    have hwritten : Written deepDocument deepLexemes := by
      have hname : ∀ name ∈ some (Text.ofString "Deep"), isName name = true := by
        rintro name ⟨⟩
        decide
      have hlexemes : deepLexemes
          = .word "query" :: .word "Deep" :: setLexemes [nested Grammar.deepest] := by
        rw [deepLexemes, setLexemes, lexemesOfAll, lexemesOfAll, lexemesOf_nested,
          List.replicate_succ']
        simp
      have hquery : DefinitionWritten
          (.operation ⟨none, .query, some "Deep", [], [], [nested Grammar.deepest]⟩)
          (.word "query" :: .word "Deep" :: setLexemes [nested Grammar.deepest]) :=
        .operation hname (List.forall_mem_singleton.mpr (isPlain_nested Grammar.deepest))
      have hwritten := Written.cons hquery .nil
      rwa [List.append_nil, ← hlexemes] at hwritten
    have hdeep : Grammar.deepest < Document.depth deepDocument := by
      rw [deepDocument, Document.depth, Document.depth, Definition.depth, depthOfAll, depthOfAll,
        depthOf_nested]
      decide
    refine ⟨hwritten, hwritten.layout_spaced, by decide +kernel, by decide +kernel, ?_⟩
    obtain ⟨token, error, hparse, -⟩ :=
      parse_layout_of_deep hwritten hwritten.layout_spaced.trim hdeep
    rw [hparse]
    simp
  · -- the second holds the word of a query, but only as long as it is not trimmed
    have hfield : IsPlain (.field none "a" [] [] none) := .field (by simp) (by decide)
    have hcomment : Layout [] (.char '#' :: (Text.ofString " query " ++ [])) :=
      .comment (by decide) (by simp) .nil
    have hlayout : Layout [.opening, .word "a", .closing] commentText :=
      .lexeme .opening (by decide) (.lexeme (.word (by decide)) (by decide)
        (.lexeme .closing (by decide) hcomment))
    exact ⟨_, _, .cons (.shorthand (List.forall_mem_singleton.mpr hfield)) .nil, hlayout, rfl,
      by decide, by decide, by decide +kernel⟩

end Scan

end FieldAudit
