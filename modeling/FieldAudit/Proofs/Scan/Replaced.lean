import FieldAudit.Proofs.Scan.Append

/-!
What is not read leaves no trace. A snippet that is no document may be exchanged for another text
between its backticks, as long as that is not read either and breaks as many lines: every other
snippet of the text is found, parsed and recorded as before, at the same line (`source_replaced`). A
pair of backticks divides a text into what is in front of it, what stands between the two and what
is behind (`exists_of_mem_pluck`), and what a scan finds, records and prints is put together from
the three (`pluck_quoted_append`, `usagesOfSource_append`, `linesBelow_append`).
-/

set_option autoImplicit false

namespace FieldAudit

namespace Snippet

/-! ## 1. The text around a pair of backticks -/

/-- The text between the backticks of a snippet. -/
def body (code : Text) (snippet : Snippet) : Text :=
  (code.drop (snippet.index + 1)).takeWhile (· != backtick)

/-- The text with another one between the backticks of a snippet. -/
def replaceBody (code : Text) (snippet : Snippet) (other : Text) : Text :=
  code.take (snippet.index + 1) ++ (other
    ++ (code.drop (snippet.index + 1)).dropWhile (· != backtick))

/-- What stands between the backticks may as well be put there. -/
theorem replaceBody_body (code : Text) (snippet : Snippet) :
    snippet.replaceBody code (snippet.body code) = code := by
  rw [replaceBody, body, List.takeWhile_append_dropWhile, List.take_append_drop]

/-- A text between two backticks. -/
def quoted (body : Text) : Text := backtick :: (body ++ [backtick])

/-- The snippet of a text between two backticks, if it is kept. -/
def kept? (index : Nat) (body : Text) : Option Snippet :=
  if isKept (Text.trim body) then some ⟨Text.trim body, index⟩ else none

theorem newlines_quoted (body : Text) : Text.newlines (quoted body) = Text.newlines body := by
  unfold quoted Text.newlines
  rw [List.count_cons_of_ne (by decide), List.count_append, List.count_singleton,
    if_neg (by decide), Nat.add_zero]

theorem count_quoted {body : Text} (h : backtick ∉ body) : (quoted body).count backtick = 2 := by
  unfold quoted
  rw [List.count_cons_self, List.count_append, List.count_eq_zero_of_not_mem h,
    List.count_singleton_self]

theorem kept?_add (points index : Nat) (body : Text) :
    kept? (points + index) body = (kept? index body).map (later points) := by
  unfold kept?
  by_cases hkept : isKept (Text.trim body) = true
  · rw [if_pos hkept, if_pos hkept]
    rfl
  · rw [if_neg hkept, if_neg hkept]
    rfl

theorem pluck_quoted {body : Text} (h : backtick ∉ body) :
    pluck (quoted body) = (kept? 0 body).toList := by
  unfold pluck quoted kept?
  rw [between_backtick h, between, List.filterMap_cons, List.filterMap_nil]
  dsimp only
  by_cases hkept : isKept (Text.trim body) = true
  · rw [if_pos hkept]
    rfl
  · rw [if_neg hkept]
    rfl

/-- The snippets around a pair of backticks: those in front, the one between the two, and those
behind. -/
theorem pluck_quoted_append {before body : Text} (hbefore : before.count backtick % 2 = 0)
    (hbody : backtick ∉ body) (after : Text) :
    pluck (before ++ (quoted body ++ after))
      = pluck before ++ ((kept? before.length body).toList
        ++ (pluck after).map (later (before.length + (quoted body).length))) := by
  have heven : (quoted body).count backtick % 2 = 0 := by rw [count_quoted hbody]
  rw [pluck_append hbefore, pluck_append heven, pluck_quoted hbody, List.map_append, List.map_map,
    ← Option.toList_map, ← kept?_add, Nat.add_zero]
  congr 2
  refine List.map_congr_left fun snippet _ => ?_
  simp only [Function.comp, later, Nat.add_assoc]

/-- A snippet stands between two backticks. In front of the first of the two every backtick has its
partner. -/
theorem exists_of_mem_pluck {code : Text} {snippet : Snippet} (h : snippet ∈ pluck code) :
    ∃ before body after, code = before ++ (quoted body ++ after) ∧ before.count backtick % 2 = 0
      ∧ backtick ∉ body ∧ kept? before.length body = some snippet := by
  induction code using pairInduction generalizing snippet with
  | none text htext =>
    rw [pluck, between_of_not_mem htext] at h
    exact absurd h List.not_mem_nil
  | unpaired before rest hbefore hrest =>
    rw [pluck, between_append hbefore, between_unpaired hrest] at h
    exact absurd h List.not_mem_nil
  | paired before body after hbefore hbody ih =>
    have hquoted : before ++ backtick :: (body ++ backtick :: after)
        = before ++ (quoted body ++ after) := by
      simp [quoted]
    have hcount : before.count backtick = 0 := List.count_eq_zero_of_not_mem hbefore
    rw [hquoted, pluck_quoted_append (by rw [hcount]) hbody, pluck, between_of_not_mem hbefore,
      List.filterMap_nil, List.nil_append, List.mem_append] at h
    rcases h with hown | hlater
    · exact ⟨before, body, after, hquoted, by rw [hcount], hbody, Option.mem_toList.mp hown⟩
    · -- a snippet behind the pair stands between two backticks there, and the pair comes in front
      -- of them
      obtain ⟨inner, hinner, rfl⟩ := List.mem_map.mp hlater
      obtain ⟨first, own, rest, rfl, heven, hown, hkept⟩ := ih hinner
      refine ⟨before ++ (quoted body ++ first), own, rest, ?_, ?_, hown, ?_⟩
      · rw [hquoted, List.append_assoc, List.append_assoc]
      · rw [List.count_append, List.count_append, count_quoted hbody, hcount, Nat.zero_add,
          Nat.add_mod_left]
        exact heven
      · rw [List.length_append, List.length_append, ← Nat.add_assoc, kept?_add, hkept,
          Option.map_some]

/-- What is kept between two backticks is the trimmed text at the place of the first of the two. -/
theorem kept?_eq_some_iff {index : Nat} {body : Text} {snippet : Snippet} :
    kept? index body = some snippet
      ↔ isKept (Text.trim body) = true ∧ snippet = ⟨Text.trim body, index⟩ := by
  unfold kept?
  rw [Option.ite_none_right_eq_some, Option.some.injEq, eq_comm (b := snippet)]

section Replace

variable {before body : Text} {snippet : Snippet} (hbody : backtick ∉ body)
  (hkept : kept? before.length body = some snippet)

include hkept

theorem drop_index (after : Text) :
    (before ++ (quoted body ++ after)).drop (snippet.index + 1) = body ++ backtick :: after := by
  rw [(kept?_eq_some_iff.mp hkept).2, List.drop_length_add_append, quoted, List.cons_append,
    List.drop_succ_cons, List.drop_zero, List.append_assoc, List.singleton_append]

include hbody

theorem body_eq (after : Text) : snippet.body (before ++ (quoted body ++ after)) = body := by
  rw [Snippet.body, drop_index hkept, List.takeWhile_append_of_pos (forall_mem_ne_backtick hbody),
    List.takeWhile_cons_of_neg (by decide), List.append_nil]

theorem replaceBody_eq (after other : Text) :
    snippet.replaceBody (before ++ (quoted body ++ after)) other
      = before ++ (quoted other ++ after) := by
  rw [Snippet.replaceBody, drop_index hkept,
    List.dropWhile_append_of_pos (forall_mem_ne_backtick hbody),
    List.dropWhile_cons_of_neg (by decide), (kept?_eq_some_iff.mp hkept).2,
    List.take_length_add_append]
  simp [quoted]

end Replace

end Snippet

namespace Scan

open Snippet (backtick quoted kept? later)
open UsageMap (down)

/-! ## 2. What is printed -/

/-- The warning about a snippet that is no document. -/
def warning (file : Text) (error : GraphQL.SyntaxError) : Text :=
  "  Warning: Failed to parse GraphQL in " ++ file ++ ": " ++ error.message

/-- The lines that are printed about a snippet on a line of a file. -/
def linesOf (schema : Schema) (verbose : Bool) (file : Text) (line : Nat) (source : Text) :
    List Text :=
  match GraphQL.parse source with
  | .error error => [warning file error]
  | .ok document =>
    if verbose then
      ["  " ++ file ++ ":" ++ .ofNat line ++ " -> " ++
        .ofNat (Usage.selected schema document).length ++ " field(s)"]
    else []

/-- The lines that are printed about the snippets of a text that has so many lines above it. -/
def linesBelow (schema : Schema) (verbose : Bool) (file : Text) (above : Nat) (code : Text) :
    List Text :=
  (Snippet.pluck code).flatMap fun snippet =>
    linesOf schema verbose file (Snippet.lineOf code snippet.index + above) snippet.source

section Printed

variable (schema : Schema) (verbose : Bool) (file : Text)

theorem printed_snippet (code : Text) (progress : Progress) (snippet : Snippet) :
    (Scan.snippet schema verbose file code progress snippet).printed
      = progress.printed ++ linesOf schema verbose file (Snippet.lineOf code snippet.index)
        snippet.source := by
  unfold linesOf
  cases hparse : GraphQL.parse snippet.source with
  | error error =>
    rw [snippet_of_parse_eq_error hparse]
    rfl
  | ok document =>
    have hlength : (usagesOfSnippet schema file code snippet).length
        = (Usage.selected schema document).length := by
      rw [usagesOfSnippet, hparse, List.length_map]
    rw [snippet_of_parse_eq_ok hparse, hlength]

theorem printed_foldl_snippet (code : Text) (snippets : List Snippet) (progress : Progress) :
    (snippets.foldl (Scan.snippet schema verbose file code) progress).printed
      = progress.printed ++ snippets.flatMap fun snippet =>
        linesOf schema verbose file (Snippet.lineOf code snippet.index) snippet.source := by
  induction snippets generalizing progress with
  | nil => exact (List.append_nil _).symm
  | cons snippet snippets ih =>
    rw [List.foldl_cons, ih, printed_snippet, List.flatMap_cons, List.append_assoc]

/-- A scan of a text prints the lines about its snippets. -/
theorem printed_source (code : Text) (scan : Scan) :
    (Scan.source schema verbose file code scan).printed = linesBelow schema verbose file 0 code :=
  printed_foldl_snippet schema verbose file code (Snippet.pluck code) _

/-- The lines about two texts in a row are those about the first, and then those about the second
further down. -/
theorem linesBelow_append {first : Text} (h : first.count backtick % 2 = 0) (above : Nat)
    (second : Text) :
    linesBelow schema verbose file above (first ++ second)
      = linesBelow schema verbose file above first
        ++ linesBelow schema verbose file (above + Text.newlines first) second := by
  unfold linesBelow
  rw [Snippet.pluck_append h, List.flatMap_append, List.flatMap_map]
  congr 1
  · refine List.flatMap_congr fun snippet hsnippet => ?_
    rw [lineOf_append_left (Nat.le_of_lt (Snippet.index_lt_of_mem_pluck hsnippet))]
  · refine List.flatMap_congr fun snippet _ => ?_
    unfold later
    dsimp only
    rw [lineOf_append_right]
    congr 1
    omega

end Printed

/-! ## 3. Texts that are not read -/

/-- The text between two backticks is not read: it is not kept, or it is no document. -/
def IsUnread (body : Text) : Prop :=
  Snippet.isKept (Text.trim body) = true → ∃ error, GraphQL.parse (Text.trim body) = .error error

/-- The warnings about the text between two backticks: one if it is kept and no document. -/
def warnings (file body : Text) : List Text :=
  if Snippet.isKept (Text.trim body) then
    match GraphQL.parse (Text.trim body) with
    | .error error => [warning file error]
    | .ok _ => []
  else []

section Unread

variable {before body : Text}

/-- What is no document is rejected. -/
theorem isRejected_of_parse_eq_error {snippet : Snippet} {error : GraphQL.SyntaxError}
    (h : GraphQL.parse snippet.source = .error error) : isRejected snippet = true := by
  rw [isRejected, h]

theorem exists_parse_eq_error {snippet : Snippet} (h : isRejected snippet = true) :
    ∃ error, GraphQL.parse snippet.source = .error error := by
  unfold isRejected at h
  cases hparse : GraphQL.parse snippet.source with
  | ok document =>
    rw [hparse] at h
    exact absurd h Bool.false_ne_true
  | error error => exact ⟨error, rfl⟩

/-- The snippet of a text that is not read is no document, if there is one. -/
theorem IsUnread.isRejected_of_mem (h : IsUnread body) {index : Nat} {snippet : Snippet}
    (hmem : snippet ∈ (kept? index body).toList) : isRejected snippet = true := by
  obtain ⟨hkept, rfl⟩ := Snippet.kept?_eq_some_iff.mp (Option.mem_toList.mp hmem)
  obtain ⟨error, hparse⟩ := h hkept
  exact isRejected_of_parse_eq_error hparse

/-- A text that is not read records nothing. -/
theorem IsUnread.usagesOfSource_quoted (h : IsUnread body) (hbody : backtick ∉ body)
    (schema : Schema) (file : Text) :
    usagesOfSource schema file (quoted body) = [] := by
  rw [usagesOfSource, Snippet.pluck_quoted hbody, List.flatMap_eq_nil_iff]
  intro snippet hsnippet
  obtain ⟨error, hparse⟩ := exists_parse_eq_error (h.isRejected_of_mem hsnippet)
  rw [usagesOfSnippet, hparse]

/-- A text that is not read prints its warning, wherever it stands. -/
theorem IsUnread.linesBelow_quoted (h : IsUnread body) (hbody : backtick ∉ body) (schema : Schema)
    (verbose : Bool) (file : Text) (above : Nat) :
    linesBelow schema verbose file above (quoted body) = warnings file body := by
  rw [linesBelow, Snippet.pluck_quoted hbody, warnings, kept?]
  by_cases hkept : Snippet.isKept (Text.trim body) = true
  · obtain ⟨error, hparse⟩ := h hkept
    rw [if_pos hkept, if_pos hkept, Option.toList_some, List.flatMap_singleton, linesOf, hparse]
  · rw [if_neg hkept, if_neg hkept, Option.toList_none, List.flatMap_nil]

/-- What a text records around one that is not read: the usages of what is in front, and those of
what is behind further down. -/
theorem IsUnread.usagesOfSource_append (h : IsUnread body) (hbefore : before.count backtick % 2 = 0)
    (hbody : backtick ∉ body) (schema : Schema) (file after : Text) :
    usagesOfSource schema file (before ++ (quoted body ++ after))
      = usagesOfSource schema file before
        ++ down (Text.newlines before)
          (down (Text.newlines body) (usagesOfSource schema file after)) := by
  have heven : (quoted body).count backtick % 2 = 0 := by rw [Snippet.count_quoted hbody]
  rw [Scan.usagesOfSource_append schema file hbefore, Scan.usagesOfSource_append schema file heven,
    h.usagesOfSource_quoted hbody, List.nil_append, Snippet.newlines_quoted]

/-- What is printed around a text that is not read. -/
theorem IsUnread.linesBelow_append (h : IsUnread body) (hbefore : before.count backtick % 2 = 0)
    (hbody : backtick ∉ body) (schema : Schema) (verbose : Bool) (file after : Text) :
    linesBelow schema verbose file 0 (before ++ (quoted body ++ after))
      = linesBelow schema verbose file 0 before ++ (warnings file body
        ++ linesBelow schema verbose file (Text.newlines before + Text.newlines body) after) := by
  have heven : (quoted body).count backtick % 2 = 0 := by rw [Snippet.count_quoted hbody]
  rw [Scan.linesBelow_append schema verbose file hbefore,
    Scan.linesBelow_append schema verbose file heven, h.linesBelow_quoted hbody,
    Snippet.newlines_quoted, Nat.zero_add]

/-- The snippets around a text between two backticks, of those that are told by their sources. -/
theorem filter_pluck_quoted_append (hbefore : before.count backtick % 2 = 0)
    (hbody : backtick ∉ body) (after : Text) (told : Snippet → Bool)
    (htold : ∀ points snippet, told (later points snippet) = told snippet) :
    (Snippet.pluck (before ++ (quoted body ++ after))).filter told
      = (Snippet.pluck before).filter told ++ ((kept? before.length body).toList.filter told
        ++ ((Snippet.pluck after).filter told).map
          (later (before.length + (quoted body).length))) := by
  rw [Snippet.pluck_quoted_append hbefore hbody, List.filter_append, List.filter_append,
    List.filter_map]
  simp only [Function.comp_def, htold]

/-- Around a text that is not read there are the documents in front and behind. -/
theorem IsUnread.length_parsed (h : IsUnread body) (hbefore : before.count backtick % 2 = 0)
    (hbody : backtick ∉ body) (after : Text) :
    ((Snippet.pluck (before ++ (quoted body ++ after))).filter fun snippet =>
      !isRejected snippet).length
      = ((Snippet.pluck before).filter fun snippet => !isRejected snippet).length
        + ((Snippet.pluck after).filter fun snippet => !isRejected snippet).length := by
  have hnone : (kept? before.length body).toList.filter (fun snippet => !isRejected snippet)
      = [] := by
    rw [List.filter_eq_nil_iff]
    intro snippet hsnippet
    rw [h.isRejected_of_mem hsnippet]
    exact Bool.false_ne_true
  have hparts := filter_pluck_quoted_append hbefore hbody after (fun snippet => !isRejected snippet)
    fun points snippet => congrArg _ (isRejected_later points snippet)
  rw [hparts, hnone, List.nil_append, List.length_append, List.length_map]

/-- The failures around a text that is not read: those in front, its own if it is kept, and those
behind. -/
theorem IsUnread.map_rejected (h : IsUnread body) (hbefore : before.count backtick % 2 = 0)
    (hbody : backtick ∉ body) (file after : Text) :
    (rejected (before ++ (quoted body ++ after))).map (fun _ => file)
      = (rejected before).map (fun _ => file)
        ++ ((if Snippet.isKept (Text.trim body) then [file] else [])
        ++ (rejected after).map fun _ => file) := by
  have hall : (kept? before.length body).toList.filter isRejected
      = (kept? before.length body).toList :=
    List.filter_eq_self.mpr fun snippet hsnippet => h.isRejected_of_mem hsnippet
  have hown : (kept? before.length body).toList.map (fun _ => file)
      = if Snippet.isKept (Text.trim body) then [file] else [] := by
    unfold kept?
    split <;> rfl
  rw [rejected, filter_pluck_quoted_append hbefore hbody after _ isRejected_later, hall,
    List.map_append, List.map_append, List.map_map, hown]
  rfl

/-- The snippets around a text between two backticks are counted with its own, if that is kept. -/
theorem length_pluck_quoted_append (hbefore : before.count backtick % 2 = 0)
    (hbody : backtick ∉ body) (after : Text) :
    (Snippet.pluck (before ++ (quoted body ++ after))).length
      = (Snippet.pluck before).length
        + ((if Snippet.isKept (Text.trim body) then 1 else 0) + (Snippet.pluck after).length) := by
  have hown : (kept? before.length body).toList.length
      = if Snippet.isKept (Text.trim body) then 1 else 0 := by
    unfold kept?
    split <;> rfl
  rw [Snippet.pluck_quoted_append hbefore hbody, List.length_append, List.length_append,
    List.length_map, hown]

end Unread

/-- **A snippet that is no document is transparent.** Let a snippet of a text be no document, and
put another text between its two backticks that holds none, breaks as many lines, and is not kept or
no document either. A scan then records the same usages and says that as many were recorded, and it
counts the same occurrences and documents. It prints the same lines and names the same failures, in
the same order, but for the warning about the snippet itself, and it finds as many snippets, but for
the snippet itself if it is no longer kept. -/
theorem source_replaced (schema : Schema) (verbose : Bool) (file : Text) (scan : Scan) {code : Text}
    {snippet : Snippet} (hmem : snippet ∈ Snippet.pluck code) {error : GraphQL.SyntaxError}
    (hparse : GraphQL.parse snippet.source = .error error) {other : Text}
    (hother : backtick ∉ other) (hlines : Text.newlines other = Text.newlines (snippet.body code))
    (hunread : IsUnread other) :
    let one := Scan.source schema verbose file code scan
    let two := Scan.source schema verbose file (snippet.replaceBody code other) scan
    let kept := Snippet.isKept (Text.trim other)
    two.scan.usages = one.scan.usages
    ∧ two.recorded = one.recorded
    ∧ two.scan.counts.occurrences = one.scan.counts.occurrences
    ∧ two.scan.counts.parsed = one.scan.counts.parsed
    ∧ two.scan.counts.files = one.scan.counts.files
    ∧ (∃ first rest, one.printed = first ++ warning file error :: rest
      ∧ two.printed = first ++ (warnings file other ++ rest))
    ∧ (∃ first rest, one.scan.counts.failures = first ++ file :: rest
      ∧ two.scan.counts.failures = first ++ ((if kept then [file] else []) ++ rest))
    ∧ two.scan.counts.found + 1 = one.scan.counts.found + if kept then 1 else 0 := by
  intro one two kept
  have hkept : kept = Snippet.isKept (Text.trim other) := rfl
  obtain ⟨before, body, after, rfl, hbefore, hbody, hsnippet⟩ := Snippet.exists_of_mem_pluck hmem
  obtain ⟨hisKept, rfl⟩ := Snippet.kept?_eq_some_iff.mp hsnippet
  have hbodyUnread : IsUnread body := fun _ => ⟨error, hparse⟩
  rw [Snippet.body_eq hbody hsnippet] at hlines
  have htwo : two = Scan.source schema verbose file (before ++ (quoted other ++ after)) scan := by
    unfold two
    rw [Snippet.replaceBody_eq hbody hsnippet]
  have husages : usagesOfSource schema file (before ++ (quoted other ++ after))
      = usagesOfSource schema file (before ++ (quoted body ++ after)) := by
    rw [hunread.usagesOfSource_append hbefore hother,
      hbodyUnread.usagesOfSource_append hbefore hbody, hlines]
  have hrecorded : two.recorded = one.recorded := by
    rw [htwo, (usages_source schema verbose file _ scan).2,
      (usages_source schema verbose file _ scan).2, husages]
  have hwarning : warnings file body = [warning file error] := by
    rw [warnings, if_pos hisKept, hparse]
  refine ⟨?_, hrecorded, ?_, ?_, ?_, ?_, ?_, ?_⟩
  · rw [htwo, (usages_source schema verbose file _ scan).1,
      (usages_source schema verbose file _ scan).1, husages]
  · rw [counts_source, counts_source, hrecorded]
  · rw [htwo, counts_source, counts_source]
    dsimp only
    rw [hunread.length_parsed hbefore hother, hbodyUnread.length_parsed hbefore hbody]
  · rw [counts_source, counts_source]
  · refine ⟨linesBelow schema verbose file 0 before,
      linesBelow schema verbose file (Text.newlines before + Text.newlines body) after, ?_, ?_⟩
    · rw [printed_source, hbodyUnread.linesBelow_append hbefore hbody, hwarning]
      rfl
    · rw [htwo, printed_source, hunread.linesBelow_append hbefore hother, hlines]
  · refine ⟨scan.counts.failures ++ (rejected before).map (fun _ => file),
      (rejected after).map fun _ => file, ?_, ?_⟩
    · rw [counts_source]
      dsimp only
      rw [hbodyUnread.map_rejected hbefore hbody, if_pos hisKept, List.append_assoc]
      rfl
    · rw [htwo, counts_source]
      dsimp only
      rw [hunread.map_rejected hbefore hother, List.append_assoc]
  · rw [htwo, counts_source, counts_source]
    dsimp only
    rw [length_pluck_quoted_append hbefore hother, length_pluck_quoted_append hbefore hbody,
      if_pos hisKept, hkept]
    omega

/-- A text with a document on either side of a snippet that is none. -/
def brokenText : Text := "\x60query A \x7b a \x7d\x60 \x60query (\n\x60 \x60query B \x7b b \x7d\x60"

/-- With a line of prose in place of the broken snippet there is no warning any more, and the
document behind it is recorded on the second line as before. -/
theorem source_replaced_brokenText :
    let broken : Snippet := ⟨"query (", 16⟩
    let one := Scan.source loopSchema false "/a.ts" brokenText start
    let two :=
      Scan.source loopSchema false "/a.ts" (broken.replaceBody brokenText "no\nquery") start
    broken ∈ Snippet.pluck brokenText ∧ (∃ error, GraphQL.parse broken.source = .error error)
      ∧ IsUnread "no\nquery" ∧ Text.newlines (broken.body brokenText) = 1
      ∧ one.scan.usages.sites "Query" "b" = [⟨"/a.ts", 2⟩]
      ∧ two.scan.usages.sites "Query" "b" = [⟨"/a.ts", 2⟩]
      ∧ one.scan.counts.found = 3 ∧ two.scan.counts.found = 2 := by
  intro broken one two
  have hmem : broken ∈ Snippet.pluck brokenText := by decide +kernel
  have hunread : IsUnread "no\nquery" := fun hkept => absurd hkept (by decide)
  have hlines : Text.newlines (broken.body brokenText) = 1 := by decide
  have hother : backtick ∉ ("no\nquery" : Text) := by decide
  obtain ⟨error, hparse⟩ : ∃ error, GraphQL.parse broken.source = .error error :=
    exists_parse_eq_error (by decide +kernel)
  obtain ⟨husages, -, -, -, -, -, -, hfound⟩ :=
    source_replaced loopSchema false "/a.ts" start hmem hparse hother (hlines ▸ by decide) hunread
  have hone : one.scan.usages.sites "Query" "b" = [⟨"/a.ts", 2⟩] := by decide +kernel
  have hthree : one.scan.counts.found = 3 := by decide +kernel
  refine ⟨hmem, ⟨error, hparse⟩, hunread, hlines, hone, ?_, hthree, ?_⟩
  · rw [husages]
    exact hone
  · exact Nat.succ.inj (hfound.trans (congrArg (· + 0) hthree))

end Scan

end FieldAudit
