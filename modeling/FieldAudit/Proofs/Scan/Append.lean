import FieldAudit.Proofs.Scan.Accounts
import FieldAudit.Proofs.Snippet.Pairing

/-!
Scanning a text in two parts. If every backtick of the first part has its partner, scanning both
parts together is scanning one after the other: the second part is found, parsed, counted and
recorded as a text of its own, at lines that are greater by the line feeds of the first part
(`source_append`).
-/

set_option autoImplicit false

namespace FieldAudit

/-- A site so many lines further down. -/
def Site.down (lines : Nat) (site : Site) : Site := { site with line := site.line + lines }

namespace UsageMap

/-- Usages so many lines further down. -/
def down (lines : Nat) (found : List (Coordinate × Site)) : List (Coordinate × Site) :=
  found.map fun use => (use.1, use.2.down lines)

/-- Going down moves the sites of every field. -/
theorem sitesAmong_down (lines : Nat) (found : List (Coordinate × Site)) (coordinate : Coordinate) :
    sitesAmong (down lines found) coordinate
      = (sitesAmong found coordinate).map (Site.down lines) := by
  unfold sitesAmong down
  rw [List.filter_map, List.map_map, List.map_map]
  rfl

end UsageMap

namespace Scan

open Snippet (later)
open UsageMap (down)

/-! ## 1. Lines -/

/-- What stands behind an offset has no part in its line. -/
theorem lineOf_append_left {first : Text} {offset : Nat} (h : offset ≤ first.length)
    (second : Text) :
    Snippet.lineOf (first ++ second) (offset : Int) = Snippet.lineOf first (offset : Int) := by
  rw [lineOf_natCast, lineOf_natCast, List.take_append_of_le_length h]

/-- Behind another text a line is greater by the line feeds of that text. -/
theorem lineOf_append_right (first second : Text) (offset : Nat) :
    Snippet.lineOf (first ++ second) ((first.length + offset : Nat) : Int)
      = Snippet.lineOf second (offset : Int) + Text.newlines first := by
  rw [lineOf_natCast, lineOf_natCast, List.take_length_add_append, Text.newlines, Text.newlines,
    List.count_append]
  unfold Text.newlines
  omega

theorem siteOf_later (file first second : Text) (snippet : Snippet) :
    siteOf file (first ++ second) (later first.length snippet)
      = (siteOf file second snippet).down (Text.newlines first) := by
  unfold siteOf later
  dsimp only
  rw [lineOf_append_right, Int.natCast_add]
  rfl

/-! ## 2. What the parts record -/

section Parts

variable (schema : Schema) (file : Text)

theorem usagesOfSnippet_append {first : Text} {snippet : Snippet} (h : snippet.index ≤ first.length)
    (second : Text) :
    usagesOfSnippet schema file (first ++ second) snippet
      = usagesOfSnippet schema file first snippet := by
  unfold usagesOfSnippet siteOf
  rw [lineOf_append_left h]

theorem usagesOfSnippet_later (first second : Text) (snippet : Snippet) :
    usagesOfSnippet schema file (first ++ second) (later first.length snippet)
      = down (Text.newlines first) (usagesOfSnippet schema file second snippet) := by
  have hsource : (later first.length snippet).source = snippet.source := rfl
  unfold usagesOfSnippet down
  rw [hsource, siteOf_later]
  cases GraphQL.parse snippet.source with
  | error _ => rfl
  | ok document =>
    dsimp only
    rw [List.map_map]
    rfl

/-- The usages of both parts are those of the first, and then those of the second further down. -/
theorem usagesOfSource_append {first : Text} (h : first.count Snippet.backtick % 2 = 0)
    (second : Text) :
    usagesOfSource schema file (first ++ second)
      = usagesOfSource schema file first
        ++ down (Text.newlines first) (usagesOfSource schema file second) := by
  unfold usagesOfSource
  rw [Snippet.pluck_append h, List.flatMap_append]
  congr 1
  · exact List.flatMap_congr fun snippet hsnippet =>
      usagesOfSnippet_append schema file
        (Nat.le_of_lt (Snippet.index_lt_of_mem_pluck hsnippet)) second
  · rw [List.flatMap_map, down, List.map_flatMap]
    exact List.flatMap_congr fun snippet _ => usagesOfSnippet_later schema file first second snippet

end Parts

/-! ## 3. Scans -/

/-- Whether a snippet is rejected does not depend on where it stands. -/
theorem isRejected_later (points : Nat) (snippet : Snippet) :
    isRejected (later points snippet) = isRejected snippet := rfl

/-- Snippets of both parts that are told by their sources are those of the first, and then those of
the second. -/
theorem filter_pluck_append {first : Text} (h : first.count Snippet.backtick % 2 = 0)
    (second : Text) {kept : Snippet → Bool}
    (hkept : ∀ points snippet, kept (later points snippet) = kept snippet) :
    (Snippet.pluck (first ++ second)).filter kept
      = (Snippet.pluck first).filter kept
        ++ ((Snippet.pluck second).filter kept).map (later first.length) := by
  rw [Snippet.pluck_append h, List.filter_append, List.filter_map]
  simp only [Function.comp_def, hkept]

/-- **Scanning is compositional in the text.** Let every backtick of the first part have its
partner. Where a scan of the first part and then of the second records the usages of the second on
top of those of the first, a scan of both parts together records the same usages there, at lines
that are greater by the line feeds of the first part: so it is for the whole usage map, and for the
sites of every field. It says that as many usages were recorded as the two scans say, and it counts
the snippets that are found and parsed, the failures and the occurrences as they do. -/
theorem source_append (schema : Schema) (verbose : Bool) (file : Text) {first : Text}
    (h : first.count Snippet.backtick % 2 = 0) (second : Text) (scan : Scan) :
    let whole := Scan.source schema verbose file (first ++ second) scan
    let one := Scan.source schema verbose file first scan
    let two := Scan.source schema verbose file second one.scan
    let found := usagesOfSource schema file second
    two.scan.usages = one.scan.usages.recordEach found
    ∧ whole.scan.usages = one.scan.usages.recordEach (down (Text.newlines first) found)
    ∧ (∀ type field, ∃ sites, two.scan.usages.sites type field
      = one.scan.usages.sites type field ++ sites
      ∧ whole.scan.usages.sites type field
        = one.scan.usages.sites type field ++ sites.map (Site.down (Text.newlines first)))
    ∧ whole.recorded = one.recorded + two.recorded
    ∧ whole.scan.counts.found = two.scan.counts.found
    ∧ whole.scan.counts.parsed = two.scan.counts.parsed
    ∧ whole.scan.counts.failures = two.scan.counts.failures
    ∧ whole.scan.counts.occurrences = two.scan.counts.occurrences := by
  intro whole one two found
  obtain ⟨hwhole, hwholeCount⟩ := usages_source schema verbose file (first ++ second) scan
  obtain ⟨hone, honeCount⟩ := usages_source schema verbose file first scan
  obtain ⟨htwo, htwoCount⟩ := usages_source schema verbose file second one.scan
  have hall : whole.scan.usages
      = one.scan.usages.recordEach (down (Text.newlines first) found) := by
    rw [hwhole, hone, usagesOfSource_append schema file h, UsageMap.recordEach_append]
  have hrecorded : whole.recorded = one.recorded + two.recorded := by
    rw [hwholeCount, honeCount, htwoCount, usagesOfSource_append schema file h, List.length_append,
      down, List.length_map]
  refine ⟨htwo, hall, ?_, hrecorded, ?_, ?_, ?_, ?_⟩
  · intro type field
    refine ⟨UsageMap.sitesAmong found ⟨type, field⟩, ?_, ?_⟩
    · rw [htwo, UsageMap.sites_recordEach]
    · rw [hall, UsageMap.sites_recordEach, UsageMap.sitesAmong_down]
  · rw [counts_source, counts_source, counts_source]
    dsimp only
    rw [Snippet.pluck_append h, List.length_append, List.length_map, Nat.add_assoc]
  · have hparsed : (Snippet.pluck (first ++ second)).filter
        (fun snippet => !isRejected snippet) = _ :=
      filter_pluck_append h second fun points snippet =>
        congrArg _ (isRejected_later points snippet)
    rw [counts_source, counts_source, counts_source]
    dsimp only
    rw [hparsed, List.length_append, List.length_map, Nat.add_assoc]
  · have hfailures := filter_pluck_append h second isRejected_later
    rw [counts_source, counts_source, counts_source]
    dsimp only
    rw [rejected, hfailures, List.map_append, List.map_map, List.append_assoc]
    rfl
  · rw [counts_source, counts_source, counts_source]
    dsimp only
    rw [hrecorded, Nat.add_assoc]

/-- A part with a snippet on its second line, and an end of line behind it. -/
def firstPart : Text := "\n\x60query A \x7b a \x7d\x60\n"

/-- A part with a snippet on its second line, and a backtick without a partner. -/
def secondPart : Text := "\n\x60query B \x7b a b \x7d\x60 \x60"

/-- The snippet of the second part is recorded on the second line of that part, and on the fourth of
both. -/
theorem source_append_parts :
    let whole := Scan.source loopSchema false "/a.ts" (firstPart ++ secondPart) start
    let two := Scan.source loopSchema false "/a.ts" secondPart
      (Scan.source loopSchema false "/a.ts" firstPart start).scan
    firstPart.count Snippet.backtick % 2 = 0
      ∧ two.scan.usages.sites "Query" "a" = [⟨"/a.ts", 2⟩, ⟨"/a.ts", 2⟩]
      ∧ whole.scan.usages.sites "Query" "a" = [⟨"/a.ts", 2⟩, ⟨"/a.ts", 4⟩]
      ∧ whole.recorded = 3 ∧ whole.scan.counts.found = 2 := by
  have heven : firstPart.count Snippet.backtick % 2 = 0 := by decide
  obtain ⟨-, -, hsites, hrecorded, hfound, -⟩ :=
    source_append loopSchema false "/a.ts" heven secondPart start
  obtain ⟨sites, htwo, hwhole⟩ := hsites "Query" "a"
  have hone : (Scan.source loopSchema false "/a.ts" firstPart start).scan.usages.sites "Query" "a"
      = [⟨"/a.ts", 2⟩] := by decide +kernel
  have hboth : (Scan.source loopSchema false "/a.ts" secondPart
      (Scan.source loopSchema false "/a.ts" firstPart start).scan).scan.usages.sites "Query" "a"
        = [⟨"/a.ts", 2⟩, ⟨"/a.ts", 2⟩] := by decide +kernel
  rw [hone, hboth] at htwo
  obtain rfl : [⟨"/a.ts", 2⟩] = sites := (List.cons.inj htwo).2
  refine ⟨heven, hboth, ?_, ?_, ?_⟩
  · rw [hwhole, hone]
    decide
  · rw [hrecorded]
    decide +kernel
  · rw [hfound]
    decide +kernel

end Scan

end FieldAudit
