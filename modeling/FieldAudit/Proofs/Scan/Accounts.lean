import FieldAudit.Proofs.Scan.Usages
import Mathlib.Data.List.Basic

/-!
The accounts of a scan. Every snippet that is found is counted as parsed or named among the
failures, and the occurrences that are counted are the sites that are stored, however documents and
other snippets follow one another. A text keeps both (`balanced_source`), and so does any sequence
of texts (`sources_accounts`).
-/

set_option autoImplicit false

namespace FieldAudit

/-! ## 1. How many sites are stored -/

namespace Entries

variable {α : Type}

/-- Setting a value exchanges the weight of the old value, if there is one, for that of the new
one. -/
theorem sumOf_map_put (weight : α → Nat) (key : Text) (value : α) (entries : Entries α) :
    sumOf ((put key value entries).map fun entry => weight entry.2)
        + ((get? key entries).map weight).getD 0
      = sumOf (entries.map fun entry => weight entry.2) + weight value := by
  induction entries with
  | nil =>
    simp only [put, get?_nil, List.map_cons, List.map_nil, sumOf, Option.map_none,
      Option.getD_none]
    omega
  | cons entry rest ih =>
    obtain ⟨k, v⟩ := entry
    unfold put get?
    by_cases hk : k = key
    · rw [if_pos hk, if_pos hk]
      simp only [List.map_cons, sumOf, Option.map_some, Option.getD_some]
      omega
    · rw [if_neg hk, if_neg hk]
      simp only [List.map_cons, sumOf]
      omega

end Entries

namespace UsageMap

/-- How many sites are stored for the fields of a type. -/
def totalOfFields (fields : Entries (List Site)) : Nat :=
  sumOf (fields.map fun entry => entry.2.length)

theorem total_eq (usages : UsageMap) :
    usages.total = sumOf (usages.map fun entry => totalOfFields entry.2) := rfl

/-- Recording a usage stores one site more. -/
theorem total_record (type field : Text) (site : Site) (usages : UsageMap) :
    (usages.record type field site).total = usages.total + 1 := by
  -- the type of the field, and the field, may be new to the map; nothing is stored for them then
  let fields := (Entries.get? type usages).getD []
  let sites := (Entries.get? field fields).getD []
  have houter :=
    Entries.sumOf_map_put totalOfFields type (Entries.put field (sites ++ [site]) fields) usages
  have hinner := Entries.sumOf_map_put List.length field (sites ++ [site]) fields
  have hfields : ((Entries.get? type usages).map totalOfFields).getD 0 = totalOfFields fields := by
    unfold fields
    cases Entries.get? type usages with
    | none => rfl
    | some found => rfl
  have hsites : ((Entries.get? field fields).map List.length).getD 0 = sites.length := by
    unfold sites
    cases Entries.get? field fields with
    | none => rfl
    | some found => rfl
  have htotal : (usages.record type field site).total
      = sumOf ((Entries.put type (Entries.put field (sites ++ [site]) fields) usages).map
        fun entry => totalOfFields entry.2) := rfl
  have hput : totalOfFields (Entries.put field (sites ++ [site]) fields)
      = sumOf ((Entries.put field (sites ++ [site]) fields).map fun entry => entry.2.length) := rfl
  have hold : totalOfFields fields = sumOf (fields.map fun entry => entry.2.length) := rfl
  rw [hfields] at houter
  rw [hsites, List.length_append, List.length_singleton] at hinner
  rw [total_eq usages, htotal]
  omega

theorem total_recordEach (usages : UsageMap) (found : List (Coordinate × Site)) :
    (usages.recordEach found).total = usages.total + found.length := by
  induction found generalizing usages with
  | nil => rfl
  | cons use found ih =>
    have hstep : usages.recordEach (use :: found)
        = (usages.record use.1.type use.1.field use.2).recordEach found := rfl
    rw [hstep, ih, total_record, List.length_cons]
    omega

end UsageMap

namespace Scan

/-! ## 2. One snippet after another -/

/-- Whether a snippet is no document. -/
def isRejected (snippet : Snippet) : Bool :=
  match GraphQL.parse snippet.source with
  | .ok _ => false
  | .error _ => true

/-- The snippets of a text that are no documents. -/
def rejected (code : Text) : List Snippet := (Snippet.pluck code).filter isRejected

section Snippets

variable (schema : Schema) (verbose : Bool) (file code : Text)

/-- A snippet is counted as found, and then as parsed or, if it is no document, among the failures
of its file. -/
theorem counts_snippet (progress : Progress) (snippet : Snippet) :
    (Scan.snippet schema verbose file code progress snippet).scan.counts
      = { progress.scan.counts with
          found := progress.scan.counts.found + 1
          parsed := progress.scan.counts.parsed + if isRejected snippet = true then 0 else 1
          failures := progress.scan.counts.failures
            ++ if isRejected snippet = true then [file] else [] } := by
  cases hparse : GraphQL.parse snippet.source with
  | ok document =>
    have hkept : isRejected snippet = false := by rw [isRejected, hparse]
    rw [snippet_of_parse_eq_ok hparse, hkept, if_neg Bool.false_ne_true, if_neg Bool.false_ne_true,
      List.append_nil]
  | error error =>
    have hrejected : isRejected snippet = true := by rw [isRejected, hparse]
    rw [snippet_of_parse_eq_error hparse, if_pos hrejected, if_pos hrejected]
    rfl

/-- Snippets that are scanned one after the other are counted one by one. -/
theorem counts_foldl_snippet (snippets : List Snippet) (progress : Progress) :
    (snippets.foldl (Scan.snippet schema verbose file code) progress).scan.counts
      = { progress.scan.counts with
          found := progress.scan.counts.found + snippets.length
          parsed := progress.scan.counts.parsed
            + (snippets.filter fun snippet => !isRejected snippet).length
          failures := progress.scan.counts.failures
            ++ (snippets.filter isRejected).map fun _ => file } := by
  induction snippets generalizing progress with
  | nil => rw [List.filter_nil, List.filter_nil, List.map_nil, List.append_nil]; rfl
  | cons snippet snippets ih =>
    rw [List.foldl_cons, ih, counts_snippet, List.length_cons]
    dsimp only
    by_cases hrejected : isRejected snippet = true
    · rw [if_pos hrejected, if_pos hrejected, List.filter_cons_of_pos hrejected,
        List.filter_cons_of_neg (by simpa using hrejected), List.map_cons, List.append_assoc,
        Nat.add_zero, Nat.add_assoc, Nat.add_comm 1]
      rfl
    · rw [if_neg hrejected, if_neg hrejected, List.filter_cons_of_neg hrejected,
        List.filter_cons_of_pos (by simpa using hrejected), List.length_cons, List.append_nil,
        Nat.add_assoc, Nat.add_assoc, Nat.add_comm 1, Nat.add_comm 1]

/-- A text is counted with its snippets, and the usages that it recorded are added to the
occurrences. -/
theorem counts_source (scan : Scan) :
    (Scan.source schema verbose file code scan).scan.counts
      = { files := scan.counts.files + 1
          filesWithSnippets := scan.counts.filesWithSnippets
            + if Snippet.pluck code = [] then 0 else 1
          found := scan.counts.found + (Snippet.pluck code).length
          parsed := scan.counts.parsed
            + ((Snippet.pluck code).filter fun snippet => !isRejected snippet).length
          failures := scan.counts.failures ++ (rejected code).map fun _ => file
          occurrences := scan.counts.occurrences
            + (Scan.source schema verbose file code scan).recorded } := by
  have hempty : (if (Snippet.pluck code).isEmpty then 0 else 1)
      = if Snippet.pluck code = [] then 0 else 1 := by
    cases Snippet.pluck code with
    | nil => rfl
    | cons snippet snippets => rfl
  unfold Scan.source
  dsimp only
  rw [counts_foldl_snippet, hempty]
  rfl

end Snippets

/-! ## 3. One text after another -/

/-- The accounts of a scan balance: every snippet found is parsed or among the failures, and the
occurrences counted are the sites stored. -/
structure Balanced (scan : Scan) : Prop where
  found_eq : scan.counts.found = scan.counts.parsed + scan.counts.failures.length
  total_eq : scan.usages.total = scan.counts.occurrences

theorem balanced_start : Balanced start := ⟨rfl, rfl⟩

/-- A text keeps the accounts balanced. -/
theorem balanced_source (schema : Schema) (verbose : Bool) (file code : Text) {scan : Scan}
    (h : scan.Balanced) : (Scan.source schema verbose file code scan).scan.Balanced := by
  obtain ⟨husages, hrecorded⟩ := usages_source schema verbose file code scan
  have hsplit := List.length_eq_length_filter_add (l := Snippet.pluck code) isRejected
  have hrejected : ((rejected code).map fun _ => file).length
      = ((Snippet.pluck code).filter isRejected).length := List.length_map _
  constructor
  · rw [counts_source]
    show scan.counts.found + (Snippet.pluck code).length
      = scan.counts.parsed + ((Snippet.pluck code).filter fun snippet => !isRejected snippet).length
        + (scan.counts.failures ++ (rejected code).map fun _ => file).length
    rw [List.length_append, hrejected, h.found_eq]
    omega
  · rw [counts_source, husages, UsageMap.total_recordEach, h.total_eq, hrecorded]

/-- Scans texts of files one after the other; gives the state afterwards, and how many usages each
text recorded. -/
def sources (schema : Schema) (verbose : Bool) : List (Text × Text) → Scan → Scan × List Nat
  | [], scan => (scan, [])
  | (file, code) :: rest, scan =>
    let progress := source schema verbose file code scan
    let after := sources schema verbose rest progress.scan
    (after.1, progress.recorded :: after.2)

/-- What one text keeps, a sequence of texts keeps. -/
theorem balanced_sources (schema : Schema) (verbose : Bool) (calls : List (Text × Text))
    {scan : Scan} (h : scan.Balanced) : (sources schema verbose calls scan).1.Balanced := by
  induction calls generalizing scan with
  | nil => exact h
  | cons call calls ih => exact ih (balanced_source schema verbose call.1 call.2 h)

/-- What a sequence of texts adds to the counts. -/
theorem counts_sources (schema : Schema) (verbose : Bool) (calls : List (Text × Text))
    (scan : Scan) :
    (sources schema verbose calls scan).1.counts.occurrences
        = scan.counts.occurrences + sumOf (sources schema verbose calls scan).2
      ∧ (sources schema verbose calls scan).1.counts.files = scan.counts.files + calls.length
      ∧ (sources schema verbose calls scan).1.counts.filesWithSnippets
        = scan.counts.filesWithSnippets
          + (calls.filter fun call => Snippet.pluck call.2 ≠ []).length
      ∧ (sources schema verbose calls scan).1.counts.failures
        = scan.counts.failures
          ++ calls.flatMap fun call => (rejected call.2).map fun _ => call.1 := by
  induction calls generalizing scan with
  | nil => exact ⟨rfl, rfl, rfl, (List.append_nil _).symm⟩
  | cons call calls ih =>
    obtain ⟨file, code⟩ := call
    obtain ⟨hoccurrences, hfiles, hwith, hfailures⟩ :=
      ih (Scan.source schema verbose file code scan).scan
    rw [counts_source] at hoccurrences hfiles hwith hfailures
    unfold sources
    refine ⟨?_, ?_, ?_, ?_⟩
    · rw [hoccurrences, sumOf, Nat.add_assoc]
    · rw [hfiles, List.length_cons]
      dsimp only
      omega
    · rw [hwith]
      dsimp only
      by_cases hnone : Snippet.pluck code = []
      · rw [if_pos hnone, List.filter_cons_of_neg (by simpa using hnone), Nat.add_zero]
      · rw [if_neg hnone, List.filter_cons_of_pos (by simpa using hnone), List.length_cons]
        omega
    · rw [hfailures, List.flatMap_cons, List.append_assoc]

/-- Every text records its usages and says how many there are. -/
theorem recorded_sources (schema : Schema) (verbose : Bool) (calls : List (Text × Text))
    (scan : Scan) :
    (sources schema verbose calls scan).2
      = calls.map fun call => (usagesOfSource schema call.1 call.2).length := by
  induction calls generalizing scan with
  | nil => rfl
  | cons call calls ih =>
    obtain ⟨file, code⟩ := call
    unfold sources
    rw [List.map_cons, ← (usages_source schema verbose file code scan).2]
    exact congrArg _ (ih _)

/-- **The accounts of a scan.** After any sequence of texts, documents and other snippets mixed as
they may be: every snippet found is parsed or a failure; the occurrences counted are the sum of what
the texts recorded, and as many sites are stored; every text is counted, and so is every one with a
snippet; and the failures name, in order, the file of every snippet that is no document. -/
theorem sources_accounts (schema : Schema) (verbose : Bool) (calls : List (Text × Text)) :
    let outcome := sources schema verbose calls start
    let counts := outcome.1.counts
    outcome.2 = (calls.map fun call => (usagesOfSource schema call.1 call.2).length)
    ∧ counts.found = counts.parsed + counts.failures.length
    ∧ counts.occurrences = sumOf outcome.2
    ∧ counts.occurrences = outcome.1.usages.total
    ∧ counts.files = calls.length
    ∧ counts.filesWithSnippets = (calls.filter fun call => Snippet.pluck call.2 ≠ []).length
    ∧ counts.failures = calls.flatMap fun call => (rejected call.2).map fun _ => call.1 := by
  have hbalanced := balanced_sources schema verbose calls balanced_start
  obtain ⟨hoccurrences, hfiles, hwith, hfailures⟩ := counts_sources schema verbose calls start
  have hstart : start.counts.occurrences = 0 := rfl
  refine ⟨recorded_sources schema verbose calls start, hbalanced.found_eq, ?_,
    hbalanced.total_eq.symm, ?_, ?_, hfailures⟩
  · rw [hoccurrences, hstart, Nat.zero_add]
  · exact hfiles.trans (Nat.zero_add _)
  · exact hwith.trans (Nat.zero_add _)

end Scan

end FieldAudit
