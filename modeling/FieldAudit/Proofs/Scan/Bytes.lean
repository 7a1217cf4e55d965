import FieldAudit.Proofs.Scan.Written
import FieldAudit.Proofs.Text.Lossy

/-!
Source files as bytes. The text of a file is scanned, but what a scan finds can be told from the
bytes alone: the snippets stand between the bytes of consecutive pairs of backticks, and the line of
a snippet is one more than the line breaks among the bytes before it (`files_eq_ok_of_bytes`). Bytes
that are no UTF-8 and line breaks of all kinds, mixed as they may be, change nothing about that.
-/

set_option autoImplicit false

namespace FieldAudit

/-! ## 1. Line breaks -/

namespace Text

open Utf8 (Reads)

/-- How many line breaks bytes hold: line feeds, and carriage returns that no line feed follows. -/
def lineBreaks : List UInt8 → Nat
  | [] => 0
  | b :: rest =>
    if b = 0x0A then lineBreaks rest + 1
    else if b = 0x0D ∧ rest.head? ≠ some 0x0A then lineBreaks rest + 1
    else lineBreaks rest

theorem unifyNewlines_return {text : Text} (h : text.head? ≠ some (.char '\n')) :
    unifyNewlines (.char '\r' :: text) = .char '\n' :: unifyNewlines text := by
  cases text with
  | nil => rfl
  | cons p text =>
    have hp : p ≠ .char '\n' := fun hsame => h (congrArg some hsame)
    rw [unifyNewlines]
    intro rest hrest
    exact hp (List.cons.inj hrest).1

theorem unifyNewlines_return_feed (text : Text) :
    unifyNewlines (.char '\r' :: .char '\n' :: text) = unifyNewlines (.char '\n' :: text) := rfl

theorem unifyNewlines_cons_of_ne {p : Point} (h : p ≠ .char '\r') (text : Text) :
    unifyNewlines (p :: text) = p :: unifyNewlines text := by
  rw [unifyNewlines]
  · intro rest hp
    exact absurd hp h
  · exact h

theorem newlines_cons_of_ne {p : Point} (h : p ≠ .char '\n') (text : Text) :
    newlines (p :: text) = newlines text :=
  List.count_cons_of_ne h

theorem newlines_cons_feed (text : Text) : newlines (.char '\n' :: text) = newlines text + 1 :=
  List.count_cons_self

/-- Bytes from 0x80 on hold no line break. -/
theorem lineBreaks_append_of_le {run : List UInt8} (hrun : ∀ b ∈ run, ¬ b < 0x80)
    (bytes : List UInt8) :
    lineBreaks (run ++ bytes) = lineBreaks bytes := by
  induction run with
  | nil => rfl
  | cons b run ih =>
    obtain ⟨hb, hrest⟩ := List.forall_mem_cons.mp hrun
    have hfeed : b ≠ 0x0A := by
      rintro rfl
      exact hb (by decide)
    have hreturn : ¬ (b = 0x0D ∧ (run ++ bytes).head? ≠ some 0x0A) := by
      rintro ⟨rfl, -⟩
      exact hb (by decide)
    rw [List.cons_append, lineBreaks, if_neg hfeed, if_neg hreturn, ih hrest]

/-- A text has as many line breaks as the bytes that it reads. -/
theorem newlines_of_reads {bytes : List UInt8} {text : Text} (h : Reads bytes text) :
    newlines (unifyNewlines text) = lineBreaks bytes := by
  induction h with
  | nil => rfl
  | @ascii b bytes text hb h ih =>
    by_cases hfeed : b = 0x0A
    · have hpoint : Point.char (Char.ofNat b.toNat) = .char '\n' := by rw [hfeed]; rfl
      rw [hpoint, unifyNewlines_cons_of_ne (by decide), newlines_cons_feed, ih, lineBreaks,
        if_pos hfeed]
    by_cases hreturn : b = 0x0D
    · have hpoint : Point.char (Char.ofNat b.toNat) = .char '\r' := by rw [hreturn]; rfl
      rw [hpoint, lineBreaks, if_neg hfeed]
      by_cases hnext : bytes.head? = some 0x0A
      · -- the line feed that follows counts for both
        obtain ⟨rest, rfl⟩ : ∃ rest, text = .char '\n' :: rest :=
          List.head?_eq_some_iff.mp ((h.head?_eq_some_iff (b := 0x0A) (by decide)).mpr hnext)
        rw [if_neg (fun hboth => hboth.2 hnext), unifyNewlines_return_feed, ih]
      · have htext : text.head? ≠ some (.char '\n') :=
          fun hsame => hnext ((h.head?_eq_some_iff (b := 0x0A) (by decide)).mp hsame)
        rw [if_pos ⟨hreturn, hnext⟩, unifyNewlines_return htext, newlines_cons_feed, ih]
    · have hnotFeed : Point.char (Char.ofNat b.toNat) ≠ .char '\n' :=
        fun hsame => hfeed ((Utf8.char_eq_iff (b := 0x0A) (by decide) hb).mp hsame)
      have hnotReturn : Point.char (Char.ofNat b.toNat) ≠ .char '\r' :=
        fun hsame => hreturn ((Utf8.char_eq_iff (b := 0x0D) (by decide) hb).mp hsame)
      rw [unifyNewlines_cons_of_ne hnotReturn, newlines_cons_of_ne hnotFeed, ih, lineBreaks,
        if_neg hfeed, if_neg fun hboth => hreturn hboth.1]
  | @run lead run bytes p text hp hrun _ ih =>
    have hnotFeed : p ≠ .char '\n' := Utf8.ne_char_of_le (b := 0x0A) (by decide) hp
    have hnotReturn : p ≠ .char '\r' := Utf8.ne_char_of_le (b := 0x0D) (by decide) hp
    rw [unifyNewlines_cons_of_ne hnotReturn, newlines_cons_of_ne hnotFeed, ih, ← List.cons_append,
      lineBreaks_append_of_le hrun]

/-- Writing line breaks alike leaves every other point where it is. -/
theorem unifyNewlines_append {p : Point} (hfeed : p ≠ .char '\n') (hreturn : p ≠ .char '\r')
    (before after : Text) :
    unifyNewlines (before ++ p :: after) = unifyNewlines before ++ p :: unifyNewlines after := by
  fun_induction unifyNewlines before with
  | case1 => exact unifyNewlines_cons_of_ne hreturn after
  | case2 rest ih =>
    rw [List.cons_append, List.cons_append, unifyNewlines, ih, List.cons_append]
  | case3 rest hnext ih =>
    have hhead : (rest ++ p :: after).head? ≠ some (.char '\n') := by
      cases rest with
      | nil => exact fun hsame => hfeed (Option.some.inj hsame)
      | cons q rest =>
        intro hsame
        exact hnext rest (by rw [Option.some.inj hsame])
    rw [List.cons_append, unifyNewlines_return hhead, ih, List.cons_append]
  | case4 q rest hq hq' ih =>
    rw [List.cons_append, unifyNewlines_cons_of_ne hq', ih, List.cons_append]

/-- Writing line breaks alike neither adds nor takes away another point. -/
theorem count_unifyNewlines {p : Point} (hfeed : p ≠ .char '\n') (hreturn : p ≠ .char '\r')
    (text : Text) :
    (unifyNewlines text).count p = text.count p := by
  fun_induction unifyNewlines text with
  | case1 => rfl
  | case2 rest ih =>
    rw [List.count_cons_of_ne hfeed.symm, List.count_cons_of_ne hreturn.symm,
      List.count_cons_of_ne hfeed.symm, ih]
  | case3 rest _ ih => rw [List.count_cons_of_ne hfeed.symm, List.count_cons_of_ne hreturn.symm, ih]
  | case4 q rest _ _ ih => rw [List.count_cons, List.count_cons, ih]

end Text

/-! ## 2. Backticks -/

namespace Scan

open Text (lineBreaks)

theorem char_backtick : Point.char (Char.ofNat (0x60 : UInt8).toNat) = Snippet.backtick := rfl

/-- The text of a file has a backtick exactly where the file has the byte of one. -/
theorem textOf_append (before after : List UInt8) :
    textOf (before ++ 0x60 :: after) = textOf before ++ Snippet.backtick :: textOf after := by
  unfold textOf
  rw [Text.Utf8.decodeLossy_append (by decide), char_backtick,
    Text.unifyNewlines_append (by decide) (by decide)]

theorem count_textOf (bytes : List UInt8) :
    (textOf bytes).count Snippet.backtick = bytes.count 0x60 := by
  unfold textOf
  rw [Text.count_unifyNewlines (by decide) (by decide), ← char_backtick]
  exact (Text.Utf8.reads_decodeLossy bytes).count (by decide)

theorem newlines_textOf (bytes : List UInt8) : Text.newlines (textOf bytes) = lineBreaks bytes :=
  Text.newlines_of_reads (Text.Utf8.reads_decodeLossy bytes)

theorem not_mem_textOf {bytes : List UInt8} (h : (0x60 : UInt8) ∉ bytes) :
    Snippet.backtick ∉ textOf bytes := by
  rw [← List.count_eq_zero, count_textOf, List.count_eq_zero]
  exact h

/-- Consecutive pairs, from the front; a last one without a partner is left out. -/
def pairs {α : Type} : List α → List (α × α)
  | first :: second :: rest => (first, second) :: pairs rest
  | _ => []

theorem pairs_map {α β : Type} (f : α → β) (xs : List α) :
    pairs (xs.map f) = (pairs xs).map fun pair => (f pair.1, f pair.2) := by
  fun_induction pairs xs with
  | case1 first second rest ih => rw [List.map_cons, List.map_cons, pairs, ih, List.map_cons]
  | case2 xs h =>
    rcases xs with _ | ⟨first, _ | ⟨second, rest⟩⟩
    · rfl
    · rfl
    · exact absurd rfl (h first second rest)

/-- The offsets of consecutive pairs of backticks in a file. -/
def spansOf (bytes : List UInt8) : List (Nat × Nat) := pairs (bytes.idxsOf 0x60)

/-- The bytes between two offsets. -/
def inside (bytes : List UInt8) (span : Nat × Nat) : List UInt8 :=
  (bytes.take span.2).drop (span.1 + 1)

theorem spansOf_of_not_mem {bytes : List UInt8} (h : (0x60 : UInt8) ∉ bytes) :
    spansOf bytes = [] := by
  rw [spansOf, Text.idxsOf_of_not_mem h, pairs]
  rintro _ _ _ ⟨⟩

/-- A single backtick begins no span. -/
theorem spansOf_unpaired {before rest : List UInt8} (hbefore : (0x60 : UInt8) ∉ before)
    (hrest : (0x60 : UInt8) ∉ rest) : spansOf (before ++ 0x60 :: rest) = [] := by
  rw [spansOf, Text.idxsOf_append_cons hbefore, Text.idxsOf_of_not_mem hrest]
  rfl

/-- The first two backticks are the first pair, and the pairs after them are those of the bytes
after them. -/
theorem spansOf_paired {before body : List UInt8} (hbefore : (0x60 : UInt8) ∉ before)
    (hbody : (0x60 : UInt8) ∉ body) (after : List UInt8) :
    spansOf (before ++ 0x60 :: (body ++ 0x60 :: after))
      = (before.length, before.length + 1 + body.length)
        :: (spansOf after).map fun span =>
          (before.length + 1 + (body.length + 1 + span.1),
            before.length + 1 + (body.length + 1 + span.2)) := by
  unfold spansOf
  rw [Text.idxsOf_append_cons hbefore, Text.idxsOf_append_cons hbody, List.map_cons, List.map_map,
    pairs, pairs_map]
  rfl

theorem take_append_cons (before rest : List UInt8) (b : UInt8) (offset : Nat) :
    (before ++ b :: rest).take (before.length + 1 + offset) = before ++ b :: rest.take offset := by
  rw [Nat.add_assoc, List.take_length_add_append, Nat.add_comm 1, List.take_succ_cons]

theorem drop_append_cons (before rest : List UInt8) (b : UInt8) (offset : Nat) :
    (before ++ b :: rest).drop (before.length + 1 + offset) = rest.drop offset := by
  rw [Nat.add_assoc, List.drop_length_add_append, Nat.add_comm 1, List.drop_succ_cons]

theorem inside_first (before body after : List UInt8) :
    inside (before ++ 0x60 :: (body ++ 0x60 :: after))
      (before.length, before.length + 1 + body.length) = body := by
  unfold inside
  dsimp only
  rw [take_append_cons, List.take_left]
  exact drop_append_cons before body 0x60 0

/-- Bytes in front move a span. -/
theorem inside_append_cons (before rest : List UInt8) (b : UInt8) (span : Nat × Nat) :
    inside (before ++ b :: rest) (before.length + 1 + span.1, before.length + 1 + span.2)
      = inside rest span := by
  unfold inside
  dsimp only
  rw [take_append_cons, Nat.add_assoc, drop_append_cons]

/-- **Literals stand between pairs of backtick bytes.** What stands between consecutive pairs of
backticks in the text of a file is the text of the bytes between consecutive pairs of backtick bytes
of the file, and begins where the text of the bytes before ends. The induction is on the bytes, two
backticks at a time. -/
theorem between_textOf (bytes : List UInt8) (offset : Nat) :
    Snippet.between offset (textOf bytes)
      = (spansOf bytes).map fun span =>
        (offset + (textOf (bytes.take span.1)).length, textOf (inside bytes span)) := by
  induction hlength : bytes.length using Nat.strongRecOn generalizing bytes offset with
  | ind n ih =>
    by_cases hopening : (0x60 : UInt8) ∈ bytes
    · obtain ⟨before, rest, rfl, hbefore⟩ := List.eq_append_cons_of_mem hopening
      rw [textOf_append, Snippet.between_append (not_mem_textOf hbefore)]
      by_cases hclosing : (0x60 : UInt8) ∈ rest
      · obtain ⟨body, after, rfl, hbody⟩ := List.eq_append_cons_of_mem hclosing
        have hshorter : after.length < n := by
          rw [← hlength]
          simp only [List.length_append, List.length_cons]
          omega
        rw [textOf_append, Snippet.between_backtick (not_mem_textOf hbody),
          spansOf_paired hbefore hbody, ih after.length hshorter _ _ rfl, List.map_cons,
          List.map_map]
        congr 1
        · rw [inside_first, List.take_left]
        · -- what stands before a later pair are the first two backticks with their texts, and more
          refine List.map_congr_left fun span _ => ?_
          have hmore : (textOf ((before ++ 0x60 :: (body ++ 0x60 :: after)).take
              (before.length + 1 + (body.length + 1 + span.1)))).length
              = (textOf before).length
                + ((textOf body).length + (textOf (after.take span.1)).length + 1) + 1 := by
            rw [take_append_cons, take_append_cons, textOf_append, textOf_append,
              List.length_append, List.length_cons, List.length_append, List.length_cons]
            rfl
          have hinside : inside (before ++ 0x60 :: (body ++ 0x60 :: after))
              (before.length + 1 + (body.length + 1 + span.1),
                before.length + 1 + (body.length + 1 + span.2))
              = inside after span :=
            (inside_append_cons before _ 0x60
              (body.length + 1 + span.1, body.length + 1 + span.2)).trans
              (inside_append_cons body after 0x60 span)
          dsimp only [Function.comp]
          rw [hmore, hinside]
          congr 1
          omega
      · rw [spansOf_unpaired hbefore hclosing, Snippet.between_unpaired (not_mem_textOf hclosing)]
        rfl
    · rw [spansOf_of_not_mem hopening, Snippet.between_of_not_mem (not_mem_textOf hopening)]
      rfl

/-! ## 3. Scans -/

theorem mem_of_mem_pairs {α : Type} {xs : List α} {pair : α × α} (h : pair ∈ pairs xs) :
    pair.1 ∈ xs := by
  fun_induction pairs xs with
  | case1 first second rest ih =>
    rcases List.mem_cons.mp h with rfl | hrest
    · exact List.mem_cons_self
    · exact List.mem_cons_of_mem _ (List.mem_cons_of_mem _ (ih hrest))
  | case2 xs _ => exact absurd h List.not_mem_nil

/-- A span begins at the byte of a backtick. -/
theorem eq_append_of_mem_spansOf {bytes : List UInt8} {span : Nat × Nat}
    (h : span ∈ spansOf bytes) :
    bytes = bytes.take span.1 ++ 0x60 :: bytes.drop (span.1 + 1) := by
  obtain ⟨hlt, hbyte⟩ := List.mem_idxsOf_iff_exists_getElem_pos.mp (mem_of_mem_pairs h)
  rw [← eq_of_beq hbyte, ← List.drop_eq_getElem_cons, List.take_append_drop]

/-- The line of a span is one more than the line breaks among the bytes before it. -/
theorem lineOf_span {bytes : List UInt8} {span : Nat × Nat} (h : span ∈ spansOf bytes) :
    Snippet.lineOf (textOf bytes) ((textOf (bytes.take span.1)).length : Nat)
      = lineBreaks (bytes.take span.1) + 1 := by
  have htext : textOf bytes
      = textOf (bytes.take span.1) ++ Snippet.backtick :: textOf (bytes.drop (span.1 + 1)) := by
    rw [← textOf_append, ← eq_append_of_mem_spansOf h]
  rw [htext, lineOf_length, newlines_textOf]

/-- The snippet between two offsets of a file, if it is kept. -/
def snippetAt (bytes : List UInt8) (span : Nat × Nat) : Option Snippet :=
  let source := Text.trim (textOf (inside bytes span))
  if Snippet.isKept source then some ⟨source, (textOf (bytes.take span.1)).length⟩ else none

/-- The snippets of a file are those between its pairs of backtick bytes. -/
theorem pluck_textOf (bytes : List UInt8) :
    Snippet.pluck (textOf bytes) = (spansOf bytes).filterMap (snippetAt bytes) := by
  unfold Snippet.pluck
  rw [between_textOf, List.filterMap_map]
  refine List.filterMap_congr fun span _ => ?_
  simp only [Function.comp, Nat.zero_add]
  rfl

/-- The usages of what stands between two offsets of a file, told from its bytes. -/
def usagesOfSpan (schema : Schema) (file : Text) (bytes : List UInt8) (span : Nat × Nat) :
    List (Coordinate × Site) :=
  let source := Text.trim (textOf (inside bytes span))
  if Snippet.isKept source then
    match GraphQL.parse source with
    | .ok document =>
      (Usage.selected schema document).map fun found =>
        (found, ⟨file, (lineBreaks (bytes.take span.1) : Int) + 1⟩)
    | .error _ => []
  else []

theorem usagesOfSource_textOf (schema : Schema) (file : Text) (bytes : List UInt8) :
    usagesOfSource schema file (textOf bytes)
      = (spansOf bytes).flatMap (usagesOfSpan schema file bytes) := by
  rw [usagesOfSource, pluck_textOf, List.filterMap_eq_flatMap_toList, List.flatMap_assoc]
  refine List.flatMap_congr fun span hspan => ?_
  unfold snippetAt usagesOfSpan
  dsimp only
  by_cases hkept : Snippet.isKept (Text.trim (textOf (inside bytes span))) = true
  · rw [if_pos hkept, if_pos hkept, Option.toList_some, List.flatMap_singleton, usagesOfSnippet]
    dsimp only
    cases GraphQL.parse (Text.trim (textOf (inside bytes span))) with
    | error _ => rfl
    | ok document =>
      dsimp only
      rw [siteOf, lineOf_span hspan]
      rfl
  · rw [if_neg hkept, if_neg hkept]
    rfl

/-- **Reported lines are right on raw bytes.** Whatever the bytes of the files are, a scan of files
that can be read comes to its end. For each file it goes through the pairs of backtick bytes from
the front, takes what stands between the two as a literal, and records the fields that the literal
selects, if it is a document, at the line after the line breaks among the bytes before the first of
the two: carriage returns and line feeds, where a pair of both counts once. Decoding has no part in
that: every backtick and every line break of the text is one of the bytes and the other way round,
and a backtick byte divides the text where it divides the bytes, with any malformed bytes on either
side. -/
theorem files_eq_ok_of_bytes (schema : Schema) (verbose : Bool) (w : Workspace) (files : List Text)
    (contents : Text → List UInt8) (hread : ∀ file ∈ files, w.read file = .ok (contents file))
    (scan : Scan) :
    (∃ after, (Scan.files schema verbose w files scan).result = .ok after
      ∧ after.usages = scan.usages.recordEach (files.flatMap fun file =>
        (spansOf (contents file)).flatMap (usagesOfSpan schema file (contents file))))
    ∧ ∀ bytes, Snippet.pluck (textOf bytes) = (spansOf bytes).filterMap (snippetAt bytes)
      ∧ (textOf bytes).count Snippet.backtick = bytes.count 0x60
      ∧ Text.newlines (textOf bytes) = lineBreaks bytes
      ∧ ∀ before after, bytes = before ++ 0x60 :: after →
        textOf bytes = textOf before ++ Snippet.backtick :: textOf after := by
  constructor
  · obtain ⟨after, hafter, husages⟩ := exists_files_eq_ok schema verbose w contents hread scan
    refine ⟨after, hafter, ?_⟩
    rw [husages]
    simp only [usagesOfSource_textOf]
  · intro bytes
    refine ⟨pluck_textOf bytes, count_textOf bytes, newlines_textOf bytes, ?_⟩
    rintro before after rfl
    exact textOf_append before after

/-- A file in which lines end in all ways, with bytes that are no UTF-8 before and inside a
literal. -/
def mixedBytes : List UInt8 :=
  [0x0D, 0x0A, 0xFF, 0x0D, 0xE2, 0x82, 0x0A] ++ "\x60query A \x7b a \x7d #".toList.map Char.toUInt8
    ++ [0xC3, 0x60, 0xE2]

/-- The file in the root directory. -/
def mixedFile : Workspace where
  tree := ⟨[(["a.ts"], .file mixedBytes)]⟩
  directory := []

theorem files_eq_ok_of_bytes_mixedFile :
    (∀ file ∈ (["/a.ts"] : List Text), mixedFile.read file = .ok mixedBytes)
      ∧ spansOf mixedBytes = [(7, 24)] ∧ lineBreaks (mixedBytes.take 7) = 3
      ∧ ∃ after, (Scan.files loopSchema false mixedFile ["/a.ts"] Scan.start).result = .ok after
        ∧ after.usages.sites "Query" "a" = [⟨"/a.ts", 4⟩] := by
  have hread : ∀ file ∈ (["/a.ts"] : List Text), mixedFile.read file = .ok mixedBytes := by decide
  obtain ⟨⟨after, hafter, husages⟩, -⟩ :=
    files_eq_ok_of_bytes loopSchema false mixedFile ["/a.ts"] (fun _ => mixedBytes) hread Scan.start
  refine ⟨hread, by decide, by decide, after, hafter, ?_⟩
  rw [husages]
  decide +kernel

end Scan

end FieldAudit
