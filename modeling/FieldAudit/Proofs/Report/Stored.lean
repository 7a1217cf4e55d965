import FieldAudit.Proofs.Attempt
import FieldAudit.Proofs.FileTree
import FieldAudit.Report.Storage

/-!
What storing a report leaves. A report that is stored is in its file from the first stroke to the
last; one that the file system refuses leaves every file as it was. A text without UTF-8 form is the
one thing that comes between: the file has been opened by then, and what it held is gone
(`BreaksOff`, `store_cases`). No file but that of the report changes, whatever happens.
-/

set_option autoImplicit false

namespace FieldAudit

namespace Report

open Text.Utf8 (encode encodeFrom Unencodable)

/-! ## 1. Strokes -/

/-- Strokes that are all written make up the bytes of the whole text. -/
theorem encode_flatten_of_written {strokes : List Text} (h : (written strokes).2 = none) :
    encode strokes.flatten = .ok (written strokes).1 := by
  induction strokes with
  | nil => rfl
  | cons stroke strokes ih =>
    rw [written] at h ⊢
    cases hstroke : encode stroke with
    | error unencodable =>
      rw [hstroke] at h
      simp at h
    | ok bytes =>
      rw [hstroke] at h
      rw [List.flatten_cons, Text.Utf8.encode_append_eq_ok_iff]
      exact ⟨bytes, (written strokes).1, hstroke, ih h, rfl⟩

/-- Strokes that break off have written the bytes of a part of the text that stops short of its end;
the text as a whole has no bytes. -/
theorem exists_of_written_eq_some {strokes : List Text} {unencodable : Unencodable}
    (h : (written strokes).2 = some unencodable) :
    ∃ start rest, strokes.flatten = start ++ rest ∧ rest ≠ []
      ∧ encode start = .ok (written strokes).1 ∧ ∀ bytes, encode strokes.flatten ≠ .ok bytes := by
  induction strokes with
  | nil => simp [written] at h
  | cons stroke strokes ih =>
    rw [written] at h ⊢
    rw [List.flatten_cons]
    cases hstroke : encode stroke with
    | error fault =>
      -- the stroke that breaks off is not empty, for the empty text has bytes
      have hne : stroke ≠ [] := by
        rintro rfl
        simp [encode, encodeFrom] at hstroke
      refine ⟨[], stroke ++ strokes.flatten, rfl, List.append_ne_nil_of_left_ne_nil hne _, rfl, ?_⟩
      intro bytes hwhole
      obtain ⟨own, others, hown, -, -⟩ := (Text.Utf8.encode_append_eq_ok_iff _ _ _).mp hwhole
      exact absurd hstroke (ne_error_of_eq_ok hown fault)
    | ok bytes =>
      rw [hstroke] at h
      obtain ⟨start, rest, hflatten, hne, hstart, hnone⟩ := ih h
      refine ⟨stroke ++ start, rest, ?_, hne, ?_, ?_⟩
      · rw [hflatten, List.append_assoc]
      · exact (Text.Utf8.encode_append_eq_ok_iff _ _ _).mpr ⟨bytes, _, hstroke, hstart, rfl⟩
      · intro whole hwhole
        obtain ⟨own, others, -, hothers, -⟩ := (Text.Utf8.encode_append_eq_ok_iff _ _ _).mp hwhole
        exact hnone others hothers

/-! ## 2. Where the report is stored -/

theorem isAbsolute_baseDirectory (w : Workspace) (base? : Option Text) :
    Path.isAbsolute (baseDirectory w base?) = true := by
  have hdirectory : Path.isAbsolute w.directoryPath = true :=
    Path.isAbsolute_ofNames (.inl rfl) w.directory
  unfold baseDirectory
  split
  · split
    · exact hdirectory
    · exact Path.isAbsolute_ofNames (Path.isRoot_rootOf _) _
  · exact hdirectory

/-- The directory of reports is the base directory with a name behind it. -/
theorem exists_directoryIn_eq (base : Text) :
    ∃ lead, directoryIn base = base ++ (lead ++ Text.ofString "reports") := by
  unfold directoryIn Path.join
  rw [if_neg (by decide)]
  split
  · exact ⟨[], rfl⟩
  · exact ⟨"/", List.append_assoc base _ _⟩

theorem isAbsolute_directoryIn {base : Text} (h : Path.isAbsolute base = true) :
    Path.isAbsolute (directoryIn base) = true := by
  obtain ⟨lead, hlead⟩ := exists_directoryIn_eq base
  rw [hlead]
  exact Path.isAbsolute_append h _

/-- The directory of reports does not end with a slash. -/
theorem getLast?_directoryIn (base : Text) :
    (directoryIn base).getLast? = some (.char 's') := by
  obtain ⟨lead, hlead⟩ := exists_directoryIn_eq base
  have hreports : (Text.ofString "reports").getLast? = some (.char 's') := by decide
  rw [hlead, ← List.append_assoc, List.getLast?_append, hreports]
  rfl

/-- The name of the report's file. -/
theorem isName_report : Path.IsName (Text.ofString "schemasweep-report.json") where
  ne_empty := by decide
  ne_point := by decide
  ne_points := by decide
  not_mem := by decide

theorem fileIn_eq (base : Text) :
    fileIn base = directoryIn base ++ .char '/' :: Text.ofString "schemasweep-report.json" := by
  have hempty : (directoryIn base).isEmpty = false := by
    rw [List.isEmpty_eq_false_iff]
    intro hnil
    have hlast := getLast?_directoryIn base
    rw [hnil] at hlast
    simp at hlast
  unfold fileIn Path.join
  rw [if_neg (by decide), hempty, getLast?_directoryIn, if_neg (by decide), List.append_assoc]
  rfl

theorem names_fileIn (base : Text) :
    Path.names (fileIn base)
      = Path.names (directoryIn base) ++ [Text.ofString "schemasweep-report.json"] := by
  rw [fileIn_eq, Path.names_append isName_report]

/-! ## 3. Storing -/

/-- Every file but that of the report is as it was. -/
def OthersKept (base : Text) (before after : Workspace) : Prop :=
  ∀ location, location ≠ Path.names (fileIn base) →
    after.tree.file? location = before.tree.file? location

/-- A report breaks off: its directory is there or can be made, and its file can be opened, but it
holds a text that has no bytes. -/
def BreaksOff (w : Workspace) (base : Text) (report : Report) : Prop :=
  ∃ made opened, w.makeDirectories (directoryIn base) = (made, none)
    ∧ made.write (fileIn base) [] = .ok opened ∧ ∀ bytes, Text.Utf8.encode report.text ≠ .ok bytes

section Store

variable {w : Workspace} {base : Text}

/-- The location of the report lies behind that of its directory. -/
theorem length_names_directoryIn_lt (base : Text) :
    (Path.names (directoryIn base)).length < (Path.names (fileIn base)).length := by
  rw [names_fileIn, List.length_append, List.length_singleton]
  exact Nat.lt_succ_self _

theorem getLast?_directoryIn_ne (base : Text) :
    (directoryIn base).getLast? ≠ some (.char '/') := by
  rw [getLast?_directoryIn]
  decide

/-- What is written to the report's file can be read from it, and the other files are as they were
before the directories were made. -/
theorem read_of_write (hbase : Path.isAbsolute base = true) {made changed : Workspace}
    {bytes : List UInt8}
    (hmade : FileTree.Extends (Path.names (directoryIn base)) w.tree made.tree)
    (hwrite : made.write (fileIn base) bytes = .ok changed) :
    changed.read (fileIn base) = .ok bytes ∧ OthersKept base w changed := by
  rw [fileIn_eq] at hwrite
  obtain ⟨hread, hothers⟩ := Workspace.write_eq_ok (isAbsolute_directoryIn hbase)
    (getLast?_directoryIn_ne base) isName_report hwrite
  rw [← fileIn_eq] at hread
  refine ⟨hread, ?_⟩
  -- writing has kept the nodes of other locations, and making directories has kept their files
  intro location hlocation
  rw [names_fileIn] at hlocation
  exact (FileTree.file?_congr (hothers location hlocation)).trans (hmade.file?_eq location)

/-- The steps of storing a report, with what comes of them: the directories are made, the file is
opened, and the strokes are written. The first step that fails is the last one. -/
inductive Storing (w : Workspace) (base : Text) (report : Report) : Stored → Prop
  | unmade {made : Workspace} {refusal : Refusal}
      (hmake : w.makeDirectories (directoryIn base) = (made, some refusal)) :
      Storing w base report ⟨made, .error (.refused refusal)⟩
  | unopened {made : Workspace} {refusal : Refusal}
      (hmake : w.makeDirectories (directoryIn base) = (made, none))
      (hwrite : made.write (fileIn base) (written (Json.strokes 0 report.value)).1
        = .error refusal) :
      Storing w base report ⟨made, .error (.refused refusal)⟩
  | broken {made changed : Workspace} {unencodable : Unencodable}
      (hmake : w.makeDirectories (directoryIn base) = (made, none))
      (hwrite : made.write (fileIn base) (written (Json.strokes 0 report.value)).1 = .ok changed)
      (hend : (written (Json.strokes 0 report.value)).2 = some unencodable) :
      Storing w base report ⟨changed, .error (.unwritable unencodable)⟩
  | whole {made changed : Workspace} (hmake : w.makeDirectories (directoryIn base) = (made, none))
      (hwrite : made.write (fileIn base) (written (Json.strokes 0 report.value)).1 = .ok changed)
      (hend : (written (Json.strokes 0 report.value)).2 = none) :
      Storing w base report ⟨changed, .ok (fileIn base)⟩

/-- Storing takes these steps and no others. -/
theorem store_eq_iff {report : Report} {stored : Stored} :
    store w base report = stored ↔ Storing w base report stored := by
  constructor
  · rintro rfl
    unfold store
    rcases hmake : w.makeDirectories (directoryIn base) with ⟨made, _ | refusal⟩
    · dsimp only
      cases hwrite : made.write (fileIn base) (written (Json.strokes 0 report.value)).1 with
      | error refusal => exact .unopened hmake hwrite
      | ok changed =>
        dsimp only
        cases hend : (written (Json.strokes 0 report.value)).2 with
        | none => exact .whole hmake hwrite hend
        | some unencodable => exact .broken hmake hwrite hend
    · exact .unmade hmake
  · intro h
    cases h with
    | unmade hmake => rw [store, hmake]
    | unopened hmake hwrite =>
      rw [store, hmake]
      dsimp only
      rw [hwrite]
    | broken hmake hwrite hend | whole hmake hwrite hend =>
      rw [store, hmake]
      dsimp only
      rw [hwrite]
      dsimp only
      rw [hend]

/-- A report whose directories are not made, or whose file cannot be opened, does not break off. -/
theorem not_breaksOff_of_refused {report : Report} {made : Workspace} {refusal : Refusal}
    (h : Storing w base report ⟨made, .error (.refused refusal)⟩) : ¬ BreaksOff w base report := by
  rintro ⟨_, opened, hmade, hopen, -⟩
  cases h with
  | unmade hmake =>
    rw [hmake] at hmade
    simp at hmade
  | unopened hmake hwrite =>
    rw [hmake] at hmade
    obtain ⟨rfl, -⟩ := Prod.mk.inj hmade
    -- a file that can be opened can be written, whatever is written
    obtain ⟨changed, hchanged⟩ :=
      Workspace.write_eq_ok_of_write hopen (written (Json.strokes 0 report.value)).1
    exact absurd hwrite (ne_error_of_eq_ok hchanged refusal)

/-- **What storing can come to.** The file system refuses, and directories may have been added but
nothing else has changed; or the report is stored, and its file holds all of it; or the report
breaks off, and its file holds a part of it that stops short of the end. -/
theorem store_cases (w : Workspace) (report : Report) (hbase : Path.isAbsolute base = true) :
    (∃ made refusal, store w base report = ⟨made, .error (.refused refusal)⟩
      ∧ ¬ BreaksOff w base report
      ∧ FileTree.Extends (Path.names (directoryIn base)) w.tree made.tree)
    ∨ (∃ changed bytes, store w base report = ⟨changed, .ok (fileIn base)⟩
      ∧ Text.Utf8.encode report.text = .ok bytes ∧ changed.read (fileIn base) = .ok bytes
      ∧ OthersKept base w changed)
    ∨ (∃ changed unencodable start rest bytes,
      store w base report = ⟨changed, .error (.unwritable unencodable)⟩
      ∧ BreaksOff w base report ∧ report.text = start ++ rest ∧ rest ≠ []
      ∧ Text.Utf8.encode start = .ok bytes ∧ changed.read (fileIn base) = .ok bytes
      ∧ OthersKept base w changed) := by
  have hextends := (Workspace.prepared_makeDirectories w (directoryIn base)).tree
  have hsteps : Storing w base report (store w base report) := store_eq_iff.mp rfl
  generalize store w base report = stored at hsteps
  cases hsteps with
  | unmade hmake =>
    rw [hmake] at hextends
    exact .inl ⟨_, _, rfl, not_breaksOff_of_refused (.unmade hmake), hextends⟩
  | unopened hmake hwrite =>
    rw [hmake] at hextends
    exact .inl ⟨_, _, rfl, not_breaksOff_of_refused (.unopened hmake hwrite), hextends⟩
  | @broken made changed unencodable hmake hwrite hend =>
    rw [hmake] at hextends
    obtain ⟨hread, hothers⟩ := read_of_write hbase hextends hwrite
    -- the file has been opened with nothing in it, and holds what came before the stroke
    obtain ⟨start, rest, htext, hne, hstart, hnone⟩ := exists_of_written_eq_some hend
    obtain ⟨opened, hopen⟩ := Workspace.write_eq_ok_of_write hwrite []
    exact .inr (.inr ⟨changed, unencodable, start, rest, _, rfl,
      ⟨made, opened, hmake, hopen, hnone⟩, htext, hne, hstart, hread, hothers⟩)
  | @whole made changed hmake hwrite hend =>
    rw [hmake] at hextends
    obtain ⟨hread, hothers⟩ := read_of_write hbase hextends hwrite
    exact .inr (.inl ⟨changed, _, rfl, encode_flatten_of_written hend, hread, hothers⟩)

/-- Where a report can be read, the directory of reports is there. -/
theorem find_directoryIn_of_read (hbase : Path.isAbsolute base = true) {bytes : List UInt8}
    (h : w.read (fileIn base) = .ok bytes) : w.find (directoryIn base) = .ok .directory := by
  unfold Workspace.read at h
  split at h
  · next hfind =>
    rw [fileIn_eq] at hfind
    exact Workspace.find_of_find_name (isAbsolute_directoryIn hbase) isName_report hfind
  · simp at h
  · simp at h

/-- Where a report can be read, the next one is stored if it has bytes. -/
theorem exists_store_of_read (hbase : Path.isAbsolute base = true) {old bytes : List UInt8}
    (hread : w.read (fileIn base) = .ok old) {report : Report}
    (hencode : Text.Utf8.encode report.text = .ok bytes) :
    ∃ changed, store w base report = ⟨changed, .ok (fileIn base)⟩ := by
  have hmake := Workspace.makeDirectories_eq_self (isAbsolute_directoryIn hbase)
    (find_directoryIn_of_read hbase hread)
  obtain ⟨changed, hwrite⟩ := Workspace.exists_write_of_read hread
    (written (Json.strokes 0 report.value)).1
  have hend : (written (Json.strokes 0 report.value)).2 = none := by
    cases hend : (written (Json.strokes 0 report.value)).2 with
    | none => rfl
    | some unencodable =>
      obtain ⟨-, -, -, -, -, hnone⟩ := exists_of_written_eq_some hend
      exact absurd hencode (hnone bytes)
  exact ⟨changed, store_eq_iff.mpr (.whole hmake hwrite hend)⟩

/-- What a stored report leaves: its file is where no directory was; every other node is as it was,
but for directories that were added on the way; a sound tree is sound. -/
structure Leaves (base : Text) (before after : Workspace) : Prop where
  free : before.tree.node? (Path.names (fileIn base)) ≠ some .directory
  others : ∀ location, location ≠ Path.names (fileIn base) →
    after.tree.node? location = before.tree.node? location
      ∨ (location <+: Path.names (directoryIn base) ∧ before.tree.node? location = none
        ∧ after.tree.node? location = some .directory)
  file : ∃ bytes, after.tree.node? (Path.names (fileIn base)) = some (.file bytes)
  directory : after.directory = before.directory
  sound : before.tree.Sound → after.tree.Sound

theorem leaves_of_store (hbase : Path.isAbsolute base = true) {report : Report}
    {changed : Workspace} {path : Text} (h : store w base report = ⟨changed, .ok path⟩) :
    Leaves base w changed := by
  have hprepared := Workspace.prepared_makeDirectories w (directoryIn base)
  cases store_eq_iff.mp h with
  | whole hmake hwrite hend =>
    rw [hmake] at hprepared
    rw [fileIn_eq] at hwrite
    obtain ⟨hset, -, hfree, -⟩ := Workspace.set_of_write (isAbsolute_directoryIn hbase)
      (getLast?_directoryIn_ne base) isName_report hwrite
    obtain ⟨-, hothers⟩ := Workspace.write_eq_ok (isAbsolute_directoryIn hbase)
      (getLast?_directoryIn_ne base) isName_report hwrite
    have hsound := Workspace.sound_of_write (isAbsolute_directoryIn hbase)
      (getLast?_directoryIn_ne base) isName_report hwrite
    rw [← names_fileIn] at hothers hfree
    refine ⟨?_, ?_, ?_, ?_, hsound ∘ hprepared.sound⟩
    · -- no directory is made as far down as the report
      rwa [← hprepared.tree.node?_eq (length_names_directoryIn_lt base)]
    · intro location hlocation
      rw [hothers location hlocation]
      exact hprepared.tree location
    · rw [hset, names_fileIn]
      exact ⟨_,
        FileTree.node?_put_self _ (List.append_ne_nil_of_right_ne_nil _ (List.cons_ne_nil _ [])) _⟩
    · rw [hset]
      exact hprepared.directory

end Store

end Report

end FieldAudit
