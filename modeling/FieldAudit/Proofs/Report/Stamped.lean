import FieldAudit.Proofs.Json.Spelled
import FieldAudit.Proofs.Report.Stored

/-!
Reports that differ in nothing but their stamps. A stamp is made of characters, so it is written
whole, and all that is written before and after it is the same under any stamp
(`exists_written_of_stamp`). So a report has bytes under any stamp if it has bytes under one
(`exists_encode_of_stamp`), and storing it comes to the same and leaves the same nodes, but for the
stamp in its file (`store_of_stamp`).
-/

set_option autoImplicit false

namespace FieldAudit

namespace Json

/-- A string has bytes when it is written. -/
theorem exists_encode_writeText (s : String) :
    ∃ bytes, Text.Utf8.encode (writeText s) = .ok bytes :=
  Text.Utf8.exists_encode_of_chars (isWhole_writeText (isWhole_ofString s))

/-- The stroke of a first member that is a text stands between the strokes that lead to it and those
of the others. -/
theorem strokes_object_cons_string (name t : Text) (members : List (Text × Value)) :
    strokes 0 (.object ((name, .string t) :: members))
      = [Text.ofString "\x7b", indentation 1, writeText name, Text.ofString ": "]
        ++ writeText t :: (strokesOfMembers 1 (',' :: indentation 1) members
          ++ [indentation 0, Text.ofString "\x7d"]) := by
  have hstring : strokes 1 (.string t) = [writeText t] := by
    rw [strokes]
    · rfl
    all_goals simp
  rw [strokes, strokesOfMembers, hstring]
  simp only [List.cons_append, List.nil_append]

end Json

namespace Report

open Text.Utf8 (encode Unencodable)

/-! ## 1. What is written -/

/-- Strokes are written after others that have all been written. -/
theorem written_append {first : List Text} (h : (written first).2 = none) (second : List Text) :
    written (first ++ second) = ((written first).1 ++ (written second).1, (written second).2) := by
  induction first with
  | nil => rfl
  | cons stroke first ih =>
    rw [written] at h
    rw [List.cons_append, written, written]
    cases hstroke : encode stroke with
    | error unencodable =>
      rw [hstroke] at h
      simp at h
    | ok bytes =>
      rw [hstroke] at h
      dsimp only at h ⊢
      rw [ih h, List.append_assoc]

/-- **What is written of a report under a stamp.** Before and after the stamp it is the same under
any other one, and so is the place where writing breaks off, if it does. -/
theorem exists_written_of_stamp (report : Report) :
    ∃ before after problem, ∀ (stamp : String) (middle : List UInt8),
      encode (Json.writeText stamp) = .ok middle →
      written (Json.strokes 0 ({ report with stamp := stamp } : Report).value)
        = (before ++ (middle ++ after), problem) := by
  -- the stamp is the first member, and the others do not depend on it
  let others : List (Text × Json.Value) := [
    ("graphqlEndpoint", report.endpoint),
    ("types", .object (report.types.map fun entry => (entry.1, entryValue entry.2)))]
  let lead : List Text :=
    [Text.ofString "\x7b", Json.indentation 1, Json.writeText "generatedAt", Text.ofString ": "]
  let rest : List Text := Json.strokesOfMembers 1 (',' :: Json.indentation 1) others
    ++ [Json.indentation 0, Text.ofString "\x7d"]
  have hlead : (written lead).2 = none := by decide
  refine ⟨(written lead).1, (written rest).1, (written rest).2, ?_⟩
  intro stamp middle hmiddle
  have hvalue : ({ report with stamp := stamp } : Report).value
      = .object (("generatedAt", .string stamp) :: others) := rfl
  have hstamp : written (Json.writeText stamp :: rest)
      = (middle ++ (written rest).1, (written rest).2) := by
    rw [written, hmiddle]
  rw [hvalue, Json.strokes_object_cons_string, written_append hlead, hstamp]

/-- **Whether a report has bytes does not depend on its stamp.** -/
theorem exists_encode_of_stamp {report : Report} {bytes : List UInt8}
    (h : encode report.text = .ok bytes) (stamp : String) :
    ∃ others, encode ({ report with stamp := stamp } : Report).text = .ok others := by
  obtain ⟨before, after, problem, hwritten⟩ := exists_written_of_stamp report
  obtain ⟨own, hown⟩ := Json.exists_encode_writeText report.stamp
  obtain ⟨middle, hmiddle⟩ := Json.exists_encode_writeText stamp
  cases problem with
  | none =>
    refine ⟨_, encode_flatten_of_written ?_⟩
    rw [hwritten stamp middle hmiddle]
  | some unencodable =>
    -- strokes that break off have no bytes
    have hbroken : (written (Json.strokes 0 report.value)).2 = some unencodable :=
      congrArg Prod.snd (hwritten report.stamp own hown)
    obtain ⟨-, -, -, -, -, hnone⟩ := exists_of_written_eq_some hbroken
    exact absurd h (hnone bytes)

/-! ## 2. What is stored -/

/-- Bytes that are written alike before and after the two stamps. -/
def SameButStamp (first second : String) (bytes others : List UInt8) : Prop :=
  ∃ before after one two, encode (Json.writeText first) = .ok one
    ∧ encode (Json.writeText second) = .ok two
    ∧ bytes = before ++ (one ++ after) ∧ others = before ++ (two ++ after)

/-- Workspaces that are the same, but that the files of the report may hold reports which differ in
their stamps. -/
structure AlikeButStamp (base : Text) (first second : String) (w other : Workspace) : Prop where
  directory : other.directory = w.directory
  others : ∀ location, location ≠ Path.names (fileIn base) →
    other.tree.node? location = w.tree.node? location
  file : other.tree.node? (Path.names (fileIn base)) = w.tree.node? (Path.names (fileIn base))
    ∨ ∃ bytes changed, w.tree.node? (Path.names (fileIn base)) = some (.file bytes)
      ∧ other.tree.node? (Path.names (fileIn base)) = some (.file changed)
      ∧ SameButStamp first second bytes changed

theorem alikeButStamp_refl (base : Text) (first second : String) (w : Workspace) :
    AlikeButStamp base first second w w :=
  ⟨rfl, fun _ _ => rfl, .inl rfl⟩

/-- Two reports that are the same but for the stamp leave workspaces that are, when they are written
to the file of the report. -/
theorem alikeButStamp_put (base : Text) {first second : String} (w : Workspace)
    {bytes others : List UInt8} (h : SameButStamp first second bytes others) :
    AlikeButStamp base first second
      { w with tree := w.tree.put (Path.names (fileIn base)) (.file bytes) }
      { w with tree := w.tree.put (Path.names (fileIn base)) (.file others) } := by
  have hne : Path.names (fileIn base) ≠ [] := by
    rw [names_fileIn]
    exact List.append_ne_nil_of_right_ne_nil _ (List.cons_ne_nil _ [])
  refine ⟨rfl, fun location hlocation => ?_, .inr ⟨bytes, others, ?_, ?_, h⟩⟩
  · dsimp only
    rw [FileTree.node?_put_of_ne _ hne hlocation, FileTree.node?_put_of_ne _ hne hlocation]
  · exact FileTree.node?_put_self _ hne _
  · exact FileTree.node?_put_self _ hne _

/-- **Storing a report under another stamp** comes to the same, and leaves the same but for the
stamp. -/
theorem store_of_stamp (w : Workspace) (base : Text) (report : Report) (stamp : String) :
    (store w base { report with stamp := stamp }).result = (store w base report).result
      ∧ AlikeButStamp base report.stamp stamp (store w base report).workspace
        (store w base { report with stamp := stamp }).workspace := by
  obtain ⟨before, after, problem, hwritten⟩ := exists_written_of_stamp report
  obtain ⟨one, hone⟩ := Json.exists_encode_writeText report.stamp
  obtain ⟨two, htwo⟩ := Json.exists_encode_writeText stamp
  have hown : written (Json.strokes 0 report.value) = (before ++ (one ++ after), problem) :=
    hwritten report.stamp one hone
  unfold store
  rcases w.makeDirectories (directoryIn base) with ⟨made, _ | refusal⟩
  · dsimp only
    rw [hown, hwritten stamp two htwo]
    dsimp only
    rcases made.write_cases (fileIn base) with ⟨refusal, hrefused⟩ | hwrite
    · rw [hrefused, hrefused]
      exact ⟨rfl, alikeButStamp_refl base _ _ made⟩
    · rw [hwrite, hwrite]
      have hsame : SameButStamp report.stamp stamp (before ++ (one ++ after))
          (before ++ (two ++ after)) :=
        ⟨before, after, one, two, hone, htwo, rfl, rfl⟩
      have halike := alikeButStamp_put base made hsame
      cases problem with
      | none => exact ⟨rfl, halike⟩
      | some unencodable => exact ⟨rfl, halike⟩
  · exact ⟨rfl, alikeButStamp_refl base _ _ made⟩

end Report

end FieldAudit
