import FieldAudit.Proofs.FileTree.Alike
import FieldAudit.Proofs.FileTree.Normal
import FieldAudit.Proofs.Report.Stored

/-!
Files after a report has been stored. Every file but that of the report is found and read as before
(`Leaves.isFile`, `Leaves.read_eq`). The other way round, a path that leads to another file
afterwards may have led nowhere before: it passes a directory that was made. Such a path goes up
again (`isFile_of_no_up`), and there is none if the directory of reports was there before
(`isFile_of_there`).
-/

set_option autoImplicit false

namespace FieldAudit

open scoped List

namespace Report.Leaves

variable {base : Text} {w after : Workspace}

/-- A report stored again goes to the same place. -/
theorem baseDirectory_eq (h : Leaves base w after) (base? : Option Text) :
    baseDirectory after base? = baseDirectory w base? := by
  obtain ⟨habsolute, hpath⟩ := Workspace.absolute_eq_of_directory h.directory
  cases base? with
  | none => exact hpath
  | some base =>
    rw [baseDirectory, baseDirectory, habsolute, hpath]

/-- Directories stay. -/
theorem node?_directory (h : Leaves base w after) {place : Location}
    (hplace : w.tree.node? place = some .directory) : after.tree.node? place = some .directory := by
  have hother : place ≠ Path.names (fileIn base) := by
    rintro rfl
    exact h.free hplace
  rcases h.others place hother with hkept | ⟨-, hnone, -⟩
  · rw [hkept, hplace]
  · rw [hplace] at hnone
    simp at hnone

/-- Files stay files, and all but the report stay as they are. -/
theorem node?_file (h : Leaves base w after) {place : Location} {bytes : List UInt8}
    (hplace : w.tree.node? place = some (.file bytes)) :
    (∃ others, after.tree.node? place = some (.file others))
      ∧ (place ≠ Path.names (fileIn base) → after.tree.node? place = some (.file bytes)) := by
  have hkept : place ≠ Path.names (fileIn base) → after.tree.node? place = some (.file bytes) := by
    intro hother
    rcases h.others place hother with hkept | ⟨-, hnone, -⟩
    · rw [hkept, hplace]
    · rw [hplace] at hnone
      simp at hnone
  refine ⟨?_, hkept⟩
  by_cases heq : place = Path.names (fileIn base)
  · rw [heq]
    exact h.file
  · exact ⟨bytes, hkept heq⟩

theorem sound_after (h : Leaves base w after) (hsound : w.Sound) : after.Sound where
  tree := h.sound hsound.tree
  directory := by
    rw [h.directory]
    exact h.node?_directory hsound.directory

/-- What is found is found again at the same place. -/
theorem leads (h : Leaves base w after) {path : Text} {node other : Node}
    (hleads : Workspace.Leads w path node) (hother : after.tree.node? (w.endOf path) = some other) :
    Workspace.Leads after path other := by
  obtain ⟨hend, hstart⟩ := Workspace.endOf_eq_of_directory h.directory path
  refine ⟨hleads.taken, hleads.ne_empty, ?_, by rw [hend, hother]⟩
  rw [hend, hstart]
  refine Workspace.follow_congr hleads.follow ?_ fun done rest _ _ => h.node?_directory
  rw [hother]
  rfl

theorem isFile (h : Leaves base w after) {path : Text} (hfile : w.isFile path = true) :
    after.isFile path = true := by
  obtain ⟨bytes, hfind⟩ := Workspace.isFile_iff.mp hfile
  have hleads := (Workspace.find_eq_ok_iff w path _).mp hfind
  obtain ⟨⟨others, hothers⟩, -⟩ := h.node?_file hleads.node
  exact Workspace.isFile_iff.mpr
    ⟨others, (Workspace.find_eq_ok_iff after path _).mpr (h.leads hleads hothers)⟩

/-- Every file but the report is read as before. -/
theorem read_eq (h : Leaves base w after) {path : Text} {bytes : List UInt8}
    (hread : w.read path = .ok bytes) (hother : w.endOf path ≠ Path.names (fileIn base)) :
    after.read path = .ok bytes := by
  have hfind : w.find path = .ok (.file bytes) := by
    unfold Workspace.read at hread
    split at hread
    · next found hfind => rw [hfind, Except.ok.inj hread]
    · simp at hread
    · simp at hread
  have hleads := (Workspace.find_eq_ok_iff w path _).mp hfind
  obtain ⟨-, hkept⟩ := h.node?_file hleads.node
  have hafter := (Workspace.find_eq_ok_iff after path _).mpr (h.leads hleads (hkept hother))
  rw [Workspace.read, hafter]

/-! ## Files that are found afterwards -/

/-- Another file than the report was there before. -/
theorem node?_eq_of_file (h : Leaves base w after) {place : Location} {bytes : List UInt8}
    (hplace : after.tree.node? place = some (.file bytes))
    (hother : place ≠ Path.names (fileIn base)) :
    w.tree.node? place = some (.file bytes) := by
  rcases h.others place hother with hkept | ⟨-, -, hmade⟩
  · rw [← hkept, hplace]
  · rw [hplace] at hmade
    simp at hmade

/-- A path to another file than the report led to the file before if its parts could be followed
there. -/
theorem isFile_of_follow (h : Leaves base w after) {path : Text} (hfile : after.isFile path = true)
    (hother : after.endOf path ≠ Path.names (fileIn base))
    (hway : ∀ location target, Workspace.follow after.tree location (Path.parts path) = .ok target →
      after.tree.node? target ≠ some .directory → (w.tree.node? target).isSome →
      Workspace.follow w.tree location (Path.parts path) = .ok target) : w.isFile path = true := by
  obtain ⟨bytes, hfind⟩ := Workspace.isFile_iff.mp hfile
  have hleads := (Workspace.find_eq_ok_iff after path _).mp hfind
  have hnode := h.node?_eq_of_file hleads.node hother
  have hfollow := hway _ _ hleads.follow (by rw [hleads.node]; simp) (by rw [hnode]; rfl)
  obtain ⟨hend, hstart⟩ := Workspace.endOf_eq_of_directory h.directory path
  rw [hend, hstart] at hfollow
  rw [hend] at hnode
  exact Workspace.isFile_iff.mpr ⟨bytes, (Workspace.find_eq_ok_iff w path _).mpr
    ⟨hleads.taken, hleads.ne_empty, hfollow, hnode⟩⟩

/-- A path to another file than the report that does not go up led to the file before. -/
theorem isFile_of_no_up (h : Leaves base w after) (hsound : w.Sound) {path : Text}
    (hfile : after.isFile path = true) (hother : after.endOf path ≠ Path.names (fileIn base))
    (hup : Text.ofString ".." ∉ Path.parts path) : w.isFile path = true :=
  h.isFile_of_follow hfile hother fun _ _ hfollow hkind hthere =>
    Workspace.follow_congr_of_no_up hsound.tree hup hfollow hkind hthere

/-- If the directory of reports was there before, every path to another file than the report led
there before. -/
theorem isFile_of_there (h : Leaves base w after) (hsound : w.Sound)
    (hthere : w.tree.node? (Path.names (directoryIn base)) = some .directory) {path : Text}
    (hfile : after.isFile path = true) (hother : after.endOf path ≠ Path.names (fileIn base)) :
    w.isFile path = true := by
  have hdirectory : ∀ place, after.tree.node? place = some .directory →
      w.tree.node? place = some .directory := by
    intro place hplace
    have hne : place ≠ Path.names (fileIn base) := by
      rintro rfl
      obtain ⟨bytes, hbytes⟩ := h.file
      rw [hbytes] at hplace
      simp at hplace
    rcases h.others place hne with hkept | ⟨hway, hnone, -⟩
    · rw [← hkept, hplace]
    · -- on the way to a directory that was there, directories were there
      by_cases heq : place = Path.names (directoryIn base)
      · rw [heq, hthere]
      · exact hsound.tree.node?_of_prefix (by rw [hthere]; rfl) hway heq
  exact h.isFile_of_follow hfile hother fun _ _ hfollow _ htarget =>
    Workspace.follow_congr hfollow htarget fun done rest _ _ => hdirectory _

end Report.Leaves

end FieldAudit
