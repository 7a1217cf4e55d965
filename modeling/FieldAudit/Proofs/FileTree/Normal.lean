import FieldAudit.Proofs.FileTree.Alike

/-!
Normal forms of paths. The normal form of a path has the names of the place where the path ends
(`names_absolute`), and leads where the path does (`find_absolute`): it passes no other places, and
takes no more bytes.
-/

set_option autoImplicit false

namespace FieldAudit.Workspace

variable {w w' : Workspace}

/-- The normal form of a path has the names of the place where the path ends. -/
theorem names_absolute {w : Workspace} (h : w.Sound) (path : Text) :
    Path.names (w.absolute path) = w.endOf path := by
  have hdirectory : ∀ name ∈ w.directory, Path.IsName name := by
    refine h.tree.isName_of_node? ?_
    rw [h.directory]
    rfl
  have hhere : Path.names w.directoryPath = w.directory := by
    by_cases hne : w.directory = []
    · rw [directoryPath, hne]
      rfl
    · exact Path.names_ofNames (.inl rfl) hne hdirectory
  unfold Workspace.absolute Path.absolute
  dsimp only
  rw [Path.names_ofNames_names]
  cases hpath : Path.isAbsolute path with
  | true => rw [Path.join, if_pos hpath, endOf_of_isAbsolute hpath]
  | false =>
    rw [Path.names, Path.foldl_step_join hpath]
    change (Path.parts path).foldl Path.step (Path.names w.directoryPath) = _
    rw [hhere, endOf, start, hpath, if_neg Bool.false_ne_true]

theorem isAbsolute_absolute (w : Workspace) (path : Text) :
    Path.isAbsolute (w.absolute path) = true :=
  Path.isAbsolute_ofNames (Path.isRoot_rootOf _) _

/-- The normal form of an absolute path is made of its own root and names. -/
theorem absolute_of_isAbsolute {path : Text} (h : Path.isAbsolute path = true) (w : Workspace) :
    w.absolute path = Path.ofNames (Path.rootOf path) (Path.names path) := by
  unfold Workspace.absolute Path.absolute
  dsimp only
  rw [Path.join, if_pos h]

/-- A normal form is its own normal form. -/
theorem absolute_absolute (w : Workspace) (path : Text) :
    w.absolute (w.absolute path) = w.absolute path := by
  rw [absolute_of_isAbsolute (isAbsolute_absolute w path)]
  unfold Workspace.absolute Path.absolute
  dsimp only
  rw [Path.names_ofNames_names,
    Path.rootOf_ofNames (Path.isRoot_rootOf _) (Path.isName_of_mem_names _)]

/-- **The normal form of a path leads where the path does.** -/
theorem find_absolute {path : Text} (h : Path.isAbsolute path = true) {node : Node}
    (hfind : w.find path = .ok node) : w.find (w.absolute path) = .ok node := by
  obtain ⟨htaken, hfollow, hnode⟩ := find_eq_ok h hfind
  have hroot := Path.isRoot_rootOf path
  have hnames := Path.isName_of_mem_names path
  have hkind := ofPath?_sublist (Path.ofNames_sublist h (List.Sublist.refl _)) htaken
  have hstart : follow w.tree [] [] = .ok [] := by
    rw [follow, FileTree.node?_nil]
    rfl
  have hway : follow w.tree [] (Path.parts (Path.ofNames (Path.rootOf path) (Path.names path)))
      = .ok (Path.names path) := by
    by_cases hne : Path.names path = []
    · -- the root has no parts but empty ones
      rw [hne]
      rcases hroot with heq | heq
      · rw [heq]
        exact (follow_replicate w.tree 2 []).trans hstart
      · rw [heq]
        exact (follow_replicate w.tree 3 []).trans hstart
    · obtain ⟨count, hparts⟩ := Path.exists_parts_ofNames hroot
      rw [hparts hne hnames, follow_replicate, follow_names hfollow hnames]
  rw [absolute_of_isAbsolute h]
  exact find_of_follow (Path.isAbsolute_ofNames hroot _) hkind hway hnode

/-! ## The same nodes -/

theorem follow_congr_node? {tree other : FileTree} (h : other.node? = tree.node?) :
    follow other = follow tree := by
  funext location parts
  induction parts generalizing location with
  | nil => rw [follow, follow, h]
  | cons part parts ih =>
    rw [follow, follow, h]
    cases tree.node? location with
    | none => rfl
    | some node =>
      cases node with
      | file bytes => rfl
      | directory =>
        dsimp only
        rw [ih]

/-- Where the nodes are the same, paths lead to the same. -/
theorem find_congr (hdirectory : w'.directory = w.directory) (h : w'.tree.node? = w.tree.node?) :
    w'.find = w.find := by
  funext path
  unfold find locate
  rw [follow_congr_node? h, hdirectory, h]

end FieldAudit.Workspace
