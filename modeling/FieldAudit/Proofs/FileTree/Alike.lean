import FieldAudit.Proofs.FileTree

/-!
Paths that lead on, and paths that lead to the same kind of node in two workspaces. A path that goes
on from another one passes the directory where that one ends (`find_of_find_join`), so what leads
somewhere in two workspaces passes directories in both.
-/

set_option autoImplicit false

namespace FieldAudit

namespace Workspace

/-! ## 1. Joined paths -/

variable {w w' : Workspace}

theorem start_join (w : Workspace) {base path : Text} (hpath : Path.isAbsolute path = false) :
    w.start (Path.join base path) = w.start base := by
  rw [start, start, Path.isAbsolute_join hpath]

theorem endOf_join (w : Workspace) {base path : Text} (hpath : Path.isAbsolute path = false) :
    w.endOf (Path.join base path) = (Path.parts path).foldl Path.step (w.endOf base) := by
  rw [endOf, endOf, start_join w hpath, Path.foldl_step_join hpath]

/-- A slash at the end leads nowhere else. -/
theorem endOf_concat_slash (w : Workspace) (before : Text) :
    w.endOf (before ++ [.char '/'])
      = (Path.parts before).foldl Path.step (w.start (before ++ [.char '/'])) := by
  rw [endOf, Path.parts_concat_slash, List.foldl_append]
  exact Path.step_empty _

/-- A slash at the end asks for a directory. -/
theorem find_concat_slash {before : Text} {node : Node}
    (h : w.find (before ++ [.char '/']) = .ok node) :
    node = .directory := by
  have hleads := (find_eq_ok_iff w _ node).mp h
  have hfollow := hleads.follow
  rw [Path.parts_concat_slash] at hfollow
  obtain ⟨-, hdirectory⟩ := follow_of_follow_append hfollow (List.cons_ne_nil [] [])
  rw [← endOf_concat_slash, hleads.node] at hdirectory
  exact Option.some.inj hdirectory

/-- A path that goes on from another one leads somewhere: the other one leads to a directory. -/
theorem find_of_find_join {base path : Text} (hne : base ≠ [])
    (hpath : Path.isAbsolute path = false) {node : Node}
    (h : w.find (Path.join base path) = .ok node) : w.find base = .ok .directory := by
  rw [find_eq_ok_iff] at h ⊢
  obtain ⟨before, hjoin, hbase⟩ := Path.exists_join_eq hne hpath
  have hfollow := h.follow
  rw [start_join w hpath, hjoin, Path.parts_append_slash] at hfollow
  obtain ⟨hbefore, hdirectory⟩ := follow_of_follow_append hfollow (Text.pieces_ne_nil _ path)
  have htaken := h.taken
  rw [hjoin] at htaken
  rcases hbase with rfl | rfl
  · exact ⟨ofPath?_sublist (List.sublist_append_left _ _) htaken, hne, hbefore, hdirectory⟩
  · have hsub : (before ++ [Point.char '/']).Sublist (before ++ .char '/' :: path) :=
      (List.cons_sublist_cons.mpr (List.nil_sublist path)).append_left before
    have hend := endOf_concat_slash w before
    refine ⟨ofPath?_sublist hsub htaken, hne, ?_, by rw [hend, hdirectory]⟩
    rw [Path.parts_concat_slash, follow_append, hbefore, hend]
    change follow w.tree _ [[]] = _
    have hsize : ¬ Path.longestName < Path.size [] := by decide
    have hstep : ∀ location, Path.step location [] = location := Path.step_empty
    rw [follow, hdirectory]
    dsimp only
    rw [if_neg hsize, hstep, follow, hdirectory]
    rfl

/-- What is found under a name below a directory, or under several, is the node there. -/
theorem node?_of_find_join (w : Workspace) {base : Text} {names : List Text} (hne : names ≠ [])
    (hnames : ∀ name ∈ names, Path.IsName name) {node : Node}
    (h : w.find (Path.join base (Text.join "/" names)) = .ok node) :
    w.tree.node? (w.endOf base ++ names) = some node := by
  have hnode := ((find_eq_ok_iff w _ node).mp h).node
  rwa [endOf_join w (Path.isAbsolute_join_names hne hnames), Path.parts_join_names hne hnames,
    Path.foldl_step_of_isName hnames] at hnode

/-! ## 2. Two workspaces -/

/-- A workspace as a file system has it: its tree is sound, and the working directory is there. -/
structure Sound (w : Workspace) : Prop where
  tree : w.tree.Sound
  directory : w.tree.node? w.directory = some .directory

instance (w : Workspace) : Decidable w.Sound :=
  decidable_of_iff (w.tree.Sound ∧ w.tree.node? w.directory = some .directory)
    ⟨fun h => ⟨h.1, h.2⟩, fun h => ⟨h.tree, h.directory⟩⟩

/-- A path that leads to a directory in two workspaces, or to a file in both. -/
inductive Alike (w w' : Workspace) (path : Text) : Prop
  | directories (h : w.find path = .ok .directory) (h' : w'.find path = .ok .directory)
  | files {bytes bytes' : List UInt8} (h : w.find path = .ok (.file bytes))
      (h' : w'.find path = .ok (.file bytes'))

/-- Names below a directory at which something is. -/
theorem Sound.isName_of_mem (h : w.Sound) {location names : Location} {node : Node}
    (hnode : w.tree.node? (location ++ names) = some node) : ∀ name ∈ names, Path.IsName name := by
  intro name hname
  refine h.tree.isName_of_node? ?_ name (List.mem_append_right location hname)
  rw [hnode]
  rfl

theorem Alike.exists_find {path : Text} (h : Alike w w' path) :
    ∃ node, w'.find path = .ok node := by
  cases h with
  | directories _ h' => exact ⟨_, h'⟩
  | files _ h' => exact ⟨_, h'⟩

/-- Where a path leads on below a directory in two workspaces, there is a node of the same kind in
both. -/
theorem Alike.exists_node? {base : Text} {names : List Text} (hne : names ≠ [])
    (hnames : ∀ name ∈ names, Path.IsName name)
    (h : Alike w w' (Path.join base (Text.join "/" names))) {node : Node}
    (hnode : w.tree.node? (w.endOf base ++ names) = some node) :
    ∃ other, w'.tree.node? (w'.endOf base ++ names) = some other
      ∧ (node = .directory → other = .directory) := by
  cases h with
  | directories _ h' => exact ⟨.directory, node?_of_find_join w' hne hnames h', fun _ => rfl⟩
  | @files bytes bytes' h h' =>
    refine ⟨.file bytes', node?_of_find_join w' hne hnames h', ?_⟩
    rintro rfl
    have hfile := hnode.symm.trans (node?_of_find_join w hne hnames h)
    simp at hfile

theorem isFile_iff {path : Text} :
    w.isFile path = true ↔ ∃ bytes, w.find path = .ok (.file bytes) := by
  unfold isFile
  cases hfind : w.find path with
  | error kind => simp
  | ok node => cases node <;> simp

theorem holds_of_isFile {path : Text} (h : w.isFile path = true) : w.holds path = true := by
  obtain ⟨bytes, hfind⟩ := isFile_iff.mp h
  rw [holds, hfind]

theorem alike_of_isFile {path : Text} (h : w.isFile path = true) (h' : w'.isFile path = true) :
    Alike w w' path := by
  obtain ⟨bytes, hfind⟩ := isFile_iff.mp h
  obtain ⟨bytes', hfind'⟩ := isFile_iff.mp h'
  exact .files hfind hfind'

end Workspace

end FieldAudit
