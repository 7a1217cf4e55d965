import FieldAudit.Proofs.FileTree.Nodes
import FieldAudit.Proofs.Text.Utf8

/-!
What operations on a tree of files leave alone. Making directories adds directories on the way to a
path where nothing was, and changes nothing else (`prepared_makeDirectories`); it needs no tree in
which every node lies in a directory. Writing a file changes the node of the file only, and the file
is read back from the same path (`write_eq_ok`). Directories that are there are not made again
(`makeDirectories_eq_self`).
-/

set_option autoImplicit false

namespace FieldAudit

open scoped List

namespace Workspace

/-! ## 1. Following a path -/

/-- The parts of a path are followed one after the other. -/
theorem follow_append (tree : FileTree) (location : Location) (first second : List Text) :
    follow tree location (first ++ second)
      = (follow tree location first).bind fun reached => follow tree reached second := by
  induction first generalizing location with
  | nil =>
    rw [List.nil_append, follow]
    cases hnode : tree.node? location with
    | none =>
      cases second with
      | nil => rw [follow, hnode]; rfl
      | cons part rest => rw [follow, hnode]; rfl
    | some node => rfl
  | cons part first ih =>
    rw [List.cons_append, follow, follow]
    cases hnode : tree.node? location with
    | none => rfl
    | some node =>
      cases node with
      | file bytes => rfl
      | directory =>
        dsimp only
        split
        · rfl
        · exact ih (Path.step location part)

/-- Where a path ends, and that there is something. -/
theorem follow_eq_ok {tree : FileTree} {location target : Location} {parts : List Text}
    (h : follow tree location parts = .ok target) :
    target = parts.foldl Path.step location ∧ (tree.node? target).isSome := by
  induction parts generalizing location with
  | nil =>
    rw [follow] at h
    split at h
    · next hsome =>
      obtain rfl := Except.ok.inj h
      exact ⟨rfl, hsome⟩
    · simp at h
  | cons part parts ih =>
    rw [follow] at h
    split at h
    · simp at h
    · simp at h
    · split at h
      · simp at h
      · exact ih h

/-- Parts that others follow lead to a directory. -/
theorem follow_of_follow_append {tree : FileTree} {location target : Location}
    {first second : List Text} (h : follow tree location (first ++ second) = .ok target)
    (hne : second ≠ []) :
    follow tree location first = .ok (first.foldl Path.step location)
      ∧ tree.node? (first.foldl Path.step location) = some .directory := by
  rw [follow_append] at h
  cases hfirst : follow tree location first with
  | error kind =>
    rw [hfirst] at h
    simp [Except.bind] at h
  | ok place =>
    obtain rfl : place = first.foldl Path.step location := (follow_eq_ok hfirst).1
    rw [hfirst] at h
    change follow tree _ second = _ at h
    obtain ⟨part, rest, rfl⟩ := List.exists_cons_of_ne_nil hne
    rw [follow] at h
    split at h
    · simp at h
    · simp at h
    · next hdirectory => exact ⟨rfl, hdirectory⟩

/-- Empty parts lead nowhere else. -/
theorem follow_replicate (tree : FileTree) (count : Nat) (parts : List Text) :
    follow tree [] (List.replicate count (Text.ofString "") ++ parts) = follow tree [] parts := by
  induction count with
  | zero => rfl
  | succ count ih =>
    have hsize : ¬ Path.longestName < Path.size (Text.ofString "") := by decide
    rw [List.replicate_succ, List.cons_append, follow, FileTree.node?_nil]
    dsimp only
    rw [if_neg hsize, Path.step_empty, ih]

/-- A name from a directory leads to what it names there. -/
theorem follow_name {tree : FileTree} {location : Location} {name : Text} (hname : Path.IsName name)
    (hdirectory : tree.node? location = some .directory) :
    follow tree location [name]
      = if Path.longestName < Path.size name then .error .tooLong
        else if (tree.node? (location ++ [name])).isSome then .ok (location ++ [name])
        else .error .missing := by
  rw [follow, hdirectory]
  dsimp only
  rw [Path.step_of_isName hname, follow]

/-- A path that leads somewhere still does so when a node is set where no directory was: it does not
pass there. -/
theorem follow_put {tree : FileTree} {location target : Location} {parts : List Text}
    (h : follow tree location parts = .ok target) {place : Location} (hne : place ≠ [])
    (hplace : tree.node? place ≠ some .directory) (node : Node) :
    follow (tree.put place node) location parts = .ok target := by
  induction parts generalizing location with
  | nil =>
    rw [follow] at h ⊢
    split at h
    · next hsome =>
      rw [FileTree.node?_put tree hne, if_pos, h]
      split
      · rfl
      · exact hsome
    · simp at h
  | cons part parts ih =>
    rw [follow] at h ⊢
    split at h
    · simp at h
    · simp at h
    · next hdirectory =>
      -- the path goes on from directories only, and no directory was at the place
      have hapart : location ≠ place := fun heq => hplace (heq ▸ hdirectory)
      rw [FileTree.node?_put_of_ne tree hne hapart, hdirectory]
      dsimp only
      split at h
      · simp at h
      · next hshort =>
        rw [if_neg hshort]
        exact ih h

/-- A path leads to the same place in another tree if directories on the way are directories there,
and if something is at the end. -/
theorem follow_congr {tree other : FileTree} {location target : Location} {parts : List Text}
    (h : follow tree location parts = .ok target) (htarget : (other.node? target).isSome)
    (hway : ∀ done rest, parts = done ++ rest → rest ≠ [] →
      tree.node? (done.foldl Path.step location) = some .directory →
      other.node? (done.foldl Path.step location) = some .directory) :
    follow other location parts = .ok target := by
  induction parts generalizing location with
  | nil =>
    obtain ⟨rfl, -⟩ := follow_eq_ok h
    rw [follow, if_pos htarget]
  | cons part parts ih =>
    rw [follow] at h ⊢
    split at h
    · simp at h
    · simp at h
    · next hdirectory =>
      have hother := hway [] (part :: parts) rfl (List.cons_ne_nil part parts) hdirectory
      rw [List.foldl_nil] at hother
      rw [hother]
      dsimp only
      split at h
      · simp at h
      · next hshort =>
        rw [if_neg hshort]
        refine ih h ?_
        intro done rest heq hne
        exact hway (part :: done) rest (by rw [heq, List.cons_append]) hne

/-- A path that never goes back and leads to something else than a directory leads there in every
sound tree that has something there: the places on the way are those of what is there. -/
theorem follow_congr_of_no_up {tree other : FileTree} (hsound : other.Sound)
    {location target : Location} {parts : List Text} (hup : Text.ofString ".." ∉ parts)
    (h : follow tree location parts = .ok target) (hkind : tree.node? target ≠ some .directory)
    (htarget : (other.node? target).isSome) : follow other location parts = .ok target := by
  refine follow_congr h htarget ?_
  rintro done rest rfl - hdirectory
  refine hsound.node?_of_prefix htarget ?_ ?_
  · rw [(follow_eq_ok h).1, List.foldl_append]
    exact Path.prefix_foldl_step (fun hmem => hup (List.mem_append_right done hmem)) _
  · rintro rfl
    exact hkind hdirectory

/-! ## 2. Finding a node -/

/-- A path that is made of two texts has the bytes of both. -/
theorem bytes_append_eq_ok_iff (first second : Text) (bytes : List UInt8) :
    Path.bytes (first ++ second) = .ok bytes
      ↔ ∃ start rest, Path.bytes first = .ok start ∧ Path.bytes second = .ok rest
        ∧ bytes = start ++ rest :=
  Text.Utf8.encodeFrom_zero_append_eq_ok_iff first second bytes

/-- A path that has bytes is taken if none of them is null and they are not too many. -/
theorem ofPath?_of_bytes {path : Text} {bytes : List UInt8} (h : Path.bytes path = .ok bytes) :
    RefusalKind.ofPath? path
      = if bytes.contains 0 then some .nullCharacter
        else if Path.longestPath < bytes.length then some .tooLong
        else none := by
  rw [RefusalKind.ofPath?, h]

/-- The paths that the file system takes. -/
theorem ofPath?_eq_none_iff (path : Text) :
    RefusalKind.ofPath? path = none
      ↔ ∃ bytes, Path.bytes path = .ok bytes ∧ bytes.contains 0 = false
        ∧ bytes.length ≤ Path.longestPath := by
  cases hbytes : Path.bytes path with
  | error unencodable => simp [RefusalKind.ofPath?, hbytes]
  | ok bytes =>
    rw [ofPath?_of_bytes hbytes]
    simp only [Except.ok.injEq, exists_eq_left']
    cases bytes.contains 0 with
    | true => simp
    | false => simp

/-- The file system takes a path if it takes a path that has more points. -/
theorem ofPath?_sublist {part whole : Text} (h : part <+ whole)
    (hwhole : RefusalKind.ofPath? whole = none) : RefusalKind.ofPath? part = none := by
  obtain ⟨bytes, hbytes, hnull, hshort⟩ := (ofPath?_eq_none_iff whole).mp hwhole
  obtain ⟨own, hown, hsub⟩ := Text.Utf8.encodeFrom_sublist h hbytes
  refine (ofPath?_eq_none_iff part).mpr ⟨own, hown, ?_, hsub.length_le.trans hshort⟩
  rw [← Bool.not_eq_true, List.contains_iff_mem] at hnull ⊢
  exact fun hmem => hnull (hsub.subset hmem)

theorem ofPath?_ne_missing (path : Text) : RefusalKind.ofPath? path ≠ some .missing := by
  unfold RefusalKind.ofPath?
  split
  · simp
  · split
    · simp
    · split <;> simp

/-- An absolute path that the file system takes is followed from the root. -/
theorem locate_of_isAbsolute {path : Text} (habsolute : Path.isAbsolute path = true)
    (w : Workspace) :
    w.locate path = match RefusalKind.ofPath? path with
      | some kind => .error kind
      | none => follow w.tree [] (Path.parts path) := by
  have hne : path ≠ "" := by
    rintro rfl
    exact absurd habsolute (by decide)
  unfold locate
  rw [if_neg hne, habsolute]
  rfl

/-- An absolute path that the file system takes ends where its parts lead from the root. -/
theorem follow_of_locate {path : Text} (habsolute : Path.isAbsolute path = true) {w : Workspace}
    {result : Except RefusalKind Location} (h : w.locate path = result)
    (htaken : ∀ kind, RefusalKind.ofPath? path = some kind → result ≠ .error kind) :
    RefusalKind.ofPath? path = none ∧ follow w.tree [] (Path.parts path) = result := by
  rw [locate_of_isAbsolute habsolute] at h
  cases hkind : RefusalKind.ofPath? path with
  | some kind =>
    rw [hkind] at h
    exact absurd h.symm (htaken kind hkind)
  | none =>
    rw [hkind] at h
    exact ⟨rfl, h⟩

theorem find_eq_ok_iff_locate (w : Workspace) (path : Text) (node : Node) :
    w.find path = .ok node ↔ ∃ location, w.locate path = .ok location
      ∧ w.tree.node? location = some node := by
  unfold find
  cases w.locate path with
  | error kind => simp
  | ok location => cases hnode : w.tree.node? location <;> simp [hnode]

/-- Where a path starts. -/
def start (w : Workspace) (path : Text) : Location :=
  if Path.isAbsolute path then [] else w.directory

/-- Where a path ends if it leads anywhere. -/
def endOf (w : Workspace) (path : Text) : Location :=
  (Path.parts path).foldl Path.step (w.start path)

theorem start_of_isAbsolute {path : Text} (h : Path.isAbsolute path = true) (w : Workspace) :
    w.start path = [] := by
  rw [start, if_pos h]

theorem endOf_of_isAbsolute {path : Text} (h : Path.isAbsolute path = true) (w : Workspace) :
    w.endOf path = Path.names path := by
  rw [endOf, start_of_isAbsolute h, Path.names]

/-- Of a workspace, only the working directory bears on where a path ends and on its normal form. -/
theorem endOf_eq_of_directory {w w' : Workspace} (h : w'.directory = w.directory) (path : Text) :
    w'.endOf path = w.endOf path ∧ w'.start path = w.start path := by
  have hstart : w'.start path = w.start path := by
    rw [start, start, h]
  exact ⟨by rw [endOf, endOf, hstart], hstart⟩

theorem absolute_eq_of_directory {w w' : Workspace} (h : w'.directory = w.directory) :
    w'.absolute = w.absolute ∧ w'.directoryPath = w.directoryPath := by
  have hpath : w'.directoryPath = w.directoryPath := by
    rw [directoryPath, directoryPath, h]
  refine ⟨?_, hpath⟩
  funext path
  rw [Workspace.absolute, Workspace.absolute, hpath]

/-- A path leads to a node: the file system takes the path, its parts lead to the place where it
ends, and the node is there. -/
structure Leads (w : Workspace) (path : Text) (node : Node) : Prop where
  taken : RefusalKind.ofPath? path = none
  ne_empty : path ≠ ""
  follow : follow w.tree (w.start path) (Path.parts path) = .ok (w.endOf path)
  node : w.tree.node? (w.endOf path) = some node

/-- A path ends where it is located, and the file system has followed it there. -/
theorem locate_eq_ok_iff (w : Workspace) (path : Text) (location : Location) :
    w.locate path = .ok location
      ↔ RefusalKind.ofPath? path = none ∧ path ≠ ""
        ∧ follow w.tree (w.start path) (Path.parts path) = .ok location
        ∧ location = w.endOf path := by
  unfold locate
  constructor
  · intro h
    split at h
    · simp at h
    · next hkind =>
      split at h
      · simp at h
      · next hne => exact ⟨hkind, hne, h, (follow_eq_ok h).1⟩
  · rintro ⟨hkind, hne, hfollow, -⟩
    rw [hkind]
    dsimp only
    rw [if_neg hne]
    exact hfollow

theorem find_eq_ok_iff (w : Workspace) (path : Text) (node : Node) :
    w.find path = .ok node ↔ Leads w path node := by
  rw [find_eq_ok_iff_locate]
  simp only [locate_eq_ok_iff]
  constructor
  · rintro ⟨location, ⟨hkind, hne, hfollow, rfl⟩, hnode⟩
    exact ⟨hkind, hne, hfollow, hnode⟩
  · rintro ⟨hkind, hne, hfollow, hnode⟩
    exact ⟨w.endOf path, ⟨hkind, hne, hfollow, rfl⟩, hnode⟩

/-- The node at the end of an absolute path is the node at its names. -/
theorem find_eq_ok {path : Text} (habsolute : Path.isAbsolute path = true) {w : Workspace}
    {node : Node} (h : w.find path = .ok node) :
    RefusalKind.ofPath? path = none
      ∧ follow w.tree [] (Path.parts path) = .ok (Path.names path)
      ∧ w.tree.node? (Path.names path) = some node := by
  obtain ⟨hkind, -, hfollow, hnode⟩ := (find_eq_ok_iff w path node).mp h
  rw [start_of_isAbsolute habsolute, endOf_of_isAbsolute habsolute] at hfollow
  rw [endOf_of_isAbsolute habsolute] at hnode
  exact ⟨hkind, hfollow, hnode⟩

theorem find_of_follow {path : Text} (habsolute : Path.isAbsolute path = true) {w : Workspace}
    (hkind : RefusalKind.ofPath? path = none) {location : Location}
    (hfollow : follow w.tree [] (Path.parts path) = .ok location) {node : Node}
    (hnode : w.tree.node? location = some node) : w.find path = .ok node := by
  rw [find_eq_ok_iff_locate, locate_of_isAbsolute habsolute, hkind]
  exact ⟨location, hfollow, hnode⟩

/-- What stands in a directory by its name: the path of the directory leads to a directory. -/
theorem find_of_find_name {directory name : Text} (habsolute : Path.isAbsolute directory = true)
    (hname : Path.IsName name) {w : Workspace} {node : Node}
    (h : w.find (directory ++ .char '/' :: name) = .ok node) :
    w.find directory = .ok .directory := by
  obtain ⟨hkind, hfollow, -⟩ := find_eq_ok (Path.isAbsolute_append habsolute _) h
  rw [Path.parts_append hname] at hfollow
  obtain ⟨hparent, hdirectory⟩ := follow_of_follow_append hfollow (List.cons_ne_nil name [])
  exact find_of_follow habsolute (ofPath?_sublist (List.sublist_append_left _ _) hkind) hparent
    hdirectory

/-- A path at which something is missing: it is one that the file system takes. -/
theorem find_eq_missing {path : Text} (habsolute : Path.isAbsolute path = true) {w : Workspace}
    (h : w.find path = .error .missing) :
    RefusalKind.ofPath? path = none ∧ follow w.tree [] (Path.parts path) = .error .missing := by
  cases hlocate : w.locate path with
  | error kind =>
    rw [find, hlocate] at h
    obtain rfl : kind = .missing := Except.error.inj h
    refine follow_of_locate habsolute hlocate fun other hother heq => ?_
    obtain rfl := Except.error.inj heq
    exact ofPath?_ne_missing path hother
  | ok location =>
    -- a location that is found has a node, so nothing is missing there
    obtain ⟨-, hfollow⟩ := follow_of_locate habsolute hlocate fun _ _ => by simp
    obtain ⟨node, hnode⟩ := Option.isSome_iff_exists.mp (follow_eq_ok hfollow).2
    rw [(find_eq_ok_iff_locate w path node).mpr ⟨location, hlocate, hnode⟩] at h
    simp at h

/-- Where a name is missing in something that is there, that is a directory and holds nothing of the
name, and the name is not too long. -/
theorem follow_name_eq_missing {tree : FileTree} {location : Location} {name : Text}
    (hname : Path.IsName name) (hthere : (tree.node? location).isSome)
    (h : follow tree location [name] = .error .missing) :
    tree.node? location = some .directory ∧ ¬ Path.longestName < Path.size name
      ∧ tree.node? (location ++ [name]) = none := by
  obtain ⟨node, hnode⟩ := Option.isSome_iff_exists.mp hthere
  cases node with
  | file bytes =>
    rw [follow, hnode] at h
    simp at h
  | directory =>
    rw [follow_name hname hnode] at h
    split at h
    · simp at h
    · next hshort =>
      split at h
      · simp at h
      · next hnone => exact ⟨hnode, hshort, Option.not_isSome_iff_eq_none.mp hnone⟩

/-- A node that is set at a missing name below a place is reached by the name. -/
theorem follow_put_name {tree : FileTree} {parts : List Text} {place : Location} {name : Text}
    (hname : Path.IsName name) (hparent : follow tree [] parts = .ok place)
    (hmissing : follow tree [] (parts ++ [name]) = .error .missing) :
    tree.node? place = some .directory ∧ tree.node? (place ++ [name]) = none
      ∧ ∀ node, follow (tree.put (place ++ [name]) node) [] (parts ++ [name])
        = .ok (place ++ [name]) := by
  rw [follow_append, hparent] at hmissing
  obtain ⟨hdirectory, hshort, hnone⟩ :=
    follow_name_eq_missing hname (follow_eq_ok hparent).2 hmissing
  have hne : place ++ [name] ≠ [] := List.append_ne_nil_of_right_ne_nil _ (List.cons_ne_nil name [])
  have hapart : place ≠ place ++ [name] := by simp
  have hfree : tree.node? (place ++ [name]) ≠ some .directory := by
    rw [hnone]
    simp
  refine ⟨hdirectory, hnone, ?_⟩
  intro node
  have hkept := (FileTree.node?_put_of_ne tree hne hapart node).trans hdirectory
  rw [follow_append, follow_put hparent hne hfree]
  change follow _ place [name] = _
  rw [follow_name hname hkept, if_neg hshort, FileTree.node?_put_self tree hne]
  rfl

/-! ## 3. Making directories -/

section MakeDirectories

variable {root : Text} {names : List Text} {name : Text}

/-- What making a directory below a place where something is can come to: something is there
already, or the place is a directory without the name and gets a directory of it. -/
theorem makeDirectory_cases (hroot : Path.IsRoot root)
    (hnames : ∀ n ∈ names ++ [name], Path.IsName n) {w made : Workspace} {final : Bool}
    (hparent : follow w.tree [] names = .ok names)
    (h : w.makeDirectory final (Path.ofNames root (names ++ [name])) = .ok made) :
    (made = w ∧ follow w.tree [] (names ++ [name]) = .ok (names ++ [name]))
    ∨ (made = { w with tree := w.tree.put (names ++ [name]) .directory }
      ∧ w.tree.node? names = some .directory ∧ w.tree.node? (names ++ [name]) = none
      ∧ follow made.tree [] (names ++ [name]) = .ok (names ++ [name])) := by
  have habsolute := Path.isAbsolute_ofNames hroot (names ++ [name])
  have hne : names ++ [name] ≠ [] :=
    List.append_ne_nil_of_right_ne_nil names (List.cons_ne_nil name [])
  obtain ⟨count, hparts⟩ := Path.exists_parts_ofNames hroot
  have hparts := hparts hne hnames
  have hall := Path.names_ofNames hroot hne hnames
  have hname : Path.IsName name := hnames name (List.mem_append_right names List.mem_cons_self)
  have hfound : ∀ node, w.find (Path.ofNames root (names ++ [name])) = .ok node →
      follow w.tree [] (names ++ [name]) = .ok (names ++ [name]) := by
    intro node hfind
    have hfollow := (find_eq_ok habsolute hfind).2.1
    rwa [hparts, follow_replicate, hall] at hfollow
  rw [makeDirectory] at h
  split at h
  · next hfind => exact .inl ⟨(Except.ok.inj h).symm, hfound _ hfind⟩
  · next hfind =>
    split at h
    · simp at h
    · exact .inl ⟨(Except.ok.inj h).symm, hfound _ hfind⟩
  · next hfind =>
    -- something is at the parent, so what is missing is the last name
    have hmissing := (find_eq_missing habsolute hfind).2
    rw [hparts, follow_replicate] at hmissing
    obtain ⟨hdirectory, hnone, hreached⟩ := follow_put_name hname hparent hmissing
    obtain rfl := Except.ok.inj h
    rw [hall]
    exact .inr ⟨rfl, hdirectory, hnone, hreached .directory⟩
  · simp at h

/-- What making directories down a way leaves: directories are added on the way, and the working
directory stays; a sound tree stays sound. -/
structure Prepared (way : Location) (before after : Workspace) : Prop where
  tree : FileTree.Extends way before.tree after.tree
  directory : after.directory = before.directory
  sound : before.tree.Sound → after.tree.Sound

theorem Prepared.refl (way : Location) (w : Workspace) : Prepared way w w :=
  ⟨.refl way w.tree, rfl, id⟩

theorem Prepared.trans {way : Location} {first second third : Workspace}
    (hfirst : Prepared way first second) (hsecond : Prepared way second third) :
    Prepared way first third where
  tree := hfirst.tree.trans hsecond.tree
  directory := hsecond.directory.trans hfirst.directory
  sound := hsecond.sound ∘ hfirst.sound

/-- Making a directory below a place where something is: afterwards something is there. -/
theorem makeDirectory_eq_ok (hroot : Path.IsRoot root)
    (hnames : ∀ n ∈ names ++ [name], Path.IsName n) {w made : Workspace} {final : Bool}
    (hparent : follow w.tree [] names = .ok names)
    (h : w.makeDirectory final (Path.ofNames root (names ++ [name])) = .ok made) :
    follow made.tree [] (names ++ [name]) = .ok (names ++ [name])
      ∧ Prepared (names ++ [name]) w made := by
  rcases makeDirectory_cases hroot hnames hparent h with
    ⟨rfl, hthere⟩ | ⟨rfl, hdirectory, hnone, hthere⟩
  · exact ⟨hthere, .refl _ _⟩
  · have hne : names ++ [name] ≠ [] :=
      List.append_ne_nil_of_right_ne_nil names (List.cons_ne_nil name [])
    refine ⟨hthere, .put hne hnone, rfl, fun hsound => hsound.put hne hnames ?_ fun _ => rfl⟩
    rw [List.dropLast_concat, hdirectory]

/-- The paths from one place down a way of names. -/
def pathsBelow (root : Text) (names : List Text) : List Text → List Text
  | [] => []
  | name :: rest => Path.ofNames root (names ++ [name]) :: pathsBelow root (names ++ [name]) rest

theorem pathsBelow_eq_map (root : Text) (names rest : List Text) :
    pathsBelow root names rest
      = (List.range rest.length).map fun i => Path.ofNames root (names ++ rest.take (i + 1)) := by
  induction rest generalizing names with
  | nil => rfl
  | cons name rest ih =>
    rw [pathsBelow, ih, List.length_cons, List.range_succ_eq_map, List.map_cons, List.map_map]
    simp

/-- The directories on the way to a path are made from the root down. -/
theorem ancestors_eq_pathsBelow (path : Text) :
    Path.ancestors path = pathsBelow (Path.rootOf path) [] (Path.names path) := by
  rw [pathsBelow_eq_map]
  rfl

/-- Making the directories down a way adds directories on it and changes nothing else, however far
it gets. By induction on the rest of the way: what matters is that something is there at the place
from which it starts. -/
theorem makeAll_pathsBelow (hroot : Path.IsRoot root) {rest : List Text}
    (hnames : ∀ n ∈ names ++ rest, Path.IsName n) {w : Workspace}
    (hparent : follow w.tree [] names = .ok names) :
    Prepared (names ++ rest) w (w.makeAll (pathsBelow root names rest)).1 := by
  induction rest generalizing names w with
  | nil => exact .refl _ _
  | cons name rest ih =>
    rw [pathsBelow, makeAll]
    rw [List.append_cons] at hnames ⊢
    cases hmade : w.makeDirectory (pathsBelow root (names ++ [name]) rest).isEmpty
        (Path.ofNames root (names ++ [name])) with
    | error refusal => exact .refl _ _
    | ok made =>
      obtain ⟨hthere, hprepared⟩ := makeDirectory_eq_ok hroot
        (fun n hn => hnames n (List.mem_append_left rest hn)) hparent hmade
      refine .trans ⟨?_, hprepared.directory, hprepared.sound⟩ (ih hnames hthere)
      exact hprepared.tree.mono (List.prefix_append _ rest)

end MakeDirectories

/-- **Making directories adds directories.** Directories are added on the way to the path, where
nothing was, and every other node is as it was, whether the path is reached or not. -/
theorem prepared_makeDirectories (w : Workspace) (path : Text) :
    Prepared (Path.names path) w (w.makeDirectories path).1 := by
  have hstart : follow w.tree [] [] = .ok [] := by
    rw [follow, FileTree.node?_nil]
    rfl
  rw [makeDirectories, ancestors_eq_pathsBelow]
  exact makeAll_pathsBelow (Path.isRoot_rootOf path) (Path.isName_of_mem_names path) hstart

/-! ## 4. Writing a file -/

/-- A path can be written: it leads to a file, or to nothing in a directory. -/
inductive Writable (w : Workspace) (path : Text) : Prop
  | file {old : List UInt8} (there : w.find path = .ok (.file old))
  | fresh (missing : w.find path = .error .missing)
      (directory : w.find (Path.directory path) = .ok .directory)

theorem isDirectory_iff (w : Workspace) (path : Text) :
    w.isDirectory path = true ↔ w.find path = .ok .directory := by
  unfold isDirectory
  split
  · next h => simp [h]
  · next h => simpa using h

/-- Writing sets the file at the names of the path, if the path can be written. -/
theorem write_eq_ok_iff (w changed : Workspace) (path : Text) (bytes : List UInt8) :
    w.write path bytes = .ok changed
      ↔ Writable w path
        ∧ changed = { w with tree := w.tree.put (Path.names path) (.file bytes) } := by
  constructor
  · intro h
    unfold write at h
    split at h
    · simp at h
    · next hfile => exact ⟨.file hfile, (Except.ok.inj h).symm⟩
    · next hmissing =>
      split at h
      · next hdirectory =>
        exact ⟨.fresh hmissing ((isDirectory_iff w _).mp hdirectory), (Except.ok.inj h).symm⟩
      · simp at h
    · simp at h
  · rintro ⟨hwritable, rfl⟩
    unfold write
    cases hwritable with
    | file there => rw [there]
    | fresh missing directory =>
      rw [missing]
      exact if_pos ((isDirectory_iff w _).mpr directory)

/-- A path is refused whatever is to be written, or it is written whatever that is. -/
theorem write_cases (w : Workspace) (path : Text) :
    (∃ refusal, ∀ bytes, w.write path bytes = .error refusal)
      ∨ ∀ bytes, w.write path bytes
        = .ok { w with tree := w.tree.put (Path.names path) (.file bytes) } := by
  unfold write
  split
  · exact .inl ⟨_, fun _ => rfl⟩
  · exact .inr fun _ => rfl
  · split
    · exact .inr fun _ => rfl
    · exact .inl ⟨_, fun _ => rfl⟩
  · exact .inl ⟨_, fun _ => rfl⟩

/-- Writing does not depend on what is written. -/
theorem write_eq_ok_of_write {w opened : Workspace} {path : Text} {first : List UInt8}
    (h : w.write path first = .ok opened) (second : List UInt8) :
    ∃ changed, w.write path second = .ok changed :=
  ⟨_, (write_eq_ok_iff w _ path second).mpr ⟨((write_eq_ok_iff w opened path first).mp h).1, rfl⟩⟩

/-- A file that can be read can be written. -/
theorem exists_write_of_read {w : Workspace} {path : Text} {old : List UInt8}
    (h : w.read path = .ok old) (bytes : List UInt8) :
    ∃ changed, w.write path bytes = .ok changed := by
  have hwritable : Writable w path := by
    unfold read at h
    split at h
    · next hfind => exact .file hfind
    · simp at h
    · simp at h
  exact ⟨_, (write_eq_ok_iff w _ path bytes).mpr ⟨hwritable, rfl⟩⟩

section Write

variable {w changed : Workspace} {directory name : Text} {bytes : List UInt8}

/-- What writing a file comes to: the file is set in a directory, where no directory was, and the
path leads to it afterwards. -/
theorem set_of_write (habsolute : Path.isAbsolute directory = true)
    (hslash : directory.getLast? ≠ some (.char '/')) (hname : Path.IsName name)
    (h : w.write (directory ++ .char '/' :: name) bytes = .ok changed) :
    changed = { w with tree := w.tree.put (Path.names directory ++ [name]) (.file bytes) }
      ∧ w.find directory = .ok .directory
      ∧ w.tree.node? (Path.names directory ++ [name]) ≠ some .directory
      ∧ changed.find (directory ++ .char '/' :: name) = .ok (.file bytes) := by
  have hne : directory ≠ [] := by
    rintro rfl
    exact absurd habsolute (by decide)
  have hwhole := Path.isAbsolute_append habsolute (.char '/' :: name)
  have hparts := Path.parts_append hname directory
  have hnames := Path.names_append hname directory
  have hplace : Path.names directory ++ [name] ≠ [] :=
    List.append_ne_nil_of_right_ne_nil _ (List.cons_ne_nil name [])
  obtain ⟨hwritable, rfl⟩ := (write_eq_ok_iff w changed _ bytes).mp h
  rw [hnames]
  cases hwritable with
  | file hfind =>
    -- a file is there, and the path leads to it as before
    obtain ⟨hkind, hfollow, hnode⟩ := find_eq_ok hwhole hfind
    rw [hnames] at hfollow hnode
    have hfree : w.tree.node? (Path.names directory ++ [name]) ≠ some .directory := by
      rw [hnode]
      simp
    refine ⟨rfl, find_of_find_name habsolute hname hfind, hfree, ?_⟩
    exact find_of_follow hwhole hkind (follow_put hfollow hplace hfree _)
      (FileTree.node?_put_self w.tree hplace _)
  | fresh hfind hparent =>
    -- nothing is there, but the directory is, and the new name leads on from it
    obtain ⟨hkind, hmissing⟩ := find_eq_missing hwhole hfind
    rw [Path.directory_append hne hslash hname.not_mem] at hparent
    rw [hparts] at hmissing
    obtain ⟨-, hnone, hreached⟩ := follow_put_name hname (find_eq_ok habsolute hparent).2.1 hmissing
    refine ⟨rfl, hparent, ?_, ?_⟩
    · rw [hnone]
      simp
    · refine find_of_follow hwhole hkind ?_ (FileTree.node?_put_self w.tree hplace _)
      rw [hparts]
      exact hreached _

/-- **Writing changes one file.** If a path of one name more than its directory can be written, the
file is set at its names, where no directory was, and it is read back from the path. -/
theorem write_eq_ok (habsolute : Path.isAbsolute directory = true)
    (hslash : directory.getLast? ≠ some (.char '/')) (hname : Path.IsName name)
    (h : w.write (directory ++ .char '/' :: name) bytes = .ok changed) :
    changed.read (directory ++ .char '/' :: name) = .ok bytes
      ∧ ∀ location, location ≠ Path.names directory ++ [name] →
        changed.tree.node? location = w.tree.node? location := by
  obtain ⟨rfl, -, -, hfind⟩ := set_of_write habsolute hslash hname h
  refine ⟨?_, fun location hother => ?_⟩
  · rw [read, hfind]
  · exact FileTree.node?_put_of_ne w.tree
      (List.append_ne_nil_of_right_ne_nil _ (List.cons_ne_nil name [])) hother _

/-- A file that is written in a sound tree leaves the tree sound. -/
theorem sound_of_write (habsolute : Path.isAbsolute directory = true)
    (hslash : directory.getLast? ≠ some (.char '/')) (hname : Path.IsName name)
    (h : w.write (directory ++ .char '/' :: name) bytes = .ok changed) (hsound : w.tree.Sound) :
    changed.tree.Sound := by
  obtain ⟨rfl, hparent, hfree, -⟩ := set_of_write habsolute hslash hname h
  refine hsound.put (List.append_ne_nil_of_right_ne_nil _ (List.cons_ne_nil name [])) ?_ ?_
    fun hdirectory => absurd hdirectory hfree
  · exact List.forall_mem_append.mpr
      ⟨Path.isName_of_mem_names directory, List.forall_mem_singleton.mpr hname⟩
  · rw [List.dropLast_concat]
    exact (find_eq_ok habsolute hparent).2.2

end Write

/-! ## 5. Directories that are there -/

/-- A location that a path can have come to: every place before it is a directory, and none of its
names is too long. -/
structure Passed (tree : FileTree) (location : Location) : Prop where
  directory : ∀ way, way <+: location → way ≠ location → tree.node? way = some .directory
  short : ∀ name ∈ location, ¬ Path.longestName < Path.size name

theorem Passed.node?_eq {tree : FileTree} {location : Location} (h : Passed tree location)
    (hdirectory : tree.node? location = some .directory) {way : Location}
    (hway : way <+: location) :
    tree.node? way = some .directory := by
  by_cases heq : way = location
  · rw [heq, hdirectory]
  · exact h.directory way hway heq

/-- The places on the way have been passed as well. -/
theorem Passed.of_prefix {tree : FileTree} {location way : Location} (h : Passed tree location)
    (hway : way <+: location) : Passed tree way where
  directory := by
    intro lead hlead hne
    refine h.directory lead (hlead.trans hway) ?_
    rintro rfl
    exact hne (hlead.eq_of_length_le hway.length_le)
  short := fun name hname => h.short name (hway.subset hname)

/-- Taking a part from a directory. -/
theorem Passed.step {tree : FileTree} {location : Location} (h : Passed tree location)
    (hdirectory : tree.node? location = some .directory) {part : Text}
    (hshort : ¬ Path.longestName < Path.size part) : Passed tree (Path.step location part) := by
  unfold Path.step
  split
  · exact h
  · split
    · -- one name less
      exact h.of_prefix (List.dropLast_prefix location)
    · -- one name more
      refine ⟨?_, List.forall_mem_append.mpr ⟨h.short, List.forall_mem_singleton.mpr hshort⟩⟩
      intro way hlead hne
      rcases List.prefix_concat_iff.mp hlead with heq | hbefore
      · exact absurd heq hne
      · exact h.node?_eq hdirectory hbefore

theorem passed_of_follow {tree : FileTree} {location target : Location} {parts : List Text}
    (h : follow tree location parts = .ok target) (hpassed : Passed tree location) :
    Passed tree target := by
  induction parts generalizing location with
  | nil =>
    obtain ⟨rfl, -⟩ := follow_eq_ok h
    exact hpassed
  | cons part parts ih =>
    rw [follow] at h
    split at h
    · simp at h
    · simp at h
    · next hdirectory =>
      split at h
      · simp at h
      · next hshort => exact ih h (hpassed.step hdirectory hshort)

theorem passed_nil (tree : FileTree) : Passed tree [] where
  directory := fun _ hlead hne => absurd (List.prefix_nil.mp hlead) hne
  short := fun _ hname => absurd hname List.not_mem_nil

/-- The names on the way to a directory lead there. -/
theorem follow_of_passed {tree : FileTree} {location : Location} (hpassed : Passed tree location)
    (hdirectory : tree.node? location = some .directory)
    (hnames : ∀ name ∈ location, Path.IsName name) {way : Location} (hway : way <+: location) :
    follow tree [] way = .ok way := by
  induction way using List.reverseRecOn with
  | nil =>
    rw [follow, FileTree.node?_nil]
    rfl
  | append_singleton way name ih =>
    have hbefore : way <+: location := (List.prefix_append way [name]).trans hway
    have hname : name ∈ location := hway.subset (List.mem_append_right way List.mem_cons_self)
    rw [follow_append, ih hbefore]
    change follow tree way [name] = _
    rw [follow_name (hnames name hname) (hpassed.node?_eq hdirectory hbefore),
      if_neg (hpassed.short name hname), hpassed.node?_eq hdirectory hway]
    rfl

/-- The names of a place to which parts lead lead there as well. -/
theorem follow_names {tree : FileTree} {parts : List Text} {target : Location}
    (hfollow : follow tree [] parts = .ok target) (hnames : ∀ name ∈ target, Path.IsName name) :
    follow tree [] target = .ok target := by
  have hpassed := passed_of_follow hfollow (passed_nil tree)
  obtain ⟨-, hsome⟩ := follow_eq_ok hfollow
  rcases List.eq_nil_or_concat' target with rfl | ⟨place, name, rfl⟩
  · rw [follow, FileTree.node?_nil]
    rfl
  · have hway : place <+: place ++ [name] := List.prefix_append place [name]
    -- the place before the last name is a directory
    have hplace : tree.node? place = some .directory := hpassed.directory place hway (by simp)
    have hname : name ∈ place ++ [name] := List.mem_append_right place List.mem_cons_self
    have hbefore := follow_of_passed (hpassed.of_prefix hway) hplace
      (fun other hother => hnames other (hway.subset hother)) (List.prefix_refl place)
    rw [follow_append, hbefore]
    change follow tree place [name] = _
    rw [follow_name (hnames name hname) hplace, if_neg (hpassed.short name hname), if_pos hsome]

/-- Where a path leads to a directory, the paths of the places on the way lead to directories. -/
theorem find_of_mem_ancestors {path : Text} (habsolute : Path.isAbsolute path = true)
    {w : Workspace} (h : w.find path = .ok .directory) {ancestor : Text}
    (hancestor : ancestor ∈ Path.ancestors path) :
    w.find ancestor = .ok .directory := by
  obtain ⟨hkind, hfollow, hnode⟩ := find_eq_ok habsolute h
  obtain ⟨i, hi, rfl⟩ := List.mem_map.mp hancestor
  have hlead := List.take_prefix (i + 1) (Path.names path)
  have hne : (Path.names path).take (i + 1) ≠ [] := by
    rw [← List.length_pos_iff, List.length_take]
    have := List.mem_range.mp hi
    omega
  have hroot := Path.isRoot_rootOf path
  have hnames := Path.isName_of_mem_names path
  obtain ⟨count, hparts⟩ := Path.exists_parts_ofNames hroot
  have hparts := hparts hne fun name hname => hnames name (hlead.subset hname)
  have hpassed := passed_of_follow hfollow (passed_nil w.tree)
  refine find_of_follow (Path.isAbsolute_ofNames hroot _) ?_ ?_ (hpassed.node?_eq hnode hlead)
  · exact ofPath?_sublist (Path.ofNames_sublist habsolute hlead.sublist) hkind
  · rw [hparts, follow_replicate, follow_of_passed hpassed hnode hnames hlead]

/-- Nothing is made where directories are. -/
theorem makeAll_eq_self {w : Workspace} {paths : List Text}
    (h : ∀ path ∈ paths, w.find path = .ok .directory) : w.makeAll paths = (w, none) := by
  induction paths with
  | nil => rfl
  | cons path paths ih =>
    have hmade : w.makeDirectory paths.isEmpty path = .ok w := by
      rw [makeDirectory, h path List.mem_cons_self]
    rw [makeAll, hmade]
    exact ih fun other hother => h other (List.mem_cons_of_mem path hother)

/-- **Making directories that are there makes nothing.** -/
theorem makeDirectories_eq_self {path : Text} (habsolute : Path.isAbsolute path = true)
    {w : Workspace} (h : w.find path = .ok .directory) : w.makeDirectories path = (w, none) :=
  makeAll_eq_self fun _ hancestor => find_of_mem_ancestors habsolute h hancestor

end Workspace

end FieldAudit
