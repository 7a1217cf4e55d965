import FieldAudit.FileTree
import FieldAudit.Proofs.Path
import Mathlib.Data.List.Induction
import Mathlib.Data.List.Nodup

/-!
Nodes of a tree of files. Setting a node changes no other one (`node?_put`), and adding directories
changes no file (`Extends`). In a tree that is sound every node lies in a directory; it is there
under names, and once. So its places are told by the nodes: what a directory holds is what is found
there by name (`Sound.mem_childNames_iff`, `Sound.mem_below_iff`), and setting a node in a directory
keeps the tree sound (`Sound.put`).
-/

set_option autoImplicit false

namespace FieldAudit

open scoped List

namespace FileTree

/-! ## 1. Nodes -/

theorem node?_nil (tree : FileTree) : tree.node? [] = some .directory := by
  rw [node?, if_pos rfl]

/-- Replacing the node at a location changes no location. -/
theorem fst_replace (location : Location) (node : Node) (entry : Location × Node) :
    (if entry.1 = location then (location, node) else entry).1 = entry.1 := by
  split
  · next h => exact h.symm
  · rfl

/-- Replacing the node at a location: at every location the same entry is found. -/
theorem find?_map_replace (nodes : List (Location × Node)) (location other : Location) (node : Node)
    (hany : (nodes.any fun entry => entry.1 == location) = true) :
    ((nodes.map fun entry => if entry.1 = location then (location, node) else entry).find?
        fun entry => entry.1 == other).map Prod.snd
      = if other = location then some node
        else (nodes.find? fun entry => entry.1 == other).map Prod.snd := by
  have hsame : ((fun entry : Location × Node => entry.1 == other)
      ∘ fun entry => if entry.1 = location then (location, node) else entry)
        = fun entry => entry.1 == other := by
    funext entry
    exact congrArg (· == other) (fst_replace location node entry)
  rw [List.find?_map, hsame]
  by_cases hother : other = location
  · rw [if_pos hother, hother]
    obtain ⟨entry, hentry, hlocation⟩ := List.any_eq_true.mp hany
    have hsome : (nodes.find? fun entry => entry.1 == location).isSome := by
      rw [List.find?_isSome]
      exact ⟨entry, hentry, hlocation⟩
    obtain ⟨found, hfound⟩ := Option.isSome_iff_exists.mp hsome
    have hkept := List.find?_some hfound
    have hplace : found.1 = location := beq_iff_eq.mp hkept
    rw [hfound, Option.map_some, Option.map_some, if_pos hplace]
  · rw [if_neg hother]
    cases hfound : nodes.find? fun entry => entry.1 == other with
    | none => rfl
    | some found =>
      have hkept := List.find?_some hfound
      have hplace : found.1 = other := beq_iff_eq.mp hkept
      have hapart : ¬ found.1 = location := fun h => hother (hplace.symm.trans h)
      rw [Option.map_some, Option.map_some, if_neg hapart, Option.map_some]

/-- The node that was set is there, and the others stay. -/
theorem node?_put (tree : FileTree) {location : Location} (hne : location ≠ []) (other : Location)
    (node : Node) :
    (tree.put location node).node? other
      = if other = location then some node else tree.node? other := by
  by_cases hroot : other = []
  · rw [hroot, node?_nil, node?_nil, if_neg (Ne.symm hne)]
  rw [node?, node?, if_neg hroot, if_neg hroot, put]
  split
  · next hany => exact find?_map_replace tree.nodes location other node hany
  · -- the node comes last, behind nodes of other locations
    next hany =>
    have hnone : (tree.nodes.find? fun entry => entry.1 == location) = none := by
      rw [List.find?_eq_none]
      intro entry hentry hsame
      exact hany (List.any_eq_true.mpr ⟨entry, hentry, hsame⟩)
    rw [List.find?_append]
    by_cases hother : other = location
    · rw [if_pos hother, hother, hnone]
      simp
    · have hlast : ([(location, node)].find? fun entry => entry.1 == other) = none := by
        simp [Ne.symm hother]
      rw [if_neg hother, hlast, Option.or_none]

theorem node?_put_self (tree : FileTree) {location : Location} (hne : location ≠ []) (node : Node) :
    (tree.put location node).node? location = some node := by
  rw [node?_put tree hne, if_pos rfl]

theorem node?_put_of_ne (tree : FileTree) {location other : Location} (hne : location ≠ [])
    (hother : other ≠ location) (node : Node) :
    (tree.put location node).node? other = tree.node? other := by
  rw [node?_put tree hne, if_neg hother]

/-- The bytes of the file at a location, if there is a file. -/
def file? (tree : FileTree) (location : Location) : Option (List UInt8) :=
  match tree.node? location with
  | some (.file bytes) => some bytes
  | _ => none

theorem file?_congr {before after : FileTree} {location : Location}
    (h : after.node? location = before.node? location) :
    after.file? location = before.file? location := by
  rw [file?, file?, h]

/-! ## 2. Directories that are added -/

/-- One tree comes from another by adding directories on the way to a location, where nothing
was. -/
def Extends (way : Location) (before after : FileTree) : Prop :=
  ∀ location, after.node? location = before.node? location
    ∨ (location <+: way ∧ before.node? location = none ∧ after.node? location = some .directory)

namespace Extends

theorem refl (way : Location) (tree : FileTree) : Extends way tree tree := fun _ => .inl rfl

theorem trans {way : Location} {first second third : FileTree} (hfirst : Extends way first second)
    (hsecond : Extends way second third) : Extends way first third := by
  intro location
  rcases hfirst location with hkept | ⟨hway, hnone, hmade⟩
  · rw [← hkept]
    exact hsecond location
  · rcases hsecond location with hkept | ⟨-, hgone, -⟩
    · exact .inr ⟨hway, hnone, hkept.trans hmade⟩
    · rw [hmade] at hgone
      exact absurd hgone (Option.some_ne_none _)

theorem mono {way longer : Location} {before after : FileTree} (h : Extends way before after)
    (hlonger : way <+: longer) : Extends longer before after := by
  intro location
  rcases h location with hkept | ⟨hway, hmade⟩
  · exact .inl hkept
  · exact .inr ⟨hway.trans hlonger, hmade⟩

theorem put {location : Location} {tree : FileTree} (hne : location ≠ [])
    (hnone : tree.node? location = none) :
    Extends location tree (tree.put location .directory) := by
  intro other
  by_cases hother : other = location
  · rw [hother]
    exact .inr ⟨List.prefix_refl location, hnone, node?_put_self tree hne .directory⟩
  · exact .inl (node?_put_of_ne tree hne hother .directory)

/-- No file has changed, and none has come. -/
theorem file?_eq {way : Location} {before after : FileTree} (h : Extends way before after)
    (location : Location) : after.file? location = before.file? location := by
  rcases h location with hkept | ⟨-, hnone, hmade⟩
  · exact file?_congr hkept
  · rw [file?, file?, hnone, hmade]

/-- What lies behind the end of the way is as it was. -/
theorem node?_eq {way : Location} {before after : FileTree} (h : Extends way before after)
    {location : Location} (hlonger : way.length < location.length) :
    after.node? location = before.node? location := by
  rcases h location with hkept | ⟨hway, -, -⟩
  · exact hkept
  · exact absurd hway.length_le (Nat.not_le_of_lt hlonger)

end Extends

/-! ## 3. Sound trees -/

/-- A tree as a file system has it: every node has names on the way to it, lies in a directory and
is there once. -/
structure Sound (tree : FileTree) : Prop where
  isName : ∀ entry ∈ tree.nodes, ∀ name ∈ entry.1, Path.IsName name
  parent : ∀ entry ∈ tree.nodes, tree.node? entry.1.dropLast = some .directory
  nodup : (tree.nodes.map Prod.fst).Nodup

instance (tree : FileTree) : Decidable tree.Sound :=
  decidable_of_iff ((∀ entry ∈ tree.nodes, ∀ name ∈ entry.1, Path.IsName name)
      ∧ (∀ entry ∈ tree.nodes, tree.node? entry.1.dropLast = some .directory)
        ∧ (tree.nodes.map Prod.fst).Nodup)
    ⟨fun h => ⟨h.1, h.2.1, h.2.2⟩, fun h => ⟨h.isName, h.parent, h.nodup⟩⟩

/-- Something at a location other than the root comes from an entry there. -/
theorem mem_of_node?_eq_some {tree : FileTree} {location : Location} (hne : location ≠ [])
    {node : Node} (h : tree.node? location = some node) : (location, node) ∈ tree.nodes := by
  rw [node?, if_neg hne] at h
  obtain ⟨entry, hentry, rfl⟩ := Option.map_eq_some_iff.mp h
  have hkept := List.find?_some hentry
  have hplace : entry.1 = location := beq_iff_eq.mp hkept
  rw [← hplace]
  exact List.mem_of_find?_eq_some hentry

/-- The entries of a tree with a node set are those from before and the new one. -/
theorem mem_of_mem_put {tree : FileTree} {location : Location} {node : Node}
    {entry : Location × Node} (h : entry ∈ (tree.put location node).nodes) :
    entry.1 = location ∨ entry ∈ tree.nodes := by
  unfold put at h
  split at h
  · obtain ⟨before, hbefore, rfl⟩ := List.mem_map.mp h
    by_cases heq : before.1 = location
    · rw [if_pos heq]
      exact .inl rfl
    · rw [if_neg heq]
      exact .inr hbefore
  · rcases List.mem_append.mp h with hbefore | hnew
    · exact .inr hbefore
    · rw [List.mem_singleton.mp hnew]
      exact .inl rfl

/-- Locations that are all different stay so: a new one is added only where there is none. -/
theorem nodup_put {tree : FileTree} (h : (tree.nodes.map Prod.fst).Nodup) (location : Location)
    (node : Node) :
    ((tree.put location node).nodes.map Prod.fst).Nodup := by
  unfold put
  split
  · rw [List.map_map]
    have hsame : Prod.fst ∘ (fun entry => if entry.1 = location then (location, node) else entry)
        = Prod.fst :=
      funext (fst_replace location node)
    rw [hsame]
    exact h
  · next hnew =>
    rw [List.map_append, List.map_cons, List.map_nil, ← List.concat_eq_append]
    refine h.concat ?_
    intro hmem
    obtain ⟨entry, hentry, hplace⟩ := List.mem_map.mp hmem
    exact hnew (List.any_eq_true.mpr ⟨entry, hentry, beq_iff_eq.mpr hplace⟩)

/-- Where every location has one entry, entries and nodes are the same. -/
theorem node?_eq_some_iff_of_nodup {tree : FileTree} (h : (tree.nodes.map Prod.fst).Nodup)
    {location : Location} (hne : location ≠ []) (node : Node) :
    tree.node? location = some node ↔ (location, node) ∈ tree.nodes := by
  refine ⟨mem_of_node?_eq_some hne, fun hmem => ?_⟩
  rw [node?, if_neg hne]
  cases hfound : tree.nodes.find? fun entry => entry.1 == location with
  | none =>
    rw [List.find?_eq_none] at hfound
    exact absurd (beq_iff_eq.mpr rfl) (hfound _ hmem)
  | some entry =>
    have hkept := List.find?_some hfound
    have hplace : entry.1 = location := beq_iff_eq.mp hkept
    -- a location has one entry
    have hsame : entry = (location, node) :=
      List.inj_on_of_nodup_map h (List.mem_of_find?_eq_some hfound) hmem hplace
    rw [hsame]
    rfl

namespace Sound

variable {tree : FileTree}

/-- In a sound tree, entries and nodes are the same. -/
theorem node?_eq_some_iff (h : tree.Sound) {location : Location} (hne : location ≠ [])
    (node : Node) :
    tree.node? location = some node ↔ (location, node) ∈ tree.nodes :=
  node?_eq_some_iff_of_nodup h.nodup hne node

theorem isName_of_node? (h : tree.Sound) {location : Location}
    (hsome : (tree.node? location).isSome) :
    ∀ name ∈ location, Path.IsName name := by
  intro name hname
  obtain ⟨node, hnode⟩ := Option.isSome_iff_exists.mp hsome
  have hne : location ≠ [] := by
    rintro rfl
    exact absurd hname List.not_mem_nil
  exact h.isName _ (mem_of_node?_eq_some hne hnode) name hname

/-- On the way to a node there are directories. -/
theorem node?_of_prefix (h : tree.Sound) {location way : Location}
    (hsome : (tree.node? location).isSome) (hway : way <+: location) (hne : way ≠ location) :
    tree.node? way = some .directory := by
  induction location using List.reverseRecOn with
  | nil => exact absurd (List.prefix_nil.mp hway) hne
  | append_singleton location name ih =>
    obtain ⟨node, hnode⟩ := Option.isSome_iff_exists.mp hsome
    have hparent := h.parent _ (mem_of_node?_eq_some (List.append_ne_nil_of_right_ne_nil _
      (List.cons_ne_nil name [])) hnode)
    rw [List.dropLast_concat] at hparent
    have hbefore : way <+: location := (List.prefix_concat_iff.mp hway).resolve_left hne
    by_cases heq : way = location
    · rw [heq, hparent]
    · exact ih (by rw [hparent]; rfl) hbefore heq

/-- The names in a directory are those at which something is. -/
theorem mem_childNames_iff (h : tree.Sound) (location : Location) (name : Text) :
    name ∈ tree.childNames location ↔ (tree.node? (location ++ [name])).isSome := by
  have hne : location ++ [name] ≠ [] :=
    List.append_ne_nil_of_right_ne_nil _ (List.cons_ne_nil name [])
  rw [childNames, List.mem_filterMap, Option.isSome_iff_exists]
  constructor
  · rintro ⟨entry, hentry, hname⟩
    split at hname
    · next last hlast =>
      split at hname
      · next hplace =>
        obtain rfl := Option.some.inj hname
        have hlocation : entry.1 = location ++ [last] := by
          rw [← hplace]
          exact (List.dropLast_append_getLast? last hlast).symm
        refine ⟨entry.2, (h.node?_eq_some_iff hne _).mpr ?_⟩
        rw [← hlocation]
        exact hentry
      · simp at hname
    · simp at hname
  · rintro ⟨node, hnode⟩
    refine ⟨_, (h.node?_eq_some_iff hne node).mp hnode, ?_⟩
    simp

/-- The nodes below a directory are those at longer locations. -/
theorem mem_below_iff (h : tree.Sound) (location names : Location) (node : Node) :
    (names, node) ∈ tree.below location
      ↔ names ≠ [] ∧ tree.node? (location ++ names) = some node := by
  rw [below, List.mem_filterMap]
  constructor
  · rintro ⟨⟨place, other⟩, hentry, hbelow⟩
    split at hbelow
    · next hlonger =>
      obtain ⟨rfl, rfl⟩ := Prod.mk.inj (Option.some.inj hbelow)
      rw [Bool.and_eq_true, List.isPrefixOf_iff_prefix, decide_eq_true_eq] at hlonger
      obtain ⟨⟨rest, rfl⟩, hlength⟩ := hlonger
      rw [List.drop_left]
      have hrest : rest ≠ [] := by
        rintro rfl
        simp at hlength
      refine ⟨hrest, (h.node?_eq_some_iff ?_ _).mpr hentry⟩
      exact List.append_ne_nil_of_right_ne_nil _ hrest
    · simp at hbelow
  · rintro ⟨hne, hnode⟩
    have hlocation := List.append_ne_nil_of_right_ne_nil location hne
    refine ⟨_, (h.node?_eq_some_iff hlocation node).mp hnode, ?_⟩
    have hlength : location.length < (location ++ names).length := by
      have hpositive := List.length_pos_iff.mpr hne
      rw [List.length_append]
      omega
    rw [if_pos, List.drop_left]
    rw [Bool.and_eq_true, List.isPrefixOf_iff_prefix, decide_eq_true_eq]
    exact ⟨List.prefix_append location names, hlength⟩

/-- Entries in another order are the same nodes. -/
theorem node?_of_perm (h : tree.Sound) {other : FileTree} (hperm : other.nodes ~ tree.nodes) :
    other.node? = tree.node? := by
  have hnodup : (other.nodes.map Prod.fst).Nodup := (hperm.map Prod.fst).nodup_iff.mpr h.nodup
  funext location
  by_cases hroot : location = []
  · rw [hroot, node?_nil, node?_nil]
  · refine Option.ext fun node => ?_
    rw [node?_eq_some_iff_of_nodup hnodup hroot, h.node?_eq_some_iff hroot, hperm.mem_iff]

theorem of_perm (h : tree.Sound) {other : FileTree} (hperm : other.nodes ~ tree.nodes) :
    other.Sound where
  isName entry hentry := h.isName entry (hperm.mem_iff.mp hentry)
  parent entry hentry := by
    rw [h.node?_of_perm hperm]
    exact h.parent entry (hperm.mem_iff.mp hentry)
  nodup := (hperm.map Prod.fst).nodup_iff.mpr h.nodup

/-- Directories with the same nodes below them: names lead to the same from both. -/
theorem node?_eq_of_below (h : tree.Sound) {other : FileTree} (hother : other.Sound)
    {location place : Location} (hhere : tree.node? location = other.node? place)
    (hbelow : tree.below location = other.below place) (names : Location) :
    tree.node? (location ++ names) = other.node? (place ++ names) := by
  by_cases hne : names = []
  · rw [hne, List.append_nil, List.append_nil, hhere]
  · refine Option.ext fun node => ?_
    have hmem := h.mem_below_iff location names node
    rw [hbelow, hother.mem_below_iff, and_iff_right hne, and_iff_right hne] at hmem
    exact hmem.symm

/-- A node that is set in a directory keeps the tree sound, unless it is a file in the place of a
directory. -/
theorem put (h : tree.Sound) {location : Location} (hne : location ≠ [])
    (hnames : ∀ name ∈ location, Path.IsName name)
    (hparent : tree.node? location.dropLast = some .directory) {node : Node}
    (hkept : tree.node? location = some .directory → node = .directory) :
    (tree.put location node).Sound := by
  have hdirectory : ∀ other, tree.node? other = some .directory →
      (tree.put location node).node? other = some .directory := by
    intro other hother
    rw [node?_put tree hne]
    by_cases heq : other = location
    · rw [if_pos heq, hkept (heq ▸ hother)]
    · rw [if_neg heq, hother]
  refine ⟨?_, ?_, nodup_put h.nodup location node⟩
  · intro entry hentry
    rcases mem_of_mem_put hentry with heq | hbefore
    · rw [heq]
      exact hnames
    · exact h.isName entry hbefore
  · intro entry hentry
    rcases mem_of_mem_put hentry with heq | hbefore
    · rw [heq]
      exact hdirectory _ hparent
    · exact hdirectory _ (h.parent entry hbefore)

end Sound

end FileTree

end FieldAudit
