import FieldAudit.Proofs.FileTree.Normal
import FieldAudit.Proofs.Glob.Matched

/-!
Places below which patterns are looked for. A path that descends leads on below the place
(`Place.endOf_join`), and whether a search can start from it is settled by the path alone
(`Place.kind_startRefusal?`). A pattern that is joined to the place is divided where the pattern is
(`Place.divide_join`).
-/

set_option autoImplicit false

namespace FieldAudit

open scoped List

/-! ## 1. Paths that descend -/

namespace Path

/-- A path that leads on from where it starts: it is relative and does not go up. -/
structure Descends (path : Text) : Prop where
  relative : isAbsolute path = false
  no_up : Text.ofString ".." ∉ parts path

theorem descends_nil : Descends [] := ⟨rfl, by decide⟩

theorem descends_of_not_mem {part : Text} (hslash : Point.char '/' ∉ part) (hpart : part ≠ "..") :
    Descends part where
  relative := by
    rw [isAbsolute, beq_eq_false_iff_ne]
    exact fun hhead => hslash (List.mem_of_head? hhead)
  no_up := by
    rw [parts, Text.pieces_of_not_mem hslash, List.mem_singleton]
    exact Ne.symm hpart

theorem descends_join_names {names : List Text} (hne : names ≠ [])
    (hnames : ∀ name ∈ names, IsName name) :
    Descends (Text.join "/" names) where
  relative := isAbsolute_join_names hne hnames
  no_up := by
    rw [parts_join_names hne hnames]
    exact fun hmem => (hnames _ hmem).ne_points rfl

theorem Descends.join {path more : Text} (h : Descends path) (hmore : Descends more) :
    Descends (join path more) where
  relative := (isAbsolute_join hmore.relative).trans h.relative
  no_up := fun hmem => (mem_parts_join hmem).elim h.no_up hmore.no_up

end Path

namespace Glob

open FieldAudit.Path (Descends)

variable {w w' : Workspace} {root root' : Text}

/-- The path before the first wildcard of a pattern descends if the pattern does. -/
theorem descends_trimSlashes {lead rest : Text} (h : Descends (lead ++ rest))
    (hslash : Slashed lead) (hne : lead ≠ []) : Descends (Path.trimSlashes lead) where
  relative := by
    obtain ⟨p, more, rfl⟩ := List.exists_cons_of_ne_nil hne
    exact (Path.rootOf_trimSlashes (p :: more)).2.trans h.relative
  no_up := by
    intro hmem
    have hparts := mem_parts_of_mem_parts_trimSlashes hmem
    obtain ⟨before, rfl⟩ := hslash.resolve_left hne
    refine h.no_up ?_
    rw [Path.parts_concat_slash] at hparts
    rw [List.append_assoc, List.singleton_append, Path.parts_append_slash]
    exact List.mem_append_left _ ((List.mem_append.mp hparts).resolve_right (by decide))

/-! ## 2. A place -/

/-- A place of which nothing but its files bears on a search below it: the normal form of a path to
a directory, in which no wildcard stands. -/
structure Place (w : Workspace) (root : Text) : Prop where
  sound : w.Sound
  absolute : Path.isAbsolute root = true
  normal : w.absolute root = root
  directory : w.find root = .ok .directory
  literal : isWild root = false

/-- Why no search starts from a path below a place, whatever the place is. -/
def unsearchable? (path : Text) : Option RefusalKind :=
  match Path.bytes path with
  | .error _ => some .noBytes
  | .ok bytes => if bytes.contains 0 then some .nullCharacter else none

theorem startRefusal?_eq_none_iff (path : Text) :
    startRefusal? path = none
      ↔ RefusalKind.ofPath? path = none ∨ RefusalKind.ofPath? path = some .tooLong := by
  unfold startRefusal?
  split
  · next h => simp [h]
  · next h => simp [h]
  · next kind hlong h => simpa [h] using hlong

namespace Place

variable (h : Place w root)

include h

theorem ne_nil : root ≠ [] := by
  rintro rfl
  exact absurd h.absolute (by decide)

theorem eq_ofNames : root = Path.ofNames (Path.rootOf root) (Path.names root) := by
  conv_lhs => rw [← h.normal, Workspace.absolute_of_isAbsolute h.absolute]

theorem trimSlashes_slashed : Path.trimSlashes (Path.slashed root) = root := by
  have htrim := (Path.slashed_ofNames (Path.isRoot_rootOf root) (Path.isName_of_mem_names root)).2
  rwa [← h.eq_ofNames] at htrim

theorem isWild_slashed : isWild (Path.slashed root) = false := by
  unfold Path.slashed
  split
  · exact h.literal
  · rw [isWild_append, h.literal]
    rfl

theorem isWild_join {path : Text} (hpath : Path.isAbsolute path = false) :
    isWild (Path.join root path) = isWild path := by
  rw [Path.join_eq_append root hpath, isWild_append, h.isWild_slashed, Bool.false_or]

/-- The path of a place has bytes, none of them null, also with a slash behind it. -/
theorem exists_bytes :
    ∃ bytes, Path.bytes (Path.slashed root) = .ok bytes ∧ bytes.contains 0 = false := by
  obtain ⟨htaken, -, -⟩ := Workspace.find_eq_ok h.absolute h.directory
  obtain ⟨bytes, hbytes, hnull, -⟩ := (Workspace.ofPath?_eq_none_iff root).mp htaken
  unfold Path.slashed
  split
  · exact ⟨bytes, hbytes, hnull⟩
  · refine ⟨bytes ++ [47],
      (Workspace.bytes_append_eq_ok_iff root [.char '/'] _).mpr ⟨bytes, [47], hbytes, rfl, rfl⟩, ?_⟩
    rw [List.contains_append, hnull]
    rfl

/-- The bytes of what is joined to the path of a place come behind those of the place. -/
theorem exists_bytes_join :
    ∃ lead, Path.bytes (Path.slashed root) = .ok lead ∧ lead.contains 0 = false
    ∧ ∀ path, Path.isAbsolute path = false → ∀ bytes,
      Path.bytes (Path.join root path) = .ok bytes
        ↔ ∃ own, Path.bytes path = .ok own ∧ bytes = lead ++ own := by
  obtain ⟨lead, hlead, hnull⟩ := h.exists_bytes
  refine ⟨lead, hlead, hnull, fun path hpath bytes => ?_⟩
  rw [Path.join_eq_append root hpath, Workspace.bytes_append_eq_ok_iff, hlead]
  constructor
  · rintro ⟨start, own, hstart, hown, rfl⟩
    obtain rfl := Except.ok.inj hstart
    exact ⟨own, hown, rfl⟩
  · rintro ⟨own, hown, rfl⟩
    exact ⟨lead, own, rfl, hown, rfl⟩

theorem startRefusal?_eq_none : startRefusal? root = none :=
  (startRefusal?_eq_none_iff root).mpr (.inl (Workspace.find_eq_ok h.absolute h.directory).1)

/-- Whether a search starts from a path below a place is settled by the path. -/
theorem kind_startRefusal? {path : Text} (hpath : Path.isAbsolute path = false) :
    (startRefusal? (Path.join root path)).map Refusal.kind = unsearchable? path := by
  obtain ⟨lead, -, hnull, hjoin⟩ := h.exists_bytes_join
  unfold startRefusal? unsearchable?
  cases hbytes : Path.bytes path with
  | ok own =>
    rw [Workspace.ofPath?_of_bytes ((hjoin path hpath _).mpr ⟨own, hbytes, rfl⟩),
      List.contains_append, hnull, Bool.false_or]
    dsimp only
    cases own.contains 0 with
    | true => rfl
    | false =>
      rw [if_neg Bool.false_ne_true]
      -- a path that is too long is as good as one that is not there
      by_cases hlong : Path.longestPath < (lead ++ own).length
      · rw [if_pos hlong]
        rfl
      · rw [if_neg hlong]
        rfl
  | error unencodable =>
    cases hwhole : Path.bytes (Path.join root path) with
    | ok bytes =>
      obtain ⟨own, hown, -⟩ := (hjoin path hpath bytes).mp hwhole
      rw [hbytes] at hown
      simp at hown
    | error cause =>
      unfold RefusalKind.ofPath?
      rw [hwhole]
      rfl

/-- What is joined to the path of a place is followed from there. -/
theorem locate_join {path : Text} (hpath : Path.isAbsolute path = false)
    (htaken : RefusalKind.ofPath? (Path.join root path) = none) :
    w.locate (Path.join root path)
      = Workspace.follow w.tree (Path.names root) (Path.parts path) := by
  obtain ⟨-, hfollow, -⟩ := Workspace.find_eq_ok h.absolute h.directory
  obtain ⟨before, hjoin, hbefore⟩ := Path.exists_join_eq h.ne_nil hpath
  -- the place is followed without the slash behind which the rest is joined
  have hlead : Workspace.follow w.tree [] (Path.parts before) = .ok (Path.names root) := by
    rcases hbefore with rfl | hslash
    · exact hfollow
    · have hnames : Path.names root = (Path.parts before).foldl Path.step [] := by
        rw [Path.names, hslash, Path.parts_concat_slash, List.foldl_append]
        exact Path.step_empty _
      rw [hslash, Path.parts_concat_slash] at hfollow
      rw [hnames]
      exact (Workspace.follow_of_follow_append hfollow (List.cons_ne_nil [] [])).1
  rw [Workspace.locate_of_isAbsolute ((Path.isAbsolute_join hpath).trans h.absolute), htaken]
  dsimp only
  rw [hjoin, Path.parts_append_slash, Workspace.follow_append, hlead]
  rfl

/-- A path that descends from a place ends below it. -/
theorem endOf_join {path : Text} (hpath : Descends path) :
    w.endOf (Path.join root path) = Path.names root ++ Path.names path := by
  rw [Workspace.endOf_join w hpath.relative, Workspace.endOf_of_isAbsolute h.absolute,
    ← List.append_nil (Path.names root), Path.foldl_step_append hpath.no_up, List.append_nil]
  rfl

/-- The normal form of a path that descends from a place. -/
theorem absolute_join {path : Text} (hpath : Descends path) (hne : Path.names path ≠ []) :
    w.absolute (Path.join root path) = Path.join root (Text.join "/" (Path.names path)) := by
  have hwhole := (Path.isAbsolute_join hpath.relative).trans h.absolute
  have hnames := h.endOf_join hpath
  rw [Workspace.endOf_of_isAbsolute hwhole] at hnames
  have hall : ∀ name ∈ Path.names root ++ Path.names path, Path.IsName name :=
    List.forall_mem_append.mpr ⟨Path.isName_of_mem_names root, Path.isName_of_mem_names path⟩
  rw [Workspace.absolute_of_isAbsolute hwhole, Path.rootOf_join h.ne_nil hpath.relative, hnames,
    Path.ofNames_append (Path.isRoot_rootOf root) hne hall, ← h.eq_ofNames]

/-- Below a place, a search starts from the place itself, or from the path before the first wildcard
joined to it. -/
theorem divide_join {lead rest : Text} (hpath : Path.isAbsolute (lead ++ rest) = false)
    (hslash : Slashed lead) (hlead : isWild lead = false) (hrest : StartsWild rest) :
    divide (Path.join root (lead ++ rest))
      = (if lead = [] then root else Path.join root (Path.trimSlashes lead), partsToFind rest) := by
  have hwhole : Slashed (Path.slashed root ++ lead) := by
    rcases hslash with rfl | ⟨before, rfl⟩
    · rw [List.append_nil]
      exact Path.slashed_eq root
    · exact .inr ⟨Path.slashed root ++ before, (List.append_assoc _ before _).symm⟩
  have hplain : isWild (Path.slashed root ++ lead) = false := by
    rw [isWild_append, h.isWild_slashed, hlead]
    rfl
  rw [Path.join_eq_append root hpath, ← List.append_assoc, divide_append hwhole hplain hrest]
  by_cases hne : lead = []
  · rw [if_pos hne, hne, List.append_nil, h.trimSlashes_slashed]
  · -- the path before the wildcard does not start with a slash, and so it is not all slashes
    obtain ⟨p, more, rfl⟩ := List.exists_cons_of_ne_nil hne
    have hrelative : Path.isAbsolute (p :: more) = false := hpath
    have hp : p ≠ .char '/' := by
      rintro rfl
      exact absurd hrelative (by simp [Path.isAbsolute])
    have htrim := (Path.rootOf_trimSlashes (p :: more)).2.trans hrelative
    rw [if_neg hne, Path.join_eq_append root htrim,
      Path.trimSlashes_append _ ⟨p, List.mem_cons_self, hp⟩]

end Place

end Glob

end FieldAudit
