import FieldAudit.Path
import FieldAudit.Proofs.Text.Pieces
import Mathlib.Data.List.Basic
import Mathlib.Data.List.TakeWhile

/-!
Names of paths. The names of a path are names indeed: none of them is empty, a point or a double
point, and none holds a slash (`isName_of_mem_names`). The path of such names below a root has
exactly these names (`names_ofNames`), and is no longer than a path they are taken from
(`ofNames_sublist`). The directory of a path with one name more is the path (`directory_append`). A
joined path goes on from where the other one ends (`foldl_step_join`); joining takes what is joined,
behind a slash, to the end (`join_eq_append`), and so it is associative (`join_assoc`) and loses
nothing (`join_injective`). Slashes at the end of a path do not bear on its root
(`rootOf_trimSlashes`).
-/

set_option autoImplicit false

namespace FieldAudit

open scoped List

namespace Text

/-! ## 1. Texts with slashes between them -/

/-- Texts that are left out are missing in the whole, and so are their slashes. -/
theorem join_sublist {part whole : List Text} (h : part <+ whole) :
    join "/" part <+ join "/" whole := by
  induction h with
  | slnil => exact List.Sublist.refl _
  | @cons part whole t h ih =>
    cases whole with
    | nil =>
      rw [List.sublist_nil.mp h]
      exact List.nil_sublist _
    | cons next whole =>
      rw [join, join, List.intercalate_cons_cons]
      exact ih.trans (List.sublist_append_right _ _)
  | @cons_cons part whole t h ih =>
    cases whole with
    | nil => rw [List.sublist_nil.mp h]
    | cons next whole =>
      cases part with
      | nil =>
        rw [join, join, List.intercalate_singleton, List.intercalate_cons_cons, List.append_assoc]
        exact List.sublist_append_left _ _
      | cons kept part =>
        rw [join, join, List.intercalate_cons_cons, List.intercalate_cons_cons]
        exact ih.append_left _

/-- Texts in a row, with slashes between them. -/
theorem join_append {first second : List Text} (hfirst : first ≠ []) (hsecond : second ≠ []) :
    join "/" (first ++ second) = join "/" first ++ .char '/' :: join "/" second := by
  induction first with
  | nil => exact absurd rfl hfirst
  | cons t first ih =>
    cases first with
    | nil =>
      obtain ⟨next, more, rfl⟩ := List.exists_cons_of_ne_nil hsecond
      rw [List.singleton_append, join, join, List.intercalate_cons_cons, List.intercalate_singleton,
        List.append_assoc]
      rfl
    | cons next first =>
      have hrest := ih (List.cons_ne_nil next first)
      rw [join, join] at hrest
      rw [List.cons_append, List.cons_append, join, join, List.intercalate_cons_cons,
        List.intercalate_cons_cons, ← List.cons_append, hrest, List.append_assoc, List.append_assoc,
        List.append_assoc]

end Text

namespace Path

/-! ## 2. Names -/

/-- A name that stands for itself in a path. -/
structure IsName (name : Text) : Prop where
  ne_empty : name ≠ ""
  ne_point : name ≠ "."
  ne_points : name ≠ ".."
  not_mem : Point.char '/' ∉ name

instance (name : Text) : Decidable (IsName name) :=
  decidable_of_iff (name ≠ "" ∧ name ≠ "." ∧ name ≠ ".." ∧ Point.char '/' ∉ name)
    ⟨fun h => ⟨h.1, h.2.1, h.2.2.1, h.2.2.2⟩,
      fun h => ⟨h.ne_empty, h.ne_point, h.ne_points, h.not_mem⟩⟩

theorem step_empty (names : List Text) : step names "" = names := by
  rw [step, if_pos (.inl rfl)]

theorem step_of_isName {name : Text} (h : IsName name) (names : List Text) :
    step names name = names ++ [name] := by
  rw [step, if_neg (not_or.mpr ⟨h.ne_empty, h.ne_point⟩), if_neg h.ne_points]

theorem foldl_step_of_isName {names : List Text} (h : ∀ name ∈ names, IsName name)
    (before : List Text) : names.foldl step before = before ++ names := by
  induction names generalizing before with
  | nil => rw [List.foldl_nil, List.append_nil]
  | cons name names ih =>
    rw [List.foldl_cons, step_of_isName (h name List.mem_cons_self),
      ih fun other hother => h other (List.mem_cons_of_mem name hother), List.append_assoc,
      List.singleton_append]

/-- Without double points, a path never goes back. -/
theorem prefix_foldl_step {parts : List Text} (h : Text.ofString ".." ∉ parts)
    (before : List Text) :
    before <+: parts.foldl step before := by
  induction parts generalizing before with
  | nil => exact List.prefix_refl before
  | cons part parts ih =>
    have hpart : part ≠ ".." := fun heq => h (heq ▸ List.mem_cons_self)
    have hstep : before <+: step before part := by
      rw [step, if_neg hpart]
      split
      · exact List.prefix_refl before
      · exact List.prefix_append before [part]
    exact hstep.trans (ih (fun hmem => h (List.mem_cons_of_mem part hmem)) (step before part))

/-- Without double points, the names with which a path starts stay as they are. -/
theorem foldl_step_append {parts : List Text} (h : Text.ofString ".." ∉ parts)
    (before names : List Text) :
    parts.foldl step (before ++ names) = before ++ parts.foldl step names := by
  induction parts generalizing names with
  | nil => rfl
  | cons part parts ih =>
    have hpart : part ≠ ".." := fun heq => h (heq ▸ List.mem_cons_self)
    have hstep : step (before ++ names) part = before ++ step names part := by
      rw [step, step, if_neg hpart, if_neg hpart]
      split
      · rfl
      · exact List.append_assoc before names [part]
    rw [List.foldl_cons, List.foldl_cons, hstep, ih fun hmem => h (List.mem_cons_of_mem part hmem)]

theorem foldl_step_replicate (count : Nat) (before : List Text) :
    (List.replicate count (Text.ofString "")).foldl step before = before := by
  induction count with
  | zero => rfl
  | succ count ih => rw [List.replicate_succ, List.foldl_cons, step_empty, ih]

/-- Taking a part keeps all names names. -/
theorem isName_of_mem_step {names : List Text} (h : ∀ name ∈ names, IsName name) {part : Text}
    (hpart : Point.char '/' ∉ part) : ∀ name ∈ step names part, IsName name := by
  unfold step
  split
  · exact h
  · next hkept =>
    split
    · exact fun name hname => h name ((List.dropLast_sublist names).subset hname)
    · -- the part is none of the three that are no names
      next hup =>
      obtain ⟨hempty, hpoint⟩ := not_or.mp hkept
      exact List.forall_mem_append.mpr
        ⟨h, List.forall_mem_singleton.mpr ⟨hempty, hpoint, hup, hpart⟩⟩

/-- **The names of a path are names.** -/
theorem isName_of_mem_names (path : Text) : ∀ name ∈ names path, IsName name := by
  have hfold : ∀ (rest before : List Text), (∀ part ∈ rest, Point.char '/' ∉ part) →
      (∀ name ∈ before, IsName name) → ∀ name ∈ rest.foldl step before, IsName name := by
    intro rest
    -- on the parts that are left, with the names so far
    induction rest with
    | nil => exact fun before _ hbefore => hbefore
    | cons part rest ih =>
      intro before hrest hbefore
      exact ih (step before part)
        (fun other hother => hrest other (List.mem_cons_of_mem part hother))
        (isName_of_mem_step hbefore (hrest part List.mem_cons_self))
  exact hfold (parts path) [] (fun part hpart => Text.not_mem_of_mem_pieces hpart)
    fun name hname => absurd hname List.not_mem_nil

/-! ## 3. The path of names below a root -/

/-- A root of absolute paths. -/
def IsRoot (root : Text) : Prop := root = "/" ∨ root = "//"

theorem isRoot_rootOf (path : Text) : IsRoot (rootOf path) := by
  unfold rootOf IsRoot
  split
  · exact .inr rfl
  · exact .inl rfl

theorem isAbsolute_ofNames {root : Text} (hroot : IsRoot root) (names : List Text) :
    isAbsolute (ofNames root names) = true := by
  rcases hroot with rfl | rfl <;> rfl

/-- The parts of names with slashes between them. -/
theorem pieces_join {names : List Text} (hne : names ≠ [])
    (h : ∀ name ∈ names, Point.char '/' ∉ name) :
    Text.pieces (.char '/') (Text.join "/" names) = names := by
  induction names with
  | nil => exact absurd rfl hne
  | cons name names ih =>
    have hname : Text.pieces (.char '/') name = [name] :=
      Text.pieces_of_not_mem (h name List.mem_cons_self)
    cases names with
    | nil => rw [Text.join, List.intercalate_singleton, hname]
    | cons second names =>
      have hrest := ih (List.cons_ne_nil second names)
        fun other hother => h other (List.mem_cons_of_mem name hother)
      have hjoin : Text.join "/" (name :: second :: names)
          = name ++ .char '/' :: Text.join "/" (second :: names) := by
        rw [Text.join, List.intercalate_cons_cons, List.append_assoc]
        rfl
      rw [hjoin, Text.pieces_append, hname, hrest, List.singleton_append]

/-- The parts of a path below a root: empty ones for the root, and then the names. -/
theorem exists_parts_ofNames {root : Text} (hroot : IsRoot root) :
    ∃ count, ∀ {names : List Text}, names ≠ [] → (∀ name ∈ names, IsName name) →
      parts (ofNames root names) = List.replicate count (Text.ofString "") ++ names := by
  have hslash : ∀ t : Text, Text.pieces (.char '/') (.char '/' :: t)
      = [] :: Text.pieces (.char '/') t := fun t => by rw [Text.pieces, if_pos rfl]
  rcases hroot with rfl | rfl
  · refine ⟨1, fun hne hnames => ?_⟩
    have hpieces := pieces_join hne fun name hname => (hnames name hname).not_mem
    exact (hslash _).trans (congrArg _ hpieces)
  · refine ⟨2, fun hne hnames => ?_⟩
    have hpieces := pieces_join hne fun name hname => (hnames name hname).not_mem
    exact (hslash _).trans (congrArg _ ((hslash _).trans (congrArg _ hpieces)))

/-- The names of a path below a root are the names it was made of. -/
theorem names_ofNames {root : Text} (hroot : IsRoot root) {names : List Text} (hne : names ≠ [])
    (hnames : ∀ name ∈ names, IsName name) : Path.names (ofNames root names) = names := by
  obtain ⟨count, hparts⟩ := exists_parts_ofNames hroot
  rw [Path.names, hparts hne hnames, List.foldl_append, foldl_step_replicate,
    foldl_step_of_isName hnames, List.nil_append]

/-- The names of a path, put together below its root, are the names of what comes out. -/
theorem names_ofNames_names (path : Text) :
    names (ofNames (rootOf path) (names path)) = names path := by
  by_cases hne : names path = []
  · rw [hne]
    rcases isRoot_rootOf path with hroot | hroot
    · rw [hroot]
      rfl
    · rw [hroot]
      rfl
  · exact names_ofNames (isRoot_rootOf path) hne (isName_of_mem_names path)

/-! ## 4. Names that are left out -/

/-- The names of a path stand in it, in their order. -/
theorem names_sublist_parts (path : Text) : names path <+ parts path := by
  have hfold : ∀ rest done before : List Text, before <+ done →
      rest.foldl step before <+ done ++ rest := by
    intro rest
    -- on the parts that are left, with the names so far, which stand among the parts so far
    induction rest with
    | nil =>
      intro done before hbefore
      rwa [List.append_nil]
    | cons part rest ih =>
      intro done before hbefore
      have hkept : before <+ done ++ [part] := hbefore.trans (List.sublist_append_left done [part])
      have hstep : step before part <+ done ++ [part] := by
        unfold step
        split
        · exact hkept
        · split
          · exact (List.dropLast_sublist before).trans hkept
          · exact hbefore.append_right [part]
      rw [List.append_cons]
      exact ih (done ++ [part]) (step before part) hstep
  exact hfold (parts path) [] [] (List.Sublist.refl _)

theorem names_cons_slash (path : Text) : names (.char '/' :: path) = names path := by
  rw [names, parts, Text.pieces, if_pos rfl, List.foldl_cons]
  exact congrArg (fun before => (parts path).foldl step before) (step_empty [])

/-- Names of a path, put together below its root, stand in the path, point by point. -/
theorem ofNames_sublist {path : Text} (habsolute : isAbsolute path = true) {kept : List Text}
    (h : kept <+ names path) : ofNames (rootOf path) kept <+ path := by
  have hjoin : ∀ rest : Text, names path = names rest → Text.join "/" kept <+ rest := by
    intro rest hnames
    rw [hnames] at h
    have hparts := Text.join_sublist (h.trans (names_sublist_parts rest))
    have hrest : Text.join "/" (Text.pieces '/' rest) = rest := Text.join_pieces '/' rest
    rwa [parts, hrest] at hparts
  cases path with
  | nil => exact absurd habsolute (by decide)
  | cons p rest =>
    obtain rfl : p = .char '/' := by simpa [isAbsolute] using habsolute
    unfold rootOf ofNames
    split
    · next htwo =>
      -- a second slash follows, and belongs to the root as well
      cases rest with
      | nil => simp at htwo
      | cons q rest =>
        obtain rfl : q = .char '/' := by
          by_contra hne
          rw [List.takeWhile_cons_of_pos (by decide),
            List.takeWhile_cons_of_neg (by simpa using hne)] at htwo
          simp at htwo
        have hrest := hjoin rest ((names_cons_slash _).trans (names_cons_slash rest))
        exact (hrest.cons_cons _).cons_cons _
    · exact (hjoin rest (names_cons_slash rest)).cons_cons _

/-! ## 5. One name more -/

theorem parts_append {name : Text} (hname : IsName name) (path : Text) :
    parts (path ++ .char '/' :: name) = parts path ++ [name] := by
  rw [parts, Text.pieces_append, Text.pieces_of_not_mem hname.not_mem]
  rfl

theorem names_append {name : Text} (hname : IsName name) (path : Text) :
    names (path ++ .char '/' :: name) = names path ++ [name] := by
  rw [names, parts_append hname, List.foldl_append, List.foldl_cons, List.foldl_nil,
    step_of_isName hname]
  rfl

theorem isAbsolute_append {path : Text} (h : isAbsolute path = true) (more : Text) :
    isAbsolute (path ++ more) = true := by
  cases path with
  | nil => exact absurd h (by decide)
  | cons p rest => exact h

/-- The directory of a path with one name more is the path, unless that ends with a slash. -/
theorem directory_append {path name : Text} (hne : path ≠ [])
    (hpath : path.getLast? ≠ some (.char '/')) (hname : Point.char '/' ∉ name) :
    directory (path ++ .char '/' :: name) = path := by
  have hpass : ∀ p ∈ name.reverse, (p != Point.char '/') = true := by
    intro p hp
    rw [bne_iff_ne]
    rintro rfl
    exact hname (List.mem_reverse.mp hp)
  -- the name is what stands behind the last slash
  have hlast : ((path ++ .char '/' :: name).reverse.takeWhile fun (p : Point) => p != '/').reverse
      = name := by
    rw [List.reverse_append, List.reverse_cons, List.append_assoc,
      List.takeWhile_append_of_pos hpass, List.singleton_append,
      List.takeWhile_cons_of_neg (by decide), List.append_nil, List.reverse_reverse]
  have htake : (path ++ .char '/' :: name).take
      ((path ++ .char '/' :: name).length - name.length) = path ++ [.char '/'] := by
    -- the slash goes with the directory, from whose end it is cut below
    have hlength : (path ++ .char '/' :: name).length - name.length
        = (path ++ [Point.char '/']).length := by
      simp only [List.length_append, List.length_cons, List.length_nil]
      omega
    rw [hlength, List.append_cons path (Point.char '/') name, List.take_left]
  unfold directory split
  simp only [hlast, htake]
  rcases List.eq_nil_or_concat' path with rfl | ⟨init, last, rfl⟩
  · exact absurd rfl hne
  · have hslash : ¬ (fun p : Point => p == Point.char '/') last = true := by
      rw [List.getLast?_concat] at hpath
      exact fun heq => hpath (congrArg some (beq_iff_eq.mp heq))
    have hstop : (last :: init.reverse).dropWhile (fun (p : Point) => p == '/')
        = last :: init.reverse :=
      List.dropWhile_cons_of_neg hslash
    have hdrop : ((init ++ [last] ++ [Point.char '/']).reverse.dropWhile
        fun (p : Point) => p == '/').reverse = init ++ [last] := by
      rw [List.reverse_append, List.reverse_append, List.reverse_singleton, List.reverse_singleton,
        List.singleton_append, List.dropWhile_cons_of_pos (by decide), List.singleton_append,
        hstop, List.reverse_cons, List.reverse_reverse]
    have hkept : (init ++ [last]).isEmpty = false := List.isEmpty_eq_false_iff.mpr hne
    unfold trimSlashes
    simp only [hdrop, hkept, Bool.false_eq_true, if_false]

/-! ## 6. Joined paths -/

theorem join_nil (path : Text) : join [] path = path := by
  unfold join
  split <;> rfl

/-- A relative path that is joined to another one stands behind a slash. -/
theorem exists_join_eq {base path : Text} (hne : base ≠ []) (hpath : isAbsolute path = false) :
    ∃ before, join base path = before ++ .char '/' :: path
      ∧ (base = before ∨ base = before ++ [.char '/']) := by
  have hsome : base.isEmpty = false := List.isEmpty_eq_false_iff.mpr hne
  unfold join
  rw [hpath, if_neg Bool.false_ne_true, hsome, Bool.false_or]
  split
  · next hslash =>
    obtain ⟨before, hbefore⟩ := List.getLast?_eq_some_iff.mp (beq_iff_eq.mp hslash)
    refine ⟨before, ?_, .inr hbefore⟩
    rw [hbefore, List.append_assoc]
    rfl
  · exact ⟨base, List.append_assoc base _ path, .inl rfl⟩

/-- The parts of a path with a slash behind it. -/
theorem parts_concat_slash (path : Text) : parts (path ++ [.char '/']) = parts path ++ [[]] := by
  rw [parts, Text.pieces_append]
  rfl

theorem parts_append_slash (before path : Text) :
    parts (before ++ .char '/' :: path) = parts before ++ parts path :=
  Text.pieces_append _ before path

/-- A joined path goes on from where the other one ends. -/
theorem foldl_step_join {base path : Text} (hpath : isAbsolute path = false) (start : List Text) :
    (parts (join base path)).foldl step start
      = (parts path).foldl step ((parts base).foldl step start) := by
  by_cases hne : base = []
  · rw [hne, join_nil]
    exact congrArg (fun place => (parts path).foldl step place) (step_empty start).symm
  · obtain ⟨before, hjoin, rfl | rfl⟩ := exists_join_eq hne hpath
    · rw [hjoin, parts_append_slash, List.foldl_append]
    · rw [hjoin, parts_append_slash, List.foldl_append, parts_concat_slash, List.foldl_append]
      exact congrArg (fun place => (parts path).foldl step place) (step_empty _).symm

/-- The parts of a joined path come from the two. -/
theorem mem_parts_join {base path part : Text} (h : part ∈ parts (join base path)) :
    part ∈ parts base ∨ part ∈ parts path := by
  cases hpath : isAbsolute path with
  | true =>
    rw [join, if_pos hpath] at h
    exact .inr h
  | false =>
    by_cases hne : base = []
    · rw [hne, join_nil] at h
      exact .inr h
    · obtain ⟨before, hjoin, hbase⟩ := exists_join_eq hne hpath
      rw [hjoin, parts_append_slash] at h
      refine (List.mem_append.mp h).imp_left fun hpart => ?_
      rcases hbase with rfl | rfl
      · exact hpart
      · rw [parts_concat_slash]
        exact List.mem_append_left _ hpart

theorem isAbsolute_join {base path : Text} (hpath : isAbsolute path = false) :
    isAbsolute (join base path) = isAbsolute base := by
  cases base with
  | nil =>
    rw [join_nil, hpath]
    rfl
  | cons p rest =>
    unfold join
    rw [hpath, if_neg Bool.false_ne_true]
    split <;> rfl

theorem join_ne_nil {base : Text} (hne : base ≠ []) (path : Text) : join base path ≠ [] := by
  cases hpath : isAbsolute path with
  | true =>
    rw [join, if_pos hpath]
    rintro rfl
    exact absurd hpath (by decide)
  | false =>
    obtain ⟨before, hjoin, -⟩ := exists_join_eq hne hpath
    rw [hjoin]
    simp

/-- Names with slashes between them make a relative path of these parts. -/
theorem isAbsolute_join_names {names : List Text} (hne : names ≠ [])
    (hnames : ∀ name ∈ names, IsName name) : isAbsolute (Text.join "/" names) = false := by
  obtain ⟨name, rest, rfl⟩ := List.exists_cons_of_ne_nil hne
  have hname := hnames name List.mem_cons_self
  obtain ⟨p, name, rfl⟩ := List.exists_cons_of_ne_nil hname.ne_empty
  have hp : p ≠ .char '/' := fun heq => hname.not_mem (heq ▸ List.mem_cons_self)
  have hhead : (Text.join "/" ((p :: name) :: rest)).head? = some p := by
    cases rest with
    | nil => rw [Text.join, List.intercalate_singleton, List.head?_cons]
    | cons second rest =>
      rw [Text.join, List.intercalate_cons_cons]
      rfl
  rw [isAbsolute, hhead]
  exact beq_eq_false_iff_ne.mpr fun heq => hp (Option.some.inj heq)

theorem parts_join_names {names : List Text} (hne : names ≠ [])
    (hnames : ∀ name ∈ names, IsName name) : parts (Text.join "/" names) = names :=
  pieces_join hne fun name hname => (hnames name hname).not_mem

theorem join_join_names_ne_nil {names : List Text} (hne : names ≠ [])
    (hnames : ∀ name ∈ names, IsName name) (base : Text) :
    join base (Text.join "/" names) ≠ [] := by
  intro hnil
  by_cases hbase : base = []
  · rw [hbase, join_nil] at hnil
    -- no name is empty
    have hparts := parts_join_names hne hnames
    rw [hnil] at hparts
    exact (hnames [] (hparts ▸ List.mem_cons_self)).ne_empty rfl
  · exact join_ne_nil hbase _ hnil

/-! ## 7. Slashes at the ends -/

/-- A text is what stays of it and the slashes cut from its end, which are cut only if something
else than slashes stays. -/
theorem exists_eq_trimSlashes_append (t : Text) :
    ∃ slashes : Text, t = trimSlashes t ++ slashes ∧ (∀ p ∈ slashes, p = .char '/')
      ∧ (slashes = [] ∨ ∃ p ∈ trimSlashes t, p ≠ .char '/') := by
  unfold trimSlashes
  dsimp only
  split
  · exact ⟨[], (List.append_nil t).symm, fun p hp => absurd hp List.not_mem_nil, .inl rfl⟩
  · next hkept =>
    refine ⟨(t.reverse.takeWhile fun (p : Point) => p == '/').reverse, ?_, ?_, .inr ?_⟩
    · rw [← List.reverse_append, List.takeWhile_append_dropWhile, List.reverse_reverse]
    · intro p hp
      have hslash := List.mem_takeWhile_imp (List.mem_reverse.mp hp)
      exact beq_iff_eq.mp hslash
    · -- the last point that stays is no slash
      rw [Bool.not_eq_true, List.isEmpty_eq_false_iff, Ne, List.reverse_eq_nil_iff] at hkept
      obtain ⟨p, rest, hrest⟩ := List.exists_cons_of_ne_nil hkept
      have hhead := List.head_dropWhile_not (fun (p : Point) => p == '/') hkept
      refine ⟨(t.reverse.dropWhile fun (p : Point) => p == '/').head hkept, ?_, ?_⟩
      · exact List.mem_reverse.mpr (List.head_mem hkept)
      · exact beq_eq_false_iff_ne.mp hhead

/-- What follows a text does not bear on its root, unless the text holds nothing but slashes and
more of them follow. -/
theorem rootOf_append {first more : Text}
    (h : (∃ p ∈ first, p ≠ .char '/') ∨ isAbsolute more = false) :
    rootOf (first ++ more) = rootOf first := by
  have hsame : (first ++ more).takeWhile (fun (p : Point) => p == '/')
      = first.takeWhile fun (p : Point) => p == '/' := by
    rw [List.takeWhile_append]
    split
    · next hall =>
      have heq := (List.takeWhile_prefix fun (p : Point) => p == '/').eq_of_length hall
      rcases h with ⟨p, hp, hne⟩ | hmore
      · exact absurd (beq_iff_eq.mp (List.takeWhile_eq_self_iff.mp heq p hp)) hne
      · cases more with
        | nil => rw [List.takeWhile_nil, List.append_nil, heq]
        | cons p more =>
          have hp : ¬ (p == Point.char '/') = true := by
            intro hslash
            rw [isAbsolute, List.head?_cons, beq_iff_eq.mp hslash] at hmore
            simp at hmore
          rw [List.takeWhile_cons, if_neg hp, List.append_nil, heq]
    · rfl
  rw [rootOf, rootOf, hsame]

/-- The path of names below a root has this root. -/
theorem rootOf_ofNames {root : Text} (hroot : IsRoot root) {names : List Text}
    (hnames : ∀ name ∈ names, IsName name) : rootOf (ofNames root names) = root := by
  have hjoin : isAbsolute (Text.join "/" names) = false := by
    cases names with
    | nil => rfl
    | cons name rest => exact isAbsolute_join_names (List.cons_ne_nil name rest) hnames
  rw [ofNames, rootOf_append (.inr hjoin)]
  rcases hroot with rfl | rfl <;> rfl

/-- A path that goes on from another one has its root. -/
theorem rootOf_join {base path : Text} (hne : base ≠ []) (hpath : isAbsolute path = false) :
    rootOf (join base path) = rootOf base := by
  unfold join
  rw [hpath, if_neg Bool.false_ne_true]
  split
  · exact rootOf_append (.inr hpath)
  · next hslash =>
    -- a slash is put between, behind a point that is none
    rw [Bool.or_eq_true, not_or] at hslash
    rw [List.append_assoc]
    refine rootOf_append (.inl ⟨base.getLast hne, List.getLast_mem hne, ?_⟩)
    rintro heq
    refine hslash.2 (beq_iff_eq.mpr ?_)
    rw [List.getLast?_eq_some_getLast hne, heq]
    rfl

/-- Slashes cut from the end do not bear on where a path starts. -/
theorem rootOf_trimSlashes (t : Text) :
    rootOf (trimSlashes t) = rootOf t ∧ isAbsolute (trimSlashes t) = isAbsolute t := by
  obtain ⟨slashes, heq, -, hslashes⟩ := exists_eq_trimSlashes_append t
  rcases hslashes with rfl | ⟨p, hp, hne⟩
  · rw [List.append_nil] at heq
    rw [← heq]
    exact ⟨rfl, rfl⟩
  · obtain ⟨q, rest, hrest⟩ := List.exists_cons_of_ne_nil (List.ne_nil_of_mem hp)
    constructor
    · conv_rhs => rw [heq]
      exact (rootOf_append (.inl ⟨p, hp, hne⟩)).symm
    · conv_rhs => rw [heq]
      rw [hrest]
      rfl

/-- Slashes are cut from the end of the second of two texts, if something else stays of it. -/
theorem trimSlashes_append (first : Text) {more : Text} (h : ∃ p ∈ more, p ≠ .char '/') :
    trimSlashes (first ++ more) = first ++ trimSlashes more := by
  obtain ⟨p, hp, hne⟩ := h
  have hkept : more.reverse.dropWhile (fun (p : Point) => p == '/') ≠ [] := by
    rw [Ne, List.dropWhile_eq_nil_iff]
    intro hall
    exact hne (beq_iff_eq.mp (hall p (List.mem_reverse.mpr hp)))
  have hempty := List.isEmpty_eq_false_iff.mpr hkept
  unfold trimSlashes
  dsimp only
  rw [List.reverse_append, List.dropWhile_append, hempty, if_neg Bool.false_ne_true,
    List.reverse_append, List.reverse_reverse, if_neg, if_neg]
  · rw [Bool.not_eq_true, List.isEmpty_eq_false_iff, Ne, List.reverse_eq_nil_iff]
    exact hkept
  · rw [Bool.not_eq_true, List.isEmpty_eq_false_iff]
    exact List.append_ne_nil_of_right_ne_nil _ fun hnil => hkept (List.reverse_eq_nil_iff.mp hnil)

/-- A slash behind another point is cut. -/
theorem trimSlashes_concat {t : Text} {p : Point} (hp : p ≠ .char '/') :
    trimSlashes (t ++ [p] ++ [.char '/']) = t ++ [p] := by
  have hslash : ¬ (p == Point.char '/') = true := fun heq => hp (beq_iff_eq.mp heq)
  have hcut : trimSlashes [p, .char '/'] = [p] := by
    unfold trimSlashes
    dsimp only
    rw [List.reverse_cons, List.reverse_singleton, List.singleton_append,
      List.dropWhile_cons_of_pos (by decide), List.dropWhile_cons, if_neg hslash]
    rfl
  rw [List.append_assoc, List.singleton_append, trimSlashes_append t ⟨p, List.mem_cons_self, hp⟩,
    hcut]

/-! ## 8. What is joined -/

/-- A path with a slash behind it, unless it is empty or a slash ends it already. -/
def slashed (base : Text) : Text :=
  if base.isEmpty || base.getLast? == some (.char '/') then base else base ++ [.char '/']

theorem join_eq_append (base : Text) {path : Text} (hpath : isAbsolute path = false) :
    join base path = slashed base ++ path := by
  unfold join slashed
  rw [hpath, if_neg Bool.false_ne_true]
  by_cases hslash : (base.isEmpty || base.getLast? == some (.char '/')) = true
  · rw [if_pos hslash]
    exact if_pos hslash
  · rw [if_neg hslash]
    exact if_neg hslash

theorem slashed_eq (base : Text) :
    slashed base = [] ∨ ∃ before, slashed base = before ++ [.char '/'] := by
  unfold slashed
  split
  · next hslash =>
    rcases Bool.or_eq_true_iff.mp hslash with hempty | hlast
    · exact .inl (List.isEmpty_iff.mp hempty)
    · exact .inr (List.getLast?_eq_some_iff.mp (beq_iff_eq.mp hlast))
  · exact .inr ⟨base, rfl⟩

theorem slashed_of_slashed {base : Text} (h : base = [] ∨ ∃ before, base = before ++ [.char '/']) :
    slashed base = base := by
  rcases h with rfl | ⟨before, rfl⟩
  · rfl
  · rw [slashed, List.getLast?_concat, beq_self_eq_true, Bool.or_true, if_pos rfl]

theorem slashed_append (first : Text) {second : Text} (hne : second ≠ []) :
    slashed (first ++ second) = first ++ slashed second := by
  have hempty := List.isEmpty_eq_false_iff.mpr (List.append_ne_nil_of_right_ne_nil first hne)
  rw [slashed, slashed, hempty, List.isEmpty_eq_false_iff.mpr hne,
    List.getLast?_append_of_ne_nil first hne]
  split
  · rfl
  · exact List.append_assoc first second _

/-- Relative paths may be joined in any order. -/
theorem join_assoc (base : Text) {path more : Text} (hpath : isAbsolute path = false)
    (hmore : isAbsolute more = false) :
    join (join base path) more = join base (join path more) := by
  have hboth : isAbsolute (join path more) = false := (isAbsolute_join hmore).trans hpath
  rw [join_eq_append _ hmore, join_eq_append _ hpath, join_eq_append _ hboth,
    join_eq_append _ hmore, ← List.append_assoc]
  congr 1
  by_cases hne : path = []
  · rw [hne, List.append_nil, slashed_of_slashed (slashed_eq base)]
    exact (List.append_nil _).symm
  · exact slashed_append _ hne

/-- Paths below a base are told apart by what is joined to it. -/
theorem join_injective {base first second : Text} (hfirst : isAbsolute first = false)
    (hsecond : isAbsolute second = false) (h : join base first = join base second) :
    first = second := by
  rw [join_eq_append _ hfirst, join_eq_append _ hsecond] at h
  exact List.append_cancel_left h

/-- A path has all points of the one from which it goes on. -/
theorem sublist_join (base : Text) {path : Text} (hpath : isAbsolute path = false) :
    base <+ join base path := by
  have hslashed : base <+ slashed base := by
    unfold slashed
    split
    · exact List.Sublist.refl base
    · exact List.sublist_append_left base _
  rw [join_eq_append base hpath]
  exact hslashed.trans (List.sublist_append_left _ path)

/-- A path in normal form below a root: it is the root, and ends with a slash, or no slash ends
it. -/
theorem slashed_ofNames {root : Text} (hroot : IsRoot root) {names : List Text}
    (hnames : ∀ name ∈ names, IsName name) :
    slashed (ofNames root names) = (if names = [] then root else ofNames root names ++ [.char '/'])
      ∧ trimSlashes (slashed (ofNames root names)) = ofNames root names := by
  rcases List.eq_nil_or_concat' names with rfl | ⟨before, name, rfl⟩
  · rw [if_pos rfl]
    rcases hroot with rfl | rfl <;> exact ⟨rfl, rfl⟩
  · have hname := hnames name (List.mem_append_right before List.mem_cons_self)
    -- the last point of the last name is no slash
    obtain ⟨start, p, rfl⟩ := (List.eq_nil_or_concat' name).resolve_left hname.ne_empty
    have hp : p ≠ .char '/' :=
      fun heq => hname.not_mem (heq ▸ List.mem_append_right start List.mem_cons_self)
    obtain ⟨lead, hlead⟩ : ∃ lead, ofNames root (before ++ [start ++ [p]]) = lead ++ [p] := by
      by_cases hbefore : before = []
      · refine ⟨root ++ start, ?_⟩
        rw [hbefore, List.nil_append, ofNames, Text.join, List.intercalate_singleton,
          List.append_assoc]
      · refine ⟨root ++ Text.join "/" before ++ .char '/' :: start, ?_⟩
        rw [ofNames, Text.join_append hbefore (List.cons_ne_nil _ []), Text.join, Text.join,
          List.intercalate_singleton]
        simp
    have hlast :
        ¬ ((lead ++ [p]).isEmpty || (lead ++ [p]).getLast? == some (Point.char '/')) = true := by
      rw [List.getLast?_concat]
      simp [hp]
    rw [hlead, slashed, if_neg hlast,
      if_neg (List.append_ne_nil_of_right_ne_nil before (List.cons_ne_nil _ []))]
    exact ⟨rfl, trimSlashes_concat hp⟩

/-- More names below a path in normal form. -/
theorem ofNames_append {root : Text} (hroot : IsRoot root) {names more : List Text}
    (hne : more ≠ []) (hnames : ∀ name ∈ names ++ more, IsName name) :
    ofNames root (names ++ more) = join (ofNames root names) (Text.join "/" more) := by
  have hrelative :=
    isAbsolute_join_names hne fun name hname => hnames name (List.mem_append_right names hname)
  rw [join_eq_append _ hrelative,
    (slashed_ofNames hroot fun name hname => hnames name (List.mem_append_left more hname)).1]
  by_cases hnone : names = []
  · rw [if_pos hnone, hnone, List.nil_append, ofNames]
  · rw [if_neg hnone, ofNames, ofNames, Text.join_append hnone hne, List.append_assoc,
      List.append_assoc]
    rfl

end Path

end FieldAudit
