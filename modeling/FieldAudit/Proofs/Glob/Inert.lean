import FieldAudit.Proofs.Glob.Braces

/-!
Groups without a comma. No choice is made in such a group, and no group that stands around it is
found either, as a group holds no brace: the texts before and behind it expand each for itself
(`expandBraces_around_group`). So it behaves as a point that stands for itself, exactly if no group
that holds a comma would stand around that point (`expandBraces_inert_iff`).
-/

set_option autoImplicit false

namespace FieldAudit.Glob

/-! ## 1. Skeletons -/

/-- The braces and commas of a text. -/
def skeleton (t : Text) : Text := t.filter fun p => !isPlain p || p == comma

theorem skeleton_append (first second : Text) :
    skeleton (first ++ second) = skeleton first ++ skeleton second :=
  List.filter_append first second

theorem count_skeleton (t : Text) : (skeleton t).count opening = t.count opening :=
  List.count_filter (by decide)

/-- Where the skeleton of a text goes on as a group, so does the text. -/
theorem exists_groupRest_of_skeleton {rest inside tail : Text}
    (h : GroupRest (skeleton rest) inside tail) :
    ∃ inside' tail', GroupRest rest inside' tail' := by
  obtain ⟨first, second, rfl, hfirst, hsecond⟩ := List.filter_eq_append_iff.mp h.eq
  obtain ⟨third, tail', rfl, hthird, -, -⟩ := List.filter_eq_cons_iff.mp hsecond
  refine ⟨first ++ third, tail', by simp, plain_append.mpr ⟨?_, ?_⟩, ?_⟩
  · intro p hp
    by_contra hbrace
    rw [Bool.not_eq_true] at hbrace
    have hkept : p ∈ inside := hfirst ▸ List.mem_filter.mpr ⟨hp, by rw [hbrace]; rfl⟩
    rw [h.plain p hkept] at hbrace
    simp at hbrace
  · intro p hp
    have hdropped := hthird p hp
    rw [Bool.or_eq_true, not_or, Bool.not_eq_true', Bool.not_eq_false] at hdropped
    exact hdropped.1
  · have hcomma := h.comma
    rw [← hfirst] at hcomma
    exact List.mem_append_left _ (List.mem_filter.mp hcomma).1

theorem GroupRest.skeleton {rest inside tail : Text} (h : GroupRest rest inside tail) :
    GroupRest (skeleton rest) (skeleton inside) (skeleton tail) := by
  refine ⟨?_, fun p hp => h.plain p (List.mem_filter.mp hp).1,
    List.mem_filter.mpr ⟨h.comma, by decide⟩⟩
  rw [h.eq, skeleton_append]
  congr 1

/-- The first group of a text is that of its skeleton. -/
theorem splitGroup_skeleton (t : Text) :
    splitGroup (skeleton t)
      = (splitGroup t).map fun (head, inside, tail) =>
        (skeleton head, skeleton inside, skeleton tail) := by
  induction t with
  | nil => rfl
  | cons p rest ih =>
    rcases splitGroup_cons_cases p rest with ⟨inside, tail, rfl, hrest, hfirst⟩ | ⟨hnot, hlater⟩
    · have hcons : skeleton (opening :: rest) = opening :: skeleton rest :=
        List.filter_cons_of_pos (by decide)
      rw [hfirst, hcons, splitGroup_of_groupRest hrest.skeleton]
      rfl
    · rw [hlater, Option.map_map]
      -- the skeleton keeps the point, or passes over it
      by_cases hp : (!isPlain p || p == comma) = true
      · have hcons : ∀ t : Text, skeleton (p :: t) = p :: skeleton t :=
          fun t => List.filter_cons_of_pos hp
        have hapart : ¬ (p = opening ∧ ∃ inside tail, GroupRest (skeleton rest) inside tail) := by
          rintro ⟨hopening, inside, tail, hgroup⟩
          exact hnot ⟨hopening, exists_groupRest_of_skeleton hgroup⟩
        rw [hcons, splitGroup_cons_of_not hapart, ih, Option.map_map]
        congr 1
        funext found
        simp [hcons]
      · have hcons : ∀ t : Text, skeleton (p :: t) = skeleton t :=
          fun t => List.filter_cons_of_neg hp
        rw [hcons, ih]
        congr 1
        funext found
        simp [hcons]

/-- A piece of the inside of a group has no braces and no commas. -/
theorem skeleton_piece {inside piece : Text} (hplain : Plain inside)
    (h : piece ∈ Text.pieces comma inside) :
    skeleton piece = [] := by
  rw [skeleton, List.filter_eq_nil_iff]
  intro p hp
  have hcomma : p ≠ comma := fun heq => Text.not_mem_of_mem_pieces h (heq ▸ hp)
  rw [hplain p (Text.mem_of_mem_pieces h hp)]
  simpa using hcomma

/-- **Which braces are left.** The results of texts with the same skeleton have the same skeleton:
the choices that are made bear neither on the braces nor on the commas that are left. -/
theorem skeleton_eq_of_mem {t other : Text} (h : skeleton t = skeleton other)
    {result result' : Text} (hresult : result ∈ expandBraces t)
    (hresult' : result' ∈ expandBraces other) :
    skeleton result = skeleton result' := by
  have hsplits := congrArg splitGroup h
  rw [splitGroup_skeleton, splitGroup_skeleton] at hsplits
  -- by induction on the choices: the skeletons are split alike, and a piece adds nothing to either
  induction t using choiceInduction generalizing other with
  | closed t hsplit =>
    rw [hsplit, Option.map_none] at hsplits
    have hother := Option.map_eq_none_iff.mp hsplits.symm
    rw [expandBraces_of_none hsplit, List.mem_singleton] at hresult
    rw [expandBraces_of_none hother, List.mem_singleton] at hresult'
    rw [hresult, hresult', h]
  | choice t head inside tail hsplit ih =>
    rw [hsplit, Option.map_some] at hsplits
    obtain ⟨⟨head', inside', tail'⟩, hother, heq⟩ := Option.map_eq_some_iff.mp hsplits.symm
    obtain ⟨hhead, -, htail⟩ := by simpa using heq
    obtain ⟨piece, hpiece, hresult⟩ := (mem_expandBraces_iff hsplit result).mp hresult
    obtain ⟨piece', hpiece', hresult'⟩ := (mem_expandBraces_iff hother result').mp hresult'
    have hsame : skeleton (head ++ piece ++ tail) = skeleton (head' ++ piece' ++ tail') := by
      simp only [skeleton_append]
      rw [skeleton_piece (eq_of_splitGroup hsplit).2.1 hpiece,
        skeleton_piece (eq_of_splitGroup hother).2.1 hpiece', hhead, htail]
    refine ih piece hpiece hsame hresult hresult' ?_
    rw [← splitGroup_skeleton, ← splitGroup_skeleton, hsame]

/-- The results of a text have equally many opening braces. -/
theorem count_eq_of_mem {t result result' : Text} (h : result ∈ expandBraces t)
    (h' : result' ∈ expandBraces t) :
    result.count opening = result'.count opening := by
  rw [← count_skeleton result, ← count_skeleton result', skeleton_eq_of_mem rfl h h']

/-! ## 2. What stands around a group or a point -/

/-- A group with its inside. -/
abbrev group (inside : Text) : Text := opening :: (inside ++ [closing])

/-- A group that holds a comma would stand around what is put between two texts, once these are
expanded. -/
def Encloses (head tail : Text) : Prop :=
  ∃ before ∈ expandBraces head, ∃ behind ∈ expandBraces tail, Spans before behind

theorem splitGroup_of_not_mem {t : Text} (h : comma ∉ t) : splitGroup t = none := by
  cases hsplit : splitGroup t with
  | none => rfl
  | some found =>
    obtain ⟨head, inside, tail⟩ := found
    obtain ⟨heq, -, hcomma⟩ := eq_of_splitGroup hsplit
    refine absurd ?_ h
    rw [heq]
    exact List.mem_append_right head (List.mem_cons_of_mem _ (List.mem_append_left _ hcomma))

/-- **Texts around a group without a comma expand each for itself.** -/
theorem expandBraces_around_group {w : Text} (hcomma : comma ∉ w) (head tail : Text) :
    expandBraces (head ++ (group w ++ tail))
      = ((expandBraces head).flatMap fun before =>
          (expandBraces tail).map fun behind => before ++ (group w ++ behind)).eraseDups := by
  have hgroup : splitGroup (group w) = none := by
    refine splitGroup_of_not_mem ?_
    simpa using hcomma
  have hclosed : ∀ behind, ¬ Spans (group w) behind := by
    rintro behind ⟨start, first, second, rest, heq, -, hinside, -⟩
    -- the last point is a closing brace, and would stand in the inside
    have hlast : (start ++ opening :: first).getLast? = some closing := by
      rw [← heq, group, ← List.cons_append, List.getLast?_concat]
    rw [List.getLast?_append_of_ne_nil _ (List.cons_ne_nil _ _)] at hlast
    rcases List.mem_cons.mp (List.mem_of_getLast? hlast) with hbrace | hmem
    · exact absurd hbrace (by decide)
    · exact (plain_append.mp hinside).1.ne.2 hmem
  have htail := expandBraces_append_of_none hgroup
    (fun result (_ : result ∈ expandBraces tail) => hclosed result)
  rw [expandBraces_append, htail]
  · simp only [List.map_map, Function.comp_def]
  · intro before _ behind hbehind
    rw [htail] at hbehind
    obtain ⟨rest, -, rfl⟩ := List.mem_map.mp hbehind
    exact not_spans_opening before _

section Point

variable {c : Point} (hplain : isPlain c = true) (hcomma : c ≠ comma)

include hplain hcomma

/-- A point that stands for itself makes no difference to whether a group stands around it. -/
theorem spans_cons_iff (before behind : Text) :
    Spans before (c :: behind) ↔ Spans before behind := by
  have hclosing := ((isPlain_iff c).mp hplain).2
  constructor
  · rintro ⟨head, first, second, tail, hbefore, hbehind, hinside, hmem⟩
    cases second with
    | nil => exact absurd (List.cons.inj hbehind).1 hclosing
    | cons p second =>
      obtain ⟨rfl, hrest⟩ := List.cons.inj hbehind
      obtain ⟨hfirst, hsecond⟩ := plain_append.mp hinside
      refine ⟨head, first, second, tail, hbefore, hrest, ?_, ?_⟩
      · exact plain_append.mpr ⟨hfirst, (List.forall_mem_cons.mp hsecond).2⟩
      · rcases List.mem_append.mp hmem with hmem | hmem
        · exact List.mem_append_left _ hmem
        · exact List.mem_append_right _ ((List.mem_cons.mp hmem).resolve_left (Ne.symm hcomma))
  · rintro ⟨head, first, second, tail, hbefore, hbehind, hinside, hmem⟩
    obtain ⟨hfirst, hsecond⟩ := plain_append.mp hinside
    refine ⟨head, first, c :: second, tail, hbefore, by rw [hbehind, List.cons_append], ?_, ?_⟩
    · exact plain_append.mpr ⟨hfirst, List.forall_mem_cons.mpr ⟨hplain, hsecond⟩⟩
    · rcases List.mem_append.mp hmem with hmem | hmem
      · exact List.mem_append_left _ hmem
      · exact List.mem_append_right _ (List.mem_cons_of_mem c hmem)

/-- Texts around a point that stands for itself expand each for itself if no group would stand
around it. -/
theorem expandBraces_around_point {head tail : Text} (h : ¬ Encloses head tail) :
    expandBraces (head ++ c :: tail)
      = ((expandBraces head).flatMap fun before =>
          (expandBraces tail).map fun behind => before ++ c :: behind).eraseDups := by
  have hopening := ((isPlain_iff c).mp hplain).1
  have hpoint : splitGroup [c] = none :=
    splitGroup_of_not_mem fun hmem => hcomma (List.mem_singleton.mp hmem).symm
  have hclosed : ∀ behind, ¬ Spans [c] behind := by
    rintro behind ⟨start, first, second, rest, heq, -, -, -⟩
    have hmem : opening ∈ [c] := heq ▸ List.mem_append_right start List.mem_cons_self
    exact hopening (List.mem_singleton.mp hmem).symm
  have htail := expandBraces_append_of_none hpoint
    (fun result (_ : result ∈ expandBraces tail) => hclosed result)
  change expandBraces (c :: tail) = (expandBraces tail).map (c :: ·) at htail
  rw [expandBraces_append, htail]
  · simp only [List.map_map, Function.comp_def]
  · intro before hbefore behind hbehind
    rw [htail] at hbehind
    obtain ⟨rest, hrest, rfl⟩ := List.mem_map.mp hbehind
    rw [spans_cons_iff hplain hcomma]
    exact fun hspans => h ⟨before, hbefore, rest, hrest, hspans⟩

/-- A point that stands for itself stands in some result. -/
theorem exists_mem_result {t : Text} (h : c ∈ t) : ∃ result ∈ expandBraces t, c ∈ result := by
  obtain ⟨hopening, hclosing⟩ := (isPlain_iff c).mp hplain
  induction t using choiceInduction with
  | closed t hsplit =>
    rw [expandBraces_of_none hsplit]
    exact ⟨t, List.mem_singleton_self t, h⟩
  | choice t head inside tail hsplit ih =>
    -- some alternative keeps the point: it is no brace of the group, and stands in a piece if it
    -- stands inside
    have hkept : ∃ piece ∈ Text.pieces comma inside, c ∈ head ++ piece ++ tail := by
      have hany := List.head_mem (Text.pieces_ne_nil comma inside)
      rw [(eq_of_splitGroup hsplit).1] at h
      simp only [List.mem_append, List.mem_cons] at h ⊢
      rcases h with hhead | heq | hinside | heq | htail
      · exact ⟨_, hany, .inl (.inl hhead)⟩
      · exact absurd heq hopening
      · obtain ⟨piece, hpiece, hmem⟩ := Text.exists_mem_pieces hcomma hinside
        exact ⟨piece, hpiece, .inl (.inr hmem)⟩
      · exact absurd heq hclosing
      · exact ⟨_, hany, .inr htail⟩
    obtain ⟨piece, hpiece, hmem⟩ := hkept
    obtain ⟨result, hresult, hc⟩ := ih piece hpiece hmem
    exact ⟨result, (mem_expandBraces_iff hsplit result).mpr ⟨piece, hpiece, hresult⟩, hc⟩

omit hplain hcomma in
/-- A group around a point that holds a comma has an alternative without the point. -/
theorem exists_piece_without {first second : Text} (hfirst : c ∉ first) (hsecond : c ∉ second)
    (h : comma ∈ first ++ second) :
    ∃ piece ∈ Text.pieces comma (first ++ c :: second), c ∉ piece := by
  rcases List.mem_append.mp h with hmem | hmem
  · obtain ⟨before, behind, rfl⟩ := List.append_of_mem hmem
    have hpiece := List.head_mem (Text.pieces_ne_nil comma before)
    refine ⟨_, ?_, fun hc => hfirst (List.mem_append_left _ (Text.mem_of_mem_pieces hpiece hc))⟩
    rw [List.append_assoc, List.cons_append, Text.pieces_append]
    exact List.mem_append_left _ hpiece
  · obtain ⟨before, behind, rfl⟩ := List.append_of_mem hmem
    have hpiece := List.head_mem (Text.pieces_ne_nil comma behind)
    refine ⟨_, ?_, fun hc =>
      hsecond (List.mem_append_right _ (List.mem_cons_of_mem _ (Text.mem_of_mem_pieces hpiece hc)))⟩
    rw [← List.cons_append, ← List.append_assoc, Text.pieces_append]
    exact List.mem_append_right _ hpiece

omit hcomma in
/-- Where a group stands around a point, a result lacks the point: one in which another alternative
is taken. -/
theorem exists_result_without {before tail : Text} (hbefore : splitGroup before = none)
    (hc : c ∉ before) (hc' : c ∉ tail) (hspans : Spans before tail) :
    ∃ result ∈ expandBraces (before ++ c :: tail), c ∉ result := by
  obtain ⟨head, first, second, rest, rfl, rfl, hinside, hmem⟩ := hspans
  have hfirst : c ∉ first := fun h => hc (List.mem_append_right head (List.mem_cons_of_mem _ h))
  have hsecond : c ∉ second := fun h => hc' (List.mem_append_left _ h)
  obtain ⟨hplainFirst, hplainSecond⟩ := plain_append.mp hinside
  have hplainCons : Plain (first ++ c :: second) :=
    plain_append.mpr ⟨hplainFirst, List.forall_mem_cons.mpr ⟨hplain, hplainSecond⟩⟩
  have hcommas : comma ∈ first ++ c :: second := by
    rcases List.mem_append.mp hmem with h | h
    · exact List.mem_append_left _ h
    · exact List.mem_append_right _ (List.mem_cons_of_mem c h)
  have hsplit : splitGroup (head ++ opening :: first ++ (c :: second ++ closing :: rest))
      = some (head, first ++ c :: second, rest) :=
        splitGroup_append_of_spans hbefore hplainCons hcommas
  obtain ⟨piece, hpiece, hwithout⟩ := exists_piece_without hfirst hsecond hmem
  obtain ⟨result, hresult⟩ := exists_mem_expandBraces (head ++ piece ++ rest)
  refine ⟨result, (mem_expandBraces_iff hsplit result).mpr ⟨piece, hpiece, hresult⟩, ?_⟩
  intro hmem
  have hpoints := mem_of_mem_expandBraces hresult hmem
  simp only [List.mem_append] at hpoints
  rcases hpoints with (hhead | hchosen) | hrest
  · exact hc (List.mem_append_left _ hhead)
  · exact hwithout hchosen
  · exact hc' (List.mem_append_right _ (List.mem_cons_of_mem _ hrest))

/-- So it is where the group stands around the point only when the text behind is expanded. -/
theorem exists_result_without_of_mem {before tail : Text} (hbefore : splitGroup before = none)
    (hc : c ∉ before) (hc' : c ∉ tail) {behind : Text} (hbehind : behind ∈ expandBraces tail)
    (hspans : Spans before behind) :
    ∃ result ∈ expandBraces (before ++ c :: tail), c ∉ result := by
  have hopening := ((isPlain_iff c).mp hplain).1
  by_cases hnow : Spans before tail
  · exact exists_result_without hplain hbefore hc hc' hnow
  induction tail using choiceInduction with
  | closed tail hsplit =>
    rw [expandBraces_of_none hsplit, List.mem_singleton] at hbehind
    exact absurd (hbehind ▸ hspans) hnow
  | choice tail head inside rest hsplit ih =>
    -- the first group is that of the text behind; the choices in it are made before
    have hpoint : splitGroup (c :: tail) = some (c :: head, inside, rest) := by
      rw [splitGroup_cons_of_not fun h => hopening h.1, hsplit, Option.map_some]
    have hwhole : splitGroup (before ++ c :: tail) = some (before ++ c :: head, inside, rest) := by
      rw [splitGroup_append_of_none hbefore
        ((spans_cons_iff hplain hcomma before tail).not.mpr hnow), hpoint, Option.map_some]
    obtain ⟨piece, hpiece, hmade⟩ := (mem_expandBraces_iff hsplit behind).mp hbehind
    have hcpiece : c ∉ head ++ piece ++ rest := fun h => hc' (mem_of_mem_choice hsplit hpiece h)
    have hmove : before ++ c :: head ++ piece ++ rest = before ++ c :: (head ++ piece ++ rest) := by
      simp
    by_cases hthen : Spans before (head ++ piece ++ rest)
    · obtain ⟨result, hresult, hwithout⟩ := exists_result_without hplain hbefore hc hcpiece hthen
      exact ⟨result, (mem_expandBraces_iff hwhole result).mpr ⟨piece, hpiece, hmove ▸ hresult⟩,
        hwithout⟩
    · obtain ⟨result, hresult, hwithout⟩ := ih piece hpiece hcpiece hmade hthen
      exact ⟨result, (mem_expandBraces_iff hwhole result).mpr ⟨piece, hpiece, hmove ▸ hresult⟩,
        hwithout⟩

end Point

/-- The results of a text may be made of those of its first part. -/
theorem mem_expandBraces_append {before first : Text} (hfirst : first ∈ expandBraces before)
    {behind result : Text} (h : result ∈ expandBraces (first ++ behind)) :
    result ∈ expandBraces (before ++ behind) := by
  induction before using choiceInduction with
  | closed before hsplit =>
    rw [expandBraces_of_none hsplit, List.mem_singleton] at hfirst
    rwa [← hfirst]
  | choice before head inside tail hsplit ih =>
    obtain ⟨piece, hpiece, hfirst⟩ := (mem_expandBraces_iff hsplit first).mp hfirst
    refine (mem_expandBraces_iff (splitGroup_append_of_some hsplit behind) result).mpr
      ⟨piece, hpiece, ?_⟩
    rw [← List.append_assoc]
    exact ih piece hpiece hfirst

/-! ## 3. Putting a text in the place of a point -/

/-- A text with another one in the place of a point. -/
def fill (c : Point) (text t : Text) : Text := t.flatMap fun p => if p = c then text else [p]

theorem fill_of_not_mem {c : Point} {t : Text} (h : c ∉ t) (text : Text) : fill c text t = t := by
  rw [fill]
  have hkept : ∀ p ∈ t, (if p = c then text else [p]) = [p] := by
    intro p hp
    refine if_neg ?_
    rintro rfl
    exact h hp
  rw [List.flatMap_congr hkept, List.flatMap_singleton']

theorem fill_append_cons {c : Point} {before behind : Text} (hbefore : c ∉ before)
    (hbehind : c ∉ behind) (text : Text) :
    fill c text (before ++ c :: behind) = before ++ (text ++ behind) := by
  have hsplit : fill c text (before ++ c :: behind)
      = fill c text before ++ (text ++ fill c text behind) := by
    simp [fill]
  rw [hsplit, fill_of_not_mem hbefore, fill_of_not_mem hbehind]

/-- A text in the place of a point adds its opening braces wherever the point stands. -/
theorem count_fill {c : Point} (hc : c ≠ opening) (text t : Text) :
    (fill c text t).count opening = t.count opening + t.count c * text.count opening := by
  induction t with
  | nil => simp [fill]
  | cons p t ih =>
    have hcons : fill c text (p :: t) = (if p = c then text else [p]) ++ fill c text t := by
      simp [fill]
    by_cases hp : p = c
    · rw [hcons, if_pos hp, hp, List.count_append, ih, List.count_cons_of_ne hc,
        List.count_cons_self, Nat.add_mul]
      omega
    · rw [hcons, if_neg hp, List.singleton_append, List.count_cons, List.count_cons,
        List.count_cons_of_ne hp, ih]
      omega

/-- Texts that go on from the same point behind equally many others like it are the same. -/
theorem append_cons_inj_of_count {p : Point} {first second first' second' : Text}
    (h : first ++ p :: second = first' ++ p :: second') (hcount : first.count p = first'.count p) :
    first = first' ∧ second = second' := by
  rcases List.append_eq_append_iff.mp h with ⟨between, rfl, hrest⟩ | ⟨between, rfl, hrest⟩
  · cases between with
    | nil => exact ⟨(List.append_nil first).symm, (List.cons.inj hrest).2⟩
    | cons q between =>
      obtain ⟨rfl, -⟩ := List.cons.inj hrest
      rw [List.count_append, List.count_cons_self] at hcount
      omega
  · cases between with
    | nil => exact ⟨List.append_nil first', (List.cons.inj hrest).2.symm⟩
    | cons q between =>
      obtain ⟨rfl, -⟩ := List.cons.inj hrest
      rw [List.count_append, List.count_cons_self] at hcount
      omega

/-! ## 4. Groups without a comma -/

/-- **A group without a comma is inert unless a group stands around it.** A text with such a group
has the results of the text with a point of its own in the place of the group, with the group put
back in its place, exactly if no group that holds a comma would stand around that point. -/
theorem expandBraces_inert_iff {head w tail : Text} {c : Point} (hw : comma ∉ w) (hhead : c ∉ head)
    (htail : c ∉ tail) (hplain : isPlain c = true) (hcomma : c ≠ comma) :
    expandBraces (head ++ (group w ++ tail))
        = (expandBraces (head ++ c :: tail)).map (fill c (group w))
      ↔ ¬ Encloses head tail := by
  have hopening := ((isPlain_iff c).mp hplain).1
  constructor
  · rintro hlaw ⟨before, hbefore, behind, hbehind, hspans⟩
    -- one result of the text with the point holds it, another one does not, and so their opening
    -- braces differ in number
    have hcbefore : c ∉ before := fun h => hhead (mem_of_mem_expandBraces hbefore h)
    obtain ⟨without, hwithout, hnot⟩ := exists_result_without_of_mem hplain hcomma
      (splitGroup_of_mem_expandBraces hbefore) hcbefore htail hbehind hspans
    have hwithout := mem_expandBraces_append hbefore hwithout
    obtain ⟨within, hwithin, hmem⟩ := exists_mem_result hplain hcomma
      (List.mem_append_right head (List.mem_cons_self (a := c) (l := tail)))
    have hfilled : ∀ result ∈ expandBraces (head ++ c :: tail), fill c (group w) result
        ∈ expandBraces (head ++ (group w ++ tail)) := by
      intro result hresult
      rw [hlaw]
      exact List.mem_map_of_mem hresult
    have hcounts := count_eq_of_mem hwithout hwithin
    have hfills := count_eq_of_mem (hfilled without hwithout) (hfilled within hwithin)
    rw [count_fill hopening, count_fill hopening, List.count_eq_zero.mpr hnot, List.count_cons_self,
      hcounts] at hfills
    have hpositive : 0 < within.count c * ((w ++ [closing]).count opening + 1) :=
      Nat.mul_pos (List.count_pos_iff.mpr hmem) (Nat.succ_pos _)
    omega
  · intro hencloses
    have hfill : ∀ before ∈ expandBraces head, ∀ behind ∈ expandBraces tail,
        fill c (group w) (before ++ c :: behind) = before ++ (group w ++ behind) :=
      fun before hbefore behind hbehind =>
        fill_append_cons (fun h => hhead (mem_of_mem_expandBraces hbefore h))
        (fun h => htail (mem_of_mem_expandBraces hbehind h)) _
    rw [expandBraces_around_group hw, expandBraces_around_point hplain hcomma hencloses,
      ← eraseDups_map_of_injective, List.map_flatMap]
    · congr 1
      refine List.flatMap_congr ?_
      intro before hbefore
      rw [List.map_map]
      exact List.map_congr_left fun behind hbehind => (hfill before hbefore behind hbehind).symm
    · -- the texts before the group have equally many opening braces, and so the group tells them
      -- apart
      intro first hfirst second hsecond heq
      obtain ⟨before, hbefore, hmap⟩ := List.mem_flatMap.mp hfirst
      obtain ⟨behind, hbehind, rfl⟩ := List.mem_map.mp hmap
      obtain ⟨before', hbefore', hmap'⟩ := List.mem_flatMap.mp hsecond
      obtain ⟨behind', hbehind', rfl⟩ := List.mem_map.mp hmap'
      rw [hfill before hbefore behind hbehind, hfill before' hbefore' behind' hbehind',
        List.cons_append, List.cons_append] at heq
      obtain ⟨rfl, hrest⟩ := append_cons_inj_of_count heq (count_eq_of_mem hbefore hbefore')
      rw [List.append_cancel_left hrest]

/-- Beside groups with alternatives a group without a comma is inert; inside of one it is not. -/
theorem expandBraces_inert_iff_beside :
    expandBraces "\x7ba,b\x7d/\x7bx\x7d.\x7bts,js\x7d"
        = (expandBraces "\x7ba,b\x7d/#.\x7bts,js\x7d").map (fill '#' (group "x"))
      ∧ ¬ Encloses "\x7ba,b\x7d/" ".\x7bts,js\x7d"
      ∧ Encloses "\x7ba" ",b\x7d"
      ∧ expandBraces "\x7ba\x7bx\x7d,b\x7d"
        ≠ (expandBraces "\x7ba#,b\x7d").map (fill '#' (group "x")) := by
  have hbeside : expandBraces "\x7ba,b\x7d/\x7bx\x7d.\x7bts,js\x7d"
      = (expandBraces "\x7ba,b\x7d/#.\x7bts,js\x7d").map (fill '#' (group "x")) := by decide
  have hencloses : Encloses "\x7ba" ",b\x7d" := by
    refine ⟨"\x7ba", by decide, ",b\x7d", by decide, [], "a", ",b", [], by decide, by decide,
      ?_, by decide⟩
    unfold Plain
    decide
  refine ⟨hbeside, ?_, hencloses, ?_⟩
  · have hiff := @expandBraces_inert_iff "\x7ba,b\x7d/" "x" ".\x7bts,js\x7d" '#' (by decide)
      (by decide) (by decide) (by decide) (by decide)
    exact hiff.mp hbeside
  · have hiff := @expandBraces_inert_iff "\x7ba" "x" ",b\x7d" '#' (by decide) (by decide)
      (by decide) (by decide) (by decide)
    exact fun hlaw => hiff.mp hlaw hencloses

/-- A group with alternatives that holds a group without a comma is not expanded, though it is with
a point in its place. -/
theorem expandBraces_keeps_enclosing :
    expandBraces "\x7ba\x7bx\x7d,b\x7d" = ["\x7ba\x7bx\x7d,b\x7d"]
      ∧ (expandBraces "\x7ba#,b\x7d").map (fill '#' (group "x")) = ["a\x7bx\x7d", "b"] := by
  decide

end FieldAudit.Glob
