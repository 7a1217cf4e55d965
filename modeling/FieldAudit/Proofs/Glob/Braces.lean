import FieldAudit.Glob.Braces
import FieldAudit.Proofs.Glob.Order
import Mathlib.Data.List.TakeWhile

/-!
Expansion of brace alternatives. `splitGroup` finds the first group that holds a comma: a text
before which there is none finds it in the text behind (`splitGroup_append_of_none`), unless a group
spans the two (`Spans`). One choice in that group takes an opening brace away, and so the expansion
needs no fuel (`expandBraces_of_some`) and comes with an induction along its choices
(`choiceInduction`). Two texts in a row expand each for itself if no group spans their results
(`expandBraces_append`).
-/

set_option autoImplicit false

namespace FieldAudit

namespace Glob

/-! ## 1. Groups -/

/-- The brace that starts a group. -/
abbrev opening : Point := .char '\x7b'

/-- The brace that ends a group. -/
abbrev closing : Point := .char '\x7d'

/-- The point between the alternatives of a group. -/
abbrev comma : Point := .char ','

/-- A text without braces. -/
def Plain (t : Text) : Prop := ∀ p ∈ t, isPlain p = true

theorem isPlain_eq_false_iff (p : Point) : isPlain p = false ↔ p = opening ∨ p = closing := by
  unfold isPlain
  rw [Bool.and_eq_false_iff, bne_eq_false_iff_eq, bne_eq_false_iff_eq]

theorem isPlain_iff (p : Point) : isPlain p = true ↔ p ≠ opening ∧ p ≠ closing := by
  rw [← Bool.not_eq_false, isPlain_eq_false_iff, not_or]

theorem Plain.ne {t : Text} (h : Plain t) : opening ∉ t ∧ closing ∉ t :=
  ⟨fun hmem => ((isPlain_iff _).mp (h _ hmem)).1 rfl,
    fun hmem => ((isPlain_iff _).mp (h _ hmem)).2 rfl⟩

theorem plain_append {first second : Text} : Plain (first ++ second) ↔ Plain first ∧ Plain second :=
  List.forall_mem_append

/-- The rest of a text behind the opening brace of a group that holds a comma: its inside, its
closing brace and what stands behind. -/
structure GroupRest (rest inside tail : Text) : Prop where
  eq : rest = inside ++ closing :: tail
  plain : Plain inside
  comma : comma ∈ inside

/-- The rest of a text up to its first brace. -/
theorem takeWhile_isPlain {inside : Text} (hplain : Plain inside) {brace : Point}
    (hbrace : isPlain brace = false) (tail : Text) :
    (inside ++ brace :: tail).takeWhile isPlain = inside := by
  rw [List.takeWhile_append_of_pos hplain, List.takeWhile_cons_of_neg (by rw [hbrace]; decide),
    List.append_nil]

/-- A group that holds a comma at the start of a text is the first one. -/
theorem splitGroup_of_groupRest {rest inside tail : Text} (h : GroupRest rest inside tail) :
    splitGroup (opening :: rest) = some ([], inside, tail) := by
  have htake : rest.takeWhile isPlain = inside := by
    rw [h.eq]
    exact takeWhile_isPlain h.plain (by decide) tail
  have hdrop : rest.drop inside.length = closing :: tail := by
    rw [h.eq, List.drop_left]
  have hbehind : rest.drop (inside.length + 1) = tail := by
    rw [← List.drop_drop, hdrop, List.drop_succ_cons, List.drop_zero]
  unfold splitGroup
  dsimp only
  rw [htake, hdrop, hbehind, if_pos ⟨rfl, rfl, h.comma⟩]

/-- Where no such group starts a text, the first one is that of the rest. -/
theorem splitGroup_cons_of_not {p : Point} {rest : Text}
    (h : ¬ (p = opening ∧ ∃ inside tail, GroupRest rest inside tail)) :
    splitGroup (p :: rest) = (splitGroup rest).map fun (head, inside, tail) =>
      (p :: head, inside, tail) := by
  rw [splitGroup]
  dsimp only
  refine if_neg ?_
  rintro ⟨hp, hclosing, hcomma⟩
  refine h ⟨hp, rest.takeWhile isPlain, rest.drop ((rest.takeWhile isPlain).length + 1), ?_, ?_,
    hcomma⟩
  · -- the text falls apart at the end of its plain points
    obtain ⟨tail, htail⟩ : ∃ tail, rest.drop (rest.takeWhile isPlain).length = closing :: tail := by
      cases hdrop : rest.drop (rest.takeWhile isPlain).length with
      | nil =>
        rw [hdrop] at hclosing
        simp at hclosing
      | cons q tail =>
        rw [hdrop, List.head?_cons] at hclosing
        exact ⟨tail, by rw [Option.some.inj hclosing]⟩
    rw [← List.drop_drop, htail, List.drop_succ_cons, List.drop_zero, ← htail]
    exact (List.prefix_iff_eq_append.mp (List.takeWhile_prefix _)).symm
  · exact fun p hp => List.mem_takeWhile_imp hp

/-- A group that holds a comma starts a text, or it does not. -/
theorem splitGroup_cons_cases (p : Point) (rest : Text) :
    (∃ inside tail, p = opening ∧ GroupRest rest inside tail
      ∧ splitGroup (p :: rest) = some ([], inside, tail))
    ∨ ((¬ (p = opening ∧ ∃ inside tail, GroupRest rest inside tail))
      ∧ splitGroup (p :: rest) = (splitGroup rest).map fun (head, inside, tail) =>
        (p :: head, inside, tail)) := by
  by_cases h : p = opening ∧ ∃ inside tail, GroupRest rest inside tail
  · obtain ⟨rfl, inside, tail, hrest⟩ := h
    exact .inl ⟨inside, tail, rfl, hrest, splitGroup_of_groupRest hrest⟩
  · exact .inr ⟨h, splitGroup_cons_of_not h⟩

/-- The first group, with the texts before and behind it. -/
theorem eq_of_splitGroup {t head inside tail : Text}
    (h : splitGroup t = some (head, inside, tail)) :
    t = head ++ opening :: (inside ++ closing :: tail) ∧ Plain inside ∧ comma ∈ inside := by
  induction t generalizing head with
  | nil => simp [splitGroup] at h
  | cons p rest ih =>
    rcases splitGroup_cons_cases p rest with ⟨inside', tail', rfl, hrest, hfirst⟩ | ⟨-, hlater⟩
    · rw [hfirst] at h
      obtain ⟨rfl, rfl, rfl⟩ := by simpa using h
      exact ⟨by rw [hrest.eq, List.nil_append], hrest.plain, hrest.comma⟩
    · rw [hlater] at h
      obtain ⟨⟨head', inside', tail'⟩, hrest, heq⟩ := Option.map_eq_some_iff.mp h
      obtain ⟨rfl, rfl, rfl⟩ := by simpa using heq
      obtain ⟨hsplit, hplain, hcomma⟩ := ih hrest
      exact ⟨by rw [List.cons_append, ← hsplit], hplain, hcomma⟩

/-! ## 2. Two texts in a row -/

/-- A group that holds a comma starts in a text and ends in the one behind. -/
def Spans (before behind : Text) : Prop :=
  ∃ head first second tail, before = head ++ opening :: first ∧ behind = second ++ closing :: tail
    ∧ Plain (first ++ second) ∧ comma ∈ first ++ second

/-- A text that is not plain and goes on behind an opening brace: what makes a group of the brace
stands in it. -/
theorem GroupRest.of_append {rest more inside tail : Text} (hrest : ¬ Plain rest)
    (h : GroupRest (rest ++ more) inside tail) : ∃ tail', GroupRest rest inside tail' := by
  rcases List.append_eq_append_iff.mp h.eq with ⟨between, hinside, -⟩ | ⟨between, heq, htail⟩
  · have hplain := h.plain
    rw [hinside] at hplain
    exact absurd (plain_append.mp hplain).1 hrest
  · cases between with
    | nil =>
      rw [List.append_nil] at heq
      exact absurd (heq ▸ h.plain) hrest
    | cons q between =>
      obtain ⟨rfl, -⟩ := List.cons.inj htail
      exact ⟨between, heq, h.plain, h.comma⟩

theorem not_plain_of_splitGroup {t head inside tail : Text}
    (h : splitGroup t = some (head, inside, tail)) :
    ¬ Plain t := by
  intro hplain
  refine hplain.ne.1 ?_
  rw [(eq_of_splitGroup h).1]
  exact List.mem_append_right head List.mem_cons_self

/-- The first group of a text is the first one whatever stands behind the text. -/
theorem splitGroup_append_of_some {before head inside tail : Text}
    (h : splitGroup before = some (head, inside, tail)) (behind : Text) :
    splitGroup (before ++ behind) = some (head, inside, tail ++ behind) := by
  induction before generalizing head with
  | nil => simp [splitGroup] at h
  | cons p rest ih =>
    rcases splitGroup_cons_cases p rest with ⟨inside', tail', rfl, hrest, hfirst⟩ | ⟨hnot, hlater⟩
    · rw [hfirst] at h
      obtain ⟨rfl, rfl, rfl⟩ := by simpa using h
      have hgroup : GroupRest (rest ++ behind) inside' (tail' ++ behind) := by
        refine ⟨?_, hrest.plain, hrest.comma⟩
        rw [hrest.eq, List.append_assoc, List.cons_append]
      exact splitGroup_of_groupRest hgroup
    · rw [hlater] at h
      obtain ⟨⟨head', inside', tail'⟩, hrest, heq⟩ := Option.map_eq_some_iff.mp h
      obtain ⟨rfl, rfl, rfl⟩ := by simpa using heq
      -- a group that started here would end before the one that is found, and so in the first text
      have hapart : ¬ (p = opening ∧ ∃ inside tail, GroupRest (rest ++ behind) inside tail) := by
        rintro ⟨hp, inside, tail, hgroup⟩
        obtain ⟨tail', hgroup'⟩ := hgroup.of_append (not_plain_of_splitGroup hrest)
        exact hnot ⟨hp, inside, tail', hgroup'⟩
      rw [List.cons_append, splitGroup_cons_of_not hapart, ih hrest, Option.map_some]

/-- Where no group spans two texts, and the first one holds none, the second one tells the first
group. -/
theorem splitGroup_append_of_none {before : Text} (h : splitGroup before = none) {behind : Text}
    (hspans : ¬ Spans before behind) :
    splitGroup (before ++ behind)
      = (splitGroup behind).map fun (head, inside, tail) => (before ++ head, inside, tail) := by
  induction before with
  | nil => simp
  | cons p rest ih =>
    rcases splitGroup_cons_cases p rest with ⟨inside, tail, -, -, hfirst⟩ | ⟨hnot, hlater⟩
    · rw [hfirst] at h
      simp at h
    · rw [hlater, Option.map_eq_none_iff] at h
      have hrest : ¬ Spans rest behind := by
        rintro ⟨head, first, second, tail, rfl, hbehind, hinside⟩
        exact hspans ⟨p :: head, first, second, tail, rfl, hbehind, hinside⟩
      have hapart : ¬ (p = opening ∧ ∃ inside tail, GroupRest (rest ++ behind) inside tail) := by
        rintro ⟨rfl, inside, tail, hgroup⟩
        -- the group ends in the first text, or it spans the two
        rcases List.append_eq_append_iff.mp hgroup.eq with
          ⟨second, rfl, hbehind⟩ | ⟨between, heq, htail⟩
        · exact hspans ⟨[], rest, second, tail, rfl, hbehind, hgroup.plain, hgroup.comma⟩
        · cases between with
          | nil =>
            rw [List.append_nil] at heq
            refine hspans ⟨[], rest, [], tail, rfl, htail.symm, ?_, ?_⟩
            · rw [heq, List.append_nil]
              exact hgroup.plain
            · rw [heq, List.append_nil]
              exact hgroup.comma
          | cons q between =>
            obtain ⟨rfl, -⟩ := List.cons.inj htail
            exact hnot ⟨rfl, inside, between, heq, hgroup.plain, hgroup.comma⟩
      rw [List.cons_append, splitGroup_cons_of_not hapart, ih h hrest, Option.map_map]
      rfl

/-- The group that spans two texts is the first one, if the first text holds none. -/
theorem splitGroup_append_of_spans {head first second tail : Text}
    (h : splitGroup (head ++ opening :: first) = none) (hplain : Plain (first ++ second))
    (hcomma : comma ∈ first ++ second) :
    splitGroup (head ++ opening :: first ++ (second ++ closing :: tail))
      = some (head, first ++ second, tail) := by
  induction head with
  | nil =>
    refine splitGroup_of_groupRest ⟨?_, hplain, hcomma⟩
    simp
  | cons p head ih =>
    rcases splitGroup_cons_cases p (head ++ opening :: first) with
      ⟨inside, tail, -, -, hfirst⟩ | ⟨hnot, hlater⟩
    · rw [List.cons_append, hfirst] at h
      simp at h
    · rw [List.cons_append, hlater, Option.map_eq_none_iff] at h
      -- the brace of the group that is meant stops a group that starts before it
      have hbrace : ¬ Plain (head ++ opening :: first) := fun hplain =>
        hplain.ne.1 (List.mem_append_right head List.mem_cons_self)
      have hapart : ¬ (p = opening ∧ ∃ inside tail',
          GroupRest (head ++ opening :: first ++ (second ++ closing :: tail)) inside tail') := by
        rintro ⟨hp, inside, tail', hgroup⟩
        obtain ⟨tail'', hgroup'⟩ := hgroup.of_append hbrace
        exact hnot ⟨hp, inside, tail'', hgroup'⟩
      rw [List.cons_append, List.cons_append, splitGroup_cons_of_not hapart, ih h, Option.map_some]

theorem closing_mem_of_splitGroup {t head inside tail : Text}
    (h : splitGroup t = some (head, inside, tail)) :
    closing ∈ t := by
  rw [(eq_of_splitGroup h).1]
  exact List.mem_append_right head
    (List.mem_cons_of_mem _ (List.mem_append_right inside List.mem_cons_self))

/-- A text without closing braces adds no group to one that holds none. -/
theorem splitGroup_append_of_not_mem {before : Text} (h : splitGroup before = none) {behind : Text}
    (hbehind : closing ∉ behind) : splitGroup (before ++ behind) = none := by
  have hnone : splitGroup behind = none := by
    cases hsplit : splitGroup behind with
    | none => rfl
    | some found => exact absurd (closing_mem_of_splitGroup hsplit) hbehind
  rw [splitGroup_append_of_none h, hnone, Option.map_none]
  rintro ⟨_, _, second, tail, _, heq, _, _⟩
  exact hbehind (heq ▸ List.mem_append_right second List.mem_cons_self)

/-- No group spans two texts of which the second one starts with an opening brace. -/
theorem not_spans_opening (before behind : Text) : ¬ Spans before (opening :: behind) := by
  rintro ⟨head, first, second, tail, -, heq, hplain, -⟩
  cases second with
  | nil => exact absurd (List.cons.inj heq).1 (by decide)
  | cons p second =>
    obtain ⟨rfl, -⟩ := List.cons.inj heq
    exact (plain_append.mp hplain).2.ne.1 List.mem_cons_self

/-- A group that holds a comma is the first one behind a text that holds none. -/
theorem splitGroup_group {before : Text} (h : splitGroup before = none) {inside : Text}
    (hplain : Plain inside) (hcomma : comma ∈ inside) (behind : Text) :
    splitGroup (before ++ opening :: (inside ++ closing :: behind))
      = some (before, inside, behind) := by
  rw [splitGroup_append_of_none h (not_spans_opening before _),
    splitGroup_of_groupRest ⟨rfl, hplain, hcomma⟩, Option.map_some]
  dsimp only
  rw [List.append_nil]

/-! ## 3. Expansion without fuel -/

/-- A choice takes an opening brace away. -/
theorem count_choice {t head inside tail choice : Text}
    (h : splitGroup t = some (head, inside, tail)) (hchoice : choice ∈ Text.pieces comma inside) :
    (head ++ choice ++ tail).count opening + 1 = t.count opening := by
  obtain ⟨rfl, hplain, -⟩ := eq_of_splitGroup h
  have hnone : choice.count opening = 0 ∧ inside.count opening = 0 :=
    ⟨List.count_eq_zero.mpr fun hmem => hplain.ne.1 (Text.mem_of_mem_pieces hchoice hmem),
      List.count_eq_zero.mpr hplain.ne.1⟩
  have hclosing : (closing :: tail).count opening = tail.count opening :=
    List.count_cons_of_ne (by decide)
  rw [List.count_append, List.count_append, List.count_append, List.count_cons_self,
    List.count_append, hclosing]
  omega

/-- The results do not depend on the fuel, as long as it is enough. -/
theorem expandWith_eq (fuel : Nat) {t : Text} (h : t.count opening ≤ fuel) :
    expandWith fuel t = expandBraces t := by
  suffices hall : ∀ (fuel other : Nat) (t : Text),
      t.count opening ≤ fuel → t.count opening ≤ other →
      expandWith fuel t = expandWith other t from hall fuel _ t h (Nat.le_refl _)
  have hnone : ∀ (fuel : Nat) (t : Text), splitGroup t = none → expandWith fuel t = [t] := by
    intro fuel t hsplit
    cases fuel with
    | zero => rfl
    | succ fuel => rw [expandWith, hsplit]
  intro fuel
  induction fuel with
  | zero =>
    intro other t hzero _
    -- without an opening brace there is no group
    have hsplit : splitGroup t = none := by
      cases hsplit : splitGroup t with
      | none => rfl
      | some found =>
        obtain ⟨head, inside, tail⟩ := found
        have hcount := count_choice hsplit (List.head_mem (Text.pieces_ne_nil comma inside))
        omega
    rw [hnone 0 t hsplit, hnone other t hsplit]
  | succ fuel ih =>
    intro other t hfuel hother
    cases hsplit : splitGroup t with
    | none => rw [hnone _ t hsplit, hnone other t hsplit]
    | some found =>
      obtain ⟨head, inside, tail⟩ := found
      obtain ⟨other, rfl⟩ : ∃ fewer, other = fewer + 1 := by
        have hcount := count_choice hsplit (List.head_mem (Text.pieces_ne_nil comma inside))
        exact ⟨other - 1, by omega⟩
      rw [expandWith, expandWith, hsplit]
      dsimp only
      congr 1
      refine List.flatMap_congr ?_
      intro choice hchoice
      have hcount := count_choice hsplit hchoice
      exact ih other _ (by omega) (by omega)

theorem expandBraces_of_none {t : Text} (h : splitGroup t = none) : expandBraces t = [t] := by
  rw [← expandWith_eq _ (Nat.le_succ _), expandWith, h]

/-- The results of a text are those of the texts with one choice made, repetitions aside. -/
theorem expandBraces_of_some {t head inside tail : Text}
    (h : splitGroup t = some (head, inside, tail)) :
    expandBraces t
      = ((Text.pieces comma inside).flatMap fun choice =>
        expandBraces (head ++ choice ++ tail)).eraseDups := by
  rw [← expandWith_eq _ (Nat.le_succ _), expandWith, h]
  dsimp only
  congr 1
  refine List.flatMap_congr ?_
  intro choice hchoice
  have hcount := count_choice h hchoice
  exact expandWith_eq _ (by omega)

/-- What holds of texts without a group, and of every text if it holds of those with one choice
made, holds of all. -/
theorem choiceInduction {motive : Text → Prop} (closed : ∀ t, splitGroup t = none → motive t)
    (choice : ∀ t head inside tail, splitGroup t = some (head, inside, tail) →
      (∀ piece ∈ Text.pieces comma inside, motive (head ++ piece ++ tail)) → motive t)
    (t : Text) : motive t := by
  induction hcount : t.count opening using Nat.strong_induction_on generalizing t with
  | _ count ih =>
    cases hsplit : splitGroup t with
    | none => exact closed t hsplit
    | some found =>
      obtain ⟨head, inside, tail⟩ := found
      refine choice t head inside tail hsplit ?_
      intro piece hpiece
      have hless := count_choice hsplit hpiece
      exact ih _ (by omega) _ rfl

/-! ## 4. Results -/

/-- The results of a text are those of the texts with one choice made. -/
theorem mem_expandBraces_iff {t head inside tail : Text}
    (h : splitGroup t = some (head, inside, tail)) (result : Text) :
    result ∈ expandBraces t
      ↔ ∃ piece ∈ Text.pieces comma inside, result ∈ expandBraces (head ++ piece ++ tail) := by
  rw [expandBraces_of_some h, List.mem_eraseDups, List.mem_flatMap]

theorem nodup_expandBraces (t : Text) : (expandBraces t).Nodup := by
  cases hsplit : splitGroup t with
  | none =>
    rw [expandBraces_of_none hsplit]
    exact List.nodup_singleton t
  | some found =>
    rw [expandBraces_of_some hsplit]
    exact nodup_eraseDups _

theorem exists_mem_expandBraces (t : Text) : ∃ result, result ∈ expandBraces t := by
  induction t using choiceInduction with
  | closed t hsplit =>
    rw [expandBraces_of_none hsplit]
    exact ⟨t, List.mem_singleton_self t⟩
  | choice t head inside tail hsplit ih =>
    have hpiece := List.head_mem (Text.pieces_ne_nil comma inside)
    obtain ⟨result, hresult⟩ := ih _ hpiece
    exact ⟨result, (mem_expandBraces_iff hsplit result).mpr ⟨_, hpiece, hresult⟩⟩

/-- No group that holds a comma is left in a result. -/
theorem splitGroup_of_mem_expandBraces {t result : Text} (h : result ∈ expandBraces t) :
    splitGroup result = none := by
  induction t using choiceInduction with
  | closed t hsplit =>
    rw [expandBraces_of_none hsplit, List.mem_singleton] at h
    rw [h]
    exact hsplit
  | choice t head inside tail hsplit ih =>
    obtain ⟨piece, hpiece, hresult⟩ := (mem_expandBraces_iff hsplit result).mp h
    exact ih piece hpiece hresult

/-- The points of a text with one choice made are points of the text. -/
theorem mem_of_mem_choice {t head inside tail : Text} (h : splitGroup t = some (head, inside, tail))
    {piece : Text} (hpiece : piece ∈ Text.pieces comma inside) {p : Point}
    (hp : p ∈ head ++ piece ++ tail) : p ∈ t := by
  rw [(eq_of_splitGroup h).1]
  rcases List.mem_append.mp hp with hfront | htail
  · rcases List.mem_append.mp hfront with hhead | hchosen
    · exact List.mem_append_left _ hhead
    · exact List.mem_append_right head
        (List.mem_cons_of_mem _ (List.mem_append_left _ (Text.mem_of_mem_pieces hpiece hchosen)))
  · exact List.mem_append_right head
      (List.mem_cons_of_mem _ (List.mem_append_right inside (List.mem_cons_of_mem _ htail)))

/-- The points of a result are points of the text. -/
theorem mem_of_mem_expandBraces {t result : Text} (h : result ∈ expandBraces t) {p : Point}
    (hp : p ∈ result) : p ∈ t := by
  induction t using choiceInduction with
  | closed t hsplit =>
    rw [expandBraces_of_none hsplit, List.mem_singleton] at h
    rwa [h] at hp
  | choice t head inside tail hsplit ih =>
    obtain ⟨piece, hpiece, hresult⟩ := (mem_expandBraces_iff hsplit result).mp h
    exact mem_of_mem_choice hsplit hpiece (ih piece hpiece hresult)

/-! ## 5. Two texts that expand each for itself -/

/-- A group that spans two texts spans the first one and the results of the second one: it ends
before the first group of that. -/
theorem Spans.of_mem_expandBraces {before behind : Text} (h : Spans before behind) {result : Text}
    (hresult : result ∈ expandBraces behind) : Spans before result := by
  induction behind using choiceInduction with
  | closed behind hsplit =>
    rw [expandBraces_of_none hsplit, List.mem_singleton] at hresult
    rwa [hresult]
  | choice behind head inside tail hsplit ih =>
    obtain ⟨piece, hpiece, hresult⟩ := (mem_expandBraces_iff hsplit result).mp hresult
    refine ih piece hpiece ?_ hresult
    obtain ⟨start, first, second, rest, hbefore, hbehind, hplain, hcomma⟩ := h
    obtain ⟨hgroup, -, -⟩ := eq_of_splitGroup hsplit
    rw [hgroup] at hbehind
    have hsecond := (plain_append.mp hplain).2
    -- the closing brace stands before the opening one of the first group, as only plain points
    -- stand before it
    rcases List.append_eq_append_iff.mp hbehind with ⟨between, rfl, hrest⟩ | ⟨between, rfl, hrest⟩
    · cases between with
      | nil =>
        rw [List.nil_append] at hrest
        exact absurd (List.cons.inj hrest).1 (by decide)
      | cons p between =>
        obtain ⟨rfl, -⟩ := List.cons.inj hrest
        exact absurd (List.mem_append_right head List.mem_cons_self) hsecond.ne.1
    · cases between with
      | nil =>
        rw [List.nil_append] at hrest
        exact absurd (List.cons.inj hrest).1 (by decide)
      | cons p between =>
        obtain ⟨rfl, -⟩ := List.cons.inj hrest
        exact ⟨start, first, second, between ++ piece ++ tail, hbefore, by simp, hplain, hcomma⟩

/-- Behind a text without a group, a text expands for itself if no group spans the first one and a
result of the second. -/
theorem expandBraces_append_of_none {before behind : Text} (hbefore : splitGroup before = none)
    (hspans : ∀ result ∈ expandBraces behind, ¬ Spans before result) :
    expandBraces (before ++ behind) = (expandBraces behind).map (before ++ ·) := by
  have hinjective : ∀ (texts : List Text), ∀ x ∈ texts, ∀ y ∈ texts,
      before ++ x = before ++ y → x = y :=
    fun _ _ _ _ _ heq => List.append_cancel_left heq
  induction behind using choiceInduction with
  | closed behind hsplit =>
    have hnone : splitGroup (before ++ behind) = none := by
      rw [splitGroup_append_of_none hbefore, hsplit, Option.map_none]
      have hmem : behind ∈ expandBraces behind := by
        rw [expandBraces_of_none hsplit]
        exact List.mem_singleton_self behind
      exact hspans behind hmem
    rw [expandBraces_of_none hnone, expandBraces_of_none hsplit, List.map_singleton]
  | choice behind head inside tail hsplit ih =>
    have hsome : splitGroup (before ++ behind) = some (before ++ head, inside, tail) := by
      rw [splitGroup_append_of_none hbefore, hsplit, Option.map_some]
      intro hsame
      obtain ⟨result, hresult⟩ := exists_mem_expandBraces behind
      exact hspans result hresult (hsame.of_mem_expandBraces hresult)
    rw [expandBraces_of_some hsome, expandBraces_of_some hsplit,
      ← eraseDups_map_of_injective (hinjective _), List.map_flatMap]
    congr 1
    refine List.flatMap_congr ?_
    intro piece hpiece
    rw [List.append_assoc, List.append_assoc, ← List.append_assoc head, ih piece hpiece]
    intro result hresult
    exact hspans result ((mem_expandBraces_iff hsplit result).mpr ⟨piece, hpiece, hresult⟩)

/-- **Two texts that expand each for itself.** If no group spans a result of the one and a result of
the other, the results of both in a row are those of the one with those of the other behind them. -/
theorem expandBraces_append {before behind : Text}
    (hspans : ∀ first ∈ expandBraces before, ∀ second ∈ expandBraces behind, ¬ Spans first second) :
    expandBraces (before ++ behind)
      = ((expandBraces before).flatMap fun first =>
        (expandBraces behind).map (first ++ ·)).eraseDups := by
  induction before using choiceInduction with
  | closed before hsplit =>
    have hself : before ∈ expandBraces before := by
      rw [expandBraces_of_none hsplit]
      exact List.mem_singleton_self before
    have happend := expandBraces_append_of_none hsplit (hspans before hself)
    rw [expandBraces_of_none hsplit, List.flatMap_singleton, ← happend]
    exact (eraseDups_of_nodup (nodup_expandBraces _)).symm
  | choice before head inside tail hsplit ih =>
    rw [expandBraces_of_some (splitGroup_append_of_some hsplit behind), expandBraces_of_some hsplit,
      eraseDups_flatMap_eraseDups, List.flatMap_assoc]
    refine eraseDups_flatMap_congr ?_
    intro piece hpiece
    rw [← List.append_assoc, ih piece hpiece]
    · exact eraseDups_of_nodup (nodup_eraseDups _)
    · intro first hfirst
      exact hspans first ((mem_expandBraces_iff hsplit first).mpr ⟨piece, hpiece, hfirst⟩)

end Glob

end FieldAudit
