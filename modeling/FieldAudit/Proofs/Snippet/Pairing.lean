import FieldAudit.Proofs.Text.Pieces
import FieldAudit.Snippet
import Mathlib.Data.List.GetD
import Mathlib.Data.List.Infix

/-!
Pairs of backticks. A text is cut at every backtick; what stands between two backticks of a pair are
the pieces with an odd number that a backtick closes (`between_eq_odd_pieces`), and the snippets are
those of them that are kept, in order and apart from each other (`pluck_eq_odd_pieces`). A text in
which every backtick has its partner is left with nothing open, so a text behind it is searched as
if it stood alone (`pluck_append`). The induction for all of this goes over the text a pair at a
time (`pairInduction`).
-/

set_option autoImplicit false

namespace FieldAudit

namespace Snippet

/-! ## 1. One pair after another -/

/-- No point of a text without backticks ends what stands between two of them. -/
theorem forall_mem_ne_backtick {text : Text} (h : backtick ∉ text) :
    ∀ p ∈ text, (p != backtick) = true := by
  intro p hp
  rw [bne_iff_ne]
  exact fun heq => h (heq ▸ hp)

/-- Nothing stands between backticks before the first of them. -/
theorem between_append {before : Text} (h : backtick ∉ before) (offset : Nat) (rest : Text) :
    between offset (before ++ rest) = between (offset + before.length) rest := by
  induction before generalizing offset with
  | nil => rfl
  | cons p before ih =>
    have hp : p ≠ backtick := fun heq => h (heq ▸ List.mem_cons_self)
    have hbefore : backtick ∉ before := fun hmem => h (List.mem_cons_of_mem p hmem)
    rw [List.cons_append, between, if_neg hp, ih hbefore, List.length_cons]
    congr 1
    omega

theorem between_of_not_mem {text : Text} (h : backtick ∉ text) (offset : Nat) :
    between offset text = [] := by
  rw [← List.append_nil text, between_append h, between]

/-- What stands up to the next backtick is between the two. -/
theorem between_backtick {text : Text} (h : backtick ∉ text) (offset : Nat) (after : Text) :
    between offset (backtick :: (text ++ backtick :: after))
      = (offset, text) :: between (offset + text.length + 2) after := by
  have hbody : (text ++ backtick :: after).takeWhile (· != backtick) = text := by
    rw [List.takeWhile_append_of_pos (forall_mem_ne_backtick h),
      List.takeWhile_cons_of_neg (by decide), List.append_nil]
  rw [between, if_pos rfl]
  simp only [hbody]
  split
  · next hfound =>
    rw [hbody, List.drop_left] at hfound
    exact absurd hfound (List.cons_ne_nil _ _)
  · next hfound =>
    rw [hbody, List.drop_left] at hfound
    rw [(List.cons.inj hfound).2]

/-- A backtick without a partner opens nothing. -/
theorem between_unpaired {text : Text} (h : backtick ∉ text) (offset : Nat) :
    between offset (backtick :: text) = [] := by
  have hbody : text.takeWhile (· != backtick) = text := by
    rw [← List.append_nil text, List.takeWhile_append_of_pos (forall_mem_ne_backtick h),
      List.takeWhile_nil]
  rw [between, if_pos rfl]
  simp only [hbody]
  split
  · rfl
  · next hfound =>
    rw [hbody, List.drop_length] at hfound
    simp at hfound

/-- A text has no backtick, or a single one, or it goes on behind a pair of them. -/
theorem pairInduction {motive : Text → Prop} (none : ∀ text, backtick ∉ text → motive text)
    (unpaired : ∀ before rest, backtick ∉ before → backtick ∉ rest →
      motive (before ++ backtick :: rest))
    (paired : ∀ before body after, backtick ∉ before → backtick ∉ body → motive after →
      motive (before ++ backtick :: (body ++ backtick :: after)))
    (code : Text) : motive code := by
  induction hlength : code.length using Nat.strongRecOn generalizing code with
  | ind n ih =>
    by_cases hopening : backtick ∈ code
    · obtain ⟨before, rest, rfl, hbefore⟩ := List.eq_append_cons_of_mem hopening
      by_cases hclosing : backtick ∈ rest
      · obtain ⟨body, after, rfl, hbody⟩ := List.eq_append_cons_of_mem hclosing
        have hshorter : after.length < n := by
          rw [← hlength]
          simp only [List.length_append, List.length_cons]
          omega
        exact paired before body after hbefore hbody (ih after.length hshorter after rfl)
      · exact unpaired before rest hbefore hclosing
    · exact none code hopening

/-! ## 2. Odd pieces -/

/-- The odd numbers below a number. -/
def oddsBelow (n : Nat) : List Nat := (List.range n).filter fun j => j % 2 = 1

theorem oddsBelow_add_two (n : Nat) : oddsBelow (n + 2) = 1 :: (oddsBelow n).map (· + 2) := by
  have hparity : ∀ j, (j + 1 + 1) % 2 = j % 2 := by omega
  unfold oddsBelow
  rw [List.range_succ_eq_map, List.range_succ_eq_map, List.map_cons, List.map_map,
    List.filter_cons_of_neg (by decide), List.filter_cons_of_pos (by decide), List.filter_map]
  simp only [Function.comp_def, Nat.succ_eq_add_one, hparity]

theorem mem_oddsBelow {n j : Nat} (h : j ∈ oddsBelow n) : j < n ∧ j % 2 = 1 := by
  unfold oddsBelow at h
  rw [List.mem_filter, List.mem_range, decide_eq_true_eq] at h
  exact h

/-- What stands between pairs of backticks are the odd pieces that a backtick closes, each behind
the backtick with its number. -/
theorem between_eq_odd_pieces (code : Text) (offset : Nat) :
    between offset code = (oddsBelow (code.idxsOf backtick).length).map fun j =>
      (offset + (code.idxsOf backtick).getD (j - 1) 0, (Text.pieces backtick code).getD j []) := by
  induction code using pairInduction generalizing offset with
  | none text h =>
    rw [between_of_not_mem h, Text.idxsOf_of_not_mem h]
    rfl
  | unpaired before rest hbefore hrest =>
    rw [between_append hbefore, between_unpaired hrest, Text.idxsOf_append_cons hbefore,
      Text.idxsOf_of_not_mem hrest]
    rfl
  | paired before body after hbefore hbody ih =>
    have hpieces : Text.pieces backtick (before ++ backtick :: (body ++ backtick :: after))
        = before :: body :: Text.pieces backtick after := by
      rw [Text.pieces_append, Text.pieces_append, Text.pieces_of_not_mem hbefore,
        Text.pieces_of_not_mem hbody]
      rfl
    have hplaces : (before ++ backtick :: (body ++ backtick :: after)).idxsOf backtick
        = before.length :: (before.length + 1 + body.length)
          :: (after.idxsOf backtick).map fun place =>
            before.length + 1 + (body.length + 1 + place) := by
      rw [Text.idxsOf_append_cons hbefore, Text.idxsOf_append_cons hbody, List.map_cons,
        List.map_map]
      rfl
    rw [between_append hbefore, between_backtick hbody, ih, hpieces, hplaces, List.length_cons,
      List.length_cons, List.length_map, oddsBelow_add_two, List.map_cons, List.map_map]
    congr 1
    refine List.map_congr_left fun j hj => ?_
    obtain ⟨hlt, hodd⟩ := mem_oddsBelow hj
    obtain ⟨i, rfl⟩ : ∃ i, j = i + 1 := ⟨j - 1, by omega⟩
    have hi : i < (after.idxsOf backtick).length := by omega
    have hplace :
        ((after.idxsOf backtick).map fun place =>
          before.length + 1 + (body.length + 1 + place)).getD i 0
        = before.length + 1 + (body.length + 1 + (after.idxsOf backtick).getD i 0) := by
      rw [List.getD_eq_getElem _ _ (by rwa [List.length_map]), List.getElem_map,
        List.getD_eq_getElem _ _ hi]
    simp only [Function.comp, Nat.add_sub_cancel, List.getD_cons_succ, Nat.add_succ_sub_one]
    rw [hplace]
    congr 1
    omega

theorem occursIn_iff (part t : Text) : Text.occursIn part t = true ↔ part <:+: t := by
  induction t with
  | nil => rw [Text.occursIn, List.isEmpty_iff, List.infix_nil]
  | cons p t ih =>
    rw [Text.occursIn, Bool.or_eq_true, List.isPrefixOf_iff_prefix, ih, List.infix_cons_iff]

/-- A text is kept if one of the words occurs in it. -/
theorem isKept_iff (t : Text) : isKept t = true ↔ ∃ word ∈ keywords, word <:+: t := by
  unfold isKept
  rw [List.any_eq_true]
  simp only [occursIn_iff]

/-! ## 3. Snippets -/

/-- **Snippets are the odd pieces that are kept.** A text is cut at its backticks, of which there is
one less than there are pieces. The snippets are, in order, the pieces with an odd number and a
backtick behind them whose trimmed text holds the word of an operation or a fragment with a space;
the snippet is that trimmed text at the offset of the backtick in front of the piece. Later snippets
have greater offsets, and no point of the text lies in two of them, backticks included. -/
theorem pluck_eq_odd_pieces (code : Text) :
    let pieces := Text.pieces backtick code
    let backticks := code.idxsOf backtick
    let opening (j : Nat) := backticks.getD (j - 1) 0
    let kept := (List.range backticks.length).filter fun j => j % 2 = 1
      ∧ ∃ word ∈ (["query ", "mutation ", "fragment "] : List Text),
        word <:+: Text.trim (pieces.getD j [])
    Text.join [backtick] pieces = code ∧ (∀ piece ∈ pieces, backtick ∉ piece)
    ∧ pieces.length = backticks.length + 1
    ∧ pluck code = kept.map (fun j => ⟨Text.trim (pieces.getD j []), opening j⟩)
    ∧ ((pluck code).map Snippet.index).Pairwise (· < ·)
    ∧ kept.Pairwise fun j other => ∀ place,
      ¬ ((opening j ≤ place ∧ place ≤ opening (j + 1)) ∧ opening other ≤ place
        ∧ place ≤ opening (other + 1)) := by
  intro pieces backticks opening kept
  have hlength : pieces.length = backticks.length + 1 := by
    rw [Text.length_pieces, List.length_idxsOf]
  have hpluck : pluck code = kept.map fun j => ⟨Text.trim (pieces.getD j []), opening j⟩ := by
    have hkept : kept = (oddsBelow backticks.length).filter fun j =>
        isKept (Text.trim (pieces.getD j [])) := by
      unfold kept oddsBelow
      rw [List.filter_filter]
      refine List.filter_congr fun j _ => ?_
      rw [Bool.decide_and, Bool.and_comm]
      congr 1
      rw [Bool.eq_iff_iff, decide_eq_true_eq, isKept_iff]
      rfl
    unfold pluck
    rw [between_eq_odd_pieces, List.filterMap_map, hkept, ← List.filterMap_eq_map',
      List.filterMap_filter]
    refine List.filterMap_congr fun j _ => ?_
    simp only [Function.comp, Nat.zero_add]
    rfl
  -- backticks with greater numbers stand further back, and the numbers of two odd pieces are two
  -- apart
  have hopening : ∀ {j other : Nat}, 0 < j → j < other → other ≤ backticks.length →
      opening j < opening other := by
    intro j other hj hlt hle
    have hpairwise : backticks.Pairwise (· < ·) := List.pairwise_idxsOf
    have hsorted := List.pairwise_iff_getElem.mp hpairwise
    unfold opening
    rw [List.getD_eq_getElem _ _ (by omega), List.getD_eq_getElem _ _ (by omega)]
    exact hsorted (j - 1) (other - 1) _ _ (by omega)
  have hodd : ∀ {j : Nat}, j ∈ kept → j < backticks.length ∧ j % 2 = 1 := by
    intro j hj
    obtain ⟨hrange, hholds⟩ := List.mem_filter.mp hj
    exact ⟨List.mem_range.mp hrange, (of_decide_eq_true hholds).1⟩
  have hincreasing : kept.Pairwise (· < ·) := List.pairwise_lt_range.filter _
  refine ⟨Text.join_pieces backtick code, fun piece => Text.not_mem_of_mem_pieces, hlength, hpluck,
    ?_, ?_⟩
  · rw [hpluck, List.map_map, List.pairwise_map]
    refine hincreasing.imp_of_mem fun {j other} hj hother hlt => ?_
    have hfirst := hodd hj
    have hsecond := hodd hother
    exact hopening (by omega) hlt (by omega)
  · refine hincreasing.imp_of_mem fun {j other} hj hother hlt place hboth => ?_
    have hfirst := hodd hj
    have hsecond := hodd hother
    have hclosed : opening (j + 1) < opening other := hopening (by omega) (by omega) (by omega)
    omega

/-! ## 4. Texts one after the other -/

/-- A snippet so many points further back. -/
def later (points : Nat) (snippet : Snippet) : Snippet :=
  { snippet with index := points + snippet.index }

/-- The offset from which a text is searched moves what is found, and nothing else. -/
theorem between_add (points offset : Nat) (code : Text) :
    between (points + offset) code = (between offset code).map fun found =>
      (points + found.1, found.2) := by
  rw [between_eq_odd_pieces, between_eq_odd_pieces, List.map_map]
  simp only [Function.comp_def, Nat.add_assoc]

/-- Behind a text in which every backtick has its partner, what stands between backticks is found as
in a text of its own. -/
theorem between_of_even {first : Text} (h : first.count backtick % 2 = 0) (offset : Nat)
    (second : Text) :
    between offset (first ++ second)
      = between offset first ++ between (offset + first.length) second := by
  induction first using pairInduction generalizing offset with
  | none text htext =>
    rw [between_append htext, between_of_not_mem htext, List.nil_append]
  | unpaired before rest hbefore hrest =>
    -- a single backtick is an odd number of them
    rw [List.count_append, List.count_cons_self, List.count_eq_zero_of_not_mem hbefore,
      List.count_eq_zero_of_not_mem hrest] at h
    simp at h
  | paired before body after hbefore hbody ih =>
    rw [List.count_append, List.count_cons_self, List.count_append, List.count_cons_self,
      List.count_eq_zero_of_not_mem hbefore, List.count_eq_zero_of_not_mem hbody] at h
    have hall : before ++ backtick :: (body ++ backtick :: after) ++ second
        = before ++ backtick :: (body ++ backtick :: (after ++ second)) := by simp
    have hlength : (before ++ backtick :: (body ++ backtick :: after)).length
        = before.length + body.length + 2 + after.length := by
      simp only [List.length_append, List.length_cons]
      omega
    have hoffset : offset + before.length + body.length + 2 + after.length
        = offset + (before.length + body.length + 2 + after.length) := by omega
    rw [hall, between_append hbefore, between_append hbefore, between_backtick hbody,
      between_backtick hbody, ih (by omega), List.cons_append, hlength, hoffset]

/-- **Snippets of a text behind another one.** If every backtick of the first text has its partner,
the snippets of both texts together are those of the first, and then those of the second, further
back by the length of the first. -/
theorem pluck_append {first : Text} (h : first.count backtick % 2 = 0) (second : Text) :
    pluck (first ++ second) = pluck first ++ (pluck second).map (later first.length) := by
  have hmoved : between (0 + first.length) second
      = (between 0 second).map fun found => (first.length + found.1, found.2) := by
    rw [Nat.zero_add]
    exact between_add first.length 0 second
  unfold pluck
  rw [between_of_even h, List.filterMap_append, hmoved, List.filterMap_map, List.map_filterMap]
  congr 1
  refine List.filterMap_congr fun found _ => ?_
  obtain ⟨place, body⟩ := found
  dsimp only [Function.comp]
  by_cases hkept : isKept (Text.trim body) = true
  · rw [if_pos hkept, if_pos hkept]
    rfl
  · rw [if_neg hkept, if_neg hkept]
    rfl

/-- A snippet begins inside its text. -/
theorem index_lt_of_mem_pluck {code : Text} {snippet : Snippet} (h : snippet ∈ pluck code) :
    snippet.index < code.length := by
  obtain ⟨⟨place, body⟩, hfound, hkept⟩ := List.mem_filterMap.mp h
  rw [between_eq_odd_pieces] at hfound
  obtain ⟨j, hj, hpair⟩ := List.mem_map.mp hfound
  obtain ⟨hlt, -⟩ := mem_oddsBelow hj
  have hplace : place ∈ code.idxsOf backtick := by
    rw [← (Prod.mk.inj hpair).1, Nat.zero_add, List.getD_eq_getElem _ _ (by omega)]
    exact List.getElem_mem _
  have hsnippet : snippet.index = place := by
    dsimp only at hkept
    split at hkept
    · rw [← Option.some.inj hkept]
    · simp at hkept
  rw [hsnippet]
  simpa using List.lt_add_of_mem_idxsOf _ hplace

end Snippet

end FieldAudit
