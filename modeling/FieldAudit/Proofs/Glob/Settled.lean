import FieldAudit.Proofs.Glob.Braces
import FieldAudit.Proofs.Glob.Union

/-!
Expansion settles every pattern. Which group is resolved next is told by the text alone: the first
group with alternatives, with no such group in the text before it (`splitGroup_eq_some_iff`).
Resolving goes on until no such group is left, and `Expands` says so without a bound on the number
of steps: it holds of a text and a list where a finite derivation leads from the one to the other.
Every text has just one such list, that of `expandBraces` (`expands_iff`), its members are settled,
and so expanding once more changes nothing, for texts (`expandBraces_of_mem`) and for a search
(`findFiles_flatMap_expandBraces`).
-/

set_option autoImplicit false

namespace FieldAudit.Glob

/-! ## 1. Groups with alternatives -/

/-- A group with alternatives stands in a text: braces around points that are no braces, with a
comma among them. The other braces of the text need not be balanced. -/
def HoldsGroup (t : Text) : Prop :=
  ∃ head inside tail, t = head ++ opening :: (inside ++ closing :: tail) ∧ Plain inside
    ∧ comma ∈ inside

theorem splitGroup_eq_none_iff (t : Text) : splitGroup t = none ↔ ¬ HoldsGroup t := by
  constructor
  · rintro hnone ⟨head, inside, tail, rfl, hplain, hcomma⟩
    cases hhead : splitGroup head with
    | none =>
      rw [splitGroup_group hhead hplain hcomma] at hnone
      simp at hnone
    | some found =>
      -- a group before this one is found first
      obtain ⟨head', inside', tail'⟩ := found
      rw [splitGroup_append_of_some hhead] at hnone
      simp at hnone
  · intro hholds
    cases hsplit : splitGroup t with
    | none => rfl
    | some found =>
      obtain ⟨head, inside, tail⟩ := found
      exact absurd ⟨head, inside, tail, eq_of_splitGroup hsplit⟩ hholds

/-- The group that is resolved is the first one. -/
theorem splitGroup_eq_some_iff (t head inside tail : Text) :
    splitGroup t = some (head, inside, tail)
      ↔ t = head ++ opening :: (inside ++ closing :: tail) ∧ Plain inside ∧ comma ∈ inside
        ∧ ¬ HoldsGroup head := by
  constructor
  · intro hsplit
    obtain ⟨heq, hplain, hcomma⟩ := eq_of_splitGroup hsplit
    refine ⟨heq, hplain, hcomma, ?_⟩
    rw [← splitGroup_eq_none_iff]
    cases hhead : splitGroup head with
    | none => rfl
    | some found =>
      -- a group in the text before would have been found in place of this one
      obtain ⟨head', inside', tail'⟩ := found
      have hfirst := splitGroup_append_of_some hhead (opening :: (inside ++ closing :: tail))
      rw [← heq, hsplit] at hfirst
      obtain ⟨rfl, -, -⟩ := by simpa using hfirst
      have hlength := congrArg List.length (eq_of_splitGroup hhead).1
      simp only [List.length_append, List.length_cons] at hlength
      omega
  · rintro ⟨rfl, hplain, hcomma, hhead⟩
    exact splitGroup_group ((splitGroup_eq_none_iff head).mpr hhead) hplain hcomma tail

/-! ## 2. Expansion as a derivation -/

/-- What the expansion of a text comes to. A text without a group stands for itself. Else the first
group is resolved: its alternatives are put in its place, one after the other, and what comes of the
texts that this gives is listed, every text at its first place. A derivation is finite, so the
expansion ends where there is one. -/
inductive Expands : Text → List Text → Prop
  | settled {t : Text} (hnone : ¬ HoldsGroup t) : Expands t [t]
  | resolved {head inside tail : Text} {results : Text → List Text} (hhead : ¬ HoldsGroup head)
      (hplain : Plain inside) (hcomma : comma ∈ inside)
      (hpieces : ∀ piece ∈ Text.pieces comma inside,
        Expands (head ++ piece ++ tail) (results piece)) :
      Expands (head ++ opening :: (inside ++ closing :: tail))
        ((Text.pieces comma inside).flatMap results).eraseDups

/-- Every text has a derivation: a choice takes an opening brace away. -/
theorem expands_expandBraces (t : Text) : Expands t (expandBraces t) := by
  induction t using choiceInduction with
  | closed t hsplit =>
    rw [expandBraces_of_none hsplit]
    exact .settled ((splitGroup_eq_none_iff t).mp hsplit)
  | choice t head inside tail hsplit ih =>
    rw [expandBraces_of_some hsplit]
    obtain ⟨rfl, hplain, hcomma, hhead⟩ := (splitGroup_eq_some_iff t head inside tail).mp hsplit
    exact .resolved hhead hplain hcomma ih

/-- A text has no other derivation, as its first group is the only one that is resolved. -/
theorem eq_expandBraces_of_expands {t : Text} {results : List Text} (h : Expands t results) :
    results = expandBraces t := by
  induction h with
  | settled hnone => rw [expandBraces_of_none ((splitGroup_eq_none_iff _).mpr hnone)]
  | @resolved head inside tail results hhead hplain hcomma _ ih =>
    have hsplit := splitGroup_group ((splitGroup_eq_none_iff head).mpr hhead) hplain hcomma tail
    rw [expandBraces_of_some hsplit]
    exact congrArg List.eraseDups (List.flatMap_congr ih)

theorem expands_iff (t : Text) (results : List Text) :
    Expands t results ↔ results = expandBraces t := by
  constructor
  · exact eq_expandBraces_of_expands
  · intro heq
    rw [heq]
    exact expands_expandBraces t

/-! ## 3. Settled patterns -/

theorem not_holdsGroup_of_mem {t result : Text} (h : result ∈ expandBraces t) :
    ¬ HoldsGroup result :=
  (splitGroup_eq_none_iff result).mp (splitGroup_of_mem_expandBraces h)

/-- A result stands for itself. -/
theorem expandBraces_of_mem {t result : Text} (h : result ∈ expandBraces t) :
    expandBraces result = [result] :=
  expandBraces_of_none (splitGroup_of_mem_expandBraces h)

/-- Patterns that have been expanded are not changed by expanding them again. -/
theorem flatMap_expandBraces_expandBraces (patterns : List Text) :
    (patterns.flatMap expandBraces).flatMap expandBraces = patterns.flatMap expandBraces := by
  rw [List.flatMap_assoc]
  refine List.flatMap_congr ?_
  intro pattern _
  calc (expandBraces pattern).flatMap expandBraces
      = (expandBraces pattern).flatMap (fun result => [result]) :=
        List.flatMap_congr fun _ hresult => expandBraces_of_mem hresult
    _ = expandBraces pattern := List.flatMap_singleton' _

/-- A search may be given the patterns or what they stand for. -/
theorem findFiles_flatMap_expandBraces (w : Workspace) (root : Text) (patterns : List Text) :
    findFiles w root (patterns.flatMap expandBraces) = findFiles w root patterns := by
  unfold findFiles
  rw [flatMap_expandBraces_expandBraces]

/-- **Expansion reaches a fixed point.** For every text, however its braces and commas stand,
resolving one group after the other ends, and with one list only, that of `expandBraces`. The list
is not empty and holds no text twice; no text of it holds a group with alternatives, so each of them
expands to itself. And a search finds the same files, or is refused in the same way, whether it is
given patterns or what they expand to. -/
theorem expandBraces_settles (t : Text) :
    (∀ results, Expands t results ↔ results = expandBraces t)
      ∧ expandBraces t ≠ [] ∧ (expandBraces t).Nodup
      ∧ (∀ result ∈ expandBraces t, ¬ HoldsGroup result ∧ expandBraces result = [result])
      ∧ ∀ (w : Workspace) (root : Text) (patterns : List Text),
        findFiles w root (patterns.flatMap expandBraces) = findFiles w root patterns := by
  refine ⟨expands_iff t, ?_, nodup_expandBraces t, ?_, findFiles_flatMap_expandBraces⟩
  · obtain ⟨result, hresult⟩ := exists_mem_expandBraces t
    exact List.ne_nil_of_mem hresult
  · intro result hresult
    exact ⟨not_holdsGroup_of_mem hresult, expandBraces_of_mem hresult⟩

/-- A pattern with a group in a group and braces that nothing balances. Two of the ways through its
groups lead to one text. -/
theorem expandBraces_settles_unbalanced :
    Expands "\x7ba,\x7bb,a\x7d\x7d\x7d,\x7bd" ["a\x7d,\x7bd", "b\x7d,\x7bd"]
      ∧ (("b\x7d,\x7bd" : Text) ∈ expandBraces "\x7ba,\x7bb,a\x7d\x7d\x7d,\x7bd"
        ∧ ¬ HoldsGroup "b\x7d,\x7bd" ∧ expandBraces "b\x7d,\x7bd" = ["b\x7d,\x7bd"])
      ∧ findFiles twoFiles "/p" ["a\x7d,\x7bd", "b\x7d,\x7bd"]
        = findFiles twoFiles "/p" ["\x7ba,\x7bb,a\x7d\x7d\x7d,\x7bd"] := by
  have hvalue : expandBraces "\x7ba,\x7bb,a\x7d\x7d\x7d,\x7bd"
      = [("a\x7d,\x7bd" : Text), "b\x7d,\x7bd"] := by decide
  obtain ⟨hexpands, -, -, hsettled, hfind⟩ := expandBraces_settles "\x7ba,\x7bb,a\x7d\x7d\x7d,\x7bd"
  have hmem : ("b\x7d,\x7bd" : Text) ∈ expandBraces "\x7ba,\x7bb,a\x7d\x7d\x7d,\x7bd" := by
    rw [hvalue]
    exact List.mem_cons_of_mem _ (List.mem_singleton_self _)
  refine ⟨(hexpands _).mpr hvalue.symm, ⟨hmem, hsettled _ hmem⟩, ?_⟩
  have hsame := hfind twoFiles "/p" ["\x7ba,\x7bb,a\x7d\x7d\x7d,\x7bd"]
  rw [List.flatMap_singleton, hvalue] at hsame
  exact hsame

end FieldAudit.Glob
