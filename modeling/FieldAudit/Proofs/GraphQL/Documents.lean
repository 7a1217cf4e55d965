import FieldAudit.GraphQL.Parse
import FieldAudit.Proofs.Attempt
import FieldAudit.Proofs.GraphQL.Productions

/-!
Whole documents. Texts with the same lexemes are both parsed as one document or both refused
(`parse_of_alike`), for the readers of the grammar are regular. The token that ends a text is its
last one and only there (`tokenizeFrom_cases`), and a document is read up to it; so a text that is
parsed is read to its end, and its brackets are well nested (`balanced_of_parse`).
-/

set_option autoImplicit false

namespace FieldAudit.GraphQL

open Grammar

/-! ## 1. Texts with the same lexemes -/

theorem parse_of_run_eq_ok {source : Text} {document : Document} {rest : List Token}
    (h : Grammar.document.run (tokenize source).tokens = .ok (document, rest)) :
    parse source = .ok document := by
  simp only [parse, readWith, h]

theorem parse_of_run_eq_error {source : Text} {fault : Fault}
    (h : Grammar.document.run (tokenize source).tokens = .error fault) :
    ∃ error, parse source = .error error := by
  refine ⟨.ofFault source (tokenize source) fault, ?_⟩
  simp only [parse, readWith, h]

/-- **What a text means is told by its lexemes.** Texts with the same lexemes are parsed as one
document, or both refused. -/
theorem parse_of_alike {source other : Text}
    (h : Alike (tokenize source).tokens (tokenize other).tokens) :
    (∃ document, parse source = .ok document ∧ parse other = .ok document)
      ∨ ∃ error error', parse source = .error error ∧ parse other = .error error' := by
  have hagree : Agree (ClosedBy .endOfText) document document :=
    agree_someUpTo regular_definition .endOfText
  cases hagree _ _ h with
  | fail hx hy =>
    obtain ⟨error, hsource⟩ := parse_of_run_eq_error hx
    obtain ⟨error', hother⟩ := parse_of_run_eq_error hy
    exact .inr ⟨error, error', hsource, hother⟩
  | @read document _ _ _ taken hx hy _ _ hpost =>
    obtain ⟨rfl, -⟩ := hpost
    exact .inl ⟨document, parse_of_run_eq_ok hx, parse_of_run_eq_ok hy⟩

/-! ## 2. The end of a text -/

/-- A number is a whole one, or it has a fraction or a power. -/
theorem kind_ne_of_scanNumber {offset : Nat} {t : Text} {kind : TokenKind} {length : Nat}
    (h : scanNumber offset t = .ok (kind, length)) : kind ≠ .endOfText := by
  unfold scanNumber at h
  obtain ⟨whole, -, h⟩ := (bind_eq_ok_iff _ _ _).mp h
  obtain ⟨fraction, -, h⟩ := (bind_eq_ok_iff _ _ _).mp h
  obtain ⟨power, -, h⟩ := (bind_eq_ok_iff _ _ _).mp h
  have hkind : kind = if fraction + power = 0 then .int else .float := by
    dsimp only at h
    split at h
    · split at h
      · exact nomatch h
      · exact (Prod.mk.inj (Except.ok.inj h)).1.symm
    · exact (Prod.mk.inj (Except.ok.inj h)).1.symm
  rw [hkind]
  split <;> decide

/-- No token that starts with a character ends the text. -/
theorem kind_ne_of_scanToken {offset : Nat} {p : Point} {rest value : Text} {kind : TokenKind}
    {more : Nat} (h : scanToken offset p rest = .ok (kind, value, more)) : kind ≠ .endOfText := by
  unfold scanToken at h
  split at h
  case h_1 found hfound =>
    obtain ⟨rfl, -⟩ := Prod.mk.inj (Except.ok.inj h)
    rintro rfl
    unfold punctuator? at hfound
    split at hfound <;> exact absurd hfound (by decide)
  case h_2 =>
    split_ifs at h with hname hnumber hquote hpoint
    · obtain ⟨rfl, -⟩ := Prod.mk.inj (Except.ok.inj h)
      decide
    · obtain ⟨⟨found, length⟩, hfound, hvalue⟩ := (map_eq_ok_iff _ _ _).mp h
      obtain ⟨rfl, -⟩ := Prod.mk.inj hvalue
      exact kind_ne_of_scanNumber hfound
    · -- a text, in either of its forms
      split at h <;>
      · obtain ⟨_, -, hvalue⟩ := (map_eq_ok_iff _ _ _).mp h
        obtain ⟨rfl, -⟩ := Prod.mk.inj hvalue
        decide
    · split at h
      · obtain ⟨rfl, -⟩ := Prod.mk.inj (Except.ok.inj h)
        decide
      · exact nomatch h
      · dsimp only at h
        split at h <;> exact nomatch h

/-- The tokens of a text are those within it and the one that ends it, or those before a fault. -/
theorem tokenizeFrom_cases (offset : Nat) (t : Text) :
    ∃ own : List Token, (∀ token ∈ own, token.kind ≠ .endOfText)
      ∧ ((∃ stop, tokenizeFrom offset t = ⟨own ++ [⟨.endOfText, [], stop⟩], none⟩)
        ∨ ∃ fault, tokenizeFrom offset t = ⟨own, some fault⟩) := by
  fun_induction tokenizeFrom offset t with
  | case1 offset => exact ⟨[], List.forall_mem_nil _, .inl ⟨offset, rfl⟩⟩
  | case2 _ _ _ _ ih => exact ih
  | case3 _ _ _ _ ih => exact ih
  | case4 => exact ⟨[], List.forall_mem_nil _, .inr ⟨_, rfl⟩⟩
  | case5 offset p rest _ _ kind value more hscan others ih =>
    obtain ⟨own, hown, hend⟩ := ih
    refine ⟨⟨kind, value, offset⟩ :: own,
      List.forall_mem_cons.mpr ⟨kind_ne_of_scanToken hscan, hown⟩, ?_⟩
    rcases hend with ⟨stop, hothers⟩ | ⟨fault, hothers⟩
    · exact .inl ⟨stop, by rw [show others = _ from hothers]; rfl⟩
    · exact .inr ⟨fault, by rw [show others = _ from hothers]⟩

namespace Grammar

/-- Tokens of which at most the last one ends the text. -/
def EndsOnce (tokens : List Token) : Prop := ∀ token ∈ tokens.dropLast, token.kind ≠ .endOfText

theorem EndsOnce.tail {taken rest : List Token} (h : EndsOnce (taken ++ rest)) : EndsOnce rest := by
  intro token hmem
  refine h token ?_
  rw [List.dropLast_append_of_ne_nil (List.ne_nil_of_mem ((List.dropLast_sublist rest).mem hmem))]
  exact List.mem_append_right taken hmem

/-- Nothing stands behind the end of the text. -/
theorem EndsOnce.eq_nil {token : Token} {rest : List Token} (h : EndsOnce (token :: rest))
    (hend : token.kind = .endOfText) : rest = [] := by
  by_contra hrest
  refine h token ?_ hend
  rw [List.dropLast_cons_of_ne_nil hrest]
  exact List.mem_cons_self

theorem endsOnce_tokenize (source : Text) : EndsOnce (tokenize source).tokens := by
  obtain ⟨own, hown, ⟨stop, htokens⟩ | ⟨fault, htokens⟩⟩ := tokenizeFrom_cases 0 source
  all_goals
    intro token hmem
    rw [tokenize, htokens] at hmem
  · rw [List.dropLast_concat] at hmem
    exact hown token hmem
  · exact hown token ((List.dropLast_sublist own).mem hmem)

/-- Well-nested brackets up to the token that ends the text. -/
def BalancedToEnd (tokens : List Token) : Prop :=
  ∃ taken stop, tokens = taken ++ [stop] ∧ stop.kind = .endOfText ∧ WellNested (brackets taken)

theorem BalancedToEnd.append {taken rest : List Token} (htaken : WellNested (brackets taken))
    (hrest : BalancedToEnd rest) : BalancedToEnd (taken ++ rest) := by
  obtain ⟨more, stop, rfl, hstop, hmore⟩ := hrest
  refine ⟨taken ++ more, stop, (List.append_assoc taken more [stop]).symm, hstop, ?_⟩
  rw [brackets_append]
  exact htaken.append hmore

variable {α β : Type}

/-- Readers in a row that succeed: the first one does, and the second one on what it leaves. -/
theorem exists_of_run_bind {x : Reader α} {next : α → Reader β} {tokens rest : List Token}
    {value : β} (h : (x >>= next).run tokens = .ok (value, rest)) :
    ∃ v behind, x.run tokens = .ok (v, behind) ∧ (next v).run behind = .ok (value, rest) := by
  cases hx : x.run tokens with
  | error fault => exact nomatch (run_bind_of_error hx).symm.trans h
  | ok found => exact ⟨found.1, found.2, rfl, (run_bind_of_ok hx).symm.trans h⟩

variable {item : Reader α}

/-- Regular items up to the end of the text, by induction on the fuel. -/
theorem balanced_of_untilClose (h : Regular item) {fuel : Nat} {tokens rest : List Token}
    {values : List α} (hends : EndsOnce tokens)
    (hrun : (untilClose .endOfText item fuel).run tokens = .ok (values, rest)) :
    BalancedToEnd tokens := by
  induction fuel generalizing tokens rest values with
  | zero => exact nomatch hrun
  | succ fuel ih =>
    cases tokens with
    | nil => exact nomatch hrun
    | cons token behind =>
      by_cases hend : token.kind = .endOfText
      · obtain rfl := hends.eq_nil hend
        exact ⟨[], token, rfl, hend, .nil⟩
      · rw [run_untilClose_of_ne item fuel hend] at hrun
        obtain ⟨first, left, hitem, hrun⟩ := exists_of_run_bind hrun
        obtain ⟨others, _, hothers, -⟩ := exists_of_run_bind hrun
        obtain ⟨taken, htokens, htaken⟩ := h.exists_taken hitem
        rw [htokens] at hends ⊢
        exact .append htaken (ih hends.tail hothers)

/-- A document is read to the end of the text. -/
theorem balanced_of_document {tokens rest : List Token} {value : Document} (hends : EndsOnce tokens)
    (hrun : document.run tokens = .ok (value, rest)) : BalancedToEnd tokens := by
  obtain ⟨first, left, hfirst, hrun⟩ := exists_of_run_bind hrun
  obtain ⟨others, _, hothers, -⟩ := exists_of_run_bind hrun
  obtain ⟨taken, rfl, htaken⟩ := regular_definition.exists_taken hfirst
  have hothers : (untilClose .endOfText definition left.length).run left = .ok (others, _) :=
    hothers
  exact .append htaken (balanced_of_untilClose regular_definition hends.tail hothers)

end Grammar

/-! ## 3. Texts that are parsed -/

/-- **Parsed texts are balanced.** A text that is parsed has no fault, and its brackets are well
nested. -/
theorem balanced_of_parse {source : Text} {document : Document} (h : parse source = .ok document) :
    (tokenize source).fault = none ∧ WellNested (brackets (tokenize source).tokens) := by
  have hrun : ∃ rest, Grammar.document.run (tokenize source).tokens = .ok (document, rest) := by
    cases hrun : Grammar.document.run (tokenize source).tokens with
    | error fault =>
      obtain ⟨error, herror⟩ := parse_of_run_eq_error hrun
      exact nomatch h.symm.trans herror
    | ok found =>
      obtain rfl := Except.ok.inj ((parse_of_run_eq_ok hrun).symm.trans h)
      exact ⟨found.2, rfl⟩
  obtain ⟨rest, hrun⟩ := hrun
  obtain ⟨taken, last, htokens, hlast, htaken⟩ :=
    balanced_of_document (endsOnce_tokenize source) hrun
  refine ⟨?_, ?_⟩
  · obtain ⟨own, hown, ⟨stop, hlexed⟩ | ⟨fault, hlexed⟩⟩ := tokenizeFrom_cases 0 source
    · rw [tokenize, hlexed]
    · -- with a fault there would be no token that ends the text
      have hmem : last ∈ (tokenizeFrom 0 source).tokens :=
        htokens ▸ List.mem_append_right taken List.mem_cons_self
      rw [hlexed] at hmem
      exact absurd hlast (hown last hmem)
  · have hnone : brackets [last] = [] := by
      rw [brackets, List.map_singleton, hlast]
      rfl
    rw [htokens, brackets_append, hnone, List.append_nil]
    exact htaken

end FieldAudit.GraphQL
