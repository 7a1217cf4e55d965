import FieldAudit.Proofs.GraphQL.Brackets
import FieldAudit.Proofs.GraphQL.Layout
import FieldAudit.Proofs.GraphQL.Readers

/-!
Readers that look at nothing but lexemes. Two readers agree if, on tokens with the same lexemes,
both fail or both succeed on tokens with the same lexemes; a postcondition relates their values and
the brackets among the tokens that they take (`Agree`). A reader is regular if it agrees with
itself, gives one value on all tokens with the same lexemes, and takes well-nested brackets
(`Regular`).

Agreement passes through readers in a row (`Agree.bind`). Here it is shown for single tokens and for
repetition; a repetition between two brackets is regular if its items are.
-/

set_option autoImplicit false

namespace FieldAudit.GraphQL.Grammar

variable {α β γ δ : Type}

/-! ## 1. Two runs -/

/-- Tokens with the same lexemes, wherever they start. -/
def Alike (tokens others : List Token) : Prop := tokens.map Token.lexeme = others.map Token.lexeme

theorem Alike.length_eq {tokens others : List Token} (h : Alike tokens others) :
    tokens.length = others.length := by
  rw [← List.length_map, h, List.length_map]

/-- What tokens with the same lexemes share. -/
def SameLexeme (token other : Token) : Prop := token.lexeme = other.lexeme

/-- Two runs that agree: both fail, or both succeed and leave tokens with the same lexemes. The
values and the brackets among the tokens that the first run takes meet a postcondition. -/
inductive AgreeOn (post : α → β → List TokenKind → Prop) (x : Reader α) (y : Reader β)
    (tokens others : List Token) : Prop
  | fail {fault fault' : Fault} (hx : x.run tokens = .error fault)
    (hy : y.run others = .error fault')
  | read {v : α} {w : β} {rest rest' : List Token} (taken : List Token)
      (hx : x.run tokens = .ok (v, rest)) (hy : y.run others = .ok (w, rest'))
      (htaken : tokens = taken ++ rest) (halike : Alike rest rest')
      (hpost : post v w (brackets taken))

/-- Two readers that agree on all tokens with the same lexemes. -/
def Agree (post : α → β → List TokenKind → Prop) (x : Reader α) (y : Reader β) : Prop :=
  ∀ tokens others, Alike tokens others → AgreeOn post x y tokens others

section

variable {post : α → β → List TokenKind → Prop} {out : γ → δ → List TokenKind → Prop}
  {x : Reader α} {y : Reader β} {tokens others : List Token}

theorem AgreeOn.mono {post' : α → β → List TokenKind → Prop} (h : AgreeOn post x y tokens others)
    (himp : ∀ v w kinds, post v w kinds → post' v w kinds) : AgreeOn post' x y tokens others := by
  cases h with
  | fail hx hy => exact .fail hx hy
  | read taken hx hy htaken halike hpost => exact .read taken hx hy htaken halike (himp _ _ _ hpost)

theorem Agree.mono {post' : α → β → List TokenKind → Prop} (h : Agree post x y)
    (himp : ∀ v w kinds, post v w kinds → post' v w kinds) : Agree post' x y :=
  fun tokens others halike => (h tokens others halike).mono himp

/-- Readers that run alike on two lists agree on them alike. -/
theorem AgreeOn.congr {x' : Reader α} {y' : Reader β} (h : AgreeOn post x y tokens others)
    (hx' : x'.run tokens = x.run tokens) (hy' : y'.run others = y.run others) :
    AgreeOn post x' y' tokens others := by
  cases h with
  | fail hx hy => exact .fail (hx'.trans hx) (hy'.trans hy)
  | read taken hx hy htaken halike hpost =>
    exact .read taken (hx'.trans hx) (hy'.trans hy) htaken halike hpost

/-- Readers in a row: the brackets of the second come behind those of the first. -/
theorem AgreeOn.bind {f : α → Reader γ} {g : β → Reader δ} (h : AgreeOn post x y tokens others)
    (hnext : ∀ v w kinds, post v w kinds →
      Agree (fun v' w' kinds' => out v' w' (kinds ++ kinds')) (f v) (g w)) :
    AgreeOn out (x >>= f) (y >>= g) tokens others := by
  cases h with
  | fail hx hy => exact .fail (run_bind_of_error hx) (run_bind_of_error hy)
  | @read v w rest rest' taken hx hy htaken halike hpost =>
    have hx : (x >>= f).run tokens = (f v).run rest := run_bind_of_ok hx
    have hy : (y >>= g).run others = (g w).run rest' := run_bind_of_ok hy
    cases hnext v w _ hpost rest rest' halike with
    | fail hfault hfault' => exact .fail (hx.trans hfault) (hy.trans hfault')
    | read more hread hread' hmore halike hout =>
      refine .read (taken ++ more) (hx.trans hread) (hy.trans hread') ?_ halike ?_
      · rw [htaken, hmore, List.append_assoc]
      · rw [brackets_append]
        exact hout

theorem Agree.bind {f : α → Reader γ} {g : β → Reader δ} (h : Agree post x y)
    (hnext : ∀ v w kinds, post v w kinds →
      Agree (fun v' w' kinds' => out v' w' (kinds ++ kinds')) (f v) (g w)) :
    Agree out (x >>= f) (y >>= g) :=
  fun tokens others halike => (h tokens others halike).bind hnext

theorem agree_pure {v : α} {w : β} (h : post v w []) : Agree post (pure v) (pure w) :=
  fun _ _ halike => .read [] rfl rfl rfl halike h

theorem agree_failAt (problem problem' : GrammarProblem) (token other : Token) :
    Agree post (failAt problem token) (failAt problem' other) :=
  fun _ _ _ => .fail rfl rfl

/-- Nothing is read behind a failure. -/
theorem agree_failAt_bind (problem problem' : GrammarProblem) (token other : Token)
    {f : α → Reader γ} {g : β → Reader δ} :
    Agree out (failAt problem token >>= f) (failAt problem' other >>= g) :=
  fun _ _ _ => .fail rfl rfl

/-- How many tokens are left is told by their lexemes. -/
theorem agree_length {f : Nat → Reader α} {post : α → α → List TokenKind → Prop}
    (h : ∀ fuel, Agree post (f fuel) (f fuel)) :
    Agree post (do f (← get).length) (do f (← get).length) := by
  intro tokens others halike
  have hothers : (do f (← get).length : Reader α).run others = (f tokens.length).run others :=
    halike.length_eq ▸ rfl
  exact (h tokens.length tokens others halike).congr rfl hothers

end

/-! ## 2. Regular readers -/

/-- Values in a relation, and well-nested brackets. -/
def Nested (rel : α → β → Prop) (v : α) (w : β) (kinds : List TokenKind) : Prop :=
  rel v w ∧ WellNested kinds

/-- A reader that gives one value on all tokens with the same lexemes, and takes well-nested
brackets. -/
def Regular (x : Reader α) : Prop := Agree (Nested Eq) x x

/-- Readers in a row, of which the second depends on a value of the first. -/
theorem agree_bind {rel : α → β → Prop} {rel' : γ → δ → Prop} {x : Reader α} {y : Reader β}
    {f : α → Reader γ} {g : β → Reader δ} (h : Agree (Nested rel) x y)
    (hnext : ∀ v w, rel v w → Agree (Nested rel') (f v) (g w)) :
    Agree (Nested rel') (x >>= f) (y >>= g) :=
  h.bind fun v w _ hpost => (hnext v w hpost.1).mono fun _ _ _ hout =>
    ⟨hout.1, hpost.2.append hout.2⟩

/-- Readers that depend on a token, of which only the place may differ. -/
theorem agree_bindToken {rel : β → γ → Prop} {x y : Reader Token} {f : Token → Reader β}
    {g : Token → Reader γ} (h : Agree (Nested SameLexeme) x y)
    (hnext : ∀ kind value start start',
      Agree (Nested rel) (f ⟨kind, value, start⟩) (g ⟨kind, value, start'⟩)) :
    Agree (Nested rel) (x >>= f) (y >>= g) := by
  refine agree_bind h fun token other hlexeme => ?_
  obtain ⟨kind, value, start⟩ := token
  obtain ⟨kind', value', start'⟩ := other
  obtain ⟨rfl, rfl⟩ := Lexeme.mk.inj hlexeme
  exact hnext kind value start start'

namespace Regular

variable {x : Reader α}

theorem pure (v : α) : Regular (pure v : Reader α) := agree_pure ⟨rfl, .nil⟩

theorem bind {f : α → Reader β} (h : Regular x) (hnext : ∀ v, Regular (f v)) : Regular (x >>= f) :=
  agree_bind h fun v _ heq => heq ▸ hnext v

theorem map (f : α → β) (h : Regular x) : Regular (f <$> x) := by
  rw [map_eq_pure_bind]
  exact h.bind fun v => .pure (f v)

/-- What a regular reader takes. -/
theorem exists_taken (h : Regular x) {tokens rest : List Token} {v : α}
    (hrun : x.run tokens = .ok (v, rest)) :
    ∃ taken, tokens = taken ++ rest ∧ WellNested (brackets taken) := by
  cases h tokens tokens rfl with
  | fail hx _ => exact nomatch hrun.symm.trans hx
  | read taken hx _ htaken _ hpost =>
    obtain ⟨rfl, rfl⟩ := Prod.mk.inj (Except.ok.inj (hrun.symm.trans hx))
    exact ⟨taken, htaken, hpost.2⟩

end Regular

/-! ## 3. Single tokens -/

/-- The brackets of a token of a kind: itself, if it is one. -/
def bracketOf (kind : TokenKind) : List TokenKind := [kind].filter TokenKind.isBracket

theorem bracketOf_of_not {kind : TokenKind} (h : kind.isBracket = false) : bracketOf kind = [] := by
  rw [bracketOf, List.filter_cons_of_neg (by rw [h]; exact Bool.false_ne_true), List.filter_nil]

/-- A reader that looks at the front token first. -/
theorem agree_peek_bind {post : α → β → List TokenKind → Prop} {f : Token → Reader α}
    {g : Token → Reader β}
    (h : ∀ kind value start start' rest rest', Alike rest rest' →
      AgreeOn post (f ⟨kind, value, start⟩) (g ⟨kind, value, start'⟩)
        (⟨kind, value, start⟩ :: rest) (⟨kind, value, start'⟩ :: rest')) :
    Agree post (peek >>= f) (peek >>= g) := by
  intro tokens others halike
  match tokens, others, halike with
  | [], [], _ => exact .fail rfl rfl
  | ⟨kind, value, start⟩ :: rest, ⟨kind', value', start'⟩ :: rest', halike =>
    obtain ⟨hfirst, hrest⟩ := List.cons.inj halike
    obtain ⟨rfl, rfl⟩ := Lexeme.mk.inj hfirst
    exact (h kind value start start' rest rest' hrest).congr (run_bind_of_ok (run_peek _ _))
      (run_bind_of_ok (run_peek _ _))

theorem agree_peek : Agree (Nested SameLexeme) peek peek := by
  intro tokens others halike
  match tokens, others, halike with
  | [], [], _ => exact .fail rfl rfl
  | token :: rest, other :: rest', halike =>
    exact .read [] rfl rfl rfl halike ⟨(List.cons.inj halike).1, .nil⟩

theorem agree_peekSecond : Agree (Nested SameLexeme) peekSecond peekSecond := by
  intro tokens others halike
  match tokens, others, halike with
  | [], [], _ => exact .fail rfl rfl
  | [_], _ :: others, halike =>
    obtain rfl := List.map_eq_nil_iff.mp (List.cons.inj halike).2.symm
    exact .fail rfl rfl
  | _ :: token :: rest, [_], halike => exact nomatch (List.cons.inj halike).2
  | _ :: token :: rest, _ :: other :: rest', halike =>
    exact .read [] rfl rfl rfl halike ⟨(List.cons.inj (List.cons.inj halike).2).1, .nil⟩

/-- The front token is taken, or stays because it ends the text. -/
theorem agreeOn_advance (kind : TokenKind) (value : Text) (start start' : Nat)
    {rest rest' : List Token} (halike : Alike rest rest') :
    AgreeOn (fun v w kinds => SameLexeme v w ∧ kinds = bracketOf kind) advance advance
      (⟨kind, value, start⟩ :: rest) (⟨kind, value, start'⟩ :: rest') := by
  match rest, rest', halike with
  | [], [], _ =>
    by_cases hend : kind = .endOfText
    · subst hend
      exact .read [] (run_advance_end rfl) (run_advance_end rfl) rfl rfl ⟨rfl, rfl⟩
    · exact .fail (if_neg hend) (if_neg hend)
  | next :: rest, next' :: rest', halike =>
    exact .read [⟨kind, value, start⟩] rfl rfl rfl halike ⟨rfl, rfl⟩

/-- Taking the front token, if it is no bracket, and going on without it. -/
theorem agreeOn_advance_bind {kind : TokenKind} (hplain : kind.isBracket = false) (value : Text)
    (start start' : Nat) {rest rest' : List Token} (halike : Alike rest rest') {x : Reader α}
    (h : Regular x) :
    AgreeOn (Nested Eq) (advance >>= fun _ => x) (advance >>= fun _ => x)
      (⟨kind, value, start⟩ :: rest) (⟨kind, value, start'⟩ :: rest') := by
  refine (agreeOn_advance kind value start start' halike).bind fun _ _ kinds hpost => ?_
  rw [hpost.2, bracketOf_of_not hplain]
  exact h

/-- A token of a kind is taken. -/
theorem agree_expect (kind : TokenKind) :
    Agree (fun v w kinds => SameLexeme v w ∧ kinds = bracketOf kind) (expect kind)
      (expect kind) := by
  unfold expect
  refine agree_peek_bind fun found value start start' rest rest' halike => ?_
  by_cases hkind : found = kind
  · rw [if_pos hkind, if_pos hkind, ← hkind]
    exact agreeOn_advance found value start start' halike
  · rw [if_neg hkind, if_neg hkind]
    exact .fail rfl rfl

/-- A token that is no bracket. -/
theorem agree_expect_plain {kind : TokenKind} (h : kind.isBracket = false) :
    Agree (Nested SameLexeme) (expect kind) (expect kind) :=
  (agree_expect kind).mono fun _ _ _ hpost =>
    ⟨hpost.1, by rw [hpost.2, bracketOf_of_not h]; exact .nil⟩

/-- A token of a kind is taken if there is one. -/
theorem agree_skip? (kind : TokenKind) :
    Agree (fun v w kinds => v = w ∧ kinds = if v then bracketOf kind else []) (skip? kind)
      (skip? kind) := by
  unfold skip?
  refine agree_peek_bind fun found value start start' rest rest' halike => ?_
  by_cases hkind : found = kind
  · rw [if_pos hkind, ← hkind]
    refine (agreeOn_advance found value start start' halike).bind fun _ _ kinds hpost => ?_
    refine agree_pure ⟨rfl, ?_⟩
    rw [List.append_nil, hpost.2, if_pos rfl]
  · rw [if_neg hkind]
    exact .read [] rfl rfl rfl (congrArg (List.cons _) halike) ⟨rfl, rfl⟩

/-- A token that is no bracket. -/
theorem regular_skip? {kind : TokenKind} (h : kind.isBracket = false) : Regular (skip? kind) :=
  (agree_skip? kind).mono fun v _ _ hpost =>
    ⟨hpost.1, by rw [hpost.2, bracketOf_of_not h, ite_self]; exact .nil⟩

theorem isBracket_of_isWord {token : Token} {word : String} (h : token.isWord word = true) :
    token.kind.isBracket = false := by
  rw [beq_iff_eq.mp (Bool.and_eq_true_iff.mp h).1]
  rfl

/-- A choice by the front token: one reader goes on where the token is as asked, another where it is
not. -/
theorem regular_peek_ite {asked : Token → Bool} {x : Reader α} {y : Token → Reader α}
    (hplace : ∀ kind value start start', asked ⟨kind, value, start⟩ = asked ⟨kind, value, start'⟩)
    (hx : ∀ kind value start start' rest rest', asked ⟨kind, value, start⟩ = true →
      Alike rest rest' →
      AgreeOn (Nested Eq) x x (⟨kind, value, start⟩ :: rest) (⟨kind, value, start'⟩ :: rest'))
    (hy : ∀ token other, Agree (Nested Eq) (y token) (y other)) :
    Regular (do
      let token ← peek
      if asked token then x else y token) := by
  refine agree_peek_bind fun kind value start start' rest rest' halike => ?_
  rw [← hplace kind value start start']
  by_cases h : asked ⟨kind, value, start⟩ = true
  · rw [if_pos h, if_pos h]
    exact hx kind value start start' rest rest' h halike
  · rw [if_neg h, if_neg h]
    exact hy _ _ _ _ (congrArg (List.cons _) halike)

theorem regular_expectWord (word : String) : Regular (expectWord word) := by
  unfold expectWord
  refine regular_peek_ite (fun _ _ _ _ => rfl)
    (fun kind value start start' rest rest' hword halike => ?_)
    fun _ _ => agree_failAt _ _ _ _
  exact agreeOn_advance_bind (isBracket_of_isWord hword) value start start' halike (.pure ())

theorem regular_skipWord? (word : String) : Regular (skipWord? word) := by
  unfold skipWord?
  refine regular_peek_ite (fun _ _ _ _ => rfl)
    (fun kind value start start' rest rest' hword halike => ?_)
    fun _ _ => Regular.pure false
  exact agreeOn_advance_bind (isBracket_of_isWord hword) value start start' halike (.pure true)

theorem regular_name : Regular name :=
  agree_bindToken (agree_expect_plain rfl) fun _ value _ _ => Regular.pure value

/-! ## 4. Repetition -/

section Repetition

variable {item : Reader α}

/-- Well-nested brackets, and a token of a kind behind them. -/
def ClosedBy (close : TokenKind) (v w : List α) (kinds : List TokenKind) : Prop :=
  v = w ∧ ∃ inside, WellNested inside ∧ kinds = inside ++ bracketOf close

/-- Items up to a closing token, by induction on the fuel. -/
theorem agree_untilClose (h : Regular item) (close : TokenKind) (fuel : Nat) :
    Agree (ClosedBy close) (untilClose close item fuel) (untilClose close item fuel) := by
  induction fuel with
  | zero => exact fun _ _ _ => .fail rfl rfl
  | succ fuel ih =>
    unfold untilClose
    refine (agree_skip? close).bind ?_
    rintro closed _ kinds ⟨rfl, rfl⟩
    cases closed with
    | true => exact agree_pure ⟨rfl, [], .nil, List.append_nil _⟩
    | false =>
      refine Agree.bind h ?_
      rintro first _ kinds ⟨rfl, hkinds⟩
      refine ih.bind ?_
      rintro others _ behind ⟨rfl, inside, hinside, rfl⟩
      refine agree_pure ⟨rfl, kinds ++ inside, hkinds.append hinside, ?_⟩
      simp only [List.append_nil, List.append_assoc, Bool.false_eq_true, if_false, List.nil_append]

theorem agree_upTo (h : Regular item) (close : TokenKind) :
    Agree (ClosedBy close) (upTo close item) (upTo close item) :=
  agree_length fun fuel => agree_untilClose h close fuel

theorem agree_someUpTo (h : Regular item) (close : TokenKind) :
    Agree (ClosedBy close) (someUpTo close item) (someUpTo close item) := by
  unfold someUpTo
  refine Agree.bind h ?_
  rintro first _ kinds ⟨rfl, hkinds⟩
  refine (agree_upTo h close).bind ?_
  rintro others _ behind ⟨rfl, inside, hinside, rfl⟩
  refine agree_pure ⟨rfl, kinds ++ inside, hkinds.append hinside, ?_⟩
  rw [List.append_nil, List.append_assoc]

/-- What a pair of brackets encloses is well nested together with the pair. -/
theorem wellNested_enclosed {opening close : TokenKind} (hclose : opening.closing? = some close)
    {inside : List TokenKind} (hinside : WellNested inside) :
    WellNested (bracketOf opening ++ (inside ++ bracketOf close)) := by
  have hpair := WellNested.pair hclose hinside
  cases opening <;> first
    | exact absurd hclose (Option.some_ne_none close).symm
    | (obtain rfl := Option.some.inj hclose; exact hpair)

variable {opening close : TokenKind}

theorem regular_anyBetween (hclose : opening.closing? = some close) (h : Regular item) :
    Regular (anyBetween opening close item) := by
  unfold anyBetween
  refine (agree_expect opening).bind ?_
  rintro _ _ _ ⟨-, rfl⟩
  refine (agree_upTo h close).mono ?_
  rintro items _ _ ⟨rfl, inside, hinside, rfl⟩
  exact ⟨rfl, wellNested_enclosed hclose hinside⟩

theorem regular_someBetween (hclose : opening.closing? = some close) (h : Regular item) :
    Regular (someBetween opening close item) := by
  unfold someBetween
  refine (agree_expect opening).bind ?_
  rintro _ _ _ ⟨-, rfl⟩
  refine (agree_someUpTo h close).mono ?_
  rintro items _ _ ⟨rfl, inside, hinside, rfl⟩
  exact ⟨rfl, wellNested_enclosed hclose hinside⟩

theorem regular_optionalBetween (hclose : opening.closing? = some close) (h : Regular item) :
    Regular (optionalBetween opening close item) := by
  unfold optionalBetween
  refine (agree_skip? opening).bind ?_
  rintro given _ _ ⟨rfl, rfl⟩
  cases given with
  | true =>
    refine (agree_someUpTo h close).mono ?_
    rintro items _ _ ⟨rfl, inside, hinside, rfl⟩
    exact ⟨rfl, wellNested_enclosed hclose hinside⟩
  | false => exact Regular.pure []

/-- Items with a token between them, by induction on the fuel. -/
theorem regular_separatedFrom {separator : TokenKind} (hplain : separator.isBracket = false)
    (h : Regular item) (fuel : Nat) : Regular (separatedFrom separator item fuel) := by
  induction fuel with
  | zero => exact fun _ _ _ => .fail rfl rfl
  | succ fuel ih =>
    unfold separatedFrom
    refine h.bind fun first => (regular_skip? hplain).bind fun more => ?_
    cases more with
    | true => exact ih.bind fun others => .pure (first :: others)
    | false => exact .pure [first]

theorem regular_separated {separator : TokenKind} (hplain : separator.isBracket = false)
    (h : Regular item) : Regular (separated separator item) := by
  unfold separated
  exact (regular_skip? hplain).bind fun _ =>
    agree_length fun fuel => regular_separatedFrom hplain h fuel

end Repetition

end FieldAudit.GraphQL.Grammar
