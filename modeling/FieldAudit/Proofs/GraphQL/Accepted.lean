import FieldAudit.Proofs.GraphQL.Written

/-!
The grammar accepts plain selections as they are written. A selection or a set of selections is
taken when it nests no more sets than may still open, and refused as nested too deeply when it nests
more (`bounded_selection`). The lookahead never goes wrong, whatever words serve as names: one token
behind a name tells an alias from a field, and one token behind the dots tells a spread from an
inline fragment.
-/

set_option autoImplicit false

namespace FieldAudit.GraphQL

namespace Grammar

/-! ## 1. Selections -/

/-- The kinds of the tokens that may follow a selection: one that starts another, or the one that
closes the set. -/
def EndsSelection (kind : TokenKind) : Prop :=
  kind = .name ∨ kind = .spread ∨ kind = .braceClose

theorem EndsSelection.ne {kind : TokenKind} (h : EndsSelection kind) :
    kind ≠ .colon ∧ kind ≠ .parenOpen ∧ kind ≠ .atSign ∧ kind ≠ .braceOpen := by
  rcases h with rfl | rfl | rfl <;> decide

/-- A selection starts with a name or with the dots. -/
theorem exists_lexemesOf_eq_cons (selection : Selection) :
    ∃ first more, lexemesOf selection = first :: more
      ∧ first.kind ≠ .braceClose ∧ EndsSelection first.kind := by
  have hword : ∀ text, (Lexeme.word text).kind ≠ .braceClose := by simp [Lexeme.word]
  cases selection with
  | field alias? name _ _ selections? =>
    cases alias? <;> cases selections? <;>
      exact ⟨_, _, by rw [lexemesOf]; rfl, hword _, .inl rfl⟩
  | spread name _ => exact ⟨_, _, by rw [lexemesOf], by decide, .inr (.inl rfl)⟩
  | inline condition? _ selections => exact ⟨_, _, by rw [lexemesOf], by decide, .inr (.inl rfl)⟩

/-- What is left of a field without arguments and directives after its names: a selection set, if a
brace opens one. -/
def fieldEnd (alias? : Option Text) (name : Text) (inner : Reader (List Selection)) :
    Reader Selection := do
  let selections? ← if (← peek).kind = .braceOpen then some <$> inner else pure none
  return .field alias? name [] [] selections?

theorem run_fieldEnd_of_ne (alias? : Option Text) (name : Text) (inner : Reader (List Selection))
    {token : Token} (rest : List Token) (h : token.kind ≠ .braceOpen) :
    (fieldEnd alias? name inner).run (token :: rest)
      = .ok (.field alias? name [] [] none, token :: rest) := by
  unfold fieldEnd
  rw [run_bind_of_ok (run_peek token rest)]
  dsimp only
  rw [if_neg h]
  rfl

theorem run_fieldEnd_of_eq (alias? : Option Text) (name : Text) (inner : Reader (List Selection))
    {token : Token} (rest : List Token) (h : token.kind = .braceOpen) :
    (fieldEnd alias? name inner).run (token :: rest)
      = ((fun selections => Selection.field alias? name [] [] (some selections)) <$> inner).run
          (token :: rest) := by
  unfold fieldEnd
  rw [run_bind_of_ok (run_peek token rest)]
  dsimp only
  rw [if_pos h, bind_map_left]
  rfl

/-- After its names, a field without arguments and directives goes on with its selection set. -/
theorem run_field {levels : Nat} {inner : Reader (List Selection)} {alias? : Option Text}
    {name : Text} {tokens : List Token} {next : Token} {rest : List Token}
    (htokens : tokens.map Token.lexeme = aliasLexemes alias? ++ [.word name])
    (hcolon : next.kind ≠ .colon) (hparen : next.kind ≠ .parenOpen) (hat : next.kind ≠ .atSign) :
    (field levels inner).run (tokens ++ next :: rest)
      = (fieldEnd alias? name inner).run (next :: rest) := by
  cases alias? with
  | none =>
    obtain ⟨token, behind, rfl, htoken, hbehind⟩ := List.map_eq_cons_iff.mp htokens
    obtain rfl := List.map_eq_nil_iff.mp hbehind
    have hkind : token.kind = .name := congrArg Lexeme.kind htoken
    have hvalue : token.value = name := congrArg Lexeme.value htoken
    -- no colon comes next, so the name is that of the field
    unfold field
    rw [List.cons_append, List.nil_append, run_bind_of_ok (run_name hkind),
      run_bind_of_ok (run_skip?_of_ne hcolon)]
    dsimp only
    rw [if_neg Bool.false_ne_true, run_bind_of_ok (run_pure _ _),
      run_bind_of_ok (run_arguments_nil false levels hparen),
      run_bind_of_ok (run_directives_nil false levels hat), hvalue]
    rfl
  | some given =>
    obtain ⟨first, behind, rfl, hfirst, hbehind⟩ := List.map_eq_cons_iff.mp htokens
    obtain ⟨colon, behind, rfl, hmiddle, hbehind⟩ := List.map_eq_cons_iff.mp hbehind
    obtain ⟨token, behind, rfl, htoken, hbehind⟩ := List.map_eq_cons_iff.mp hbehind
    obtain rfl := List.map_eq_nil_iff.mp hbehind
    have hcolonKind : colon.kind = .colon := congrArg Lexeme.kind hmiddle
    -- the colon shows that the first name is an alias
    have halias : first.value = given := congrArg Lexeme.value hfirst
    have hvalue : token.value = name := congrArg Lexeme.value htoken
    unfold field
    rw [List.cons_append, List.cons_append, List.cons_append, List.nil_append,
      run_bind_of_ok (run_name (congrArg Lexeme.kind hfirst)),
      run_bind_of_ok (run_skip?_of_eq hcolonKind)]
    dsimp only
    rw [if_pos rfl, run_bind_of_ok (run_name (congrArg Lexeme.kind htoken)),
      run_bind_of_ok (run_arguments_nil false levels hparen),
      run_bind_of_ok (run_directives_nil false levels hat), hvalue, halias]
    rfl

/-- A selection that does not start with the dots is a field. -/
theorem run_selection_of_name {levels : Nat} {inner : Reader (List Selection)} {token : Token}
    (rest : List Token) (h : token.kind ≠ .spread) :
    (selection levels inner).run (token :: rest) = (field levels inner).run (token :: rest) := by
  unfold selection
  rw [run_bind_of_ok (run_peek token rest), if_neg h]

theorem run_selection_of_dots {levels : Nat} {inner : Reader (List Selection)} {token : Token}
    (rest : List Token) (h : token.kind = .spread) :
    (selection levels inner).run (token :: rest)
      = (spreadOrInline levels inner).run (token :: rest) := by
  unfold selection
  rw [run_bind_of_ok (run_peek token rest), if_pos h]

/-- The dots and a name other than `on` are a spread. -/
theorem run_spread {levels : Nat} {inner : Reader (List Selection)} {dots token next : Token}
    (rest : List Token) (hdots : dots.kind = .spread) (hname : token.kind = .name)
    (hon : token.value ≠ "on") (hat : next.kind ≠ .atSign) :
    (selection levels inner).run (dots :: token :: next :: rest)
      = .ok (.spread token.value [], next :: rest) := by
  have hword : token.isWord "on" = false := by
    rw [Token.isWord, Bool.and_eq_false_iff]
    exact .inr (beq_eq_false_iff_ne.mpr hon)
  rw [run_selection_of_dots _ hdots]
  unfold spreadOrInline
  rw [run_bind_of_ok (run_expect hdots), run_bind_of_ok (run_skipWord?_of_not_isWord hword),
    if_neg Bool.false_ne_true, run_bind_of_ok (run_peek token _), if_pos hname,
    run_bind_of_ok (run_fragmentName hname hon),
    run_bind_of_ok (run_directives_nil false levels hat)]
  rfl

/-- The dots, a type condition or none, and a brace are an inline fragment. -/
theorem run_inline {levels : Nat} {inner : Reader (List Selection)} {condition? : Option Text}
    {tokens : List Token} {next : Token} (rest : List Token)
    (htokens : tokens.map Token.lexeme = .dots :: conditionLexemes condition?)
    (hnext : next.kind = .braceOpen) :
    (selection levels inner).run (tokens ++ next :: rest)
      = ((fun selections => Selection.inline condition? [] selections) <$> inner).run
          (next :: rest) := by
  have hat : next.kind ≠ .atSign := by rw [hnext]; decide
  obtain ⟨dots, behind, rfl, hdots, hbehind⟩ := List.map_eq_cons_iff.mp htokens
  have hdots : dots.kind = .spread := congrArg Lexeme.kind hdots
  cases condition? with
  | none =>
    obtain rfl := List.map_eq_nil_iff.mp hbehind
    have hword : next.isWord "on" = false := by
      rw [Token.isWord, hnext]
      rfl
    have hname : next.kind ≠ .name := by rw [hnext]; decide
    -- the brace is neither the word `on` nor the name of a fragment
    rw [List.cons_append, List.nil_append, run_selection_of_dots _ hdots]
    unfold spreadOrInline
    rw [run_bind_of_ok (run_expect hdots), run_bind_of_ok (run_skipWord?_of_not_isWord hword),
      if_neg Bool.false_ne_true, run_bind_of_ok (run_peek next _), if_neg hname,
      run_bind_of_ok (run_directives_nil false levels hat), map_eq_pure_bind]
  | some condition =>
    obtain ⟨lead, behind, rfl, hlead, hbehind⟩ := List.map_eq_cons_iff.mp hbehind
    obtain ⟨token, behind, rfl, htoken, hbehind⟩ := List.map_eq_cons_iff.mp hbehind
    obtain rfl := List.map_eq_nil_iff.mp hbehind
    have hvalue : token.value = condition := congrArg Lexeme.value htoken
    -- the word `on` tells a condition from the name of a fragment
    have hword : lead.isWord "on" = true := by
      have hkind : lead.kind = .name := congrArg Lexeme.kind hlead
      have hvalue : lead.value = "on" := congrArg Lexeme.value hlead
      rw [Token.isWord, hkind, hvalue]
      decide
    rw [List.cons_append, List.cons_append, List.cons_append, List.nil_append,
      run_selection_of_dots _ hdots]
    unfold spreadOrInline
    rw [run_bind_of_ok (run_expect hdots), run_bind_of_ok (run_skipWord?_of_isWord hword),
      if_pos rfl, run_bind_of_ok (run_name (congrArg Lexeme.kind htoken)),
      run_bind_of_ok (run_directives_nil false levels hat), map_eq_pure_bind, hvalue]

/-! ## 2. Selection sets -/

/-- The reader of the selections of a set in which so many levels may still open. -/
def selectionAt (levels : Nat) : Reader Selection := selection levels (selectionSet levels)

/-- A selection that starts with an alias or a name is a field. -/
theorem run_selectionAt_of_names {levels : Nat} {alias? : Option Text} {name : Text}
    {tokens rest : List Token}
    (htokens : tokens.map Token.lexeme = aliasLexemes alias? ++ [.word name]) :
    (selectionAt levels).run (tokens ++ rest)
      = (field levels (selectionSet levels)).run (tokens ++ rest) := by
  obtain ⟨text, more, hlexemes⟩ : ∃ text more,
      aliasLexemes alias? ++ [.word name] = Lexeme.word text :: more := by
    cases alias? <;> exact ⟨_, _, rfl⟩
  obtain ⟨first, behind, rfl, hfirst, -⟩ := List.map_eq_cons_iff.mp (htokens.trans hlexemes)
  have hkind : first.kind = .name := congrArg Lexeme.kind hfirst
  exact run_selection_of_name (behind ++ rest) (by rw [hkind]; decide)

/-- What opens a selection set is followed by the tokens of its selections and by what closes it. -/
theorem exists_of_map_eq_setLexemes {tokens : List Token} {selections : List Selection}
    (h : tokens.map Token.lexeme = setLexemes selections) :
    ∃ opening inside close, tokens = opening :: (inside ++ [close]) ∧ opening.kind = .braceOpen
      ∧ inside.map Token.lexeme = selections.flatMap lexemesOf ∧ close.kind = .braceClose := by
  obtain ⟨opening, behind, rfl, hopening, hbehind⟩ := List.map_eq_cons_iff.mp h
  obtain ⟨inside, last, rfl, hinside, hlast⟩ := List.map_eq_append_iff.mp hbehind
  obtain ⟨close, behind, rfl, hclose, hbehind⟩ := List.map_eq_cons_iff.mp hlast
  obtain rfl := List.map_eq_nil_iff.mp hbehind
  exact ⟨opening, inside, close, rfl, congrArg Lexeme.kind hopening,
    hinside.trans (lexemesOfAll_eq_flatMap selections), congrArg Lexeme.kind hclose⟩

/-- A selection set reads its selections one level further down, with fuel for each of them. -/
theorem run_selectionSet_succ (levels : Nat) {selections : List Selection} {opening : Token}
    (close next : Token) {inside : List Token} (rest : List Token)
    (hopening : opening.kind = .braceOpen)
    (hinside : inside.map Token.lexeme = selections.flatMap lexemesOf) :
    ∃ fuel, selections.length < fuel
      ∧ (selectionSet (levels + 1)).run (opening :: (inside ++ [close]) ++ next :: rest)
        = (untilClose .braceClose (selectionAt levels) fuel).run
          (inside ++ close :: next :: rest) := by
  obtain ⟨second, behind, hbehind⟩ : ∃ second behind,
      inside ++ close :: next :: rest = second :: behind := List.exists_cons_of_ne_nil (by simp)
  -- there is one unit of fuel for every token behind the brace, and every selection has a token
  refine ⟨(inside ++ close :: next :: rest).length, ?_, ?_⟩
  · have hlength : selections.length ≤ (selections.flatMap lexemesOf).length :=
      length_le_length_flatMap fun selection _ =>
        let ⟨first, more, hfirst, _⟩ := exists_lexemesOf_eq_cons selection
        ⟨first, more, hfirst⟩
    rw [← hinside, List.length_map] at hlength
    rw [List.length_append, List.length_cons, List.length_cons]
    omega
  · have hwhole : opening :: (inside ++ [close]) ++ next :: rest
        = opening :: (inside ++ close :: next :: rest) := by simp
    rw [hwhole, hbehind]
    unfold selectionSet anyBetween
    rw [run_bind_of_ok (run_expect hopening)]
    rfl

/-- If the selections of a set can be taken one level further down, the set can be taken. -/
theorem takes_selectionSet {levels : Nat} {selections : List Selection}
    (hitem : ∀ selection ∈ selections,
      Takes (selectionAt levels) (lexemesOf selection) selection EndsSelection) :
    Takes (selectionSet (levels + 1)) (setLexemes selections) selections fun _ => True := by
  intro tokens next rest htokens _
  obtain ⟨opening, inside, close, rfl, hopening, hinside, hclose⟩ :=
    exists_of_map_eq_setLexemes htokens
  obtain ⟨fuel, hfuel, hrun⟩ := run_selectionSet_succ levels close next rest hopening hinside
  have hend :
      ∀ fuel, (untilClose .braceClose (selectionAt levels) (fuel + 1)).run (close :: next :: rest)
      = .ok ([], next :: rest) := fun fuel => run_untilClose_of_eq _ fuel hclose
  have hread :=
    run_untilClose_of_takes hitem (fun selection _ => exists_lexemesOf_eq_cons selection)
    (.inr (.inr hclose)) hend hinside hfuel
  rw [hrun, hread, List.map_id']

/-- If one selection of a set is refused and the others are taken or refused, the set is refused. -/
theorem refuses_selectionSet {levels : Nat} {selections : List Selection}
    (hitem : ∀ selection ∈ selections,
      Takes (selectionAt levels) (lexemesOf selection) selection EndsSelection
        ∨ Refuses (selectionAt levels) (lexemesOf selection))
    (hrefuses : ∃ selection ∈ selections, Refuses (selectionAt levels) (lexemesOf selection)) :
    Refuses (selectionSet (levels + 1)) (setLexemes selections) := by
  intro tokens next rest htokens
  obtain ⟨opening, inside, close, rfl, hopening, hinside, hclose⟩ :=
    exists_of_map_eq_setLexemes htokens
  obtain ⟨fuel, hfuel, hrun⟩ := run_selectionSet_succ levels close next rest hopening hinside
  rw [hrun]
  exact run_untilClose_of_refuses hitem (fun selection _ => exists_lexemesOf_eq_cons selection)
    hrefuses (next :: rest) hinside hfuel

/-- No selection set opens where no level is left. -/
theorem refuses_selectionSet_zero (selections : List Selection) :
    Refuses (selectionSet 0) (setLexemes selections) := by
  intro tokens next rest htokens
  obtain ⟨opening, inside, close, rfl, -, -, -⟩ := exists_of_map_eq_setLexemes htokens
  exact ⟨opening, rfl⟩

/-! ## 3. Counts of levels -/

/-- A reader for every count of levels that may still open: with as many as the depth it takes the
lexemes, and with fewer it refuses them. -/
structure Bounded {α : Type} (reader : Nat → Reader α) (lexemes : List Lexeme) (value : α)
    (follows : TokenKind → Prop) (depth : Nat) : Prop where
  takes : ∀ levels, depth ≤ levels → Takes (reader levels) lexemes value follows
  refuses : ∀ levels, levels < depth → Refuses (reader levels) lexemes

/-- A set is bounded by one level more than its deepest selection. -/
theorem bounded_selectionSet {selections : List Selection}
    (hitem : ∀ selection ∈ selections,
      Bounded selectionAt (lexemesOf selection) selection EndsSelection (depthOf selection)) :
    Bounded selectionSet (setLexemes selections) selections (fun _ => True)
      (depthOfAll selections + 1) := by
  constructor
  · intro levels hlevels
    obtain ⟨levels, rfl⟩ := Nat.exists_eq_succ_of_ne_zero (Nat.ne_of_gt (Nat.zero_lt_of_lt hlevels))
    -- the set takes one level, and no selection is deeper than the deepest
    refine takes_selectionSet fun selection hmem => (hitem selection hmem).takes levels ?_
    exact Nat.le_trans (depthOf_le_depthOfAll hmem) (Nat.le_of_succ_le_succ hlevels)
  · intro levels hlevels
    cases levels with
    | zero => exact refuses_selectionSet_zero selections
    | succ levels =>
      -- one selection is too deep; each of the others is read or refused by its own depth
      obtain ⟨culprit, hmem, hdepth⟩ := exists_lt_depthOf (Nat.lt_of_succ_lt_succ hlevels)
      refine refuses_selectionSet ?_ ⟨culprit, hmem, (hitem culprit hmem).refuses levels hdepth⟩
      intro selection hselection
      rcases Nat.lt_or_ge levels (depthOf selection) with hlt | hge
      · exact .inr ((hitem selection hselection).refuses levels hlt)
      · exact .inl ((hitem selection hselection).takes levels hge)

section Lead

variable {α : Type} {reader : Reader α} {inner : Reader (List Selection)} {lead : List Lexeme}
  {selections : List Selection} {build : List Selection → α}

/-- A reader that goes on with a selection set behind its own lexemes takes these and the set. -/
theorem takes_of_lead (follows : TokenKind → Prop)
    (hrun : ∀ (tokens : List Token) (next : Token) (rest : List Token),
      tokens.map Token.lexeme = lead → next.kind = .braceOpen →
      reader.run (tokens ++ next :: rest) = (build <$> inner).run (next :: rest))
    (hset : Takes inner (setLexemes selections) selections fun _ => True) :
    Takes reader (lead ++ setLexemes selections) (build selections) follows := by
  intro tokens next rest htokens _
  obtain ⟨own, others, rfl, hown, hothers⟩ := List.map_eq_append_iff.mp htokens
  have hread := hset others next rest hothers trivial
  obtain ⟨opening, inside, close, rfl, hopening, -, -⟩ := exists_of_map_eq_setLexemes hothers
  rw [List.append_assoc, List.cons_append, hrun own opening _ hown hopening]
  exact run_map_of_ok hread

/-- If the selection set behind a reader's own lexemes is refused, the reader refuses the whole. -/
theorem refuses_of_lead
    (hrun : ∀ (tokens : List Token) (next : Token) (rest : List Token),
      tokens.map Token.lexeme = lead → next.kind = .braceOpen →
      reader.run (tokens ++ next :: rest) = (build <$> inner).run (next :: rest))
    (hset : Refuses inner (setLexemes selections)) :
    Refuses reader (lead ++ setLexemes selections) := by
  intro tokens next rest htokens
  obtain ⟨own, others, rfl, hown, hothers⟩ := List.map_eq_append_iff.mp htokens
  obtain ⟨culprit, hfault⟩ := hset others next rest hothers
  obtain ⟨opening, inside, close, rfl, hopening, -, -⟩ := exists_of_map_eq_setLexemes hothers
  refine ⟨culprit, ?_⟩
  rw [List.append_assoc, List.cons_append, hrun own opening _ hown hopening]
  exact run_map_of_error hfault

end Lead

/-- The names of a field with a selection set, and then the set. -/
theorem run_selectionAt_fieldSet {levels : Nat} {alias? : Option Text} {name : Text}
    {tokens : List Token} {next : Token} {rest : List Token}
    (htokens : tokens.map Token.lexeme = aliasLexemes alias? ++ [.word name])
    (hnext : next.kind = .braceOpen) :
    (selectionAt levels).run (tokens ++ next :: rest)
      = ((fun selections => Selection.field alias? name [] [] (some selections))
          <$> selectionSet levels).run (next :: rest) := by
  have hcolon : next.kind ≠ .colon := by rw [hnext]; decide
  have hparen : next.kind ≠ .parenOpen := by rw [hnext]; decide
  have hat : next.kind ≠ .atSign := by rw [hnext]; decide
  rw [run_selectionAt_of_names htokens, run_field htokens hcolon hparen hat,
    run_fieldEnd_of_eq _ _ _ _ hnext]

/-- **Plain selections.** A plain selection is read back if it nests no more sets than may still
open, and refused as nested too deeply otherwise. By induction on the selection: a set inside it is
one level less deep. -/
theorem bounded_selection {selection : Selection} (h : IsPlain selection) :
    Bounded selectionAt (lexemesOf selection) selection EndsSelection (depthOf selection) := by
  induction h with
  | @field alias? name _ _ =>
    refine ⟨?_, fun levels hlevels => absurd hlevels (Nat.not_lt_zero levels)⟩
    intro levels _ tokens next rest htokens hnext
    obtain ⟨hcolon, hparen, hat, hbrace⟩ := hnext.ne
    rw [lexemesOf] at htokens
    rw [run_selectionAt_of_names htokens, run_field htokens hcolon hparen hat,
      run_fieldEnd_of_ne _ _ _ _ hbrace]
  | @fieldSet alias? name selections _ _ _ ih =>
    have hset := bounded_selectionSet ih
    have hlexemes : lexemesOf (.field alias? name [] [] (some selections))
        = (aliasLexemes alias? ++ [.word name]) ++ setLexemes selections := by
      rw [lexemesOf, setLexemes, List.append_assoc, List.singleton_append]
    rw [hlexemes]
    refine ⟨fun levels hlevels => ?_, fun levels hlevels => ?_⟩
    · rw [depthOf] at hlevels
      exact takes_of_lead _ (fun _ _ _ => run_selectionAt_fieldSet) (hset.takes levels hlevels)
    · rw [depthOf] at hlevels
      exact refuses_of_lead (fun _ _ _ => run_selectionAt_fieldSet) (hset.refuses levels hlevels)
  | @spread name _ hon =>
    refine ⟨?_, fun levels hlevels => absurd hlevels (Nat.not_lt_zero levels)⟩
    intro levels _ tokens next rest htokens hnext
    rw [lexemesOf] at htokens
    obtain ⟨dots, behind, rfl, hdots, hbehind⟩ := List.map_eq_cons_iff.mp htokens
    obtain ⟨token, behind, rfl, htoken, hbehind⟩ := List.map_eq_cons_iff.mp hbehind
    obtain rfl := List.map_eq_nil_iff.mp hbehind
    have hvalue : token.value = name := congrArg Lexeme.value htoken
    rw [List.cons_append, List.cons_append, List.nil_append, selectionAt,
      run_spread rest (congrArg Lexeme.kind hdots) (congrArg Lexeme.kind htoken)
        (by rw [hvalue]; exact hon) hnext.ne.2.2.1, hvalue]
  | @inline condition? selections _ _ ih =>
    have hset := bounded_selectionSet ih
    have hlexemes : lexemesOf (.inline condition? [] selections)
        = (.dots :: conditionLexemes condition?) ++ setLexemes selections := by
      rw [lexemesOf, setLexemes, List.cons_append]
    rw [hlexemes]
    refine ⟨fun levels hlevels => ?_, fun levels hlevels => ?_⟩
    · rw [depthOf] at hlevels
      exact takes_of_lead _ (fun _ _ rest => run_inline rest) (hset.takes levels hlevels)
    · rw [depthOf] at hlevels
      exact refuses_of_lead (fun _ _ rest => run_inline rest) (hset.refuses levels hlevels)

/-- A set of plain selections. -/
theorem bounded_plainSet {selections : List Selection}
    (h : ∀ selection ∈ selections, IsPlain selection) :
    Bounded selectionSet (setLexemes selections) selections (fun _ => True)
      (depthOfAll selections + 1) :=
  bounded_selectionSet fun selection hmem => bounded_selection (h selection hmem)

end Grammar

end FieldAudit.GraphQL
