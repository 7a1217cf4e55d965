import FieldAudit.GraphQL.Grammar

/-!
What the readers of the grammar do, one statement for each: which tokens they take, and what they
leave. A reader that takes a token needs one more behind it, which is there as long as the text has
not ended.
-/

set_option autoImplicit false

namespace FieldAudit.GraphQL.Grammar

variable {α β : Type}

/-! ## 1. Readers in a row -/

theorem run_pure (value : α) (tokens : List Token) :
    (pure value : Reader α).run tokens = .ok (value, tokens) := rfl

/-- After a reader that succeeds, the next one goes on with its value and what it left. -/
theorem run_bind_of_ok {first : Reader α} {next : α → Reader β} {tokens rest : List Token}
    {value : α} (h : first.run tokens = .ok (value, rest)) :
    (first >>= next).run tokens = (next value).run rest := by
  rw [StateT.run_bind, h]
  rfl

/-- A reader that fails ends the reading. -/
theorem run_bind_of_error {first : Reader α} {next : α → Reader β} {tokens : List Token}
    {fault : Fault} (h : first.run tokens = .error fault) :
    (first >>= next).run tokens = .error fault := by
  rw [StateT.run_bind, h]
  rfl

theorem run_map_of_ok {reader : Reader α} {f : α → β} {tokens rest : List Token} {value : α}
    (h : reader.run tokens = .ok (value, rest)) :
    (f <$> reader).run tokens = .ok (f value, rest) := by
  rw [StateT.run_map, h]
  rfl

theorem run_map_of_error {reader : Reader α} {f : α → β} {tokens : List Token} {fault : Fault}
    (h : reader.run tokens = .error fault) : (f <$> reader).run tokens = .error fault := by
  rw [StateT.run_map, h]
  rfl

/-! ## 2. Single tokens -/

section Tokens

variable {token next : Token} {rest : List Token}

theorem run_peek (token : Token) (rest : List Token) :
    peek.run (token :: rest) = .ok (token, token :: rest) := rfl

/-- The end of the text is taken and stays. -/
theorem run_advance_end (h : token.kind = .endOfText) :
    advance.run [token] = .ok (token, [token]) := by
  change (if token.kind = .endOfText then Except.ok (token, [token]) else .error Fault.brokenOff)
    = _
  rw [if_pos h]

theorem run_expect {kind : TokenKind} (h : token.kind = kind) :
    (expect kind).run (token :: next :: rest) = .ok (token, next :: rest) := by
  unfold expect
  rw [run_bind_of_ok (run_peek token _), if_pos h]
  rfl

theorem run_skip?_of_eq {kind : TokenKind} (h : token.kind = kind) :
    (skip? kind).run (token :: next :: rest) = .ok (true, next :: rest) := by
  unfold skip?
  rw [run_bind_of_ok (run_peek token _), if_pos h]
  rfl

theorem run_skip?_end (h : token.kind = .endOfText) :
    (skip? .endOfText).run [token] = .ok (true, [token]) := by
  unfold skip?
  rw [run_bind_of_ok (run_peek token _), if_pos h, run_bind_of_ok (run_advance_end h)]
  rfl

theorem run_skip?_of_ne {kind : TokenKind} (h : token.kind ≠ kind) :
    (skip? kind).run (token :: rest) = .ok (false, token :: rest) := by
  unfold skip?
  rw [run_bind_of_ok (run_peek token _), if_neg h]
  rfl

theorem run_expectWord {word : String} (h : token.isWord word = true) :
    (expectWord word).run (token :: next :: rest) = .ok ((), next :: rest) := by
  unfold expectWord
  rw [run_bind_of_ok (run_peek token _), if_pos h]
  rfl

theorem run_skipWord?_of_isWord {word : String} (h : token.isWord word = true) :
    (skipWord? word).run (token :: next :: rest) = .ok (true, next :: rest) := by
  unfold skipWord?
  rw [run_bind_of_ok (run_peek token _), if_pos h]
  rfl

theorem run_skipWord?_of_not_isWord {word : String} (h : token.isWord word = false) :
    (skipWord? word).run (token :: rest) = .ok (false, token :: rest) := by
  unfold skipWord?
  rw [run_bind_of_ok (run_peek token _), if_neg (by rw [h]; exact Bool.false_ne_true)]
  rfl

theorem run_name (h : token.kind = .name) :
    name.run (token :: next :: rest) = .ok (token.value, next :: rest) := by
  unfold name
  rw [run_bind_of_ok (run_expect h)]
  rfl

theorem run_fragmentName (h : token.kind = .name) (hon : token.value ≠ "on") :
    fragmentName.run (token :: next :: rest) = .ok (token.value, next :: rest) := by
  unfold fragmentName
  rw [run_bind_of_ok (run_peek token _), if_neg hon, run_name h]

/-! ## 3. Parts that are left out -/

theorem run_description?_none (h : token.isText = false) :
    description?.run (token :: rest) = .ok (none, token :: rest) := by
  unfold description?
  rw [run_bind_of_ok (run_peek token _), if_neg (by rw [h]; exact Bool.false_ne_true)]
  rfl

theorem run_optionalBetween_nil {opening : TokenKind} (close : TokenKind) (item : Reader α)
    (h : token.kind ≠ opening) :
    (optionalBetween opening close item).run (token :: rest) = .ok ([], token :: rest) := by
  unfold optionalBetween
  rw [run_bind_of_ok (run_skip?_of_ne h)]
  rfl

theorem run_arguments_nil (constant : Bool) (levels : Nat) (h : token.kind ≠ .parenOpen) :
    (arguments constant levels).run (token :: rest) = .ok ([], token :: rest) :=
  run_optionalBetween_nil .parenClose (argument constant levels) h

theorem run_directives_nil (constant : Bool) (levels : Nat) (h : token.kind ≠ .atSign) :
    (directives constant levels).run (token :: rest) = .ok ([], token :: rest) := by
  have hfrom : (directivesFrom constant levels (rest.length + 1)).run (token :: rest)
      = .ok ([], token :: rest) := by
    unfold directivesFrom
    rw [run_bind_of_ok (run_peek token _), if_neg h]
    rfl
  exact hfrom

/-! ## 4. Items up to a closing token -/

theorem run_untilClose_of_eq {close : TokenKind} (item : Reader α) (fuel : Nat)
    (h : token.kind = close) :
    (untilClose close item (fuel + 1)).run (token :: next :: rest) = .ok ([], next :: rest) := by
  unfold untilClose
  rw [run_bind_of_ok (run_skip?_of_eq h)]
  rfl

theorem run_untilClose_end (item : Reader α) (fuel : Nat) (h : token.kind = .endOfText) :
    (untilClose .endOfText item (fuel + 1)).run [token] = .ok ([], [token]) := by
  unfold untilClose
  rw [run_bind_of_ok (run_skip?_end h)]
  rfl

/-- An item, and then the others. -/
theorem run_untilClose_of_ne {close : TokenKind} (item : Reader α) (fuel : Nat)
    (h : token.kind ≠ close) :
    (untilClose close item (fuel + 1)).run (token :: rest)
      = (do let first ← item
            let others ← untilClose close item fuel
            return first :: others : Reader (List α)).run (token :: rest) := by
  rw [untilClose, run_bind_of_ok (run_skip?_of_ne h)]
  rfl

end Tokens

end FieldAudit.GraphQL.Grammar
