import FieldAudit.Proofs.GraphQL.Agreement

/-!
Every reader of the grammar is regular: on tokens with the same lexemes it fails or gives the same
value, and the brackets that it takes are well nested. One statement for each production, from
single tokens up to definitions; a reader that opens a level is regular by induction on the levels.
-/

set_option autoImplicit false

namespace FieldAudit.GraphQL.Grammar

variable {α : Type}

/-! ## 1. Choices -/

theorem agree_ite {β : Type} {post : α → β → List TokenKind → Prop} {c : Prop} [Decidable c]
    {x x' : Reader α} {y y' : Reader β} (h : Agree post x y) (h' : Agree post x' y') :
    Agree post (if c then x else x') (if c then y else y') := by
  split
  · exact h
  · exact h'

namespace Regular

variable {x y : Reader α}

theorem ite {c : Prop} [Decidable c] (hx : Regular x) (hy : Regular y) :
    Regular (if c then x else y) := agree_ite hx hy

/-- A token that is no bracket, and a reader behind it. -/
theorem expect {kind : TokenKind} (hplain : kind.isBracket = false) (hx : Regular x) :
    Regular (Grammar.expect kind >>= fun _ => x) :=
  agree_bind (agree_expect_plain hplain) fun _ _ _ => hx

/-- A choice by the kind of the front token. -/
theorem peekKind {kind : TokenKind} (hx : Regular x) (hy : Regular y) :
    Regular (peek >>= fun token => if token.kind = kind then x else y) :=
  agree_bindToken agree_peek fun _ _ _ _ => Regular.ite hx hy

end Regular

/-- A failure at the front token. -/
theorem regular_failAtFront (problem : GrammarProblem) :
    Regular (do failAt problem (← peek) : Reader α) :=
  agree_bindToken agree_peek fun _ _ _ _ => agree_failAt _ _ _ _

theorem regular_unexpected : Regular (unexpected : Reader α) := regular_failAtFront .unexpected

/-! ## 2. Values and types -/

/-- A text, if it is known that no bracket comes next. -/
theorem agreeOn_text {kind : TokenKind} (hplain : kind.isBracket = false) (value : Text)
    (start start' : Nat) {rest rest' : List Token} (halike : Alike rest rest') :
    AgreeOn (Nested Eq) text text (⟨kind, value, start⟩ :: rest)
      (⟨kind, value, start'⟩ :: rest') := by
  refine (agreeOn_advance kind value start start' halike).bind ?_
  rintro token other kinds ⟨hlexeme, rfl⟩
  have hkind : token.kind = other.kind := congrArg Lexeme.kind hlexeme
  have hvalue : token.value = other.value := congrArg Lexeme.value hlexeme
  rw [bracketOf_of_not hplain, hkind, hvalue]
  exact Regular.pure _

theorem isBracket_of_isText {token : Token} (h : token.isText = true) :
    token.kind.isBracket = false := by
  rcases (Bool.or_eq_true_iff.mp h) with h | h <;> rw [beq_iff_eq.mp h] <;> rfl

theorem regular_description? : Regular description? := by
  unfold description?
  refine regular_peek_ite (fun _ _ _ _ => rfl)
    (fun kind value start start' rest rest' htext halike => ?_)
    fun _ _ => Regular.pure none
  refine (agreeOn_text (isBracket_of_isText htext) value start start' halike).bind ?_
  rintro description _ kinds ⟨rfl, hkinds⟩
  exact agree_pure ⟨rfl, hkinds.append .nil⟩

theorem regular_variableUse (constant : Bool) : Regular (variableUse constant) := by
  unfold variableUse
  refine agree_bindToken (agree_expect_plain rfl) fun kind value start start' => ?_
  cases constant with
  | true =>
    refine agree_bind agree_peek fun token other _ => ?_
    split <;> split <;> exact agree_failAt _ _ _ _
  | false => exact regular_name.bind fun _ => .pure _

theorem regular_objectField {value : Reader Literal} (h : Regular value) :
    Regular (objectField value) := by
  unfold objectField
  exact regular_name.bind fun _ => .expect rfl <| h.bind fun _ => .pure _

/-- A value, a case for each kind of token that may stand in front. -/
theorem regular_literalWith (constant : Bool) {inner? : Option (Reader Literal)}
    (h : ∀ inner ∈ inner?, Regular inner) : Regular (literalWith constant inner?) := by
  unfold literalWith
  refine agree_peek_bind fun kind value start start' rest rest' halike => ?_
  have hwhole : Alike (⟨kind, value, start⟩ :: rest) (⟨kind, value, start'⟩ :: rest') :=
    congrArg (List.cons _) halike
  cases kind with
  | bracketOpen =>
    cases inner? with
    | none => exact .fail rfl rfl
    | some inner => exact ((regular_anyBetween rfl (h inner rfl)).bind fun _ => .pure _) _ _ hwhole
  | braceOpen =>
    cases inner? with
    | none => exact .fail rfl rfl
    | some inner =>
      have hfields : Regular (anyBetween .braceOpen .braceClose (objectField inner)) :=
        regular_anyBetween rfl (regular_objectField (h inner rfl))
      exact (hfields.bind fun _ => .pure _) _ _ hwhole
  | int | float | name => exact agreeOn_advance_bind rfl value start start' halike (.pure _)
  | text | blockText =>
    refine (agreeOn_text rfl value start start' halike).bind ?_
    rintro string _ kinds ⟨rfl, hkinds⟩
    exact agree_pure ⟨rfl, hkinds.append .nil⟩
  | dollar => exact regular_variableUse constant _ _ hwhole
  | _ => exact .fail rfl rfl

/-- Values, by induction on the levels. -/
theorem regular_literal (constant : Bool) (levels : Nat) : Regular (literal constant levels) := by
  induction levels with
  | zero => exact regular_literalWith constant fun _ hmem => nomatch hmem
  | succ levels ih =>
    refine regular_literalWith constant fun inner hmem => ?_
    obtain rfl := Option.mem_some_iff.mp hmem
    exact ih

/-- A type: a name, or a type in square brackets. -/
theorem regular_typeWith {inner : Reader TypeExpr} (h : Regular inner) :
    Regular (typeWith inner) := by
  have hend : ∀ base : TypeExpr, Regular (do
      if ← skip? .bang then return .nonNull base else return base : Reader TypeExpr) :=
    fun base => (regular_skip? rfl).bind fun _ => .ite (.pure _) (.pure _)
  unfold typeWith
  refine (agree_skip? .bracketOpen).bind ?_
  rintro bracket _ _ ⟨rfl, rfl⟩
  cases bracket with
  | true =>
    refine Agree.bind h ?_
    rintro item _ kinds ⟨rfl, hkinds⟩
    refine (agree_expect .bracketClose).bind ?_
    rintro _ _ _ ⟨-, rfl⟩
    refine (hend (.list item)).mono ?_
    rintro type _ behind ⟨rfl, hbehind⟩
    -- the type in the brackets is closed before anything else comes
    have hlist :
        WellNested (bracketOf .bracketOpen ++ (kinds ++ bracketOf .bracketClose) ++ behind) :=
      (wellNested_enclosed rfl hkinds).append hbehind
    rw [List.append_assoc, List.append_assoc] at hlist
    exact ⟨rfl, hlist⟩
  | false => exact regular_name.bind fun text => hend (.named text)

theorem regular_typeExpr (levels : Nat) : Regular (typeExpr levels) := by
  induction levels with
  | zero => exact regular_typeWith (regular_failAtFront .tooDeep)
  | succ levels ih => exact regular_typeWith ih

theorem regular_default? : Regular default? := by
  unfold default?
  exact (regular_skip? rfl).bind fun _ =>
    .ite ((regular_literal true deepest).bind fun _ => .pure _) (.pure _)

/-! ## 3. Directives and selections -/

section Levels

variable (constant : Bool) (levels : Nat)

theorem regular_argument : Regular (argument constant levels) := by
  unfold argument
  exact regular_name.bind fun _ => .expect rfl <|
    (regular_literal constant levels).bind fun _ => .pure _

theorem regular_arguments : Regular (arguments constant levels) :=
  regular_optionalBetween rfl (regular_argument constant levels)

theorem regular_directive : Regular (directive constant levels) := by
  unfold directive
  exact .expect rfl <| regular_name.bind fun _ =>
    (regular_arguments constant levels).bind fun _ => .pure _

/-- Directives, by induction on the fuel. -/
theorem regular_directivesFrom (fuel : Nat) : Regular (directivesFrom constant levels fuel) := by
  induction fuel with
  | zero => exact fun _ _ _ => .fail rfl rfl
  | succ fuel ih =>
    unfold directivesFrom
    exact .peekKind ((regular_directive constant levels).bind fun _ => ih.bind fun _ => .pure _)
      (.pure [])

theorem regular_directives : Regular (directives constant levels) :=
  agree_length fun fuel => regular_directivesFrom constant levels fuel

theorem regular_fragmentName : Regular fragmentName :=
  agree_bindToken agree_peek fun _ _ _ _ => agree_ite (agree_failAt _ _ _ _) regular_name

variable {levels} {inner : Reader (List Selection)}

theorem regular_field (h : Regular inner) : Regular (field levels inner) := by
  have hend : ∀ renamed first second, Regular (do
      let given ← arguments false levels
      let marks ← directives false levels
      let selections? ← if (← peek).kind = .braceOpen then some <$> inner else pure none
      return .field (if renamed = true then some first else none) second given marks selections? :
        Reader Selection) := fun renamed first second =>
    (regular_arguments false levels).bind fun given =>
      (regular_directives false levels).bind fun marks =>
        .peekKind ((h.map some).bind fun _ => .pure _) ((Regular.pure none).bind fun _ => .pure _)
  unfold field
  refine regular_name.bind fun first => (regular_skip? rfl).bind fun renamed => ?_
  exact .ite (regular_name.bind fun second => hend renamed first second)
    ((Regular.pure first).bind fun second => hend renamed first second)

theorem regular_spreadOrInline (h : Regular inner) : Regular (spreadOrInline levels inner) := by
  have hmarks := regular_directives false levels
  unfold spreadOrInline
  refine .expect rfl <| (regular_skipWord? "on").bind fun _ => .ite ?condition <|
    .peekKind ?spread ?bare
  case condition => exact regular_name.bind fun _ => hmarks.bind fun _ => h.bind fun _ => .pure _
  case spread => exact regular_fragmentName.bind fun _ => hmarks.bind fun _ => .pure _
  case bare => exact hmarks.bind fun _ => h.bind fun _ => .pure _

theorem regular_selection (h : Regular inner) : Regular (selection levels inner) := by
  unfold selection
  exact .peekKind (regular_spreadOrInline h) (regular_field h)

end Levels

/-- Selection sets, by induction on the levels. -/
theorem regular_selectionSet (levels : Nat) : Regular (selectionSet levels) := by
  induction levels with
  | zero => exact regular_failAtFront .tooDeep
  | succ levels ih => exact regular_anyBetween rfl (regular_selection ih)

/-! ## 4. Operations and fragments -/

theorem regular_operationKind : Regular operationKind := by
  unfold operationKind
  refine agree_bindToken (agree_expect_plain rfl) fun kind value start start' => ?_
  dsimp only
  cases OperationKind.ofKeyword? value with
  | some operation => exact Regular.pure operation
  | none => exact agree_failAt _ _ _ _

theorem regular_variableDefinition : Regular variableDefinition := by
  unfold variableDefinition
  exact regular_description?.bind fun _ => .expect rfl <| regular_name.bind fun _ => .expect rfl <|
    (regular_typeExpr deepest).bind fun _ => regular_default?.bind fun _ =>
      (regular_directives true deepest).bind fun _ => .pure _

theorem regular_shorthand : Regular shorthand := by
  unfold shorthand
  exact (regular_selectionSet deepest).bind fun _ => .pure _

theorem regular_operation : Regular operation := by
  have hend : ∀ description kind key?, Regular (do
      let inputs ← optionalBetween .parenOpen .parenClose variableDefinition
      let marks ← directives false deepest
      return .operation ⟨description, kind, key?, inputs, marks, ← selectionSet deepest⟩ :
        Reader Definition) := fun description kind key? =>
    (regular_optionalBetween rfl regular_variableDefinition).bind fun _ =>
      (regular_directives false deepest).bind fun _ =>
        (regular_selectionSet deepest).bind fun _ => .pure _
  unfold operation
  exact regular_description?.bind fun description => regular_operationKind.bind fun kind =>
    .peekKind ((regular_name.map some).bind fun key? => hend description kind key?)
      ((Regular.pure none).bind fun key? => hend description kind key?)

theorem regular_fragment : Regular fragment := by
  unfold fragment
  exact regular_description?.bind fun _ => (regular_expectWord "fragment").bind fun _ =>
    regular_fragmentName.bind fun _ => (regular_expectWord "on").bind fun _ =>
      regular_name.bind fun _ => (regular_directives false deepest).bind fun _ =>
        (regular_selectionSet deepest).bind fun _ => .pure _

/-! ## 5. Type-system definitions -/

theorem regular_inputDefinition : Regular inputDefinition := by
  unfold inputDefinition
  exact regular_description?.bind fun _ => regular_name.bind fun _ => .expect rfl <|
    (regular_typeExpr deepest).bind fun _ => regular_default?.bind fun _ =>
      (regular_directives true deepest).bind fun _ => .pure _

theorem regular_argumentDefinitions : Regular argumentDefinitions :=
  regular_optionalBetween rfl regular_inputDefinition

theorem regular_fieldDefinition : Regular fieldDefinition := by
  unfold fieldDefinition
  exact regular_description?.bind fun _ => regular_name.bind fun _ =>
    regular_argumentDefinitions.bind fun _ => .expect rfl <|
      (regular_typeExpr deepest).bind fun _ =>
        (regular_directives true deepest).bind fun _ => .pure _

theorem regular_enumValueDefinition : Regular enumValueDefinition := by
  have hend : ∀ description, Regular (do
      let key ← name
      return ⟨description, key, ← directives true deepest⟩ : Reader EnumValueDefinition) :=
    fun _ => regular_name.bind fun _ => (regular_directives true deepest).bind fun _ => .pure _
  unfold enumValueDefinition
  exact regular_description?.bind fun description => agree_bindToken agree_peek fun _ _ _ _ =>
    agree_ite (agree_failAt_bind _ _ _ _) (hend description)

theorem regular_interfaces : Regular interfaces := by
  unfold interfaces
  exact (regular_skipWord? "implements").bind fun _ =>
    .ite (regular_separated rfl regular_name) (.pure [])

theorem regular_fieldDefinitions : Regular fieldDefinitions :=
  regular_optionalBetween rfl regular_fieldDefinition

theorem regular_unionMembers : Regular unionMembers := by
  unfold unionMembers
  exact (regular_skip? rfl).bind fun _ => .ite (regular_separated rfl regular_name) (.pure [])

/-- What follows the name of a type, whatever its word. -/
theorem regular_typeBodies : ∀ entry ∈ typeBodies, Regular entry.2 := by
  have hmarks := regular_directives true deepest
  unfold typeBodies
  simp only [List.forall_mem_cons, List.not_mem_nil, false_imp_iff, implies_true, and_true]
  refine ⟨?scalar, ?object, ?interface, ?union, ?enum, ?input⟩
  case scalar => exact hmarks.bind fun _ => .pure _
  case object | interface =>
    exact regular_interfaces.bind fun _ => hmarks.bind fun _ =>
      regular_fieldDefinitions.bind fun _ => .pure _
  case union => exact hmarks.bind fun _ => regular_unionMembers.bind fun _ => .pure _
  case enum =>
    exact hmarks.bind fun _ =>
      (regular_optionalBetween rfl regular_enumValueDefinition).bind fun _ => .pure _
  case input =>
    exact hmarks.bind fun _ =>
      (regular_optionalBetween rfl regular_inputDefinition).bind fun _ => .pure _

theorem regular_rootType : Regular rootType := by
  unfold rootType
  exact regular_operationKind.bind fun _ => .expect rfl <| regular_name.bind fun _ => .pure _

theorem regular_schemaDefinition : Regular schemaDefinition := by
  unfold schemaDefinition
  exact regular_description?.bind fun _ => (regular_expectWord "schema").bind fun _ =>
    (regular_directives true deepest).bind fun _ =>
      (regular_someBetween rfl regular_rootType).bind fun _ => .pure _

theorem regular_typeDefinition (word : String) {body : Reader (List Directive × TypeBody)}
    (h : Regular body) : Regular (typeDefinition word body) := by
  unfold typeDefinition
  exact regular_description?.bind fun _ => (regular_expectWord word).bind fun _ =>
    regular_name.bind fun _ => h.bind fun _ => .pure _

theorem regular_directiveLocation : Regular directiveLocation :=
  agree_bindToken (agree_expect_plain rfl) fun _ _ _ _ =>
    agree_ite (Regular.pure _) (agree_failAt _ _ _ _)

theorem regular_directiveDefinition : Regular directiveDefinition := by
  unfold directiveDefinition
  exact regular_description?.bind fun _ => (regular_expectWord "directive").bind fun _ =>
    .expect rfl <| regular_name.bind fun _ => regular_argumentDefinitions.bind fun _ =>
      (regular_directives true deepest).bind fun _ => (regular_skipWord? "repeatable").bind fun _ =>
        (regular_expectWord "on").bind fun _ =>
          (regular_separated rfl regular_directiveLocation).bind fun _ => .pure _

/-! ## 6. Extensions -/

theorem regular_schemaExtension : Regular schemaExtension := by
  unfold schemaExtension
  exact (regular_expectWord "extend").bind fun _ => (regular_expectWord "schema").bind fun _ =>
    (regular_directives true deepest).bind fun _ =>
      (regular_optionalBetween rfl regular_rootType).bind fun _ =>
        .ite (regular_unexpected.bind fun _ => .pure _) (.pure _)

theorem regular_typeExtension (word : String) {body : Reader (List Directive × TypeBody)}
    (h : Regular body) : Regular (typeExtension word body) := by
  unfold typeExtension
  exact (regular_expectWord "extend").bind fun _ => (regular_expectWord word).bind fun _ =>
    regular_name.bind fun _ => h.bind fun _ =>
      .ite (regular_unexpected.bind fun _ => .pure _) (.pure _)

theorem regular_directiveExtension : Regular directiveExtension := by
  unfold directiveExtension
  exact (regular_expectWord "extend").bind fun _ => (regular_expectWord "directive").bind fun _ =>
    .expect rfl <| regular_name.bind fun _ => (regular_directives true deepest).bind fun _ =>
      .ite (regular_unexpected.bind fun _ => .pure _) (.pure _)

theorem regular_extension : Regular extension := by
  unfold extension
  refine agree_bindToken agree_peekSecond fun kind value start start' => ?_
  refine agree_ite regular_schemaExtension <| agree_ite regular_directiveExtension ?_
  -- the body is looked up by the word alone
  simp only [Token.isWord]
  cases hentry : typeBodies.find? fun entry => kind == .name && value == (entry.1 : Text) with
  | some entry =>
    exact regular_typeExtension entry.1
      (regular_typeBodies entry (List.mem_of_find?_eq_some hentry))
  | none => exact agree_failAt _ _ _ _

/-! ## 7. Documents -/

/-- What a keyword introduces. -/
theorem regular_of_definitionOf {token : Token} {reader : Reader Definition}
    (h : definitionOf token = some reader) : Regular reader := by
  unfold definitionOf at h
  split_ifs at h with hname hschema hdirective hfragment hoperation
  · exact Option.some.inj h ▸ regular_schemaDefinition
  · exact Option.some.inj h ▸ regular_directiveDefinition
  · exact Option.some.inj h ▸ regular_fragment
  · exact Option.some.inj h ▸ regular_operation
  · obtain ⟨entry, hentry, rfl⟩ := Option.map_eq_some_iff.mp h
    exact regular_typeDefinition entry.1
      (regular_typeBodies entry (List.mem_of_find?_eq_some hentry))

/-- What is left of a definition when its keyword is known, with the first token and whether that
describes it. -/
def definitionWith (described : Bool) (first keyword : Token) : Reader Definition := do
  if described && keyword.kind == .braceOpen then failAt .describedShorthand first
  match definitionOf keyword with
  | some reader => reader
  | none =>
    if keyword.kind = .name && described then failAt .describedOther first
    else if keyword.isWord "extend" then extension
    else failAt .unexpected keyword

theorem agree_definitionWith (described : Bool) (first first' : Token) (kind : TokenKind)
    (value : Text) (start start' : Nat) :
    Agree (Nested Eq) (definitionWith described first ⟨kind, value, start⟩)
      (definitionWith described first' ⟨kind, value, start'⟩) := by
  have hsame : definitionOf ⟨kind, value, start⟩ = definitionOf ⟨kind, value, start'⟩ := rfl
  unfold definitionWith
  refine agree_ite (agree_failAt_bind _ _ _ _) ?_
  rw [← hsame]
  cases hreader : definitionOf ⟨kind, value, start⟩ with
  | some reader => exact regular_of_definitionOf hreader
  | none =>
    exact agree_ite (agree_failAt _ _ _ _) (agree_ite regular_extension (agree_failAt _ _ _ _))

theorem regular_definition : Regular definition := by
  unfold definition
  refine agree_bindToken agree_peek fun kind value start start' => agree_ite regular_shorthand ?_
  -- the keyword is the second token behind a description, and the first one otherwise
  refine agree_ite (agree_bindToken agree_peekSecond ?described)
    (agree_bindToken (agree_pure ⟨rfl, .nil⟩) ?plain)
  case described => exact agree_definitionWith _ ⟨kind, value, start⟩ ⟨kind, value, start'⟩
  case plain => exact agree_definitionWith _ ⟨kind, value, start⟩ ⟨kind, value, start'⟩

end FieldAudit.GraphQL.Grammar
