import FieldAudit.GraphQL.Parse
import FieldAudit.Proofs.GraphQL.Accepted

/-!
Parsing written documents. A plain document is read back from any layout of its lexemes if it nests
at most `Grammar.deepest` selection sets (`parse_layout`), and a deeper one is refused as nested too
deeply (`parse_layout_of_deep`). Whether the name of an operation, a fragment or a field is itself a
keyword makes no difference: keywords are looked for only where a definition starts.
-/

set_option autoImplicit false

namespace FieldAudit.GraphQL

namespace Grammar

/-! ## 1. Definitions -/

/-- A definition whose first token is its keyword. -/
theorem run_definition_of_keyword {reader : Reader Definition} {keyword : Token} (rest : List Token)
    (hkind : keyword.kind = .name) (hreader : definitionOf keyword = some reader) :
    definition.run (keyword :: rest) = reader.run (keyword :: rest) := by
  have hbrace : keyword.kind ≠ .braceOpen := by rw [hkind]; decide
  have htext : keyword.isText = false := by rw [Token.isText, hkind]; rfl
  unfold definition
  rw [run_bind_of_ok (run_peek keyword rest)]
  simp only [if_neg hbrace, htext, Bool.false_eq_true, if_false, Bool.false_and]
  rw [run_bind_of_ok (run_pure _ _), hreader]

/-- A definition that starts with a brace is a query without a name. -/
theorem run_definition_of_brace {token : Token} (rest : List Token) (h : token.kind = .braceOpen) :
    definition.run (token :: rest)
      = ((fun selections => Definition.operation ⟨none, .query, none, [], [], selections⟩)
          <$> selectionSet deepest).run (token :: rest) := by
  unfold definition
  rw [run_bind_of_ok (run_peek token rest), if_pos h, map_eq_pure_bind]
  rfl

/-- The word of an operation introduces one. -/
theorem definitionOf_keyword {token : Token} (kind : OperationKind) (hkind : token.kind = .name)
    (hvalue : token.value = kind.keyword) : definitionOf token = some operation := by
  unfold definitionOf
  rw [hkind, hvalue]
  cases kind <;> rfl

theorem definitionOf_fragment {token : Token} (hkind : token.kind = .name)
    (hvalue : token.value = "fragment") : definitionOf token = some fragment := by
  unfold definitionOf
  rw [hkind, hvalue]
  rfl

theorem run_operationKind {kind : OperationKind} {token next : Token} (rest : List Token)
    (hkind : token.kind = .name) (hvalue : token.value = kind.keyword) :
    operationKind.run (token :: next :: rest) = .ok (kind, next :: rest) := by
  unfold operationKind
  rw [run_bind_of_ok (run_expect hkind), hvalue]
  cases kind <;> rfl

/-- An operation is its word, its name if it has one, and its selection set. -/
theorem run_operation {kind : OperationKind} {name? : Option Text} {tokens : List Token}
    {next : Token} {rest : List Token}
    (htokens : tokens.map Token.lexeme = .word kind.keyword :: name?.toList.map .word)
    (hnext : next.kind = .braceOpen) :
    definition.run (tokens ++ next :: rest)
      = ((fun selections => Definition.operation ⟨none, kind, name?, [], [], selections⟩)
          <$> selectionSet deepest).run (next :: rest) := by
  have hname : next.kind ≠ .name := by rw [hnext]; decide
  have hparen : next.kind ≠ .parenOpen := by rw [hnext]; decide
  have hat : next.kind ≠ .atSign := by rw [hnext]; decide
  obtain ⟨keyword, behind, rfl, hkeyword, hbehind⟩ := List.map_eq_cons_iff.mp htokens
  have hkind : keyword.kind = .name := congrArg Lexeme.kind hkeyword
  have hvalue : keyword.value = kind.keyword := congrArg Lexeme.value hkeyword
  have htext : keyword.isText = false := by rw [Token.isText, hkind]; rfl
  rw [List.cons_append, run_definition_of_keyword _ hkind (definitionOf_keyword kind hkind hvalue)]
  unfold operation
  rw [run_bind_of_ok (run_description?_none htext)]
  cases name? with
  | none =>
    obtain rfl := List.map_eq_nil_iff.mp hbehind
    rw [List.nil_append, run_bind_of_ok (run_operationKind rest hkind hvalue),
      run_bind_of_ok (run_peek next rest), if_neg hname, run_bind_of_ok (run_pure _ _),
      run_bind_of_ok (run_optionalBetween_nil _ _ hparen),
      run_bind_of_ok (run_directives_nil _ _ hat), map_eq_pure_bind]
  | some name =>
    obtain ⟨token, behind, rfl, htoken, hbehind⟩ := List.map_eq_cons_iff.mp hbehind
    obtain rfl := List.map_eq_nil_iff.mp hbehind
    have htokenKind : token.kind = .name := congrArg Lexeme.kind htoken
    have htokenValue : token.value = name := congrArg Lexeme.value htoken
    rw [List.cons_append, List.nil_append, run_bind_of_ok (run_operationKind _ hkind hvalue),
      run_bind_of_ok (run_peek token _), if_pos htokenKind,
      run_bind_of_ok (run_map_of_ok (run_name htokenKind)),
      run_bind_of_ok (run_optionalBetween_nil _ _ hparen),
      run_bind_of_ok (run_directives_nil _ _ hat), htokenValue, map_eq_pure_bind]

/-- A fragment is its words, its name and its condition between them, and its selection set. -/
theorem run_fragment {name condition : Text} {tokens : List Token} {next : Token}
    {rest : List Token} (hon : name ≠ "on")
    (htokens : tokens.map Token.lexeme
      = [.word "fragment", .word name, .word "on", .word condition])
    (hnext : next.kind = .braceOpen) :
    definition.run (tokens ++ next :: rest)
      = ((fun selections => Definition.fragment ⟨none, name, condition, [], selections⟩)
          <$> selectionSet deepest).run (next :: rest) := by
  have hat : next.kind ≠ .atSign := by rw [hnext]; decide
  obtain ⟨keyword, behind, rfl, hkeyword, hbehind⟩ := List.map_eq_cons_iff.mp htokens
  obtain ⟨token, behind, rfl, htoken, hbehind⟩ := List.map_eq_cons_iff.mp hbehind
  obtain ⟨lead, behind, rfl, hlead, hbehind⟩ := List.map_eq_cons_iff.mp hbehind
  obtain ⟨type, behind, rfl, htype, hbehind⟩ := List.map_eq_cons_iff.mp hbehind
  obtain rfl := List.map_eq_nil_iff.mp hbehind
  have hkind : keyword.kind = .name := congrArg Lexeme.kind hkeyword
  have hvalue : keyword.value = "fragment" := congrArg Lexeme.value hkeyword
  have htokenValue : token.value = name := congrArg Lexeme.value htoken
  have htypeValue : type.value = condition := congrArg Lexeme.value htype
  have htext : keyword.isText = false := by rw [Token.isText, hkind]; rfl
  have hword : keyword.isWord "fragment" = true := by
    rw [Token.isWord, hkind, hvalue]
    rfl
  have hleadWord : lead.isWord "on" = true := by
    have hleadKind : lead.kind = .name := congrArg Lexeme.kind hlead
    have hleadValue : lead.value = "on" := congrArg Lexeme.value hlead
    rw [Token.isWord, hleadKind, hleadValue]
    rfl
  simp only [List.cons_append, List.nil_append]
  rw [run_definition_of_keyword _ hkind (definitionOf_fragment hkind hvalue)]
  unfold fragment
  rw [run_bind_of_ok (run_description?_none htext), run_bind_of_ok (run_expectWord hword),
    run_bind_of_ok (run_fragmentName (congrArg Lexeme.kind htoken)
      (by rw [htokenValue]; exact hon)),
    run_bind_of_ok (run_expectWord hleadWord),
    run_bind_of_ok (run_name (congrArg Lexeme.kind htype)),
    run_bind_of_ok (run_directives_nil _ _ hat), htokenValue, htypeValue, map_eq_pure_bind]

/-- **Written definitions.** A definition is read back if it nests no more sets than the grammar
allows, and refused as nested too deeply otherwise, whatever follows it. -/
theorem reads_definition {definition : Definition} {lexemes : List Lexeme}
    (h : DefinitionWritten definition lexemes) :
    (definition.depth ≤ deepest → Takes Grammar.definition lexemes definition fun _ => True)
      ∧ (deepest < definition.depth → Refuses Grammar.definition lexemes) := by
  cases h with
  | @operation kind name? selections _ hselections =>
    have hset := bounded_plainSet hselections
    rw [← List.cons_append]
    exact ⟨fun hdepth => takes_of_lead _ (fun _ _ _ => run_operation) (hset.takes deepest hdepth),
      fun hdepth => refuses_of_lead (fun _ _ _ => run_operation) (hset.refuses deepest hdepth)⟩
  | @shorthand selections hselections =>
    have hset := bounded_plainSet hselections
    -- there is nothing in front of the set, so the brace itself tells what the definition is
    have hrun : ∀ (tokens : List Token) (next : Token) (rest : List Token),
        tokens.map Token.lexeme = [] → next.kind = .braceOpen →
        Grammar.definition.run (tokens ++ next :: rest)
          = ((fun selections => Definition.operation ⟨none, .query, none, [], [], selections⟩)
              <$> selectionSet deepest).run (next :: rest) := by
      intro tokens next rest htokens hnext
      rw [List.map_eq_nil_iff.mp htokens]
      exact run_definition_of_brace rest hnext
    rw [← List.nil_append (setLexemes selections)]
    exact ⟨fun hdepth => takes_of_lead _ hrun (hset.takes deepest hdepth),
      fun hdepth => refuses_of_lead hrun (hset.refuses deepest hdepth)⟩
  | @fragment name condition selections _ hon _ hselections =>
    have hset := bounded_plainSet hselections
    exact ⟨fun hdepth => takes_of_lead _ (fun _ _ _ => run_fragment hon)
      (hset.takes deepest hdepth),
      fun hdepth => refuses_of_lead (fun _ _ _ => run_fragment hon) (hset.refuses deepest hdepth)⟩

/-! ## 2. Documents -/

/-- A document is its first definition and those behind it, read with fuel for every token that is
left. -/
theorem run_document_of_takes {definition : Definition} {lexemes : List Lexeme}
    (htakes : Takes Grammar.definition lexemes definition fun _ => True) {own behind : List Token}
    (hown : own.map Token.lexeme = lexemes) (hne : behind ≠ []) :
    document.run (own ++ behind)
      = ((fun more => definition :: more) <$> untilClose .endOfText Grammar.definition
          behind.length).run behind := by
  obtain ⟨next, rest, rfl⟩ := List.exists_cons_of_ne_nil hne
  have hfirst := htakes own next rest hown trivial
  unfold document someUpTo upTo
  rw [run_bind_of_ok hfirst, map_eq_pure_bind]
  rfl

section Items

variable {items : List (Definition × List Lexeme)} (hitems : ∀ i ∈ items, DefinitionWritten i.1 i.2)

include hitems

/-- No definition starts with the end of the text. -/
theorem exists_head_of_written :
    ∀ i ∈ items, ∃ first more, i.2 = first :: more ∧ first.kind ≠ .endOfText ∧ True := by
  intro i hi
  obtain ⟨first, more, hfirst, hkind⟩ := (hitems i hi).exists_eq_cons
  exact ⟨first, more, hfirst, hkind, trivial⟩

/-- There are fewer definitions than tokens up to the end of the text. -/
theorem length_lt_of_written {tokens : List Token}
    (htokens : tokens.map Token.lexeme = items.flatMap Prod.snd) (last : Token) :
    items.length < (tokens ++ [last]).length := by
  have hlength : items.length ≤ (items.flatMap Prod.snd).length := by
    refine length_le_length_flatMap fun i hi => ?_
    obtain ⟨first, more, hfirst, -⟩ := exists_head_of_written hitems i hi
    exact ⟨first, more, hfirst⟩
  rw [← htokens, List.length_map] at hlength
  rw [List.length_append, List.length_singleton]
  omega

/-- Written definitions up to the end of the text are read back if none of them is too deep. -/
theorem run_document_of_shallow (hne : items ≠ []) {tokens : List Token}
    (htokens : tokens.map Token.lexeme = items.flatMap Prod.snd) {last : Token}
    (hlast : last.kind = .endOfText) (hdepth : ∀ i ∈ items, i.1.depth ≤ deepest) :
    document.run (tokens ++ [last]) = .ok (items.map Prod.fst, [last]) := by
  obtain ⟨i, items, rfl⟩ := List.exists_cons_of_ne_nil hne
  obtain ⟨hfirst, hrest⟩ := List.forall_mem_cons.mp hitems
  obtain ⟨hshallow, hothersShallow⟩ := List.forall_mem_cons.mp hdepth
  rw [List.flatMap_cons, List.map_eq_append_iff] at htokens
  obtain ⟨own, others, rfl, hown, hothers⟩ := htokens
  have htakes : ∀ j ∈ items, Takes Grammar.definition j.2 j.1 fun _ => True :=
    fun j hj => (reads_definition (hrest j hj)).1 (hothersShallow j hj)
  have hend : ∀ fuel, (untilClose .endOfText Grammar.definition (fuel + 1)).run [last]
      = .ok ([], [last]) := fun fuel => run_untilClose_end _ fuel hlast
  have hbehind : others ++ [last] ≠ [] := by simp
  rw [List.append_assoc, run_document_of_takes ((reads_definition hfirst).1 hshallow) hown hbehind,
    List.map_cons]
  exact run_map_of_ok (run_untilClose_of_takes htakes (exists_head_of_written hrest) trivial hend
    hothers (length_lt_of_written hrest hothers last))

/-- Written definitions up to the end of the text are refused if one of them is too deep. -/
theorem run_document_of_deep {tokens : List Token}
    (htokens : tokens.map Token.lexeme = items.flatMap Prod.snd) (last : Token)
    (hdeep : ∃ i ∈ items, deepest < i.1.depth) :
    ∃ token, document.run (tokens ++ [last]) = .error (.problem .tooDeep token) := by
  obtain ⟨culprit, hculprit, hdepth⟩ := hdeep
  obtain ⟨i, items, rfl⟩ := List.exists_cons_of_ne_nil (List.ne_nil_of_mem hculprit)
  obtain ⟨hfirst, hrest⟩ := List.forall_mem_cons.mp hitems
  rw [List.flatMap_cons, List.map_eq_append_iff] at htokens
  obtain ⟨own, others, rfl, hown, hothers⟩ := htokens
  have hbehind : others ++ [last] ≠ [] := by simp
  rw [List.append_assoc]
  rcases Nat.lt_or_ge deepest i.1.depth with hlt | hge
  · -- the first definition is too deep, and what comes behind it is never read
    obtain ⟨next, rest, hnext⟩ := List.exists_cons_of_ne_nil hbehind
    obtain ⟨token, hfault⟩ := (reads_definition hfirst).2 hlt own next rest hown
    rw [hnext]
    exact ⟨token, run_bind_of_error hfault⟩
  · -- the first definition is read, so the one that is too deep comes behind it
    have hmem : culprit ∈ items := by
      rcases List.mem_cons.mp hculprit with rfl | hmem
      · omega
      · exact hmem
    have hitem : ∀ j ∈ items, Takes Grammar.definition j.2 j.1 (fun _ => True)
        ∨ Refuses Grammar.definition j.2 := by
      intro j hj
      rcases Nat.lt_or_ge deepest j.1.depth with hlt | hge
      · exact .inr ((reads_definition (hrest j hj)).2 hlt)
      · exact .inl ((reads_definition (hrest j hj)).1 hge)
    obtain ⟨token, hfault⟩ := run_untilClose_of_refuses hitem (exists_head_of_written hrest)
      ⟨culprit, hmem, (reads_definition (hrest culprit hmem)).2 hdepth⟩ [] hothers
      (length_lt_of_written hrest hothers last)
    rw [run_document_of_takes ((reads_definition hfirst).1 hge) hown hbehind]
    exact ⟨token, run_map_of_error hfault⟩

end Items

end Grammar

/-! ## 3. Parsing a layout -/

section Parse

variable {document : Document} {lexemes : List Lexeme} {text : Text}

/-- **Written documents are parsed.** Every layout of a written document that nests at most
`Grammar.deepest` sets is parsed as that document. -/
theorem parse_layout (hwritten : Written document lexemes) (hlayout : Layout lexemes text)
    (hne : document ≠ []) (hdepth : Document.depth document ≤ Grammar.deepest) :
    parse text = .ok document := by
  obtain ⟨items, hitems, rfl, rfl⟩ := hwritten.exists_items
  obtain ⟨tokens, stop, htokens, hlexemes⟩ := tokenizeFrom_layout hlayout 0
  have hnone : items ≠ [] := fun h => hne (by rw [h, List.map_nil])
  have hshallow : ∀ i ∈ items, i.1.depth ≤ Grammar.deepest := fun i hi =>
    Document.depth_le_iff.mp hdepth i.1 (List.mem_map_of_mem hi)
  have hlast : (⟨.endOfText, [], stop⟩ : Token).kind = .endOfText := rfl
  have hread := Grammar.run_document_of_shallow hitems hnone hlexemes hlast hshallow
  unfold parse readWith tokenize
  simp only [htokens, hread]

/-- **Deeper documents are refused.** No layout of a written document that nests more than
`Grammar.deepest` sets is parsed, and the fault is the nesting. -/
theorem parse_layout_of_deep (hwritten : Written document lexemes) (hlayout : Layout lexemes text)
    (hdepth : Grammar.deepest < Document.depth document) :
    ∃ token error, parse text = .error error ∧ error.problem = .grammatical .tooDeep token := by
  obtain ⟨items, hitems, rfl, rfl⟩ := hwritten.exists_items
  obtain ⟨tokens, stop, htokens, hlexemes⟩ := tokenizeFrom_layout hlayout 0
  have hdeep : ∃ i ∈ items, Grammar.deepest < i.1.depth := by
    -- if no definition were too deep, the document would not be either
    by_contra hnone
    refine Nat.not_le_of_lt hdepth (Document.depth_le_iff.mpr ?_)
    intro definition hmem
    obtain ⟨i, hi, rfl⟩ := List.mem_map.mp hmem
    exact Nat.le_of_not_lt fun hlt => hnone ⟨i, hi, hlt⟩
  obtain ⟨token, hread⟩ :=
    Grammar.run_document_of_deep hitems hlexemes ⟨.endOfText, [], stop⟩ hdeep
  refine ⟨token, .ofFault text (tokenize text) (.problem .tooDeep token), ?_, rfl⟩
  unfold parse readWith tokenize
  simp only [htokens, hread]

end Parse

end FieldAudit.GraphQL
