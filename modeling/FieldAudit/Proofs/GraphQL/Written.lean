import FieldAudit.Proofs.GraphQL.Layout
import FieldAudit.Proofs.GraphQL.Readers

/-!
Executable documents without arguments, variables and directives, and the lexemes that write them.
The grammar takes exactly the lexemes of such a document and gives the document back, as long as its
selection sets nest no deeper than the grammar allows; a deeper document is refused for that reason
and no other. Both are said of every reader by one pair of judgements, `Takes` and `Refuses`, and
proved by induction on the document.
-/

set_option autoImplicit false

namespace FieldAudit.GraphQL

/-! ## 1. Plain documents and their lexemes -/

/-- A selection without arguments and directives, all of whose names are names. The word `on` is no
name for a spread: it would introduce a condition. -/
inductive IsPlain : Selection → Prop
  | field {alias? : Option Text} {name : Text} (halias : ∀ a ∈ alias?, isName a = true)
      (hname : isName name = true) : IsPlain (.field alias? name [] [] none)
  | fieldSet {alias? : Option Text} {name : Text} {selections : List Selection}
      (halias : ∀ a ∈ alias?, isName a = true) (hname : isName name = true)
      (hselections : ∀ selection ∈ selections, IsPlain selection) :
      IsPlain (.field alias? name [] [] (some selections))
  | spread {name : Text} (hname : isName name = true) (hon : name ≠ "on") :
      IsPlain (.spread name [])
  | inline {condition? : Option Text} {selections : List Selection}
      (hcondition : ∀ c ∈ condition?, isName c = true)
      (hselections : ∀ selection ∈ selections, IsPlain selection) :
      IsPlain (.inline condition? [] selections)

/-- The lexemes of an alias: the name and the colon. -/
def aliasLexemes : Option Text → List Lexeme
  | none => []
  | some name => [.word name, .colon]

/-- The lexemes of a type condition: the word `on` and the name. -/
def conditionLexemes : Option Text → List Lexeme
  | none => []
  | some name => [.word "on", .word name]

mutual

/-- The lexemes that write a selection. -/
def lexemesOf : Selection → List Lexeme
  | .field alias? name _ _ none => aliasLexemes alias? ++ [.word name]
  | .field alias? name _ _ (some selections) =>
    aliasLexemes alias? ++ .word name :: .opening :: (lexemesOfAll selections ++ [.closing])
  | .spread name _ => [.dots, .word name]
  | .inline condition? _ selections =>
    .dots :: (conditionLexemes condition? ++ .opening :: (lexemesOfAll selections ++ [.closing]))

/-- The lexemes that write selections one after the other. -/
def lexemesOfAll : List Selection → List Lexeme
  | [] => []
  | selection :: selections => lexemesOf selection ++ lexemesOfAll selections

end

/-- The lexemes that write a selection set. -/
def setLexemes (selections : List Selection) : List Lexeme :=
  .opening :: (lexemesOfAll selections ++ [.closing])

mutual

/-- How many selection sets a selection nests. -/
def depthOf : Selection → Nat
  | .field _ _ _ _ none => 0
  | .field _ _ _ _ (some selections) => depthOfAll selections + 1
  | .spread _ _ => 0
  | .inline _ _ selections => depthOfAll selections + 1

/-- How many selection sets the deepest of the selections nests. -/
def depthOfAll : List Selection → Nat
  | [] => 0
  | selection :: selections => max (depthOf selection) (depthOfAll selections)

end

/-- The ways to write a definition: an operation with its word and perhaps a name, a query without a
name as its selection set alone, and a fragment on a type. -/
inductive DefinitionWritten : Definition → List Lexeme → Prop
  | operation {kind : OperationKind} {name? : Option Text} {selections : List Selection}
      (hname : ∀ name ∈ name?, isName name = true)
      (hselections : ∀ selection ∈ selections, IsPlain selection) :
      DefinitionWritten (.operation ⟨none, kind, name?, [], [], selections⟩)
        (.word kind.keyword :: (name?.toList.map .word ++ setLexemes selections))
  | shorthand {selections : List Selection}
      (hselections : ∀ selection ∈ selections, IsPlain selection) :
      DefinitionWritten (.operation ⟨none, .query, none, [], [], selections⟩)
        (setLexemes selections)
  | fragment {name condition : Text} {selections : List Selection} (hname : isName name = true)
      (hon : name ≠ "on") (hcondition : isName condition = true)
      (hselections : ∀ selection ∈ selections, IsPlain selection) :
      DefinitionWritten (.fragment ⟨none, name, condition, [], selections⟩)
        (.word "fragment" :: .word name :: .word "on" :: .word condition :: setLexemes selections)

/-- The ways to write a document: its definitions one after the other. -/
inductive Written : Document → List Lexeme → Prop
  | nil : Written [] []
  | cons {definition : Definition} {document : Document} {first rest : List Lexeme}
      (hfirst : DefinitionWritten definition first) (hrest : Written document rest) :
      Written (definition :: document) (first ++ rest)

/-- How many selection sets a definition nests, its own included. -/
def Definition.depth : Definition → Nat
  | .operation op => depthOfAll op.selections + 1
  | .fragment f => depthOfAll f.selections + 1
  | _ => 0

/-- How many selection sets the deepest definition of a document nests. -/
def Document.depth : Document → Nat
  | [] => 0
  | definition :: rest => max definition.depth (depth rest)

theorem Document.depth_le_iff {document : Document} {levels : Nat} :
    Document.depth document ≤ levels ↔ ∀ definition ∈ document, definition.depth ≤ levels := by
  induction document with
  | nil => simp [Document.depth]
  | cons definition rest ih => rw [Document.depth, Nat.max_le, ih, List.forall_mem_cons]

/-- A written document is a list of written definitions. -/
theorem Written.exists_items {document : Document} {lexemes : List Lexeme}
    (h : Written document lexemes) :
    ∃ items : List (Definition × List Lexeme), (∀ i ∈ items, DefinitionWritten i.1 i.2)
      ∧ items.map Prod.fst = document ∧ items.flatMap Prod.snd = lexemes := by
  induction h with
  | nil => exact ⟨[], fun i hi => absurd hi List.not_mem_nil, rfl, rfl⟩
  | @cons definition document first rest hfirst _ ih =>
    obtain ⟨items, hitems, hdocument, hrest⟩ := ih
    refine ⟨(definition, first) :: items, List.forall_mem_cons.mpr ⟨hfirst, hitems⟩, ?_, ?_⟩
    · rw [List.map_cons, hdocument]
    · rw [List.flatMap_cons, hrest]

/-- A written definition starts with a word or with a brace. -/
theorem DefinitionWritten.exists_eq_cons {definition : Definition} {lexemes : List Lexeme}
    (h : DefinitionWritten definition lexemes) :
    ∃ first more, lexemes = first :: more ∧ first.kind ≠ .endOfText := by
  have hword : ∀ text, (Lexeme.word text).kind ≠ .endOfText := by simp [Lexeme.word]
  cases h with
  | operation _ _ => exact ⟨_, _, rfl, hword _⟩
  | shorthand _ => exact ⟨_, _, rfl, by decide⟩
  | fragment _ _ _ _ => exact ⟨_, _, rfl, hword _⟩

theorem lexemesOfAll_eq_flatMap (selections : List Selection) :
    lexemesOfAll selections = selections.flatMap lexemesOf := by
  induction selections with
  | nil => rfl
  | cons selection rest ih => rw [lexemesOfAll, List.flatMap_cons, ih]

theorem depthOf_le_depthOfAll {selections : List Selection} {selection : Selection}
    (h : selection ∈ selections) : depthOf selection ≤ depthOfAll selections := by
  induction selections with
  | nil => exact absurd h List.not_mem_nil
  | cons first rest ih =>
    rw [depthOfAll]
    rcases List.mem_cons.mp h with rfl | hrest
    · exact Nat.le_max_left _ _
    · exact Nat.le_trans (ih hrest) (Nat.le_max_right _ _)

/-- If selections nest more than a number of sets, one of them does. -/
theorem exists_lt_depthOf {selections : List Selection} {levels : Nat}
    (h : levels < depthOfAll selections) :
    ∃ selection ∈ selections, levels < depthOf selection := by
  induction selections with
  | nil => exact absurd h (Nat.not_lt_zero levels)
  | cons first rest ih =>
    rw [depthOfAll] at h
    have heither : levels < depthOf first ∨ levels < depthOfAll rest := by omega
    rcases heither with hfirst | hrest
    · exact ⟨first, List.mem_cons_self, hfirst⟩
    · obtain ⟨selection, hmem, hdepth⟩ := ih hrest
      exact ⟨selection, List.mem_cons_of_mem first hmem, hdepth⟩

/-! ## 2. Spelling what is written -/

/-- All the lexemes can be spelled. -/
def AllSpelled (lexemes : List Lexeme) : Prop :=
  ∀ lexeme ∈ lexemes, Spelled lexeme lexeme.spelling

theorem allSpelled_nil : AllSpelled [] := fun _ hmem => absurd hmem List.not_mem_nil

theorem AllSpelled.append {first second : List Lexeme} (hfirst : AllSpelled first)
    (hsecond : AllSpelled second) : AllSpelled (first ++ second) :=
  List.forall_mem_append.mpr ⟨hfirst, hsecond⟩

theorem AllSpelled.cons {lexeme : Lexeme} {rest : List Lexeme}
    (hlexeme : Spelled lexeme lexeme.spelling) (hrest : AllSpelled rest) :
    AllSpelled (lexeme :: rest) :=
  List.forall_mem_cons.mpr ⟨hlexeme, hrest⟩

theorem allSpelled_words {names : List Text} (h : ∀ name ∈ names, isName name = true) :
    AllSpelled (names.map .word) := by
  intro lexeme hmem
  obtain ⟨name, hname, rfl⟩ := List.mem_map.mp hmem
  exact .word (h name hname)

theorem allSpelled_aliasLexemes {alias? : Option Text} (h : ∀ a ∈ alias?, isName a = true) :
    AllSpelled (aliasLexemes alias?) := by
  cases alias? with
  | none => exact allSpelled_nil
  | some name => exact .cons (.word (h name rfl)) (.cons .colon allSpelled_nil)

theorem allSpelled_conditionLexemes {condition? : Option Text}
    (h : ∀ c ∈ condition?, isName c = true) : AllSpelled (conditionLexemes condition?) := by
  cases condition? with
  | none => exact allSpelled_nil
  | some name => exact .cons (.word (by decide)) (.cons (.word (h name rfl)) allSpelled_nil)

theorem allSpelled_setLexemes {selections : List Selection}
    (h : ∀ selection ∈ selections, AllSpelled (lexemesOf selection)) :
    AllSpelled (setLexemes selections) := by
  have hinside : AllSpelled (lexemesOfAll selections) := by
    intro lexeme hmem
    rw [lexemesOfAll_eq_flatMap] at hmem
    obtain ⟨selection, hselection, hlexeme⟩ := List.mem_flatMap.mp hmem
    exact h selection hselection lexeme hlexeme
  exact .cons .opening (hinside.append (.cons .closing allSpelled_nil))

/-- The lexemes of a plain selection can be spelled. -/
theorem IsPlain.allSpelled {selection : Selection} (h : IsPlain selection) :
    AllSpelled (lexemesOf selection) := by
  induction h with
  | field halias hname =>
    rw [lexemesOf]
    exact (allSpelled_aliasLexemes halias).append (.cons (.word hname) allSpelled_nil)
  | fieldSet halias hname _ ih =>
    rw [lexemesOf]
    exact (allSpelled_aliasLexemes halias).append (.cons (.word hname) (allSpelled_setLexemes ih))
  | spread hname _ =>
    rw [lexemesOf]
    exact .cons .dots (.cons (.word hname) allSpelled_nil)
  | inline hcondition _ ih =>
    rw [lexemesOf]
    exact .cons .dots ((allSpelled_conditionLexemes hcondition).append (allSpelled_setLexemes ih))

theorem DefinitionWritten.allSpelled {definition : Definition} {lexemes : List Lexeme}
    (h : DefinitionWritten definition lexemes) : AllSpelled lexemes := by
  cases h with
  | @operation kind name? selections hname hselections =>
    have hkeyword : isName kind.keyword = true := by cases kind <;> decide
    have hnames : ∀ name ∈ name?.toList, isName name = true :=
      fun name hmem => hname name (Option.mem_toList.mp hmem)
    exact .cons (.word hkeyword) ((allSpelled_words hnames).append
      (allSpelled_setLexemes fun selection hmem => (hselections selection hmem).allSpelled))
  | shorthand hselections =>
    exact allSpelled_setLexemes fun selection hmem => (hselections selection hmem).allSpelled
  | fragment hname _ hcondition hselections =>
    exact .cons (.word (by decide)) (.cons (.word hname) (.cons (.word (by decide))
      (.cons (.word hcondition)
        (allSpelled_setLexemes fun selection hmem => (hselections selection hmem).allSpelled))))

/-- **Every plain document can be written.** The lexemes of a written document have a layout. -/
theorem Written.layout_spaced {document : Document} {lexemes : List Lexeme}
    (h : Written document lexemes) : Layout lexemes (spaced lexemes) := by
  refine GraphQL.layout_spaced ?_
  induction h with
  | nil => exact allSpelled_nil
  | cons hfirst _ ih => exact hfirst.allSpelled.append ih

namespace Grammar

variable {α : Type}

/-! ## 3. Taking lexemes, and refusing them -/

/-- A reader takes exactly the tokens of the lexemes and gives the value, whatever token of an
allowed kind comes next. -/
def Takes (reader : Reader α) (lexemes : List Lexeme) (value : α) (follows : TokenKind → Prop) :
    Prop :=
  ∀ (tokens : List Token) (next : Token) (rest : List Token),
    tokens.map Token.lexeme = lexemes → follows next.kind →
    reader.run (tokens ++ next :: rest) = .ok (value, next :: rest)

/-- A reader refuses the tokens of the lexemes as nested too deeply. -/
def Refuses (reader : Reader α) (lexemes : List Lexeme) : Prop :=
  ∀ (tokens : List Token) (next : Token) (rest : List Token), tokens.map Token.lexeme = lexemes →
    ∃ token, reader.run (tokens ++ next :: rest) = .error (.problem .tooDeep token)

section Items

variable {β : Type} {item : Reader α} {close : TokenKind} {follows : TokenKind → Prop}
  {value : β → α} {written : β → List Lexeme}

/-- Items that start with a token of their own are no more than their lexemes. -/
theorem length_le_length_flatMap {items : List β}
    (hhead : ∀ i ∈ items, ∃ first more, written i = first :: more) :
    items.length ≤ (items.flatMap written).length := by
  induction items with
  | nil => exact Nat.zero_le _
  | cons i rest ih =>
    obtain ⟨first, more, hi⟩ := hhead i List.mem_cons_self
    have hrest := ih fun j hj => hhead j (List.mem_cons_of_mem i hj)
    rw [List.flatMap_cons, hi, List.length_append, List.length_cons, List.length_cons]
    omega

/-- If every item is taken, so are all of them up to the closing token. The next token after an item
is the first one of another item or the closing one, and both are allowed there. -/
theorem run_untilClose_of_takes {items : List β}
    (hitem : ∀ i ∈ items, Takes item (written i) (value i) follows)
    (hhead : ∀ i ∈ items, ∃ first more, written i = first :: more
      ∧ first.kind ≠ close ∧ follows first.kind)
    {last : Token} {rest after : List Token} (hlast : follows last.kind)
    (hclose : ∀ fuel, (untilClose close item (fuel + 1)).run (last :: rest) = .ok ([], after))
    {tokens : List Token} (htokens : tokens.map Token.lexeme = items.flatMap written)
    {fuel : Nat} (hfuel : items.length < fuel) :
    (untilClose close item fuel).run (tokens ++ last :: rest) = .ok (items.map value, after) := by
  -- each item costs one unit of fuel, so there is some left for the closing token
  induction items generalizing tokens fuel with
  | nil =>
    obtain ⟨fuel, rfl⟩ := Nat.exists_eq_succ_of_ne_zero (Nat.ne_of_gt hfuel)
    rw [List.flatMap_nil, List.map_eq_nil_iff] at htokens
    rw [htokens, List.nil_append, hclose, List.map_nil]
  | cons i items ih =>
    obtain ⟨fuel, rfl⟩ := Nat.exists_eq_succ_of_ne_zero (Nat.ne_of_gt (Nat.zero_lt_of_lt hfuel))
    rw [List.flatMap_cons, List.map_eq_append_iff] at htokens
    obtain ⟨own, others, rfl, hown, hothers⟩ := htokens
    -- the first token of the item shows that the closing token is not there yet
    obtain ⟨first, more, hi, hne, -⟩ := hhead i List.mem_cons_self
    obtain ⟨token, following, rfl, htoken, -⟩ := List.map_eq_cons_iff.mp (hown.trans hi)
    have hkind : token.kind ≠ close := by rw [← htoken] at hne; exact hne
    rw [List.append_assoc, List.cons_append, run_untilClose_of_ne item fuel hkind,
      ← List.cons_append]
    have hrest : (untilClose close item fuel).run (others ++ last :: rest)
        = .ok (items.map value, after) :=
      ih (fun j hj => hitem j (List.mem_cons_of_mem i hj))
        (fun j hj => hhead j (List.mem_cons_of_mem i hj)) hothers
        (Nat.lt_of_succ_lt_succ hfuel)
    have htake : item.run ((token :: following) ++ (others ++ last :: rest))
        = .ok (value i, others ++ last :: rest) := by
      -- what comes next is the closing token or the first token of the next item
      cases items with
      | nil =>
        rw [List.flatMap_nil, List.map_eq_nil_iff] at hothers
        rw [hothers]
        exact hitem i List.mem_cons_self _ last rest hown hlast
      | cons second items =>
        obtain ⟨start, more, hsecond, -, hfollows⟩ :=
          hhead second (List.mem_cons_of_mem i List.mem_cons_self)
        rw [List.flatMap_cons, hsecond, List.cons_append] at hothers
        obtain ⟨next, others, rfl, hnext, -⟩ := List.map_eq_cons_iff.mp hothers
        rw [← hnext] at hfollows
        exact hitem i List.mem_cons_self _ next _ hown hfollows
    rw [run_bind_of_ok htake, run_bind_of_ok hrest]
    rfl

/-- If one item is refused and those before it are taken, the items are refused. -/
theorem run_untilClose_of_refuses {items : List β}
    (hitem : ∀ i ∈ items, Takes item (written i) (value i) follows ∨ Refuses item (written i))
    (hhead : ∀ i ∈ items, ∃ first more, written i = first :: more
      ∧ first.kind ≠ close ∧ follows first.kind)
    (hrefuses : ∃ i ∈ items, Refuses item (written i))
    {last : Token} (rest : List Token)
    {tokens : List Token} (htokens : tokens.map Token.lexeme = items.flatMap written)
    {fuel : Nat} (hfuel : items.length < fuel) :
    ∃ token, (untilClose close item fuel).run (tokens ++ last :: rest)
      = .error (.problem .tooDeep token) := by
  induction items generalizing tokens fuel with
  | nil =>
    obtain ⟨i, hmem, -⟩ := hrefuses
    exact absurd hmem List.not_mem_nil
  | cons i items ih =>
    obtain ⟨fuel, rfl⟩ := Nat.exists_eq_succ_of_ne_zero (Nat.ne_of_gt (Nat.zero_lt_of_lt hfuel))
    rw [List.flatMap_cons, List.map_eq_append_iff] at htokens
    obtain ⟨own, others, rfl, hown, hothers⟩ := htokens
    obtain ⟨first, more, hi, hne, -⟩ := hhead i List.mem_cons_self
    obtain ⟨token, following, rfl, htoken, -⟩ := List.map_eq_cons_iff.mp (hown.trans hi)
    have hkind : token.kind ≠ close := by rw [← htoken] at hne; exact hne
    rw [List.append_assoc, List.cons_append, run_untilClose_of_ne item fuel hkind,
      ← List.cons_append]
    -- what follows the item has a first token, if only the closing one
    obtain ⟨next, behind, hbehind⟩ : ∃ next behind, others ++ last :: rest = next :: behind :=
      List.exists_cons_of_ne_nil (by simp)
    -- the first item that is refused ends the reading; those before it have to be taken
    by_cases hfirst : Refuses item (written i)
    · obtain ⟨refused, hfault⟩ := hfirst _ next behind hown
      rw [← hbehind] at hfault
      exact ⟨refused, run_bind_of_error hfault⟩
    · have htakes := (hitem i List.mem_cons_self).resolve_right hfirst
      obtain ⟨refused, hmem, hrefused⟩ := hrefuses
      have hmem : refused ∈ items := by
        rcases List.mem_cons.mp hmem with rfl | hmem
        · exact absurd hrefused hfirst
        · exact hmem
      obtain ⟨second, items, rfl⟩ := List.exists_cons_of_ne_nil (List.ne_nil_of_mem hmem)
      obtain ⟨culprit, hfault⟩ := ih
        (fun j hj => hitem j (List.mem_cons_of_mem i hj))
        (fun j hj => hhead j (List.mem_cons_of_mem i hj))
        ⟨refused, hmem, hrefused⟩ hothers (Nat.lt_of_succ_lt_succ hfuel)
      obtain ⟨start, more, hsecond, -, hfollows⟩ :=
        hhead second (List.mem_cons_of_mem i List.mem_cons_self)
      rw [List.flatMap_cons, hsecond, List.cons_append] at hothers
      obtain ⟨next, others, rfl, hnext, -⟩ := List.map_eq_cons_iff.mp hothers
      rw [← hnext] at hfollows
      have htake := htakes (token :: following) next (others ++ last :: rest) hown hfollows
      exact ⟨culprit, (run_bind_of_ok htake).trans (run_bind_of_error hfault)⟩

end Items

end Grammar

end FieldAudit.GraphQL
