import FieldAudit.Usage.Attribution

/-!
The discipline of the stack during a walk. A document is walked once more with its places told
(`visits`): every stop names the owners of the selection sets that are open around it, and what is
done there; what neither owns a selection set nor is one (an argument, a directive, a spread, a
definition of the type system) is passed by. The owners alone say which types the stack has to hold
(`contexts`). `Disciplined` says of one stop what has to hold there, `Orderly` says that it holds at
every stop of some visits and that the stack is as before behind them; one selection set keeps this
(`orderly_owned`) and so, by recursion on the selections, does a document (`orderly_visits`).
-/

set_option autoImplicit false

namespace FieldAudit.Usage

open GraphQL Attribution

/-! ## 1. The walk with its places -/

/-- What a selection set belongs to. -/
inductive Owner
  | operation (kind : OperationKind)
  | fragment (condition : Text)
  | inline (condition? : Option Text)
  | field (name : Text)
  deriving DecidableEq, Repr

/-- The event that an owner is met. -/
def Owner.event : Owner → Event
  | .operation kind => .operation kind
  | .fragment condition => .fragment condition
  | .inline condition? => .inline condition?
  | .field name => .field name

/-- What is done at a stop: an owner is met, its selection set is entered or left, or something else
is passed by. -/
inductive Action
  | meet (owner : Owner)
  | enter (owner : Owner)
  | leave (owner : Owner)
  | pass
  deriving DecidableEq, Repr

/-- A stop of a walk: the owners of the selection sets that are open, innermost first, and what is
done there. -/
structure Visit where
  around : List Owner
  action : Action
  deriving DecidableEq, Repr

/-- The event of a stop. What is passed by is none. -/
def Visit.event? (visit : Visit) : Option Event :=
  match visit.action with
  | .meet owner => some owner.event
  | .enter _ => some .enter
  | .leave _ => some .leave
  | .pass => none

/-- Stops at which something is passed by. -/
def passes (around : List Owner) (count : Nat) : List Visit := List.replicate count ⟨around, .pass⟩

/-- An owner is met, the other things that it has are passed by, and its selection set is entered,
walked and left. -/
def owned (around : List Owner) (owner : Owner) (passed : Nat) (inside : List Visit) : List Visit :=
  ⟨around, .meet owner⟩ :: (passes around passed
    ++ ⟨around, .enter owner⟩ :: (inside ++ [⟨owner :: around, .leave owner⟩]))

mutual

/-- The stops at one selection. A spread is passed by. -/
def visitsOfSelection (around : List Owner) : Selection → List Visit
  | .field _ name arguments directives none =>
    ⟨around, .meet (.field name)⟩ :: passes around (arguments.length + directives.length)
  | .field _ name arguments directives (some selections) =>
    owned around (.field name) (arguments.length + directives.length)
      (visitsOfSelections (.field name :: around) selections)
  | .spread _ directives => passes around (1 + directives.length)
  | .inline condition? directives selections =>
    owned around (.inline condition?) directives.length
      (visitsOfSelections (.inline condition? :: around) selections)

/-- The stops at selections, one after the other. -/
def visitsOfSelections (around : List Owner) : List Selection → List Visit
  | [] => []
  | selection :: selections =>
    visitsOfSelection around selection ++ visitsOfSelections around selections

end

/-- The stops at a definition. A definition of the type system is passed by. -/
def visitsOfDefinition : Definition → List Visit
  | .operation op =>
    owned [] (.operation op.kind) (op.inputs.length + op.directives.length)
      (visitsOfSelections [.operation op.kind] op.selections)
  | .fragment f =>
    owned [] (.fragment f.condition) f.directives.length
      (visitsOfSelections [.fragment f.condition] f.selections)
  | _ => passes [] 1

/-- The stops at a document. -/
def visits (document : Document) : List Visit := document.flatMap visitsOfDefinition

/-- The events of stops. -/
def eventsOf (stops : List Visit) : List Event := stops.filterMap Visit.event?

@[simp] theorem eventsOf_nil : eventsOf [] = [] := rfl

theorem eventsOf_append (first second : List Visit) :
    eventsOf (first ++ second) = eventsOf first ++ eventsOf second :=
  List.filterMap_append

@[simp] theorem eventsOf_passes (around : List Owner) (count : Nat) :
    eventsOf (passes around count) = [] := by
  unfold eventsOf passes
  rw [List.filterMap_replicate]
  rfl

theorem eventsOf_owned (around : List Owner) (owner : Owner) (passed : Nat) (inside : List Visit) :
    eventsOf (owned around owner passed inside)
      = owner.event :: .enter :: (eventsOf inside ++ [.leave]) := by
  have hmeet : ∀ rest, eventsOf (⟨around, .meet owner⟩ :: rest) = owner.event :: eventsOf rest :=
    fun _ => rfl
  have henter : ∀ rest, eventsOf (⟨around, .enter owner⟩ :: rest) = .enter :: eventsOf rest :=
    fun _ => rfl
  have hleave : eventsOf [⟨owner :: around, .leave owner⟩] = [.leave] := rfl
  rw [owned, hmeet, eventsOf_append, eventsOf_passes, List.nil_append, henter, eventsOf_append,
    hleave]

mutual

theorem eventsOf_visitsOfSelection (around : List Owner) :
    ∀ selection : Selection, eventsOf (visitsOfSelection around selection) = walkSelection selection
  | .field _ name arguments directives none => by
    rw [visitsOfSelection, walkSelection]
    have hpasses := eventsOf_passes around (arguments.length + directives.length)
    exact congrArg (Event.field name :: ·) hpasses
  | .field _ name _ _ (some selections) => by
    rw [visitsOfSelection, eventsOf_owned, eventsOf_visitsOfSelections, walkSelection]
    rfl
  | .spread _ _ => by
    rw [visitsOfSelection, eventsOf_passes, walkSelection]
  | .inline _ _ selections => by
    rw [visitsOfSelection, eventsOf_owned, eventsOf_visitsOfSelections, walkSelection]
    rfl

theorem eventsOf_visitsOfSelections (around : List Owner) :
    ∀ selections : List Selection,
      eventsOf (visitsOfSelections around selections) = walkSelections selections
  | [] => rfl
  | selection :: selections => by
    rw [visitsOfSelections, eventsOf_append, eventsOf_visitsOfSelection,
      eventsOf_visitsOfSelections, walkSelections]

end

theorem eventsOf_visitsOfDefinition (definition : Definition) :
    eventsOf (visitsOfDefinition definition) = walkDefinition definition := by
  cases definition with
  | operation op =>
    rw [visitsOfDefinition, eventsOf_owned, eventsOf_visitsOfSelections]
    rfl
  | fragment f =>
    rw [visitsOfDefinition, eventsOf_owned, eventsOf_visitsOfSelections]
    rfl
  | schema | type | directive | directiveExtension => rfl

/-- The stops at a document are its walk, with the places told. -/
theorem eventsOf_visits (document : Document) : eventsOf (visits document) = walk document := by
  unfold visits walk
  induction document with
  | nil => rfl
  | cons definition rest ih =>
    rw [List.flatMap_cons, List.flatMap_cons, eventsOf_append, eventsOf_visitsOfDefinition, ih]

/-! ## 2. What the stack has to hold -/

/-- The type of the selection set of an owner, given the types of the selection sets around the
owner: that of an operation is its root type, that of a fragment or of an inline fragment with a
condition the type that it names, that of another inline fragment the one around it, and that of a
field its type in the one around it. -/
def Owner.context (schema : Schema) (around : List Context) : Owner → Context
  | .operation kind => schema.root? kind
  | .fragment condition => known schema condition
  | .inline (some condition) => known schema condition
  | .inline none => around.head?.join
  | .field name =>
    (around.head?.join.filter schema.isComposite).bind fun parent => schema.fieldType? parent name

/-- The types of selection sets one inside the other, innermost first. They depend on nothing but
their owners. -/
def contexts (schema : Schema) : List Owner → List Context
  | [] => []
  | owner :: around => owner.context schema (contexts schema around) :: contexts schema around

theorem length_contexts (schema : Schema) (owners : List Owner) :
    (contexts schema owners).length = owners.length := by
  induction owners with
  | nil => rfl
  | cons owner around ih => rw [contexts, List.length_cons, List.length_cons, ih]

section

variable (schema : Schema) (site : Site) (usages : UsageMap)

/-- The state of the walk behind some of its stops. -/
def stateBehind (stops : List Visit) : Attribution :=
  (eventsOf stops).foldl (step schema site) (.start usages)

/-- What holds at a stop: the stack holds the types of the selection sets that are open, one for
each. When a selection set is entered, its owner was met just before, apart from what is passed by,
and the type that waits is that of the owner. When one is left, the stack is not empty. -/
structure Disciplined (before : List Visit) (visit : Visit) : Prop where
  stack : (stateBehind schema site usages before).stack = contexts schema visit.around
  entered : ∀ owner, visit.action = .enter owner →
    (stateBehind schema site usages before).pending
      = owner.context schema (contexts schema visit.around)
      ∧ ∃ earlier passed, before
        = earlier ++ ⟨visit.around, .meet owner⟩ :: passes visit.around passed
  left : ∀ owner, visit.action = .leave owner →
    (stateBehind schema site usages before).stack ≠ [] ∧ ∃ around, visit.around = owner :: around

/-- The discipline holds at every one of some stops. -/
def Along (before : List Visit) : List Visit → Prop
  | [] => True
  | visit :: rest => Disciplined schema site usages before visit ∧ Along (before ++ [visit]) rest

/-- Stops at which the discipline holds wherever the stack holds the types of the owners around
them, and behind which the stack is as it was. -/
def Orderly (around : List Owner) (stops : List Visit) : Prop :=
  ∀ before, (stateBehind schema site usages before).stack = contexts schema around →
    Along schema site usages before stops
      ∧ (stateBehind schema site usages (before ++ stops)).stack = contexts schema around

end

variable {schema : Schema} {site : Site} {usages : UsageMap}

theorem stateBehind_append (before stops : List Visit) :
    stateBehind schema site usages (before ++ stops)
      = (eventsOf stops).foldl (step schema site) (stateBehind schema site usages before) := by
  rw [stateBehind, eventsOf_append, List.foldl_append]
  rfl

theorem along_append {before first second : List Visit} :
    Along schema site usages before (first ++ second)
      ↔ Along schema site usages before first
        ∧ Along schema site usages (before ++ first) second := by
  induction first generalizing before with
  | nil => simp [Along]
  | cons visit rest ih =>
    rw [List.cons_append, Along, Along, ih, and_assoc, List.append_assoc, List.singleton_append]

/-- The discipline at one of the stops. -/
theorem Along.disciplined {start before after : List Visit} {visit : Visit}
    (h : Along schema site usages start (before ++ visit :: after)) :
    Disciplined schema site usages (start ++ before) visit := by
  rw [along_append, Along] at h
  exact h.2.1

/-! ## 3. One step and one selection set -/

/-- An owner that is met leaves the stack as it is, and its type waits. -/
theorem step_event (state : Attribution) (owner : Owner) :
    (state.step schema site owner.event).stack = state.stack
      ∧ (state.step schema site owner.event).pending = owner.context schema state.stack := by
  cases owner with
  | operation kind => exact ⟨rfl, rfl⟩
  | fragment condition => exact ⟨rfl, rfl⟩
  | inline condition? => cases condition? <;> exact ⟨rfl, rfl⟩
  | field name =>
    simp only [Owner.event, step, Owner.context, parent?, current]
    cases state.stack.head?.join.filter schema.isComposite <;> exact ⟨rfl, rfl⟩

theorem stateBehind_meet (before : List Visit) (around : List Owner) (owner : Owner) :
    stateBehind schema site usages (before ++ [⟨around, .meet owner⟩])
      = (stateBehind schema site usages before).step schema site owner.event :=
  stateBehind_append before _

theorem stateBehind_enter (before : List Visit) (around : List Owner) (owner : Owner) :
    stateBehind schema site usages (before ++ [⟨around, .enter owner⟩])
      = (stateBehind schema site usages before).step schema site .enter :=
  stateBehind_append before _

theorem stateBehind_leave (before : List Visit) (around : List Owner) (owner : Owner) :
    stateBehind schema site usages (before ++ [⟨around, .leave owner⟩])
      = (stateBehind schema site usages before).step schema site .leave :=
  stateBehind_append before _

theorem stateBehind_passes (before : List Visit) (around : List Owner) (count : Nat) :
    stateBehind schema site usages (before ++ passes around count)
      = stateBehind schema site usages before := by
  rw [stateBehind_append, eventsOf_passes, List.foldl_nil]

theorem orderly_nil (around : List Owner) : Orderly schema site usages around [] := by
  intro before hstack
  rw [List.append_nil]
  exact ⟨trivial, hstack⟩

theorem Orderly.append {around : List Owner} {first second : List Visit}
    (hfirst : Orderly schema site usages around first)
    (hsecond : Orderly schema site usages around second) :
    Orderly schema site usages around (first ++ second) := by
  intro before hstack
  obtain ⟨halong, hstack⟩ := hfirst before hstack
  obtain ⟨halong', hstack⟩ := hsecond (before ++ first) hstack
  rw [along_append, ← List.append_assoc]
  exact ⟨⟨halong, halong'⟩, hstack⟩

/-- At a stop that neither enters nor leaves a selection set, the stack is all there is to say. -/
theorem disciplined_of_stack {before : List Visit} {visit : Visit}
    (hstack : (stateBehind schema site usages before).stack = contexts schema visit.around)
    (henter : ∀ owner, visit.action ≠ .enter owner)
    (hleave : ∀ owner, visit.action ≠ .leave owner) :
    Disciplined schema site usages before visit where
  stack := hstack
  entered := fun owner howner => absurd howner (henter owner)
  left := fun owner howner => absurd howner (hleave owner)

theorem orderly_meet (around : List Owner) (owner : Owner) :
    Orderly schema site usages around [⟨around, .meet owner⟩] := by
  intro before hstack
  refine ⟨⟨disciplined_of_stack hstack (by simp) (by simp), trivial⟩, ?_⟩
  rw [stateBehind_meet, (step_event _ owner).1]
  exact hstack

theorem orderly_passes (around : List Owner) (count : Nat) :
    Orderly schema site usages around (passes around count) := by
  induction count with
  | zero => exact orderly_nil around
  | succ count ih =>
    have hone : Orderly schema site usages around [⟨around, .pass⟩] := by
      intro before hstack
      refine ⟨⟨disciplined_of_stack hstack (by simp) (by simp), trivial⟩, ?_⟩
      exact hstack ▸ congrArg _ (stateBehind_passes before around 1)
    exact hone.append ih

/-- **One selection set keeps the discipline**, if what stands in it does. Its owner has written the
type that waits when it is entered, and what is passed by in between has not changed it; entering
puts that type on the stack, and leaving takes it off again, whatever waits by then. -/
theorem orderly_owned {around : List Owner} {owner : Owner} {inside : List Visit}
    (hinside : Orderly schema site usages (owner :: around) inside) (passed : Nat) :
    Orderly schema site usages around (owned around owner passed inside) := by
  intro before hstack
  have hmeet := orderly_meet around owner before hstack
  -- the stops up to the one that enters the selection set
  let lead := before ++ [⟨around, .meet owner⟩] ++ passes around passed
  obtain ⟨hpasses, hlead⟩ := orderly_passes around passed _ hmeet.2
  have hpending : (stateBehind schema site usages lead).pending
      = owner.context schema (contexts schema around) := by
    rw [stateBehind_passes, stateBehind_meet, (step_event _ owner).2, hstack]
  have henter : Disciplined schema site usages lead ⟨around, .enter owner⟩ := by
    refine ⟨hlead, ?_, by simp⟩
    rintro _ ⟨⟩
    exact ⟨hpending, before, passed, by simp [lead]⟩
  have hopen : (stateBehind schema site usages (lead ++ [⟨around, .enter owner⟩])).stack
      = contexts schema (owner :: around) := by
    rw [stateBehind_enter, contexts, ← hpending, ← hlead]
    rfl
  obtain ⟨halong, hclosing⟩ := hinside _ hopen
  have hleave : Disciplined schema site usages (lead ++ [⟨around, .enter owner⟩] ++ inside)
      ⟨owner :: around, .leave owner⟩ := by
    refine ⟨hclosing, by simp, ?_⟩
    rintro _ ⟨⟩
    refine ⟨?_, around, rfl⟩
    rw [hclosing, contexts]
    exact List.cons_ne_nil _ _
  have hsplit : owned around owner passed inside
      = [⟨around, .meet owner⟩] ++ (passes around passed
        ++ ([⟨around, .enter owner⟩] ++ (inside ++ [⟨owner :: around, .leave owner⟩]))) := rfl
  constructor
  · rw [hsplit, along_append, along_append, along_append, along_append]
    exact ⟨hmeet.1, hpasses, ⟨henter, trivial⟩, halong, hleave, trivial⟩
  · rw [hsplit, ← List.append_assoc, ← List.append_assoc, ← List.append_assoc, ← List.append_assoc,
      stateBehind_leave]
    change List.tail _ = _
    rw [hclosing, contexts, List.tail_cons]

/-! ## 4. Documents -/

mutual

theorem orderly_visitsOfSelection (around : List Owner) :
    ∀ selection : Selection, Orderly schema site usages around (visitsOfSelection around selection)
  | .field _ name _ _ none => by
    rw [visitsOfSelection]
    exact (orderly_meet around (.field name)).append (orderly_passes around _)
  | .field _ name _ _ (some selections) => by
    rw [visitsOfSelection]
    exact orderly_owned (orderly_visitsOfSelections (.field name :: around) selections) _
  | .spread _ _ => by
    rw [visitsOfSelection]
    exact orderly_passes around _
  | .inline condition? _ selections => by
    rw [visitsOfSelection]
    exact orderly_owned (orderly_visitsOfSelections (.inline condition? :: around) selections) _

theorem orderly_visitsOfSelections (around : List Owner) :
    ∀ selections : List Selection,
      Orderly schema site usages around (visitsOfSelections around selections)
  | [] => by
    rw [visitsOfSelections]
    exact orderly_nil around
  | selection :: selections => by
    rw [visitsOfSelections]
    exact (orderly_visitsOfSelection around selection).append
      (orderly_visitsOfSelections around selections)

end

theorem orderly_visitsOfDefinition (definition : Definition) :
    Orderly schema site usages [] (visitsOfDefinition definition) := by
  cases definition with
  | operation op =>
    exact orderly_owned (orderly_visitsOfSelections [.operation op.kind] op.selections) _
  | fragment f =>
    exact orderly_owned (orderly_visitsOfSelections [.fragment f.condition] f.selections) _
  | schema | type | directive | directiveExtension => exact orderly_passes [] 1

theorem orderly_visits (document : Document) : Orderly schema site usages [] (visits document) := by
  unfold visits
  induction document with
  | nil => exact orderly_nil []
  | cons definition rest ih =>
    rw [List.flatMap_cons]
    exact (orderly_visitsOfDefinition definition).append ih

/-! ## 5. Entering and leaving -/

/-- Every selection set that is entered is left again, and none is left that was not entered. -/
inductive Closed : List Event → Prop
  | nil : Closed []
  | other {event : Event} {rest : List Event} (henter : event ≠ .enter) (hleave : event ≠ .leave)
      (hrest : Closed rest) : Closed (event :: rest)
  | set {inside rest : List Event} (hinside : Closed inside) (hrest : Closed rest) :
      Closed (.enter :: (inside ++ .leave :: rest))

theorem Closed.append {first second : List Event} (hfirst : Closed first)
    (hsecond : Closed second) :
    Closed (first ++ second) := by
  induction hfirst with
  | nil => exact hsecond
  | other henter hleave _ ih => exact .other henter hleave ih
  | set hinside _ _ ih =>
    rw [List.cons_append, List.append_assoc, List.cons_append]
    exact .set hinside ih

/-- Any event but entering and leaving a selection set leaves the stack as it is. -/
theorem step_stack_of_ne {event : Event} (henter : event ≠ .enter) (hleave : event ≠ .leave)
    (state : Attribution) :
    (state.step schema site event).stack = state.stack := by
  cases event with
  | operation kind => exact (step_event state (.operation kind)).1
  | fragment condition => exact (step_event state (.fragment condition)).1
  | inline condition? => exact (step_event state (.inline condition?)).1
  | field name => exact (step_event state (.field name)).1
  | enter => exact absurd rfl henter
  | leave => exact absurd rfl hleave

/-- Behind closed events the stack is as it was before them, whatever waits. -/
theorem Closed.stack_foldl {events : List Event} (h : Closed events) (state : Attribution) :
    (events.foldl (step schema site) state).stack = state.stack := by
  induction h generalizing state with
  | nil => rfl
  | other henter hleave _ ih =>
    rw [List.foldl_cons, ih]
    exact step_stack_of_ne henter hleave state
  | set _ _ ihinside ihrest =>
    rw [List.foldl_cons, List.foldl_append, List.foldl_cons, ihrest]
    -- what leaving takes off the stack is what entering has put there
    change List.tail _ = _
    rw [ihinside]
    rfl

theorem closed_walkSet {selections : List Selection} (h : Closed (walkSelections selections)) :
    Closed (walkSet selections) :=
  .set h .nil

mutual

theorem closed_walkSelection : ∀ selection : Selection, Closed (walkSelection selection)
  | .field _ name _ _ none => by
    rw [walkSelection]
    exact .other (by simp) (by simp) .nil
  | .field _ name _ _ (some selections) => by
    rw [walkSelection]
    exact .other (by simp) (by simp) (closed_walkSet (closed_walkSelections selections))
  | .spread _ _ => by
    rw [walkSelection]
    exact .nil
  | .inline _ _ selections => by
    rw [walkSelection]
    exact .other (by simp) (by simp) (closed_walkSet (closed_walkSelections selections))

theorem closed_walkSelections : ∀ selections : List Selection, Closed (walkSelections selections)
  | [] => by
    rw [walkSelections]
    exact .nil
  | selection :: selections => by
    rw [walkSelections]
    exact (closed_walkSelection selection).append (closed_walkSelections selections)

end

theorem closed_walk (document : Document) : Closed (walk document) := by
  unfold walk
  induction document with
  | nil => exact .nil
  | cons definition rest ih =>
    rw [List.flatMap_cons]
    refine Closed.append ?_ ih
    cases definition with
    | operation op =>
      exact .other (by simp) (by simp) (closed_walkSet (closed_walkSelections op.selections))
    | fragment f =>
      exact .other (by simp) (by simp) (closed_walkSet (closed_walkSelections f.selections))
    | schema | type | directive | directiveExtension => exact .nil

/-! ## 6. The whole walk -/

/-- **The stack keeps its discipline.** The stops are the walk of the document with its places told,
and recording the document is that walk. At every stop the stack holds the types of the selection
sets that are open around it, one for each, as their owners say. When a selection set is entered,
the type that waits is that of its owner, which was met just before; when one is left, the stack is
not empty. Every selection set that is entered is left, and leaving it gives back the stack from
before it was entered. Between two definitions and at the end the stack is empty. -/
theorem walk_disciplined (schema : Schema) (document : Document) (site : Site) (usages : UsageMap) :
    eventsOf (visits document) = walk document
      ∧ recordAll schema document site usages
        = ((stateBehind schema site usages (visits document)).usages,
          (stateBehind schema site usages (visits document)).recorded)
      ∧ (∀ before visit after, visits document = before ++ visit :: after →
        Disciplined schema site usages before visit
          ∧ (stateBehind schema site usages before).stack.length = visit.around.length)
      ∧ Closed (walk document)
      ∧ (∀ before inside after, walk document = before ++ .enter :: (inside ++ .leave :: after) →
        Closed inside →
        let outside := before.foldl (step schema site) (.start usages)
        let closing := inside.foldl (step schema site) (outside.step schema site .enter)
        closing.stack = outside.pending :: outside.stack
          ∧ (closing.step schema site .leave).stack = outside.stack)
      ∧ ∀ first second, document = first ++ second →
        visits document = visits first ++ visits second
          ∧ (stateBehind schema site usages (visits first)).stack = [] := by
  refine ⟨eventsOf_visits document, ?_, ?_, closed_walk document, ?_, ?_⟩
  · unfold recordAll stateBehind
    rw [eventsOf_visits]
  · intro before visit after hsplit
    obtain ⟨halong, -⟩ := @orderly_visits schema site usages document [] rfl
    rw [hsplit] at halong
    have hdisciplined := halong.disciplined
    rw [List.nil_append] at hdisciplined
    refine ⟨hdisciplined, ?_⟩
    rw [hdisciplined.stack, length_contexts]
  · intro before inside after _ hinside outside closing
    have hclosing : closing.stack = outside.pending :: outside.stack := hinside.stack_foldl _
    refine ⟨hclosing, ?_⟩
    change List.tail closing.stack = _
    rw [hclosing, List.tail_cons]
  · intro first second hdocument
    rw [hdocument]
    refine ⟨List.flatMap_append, ?_⟩
    exact (orderly_visits first [] rfl).2

/-- A query that selects through a field, and then selects again in an inline fragment that names no
type. -/
def reentrantQuery : Document := [.operation {
  description := none
  kind := .query
  name? := none
  inputs := []
  directives := []
  selections := [
    .field none "node" [] [] (some [.field none "id" [] [] none]),
    .inline none [⟨"live", []⟩] [.field none "node" [] [] none]] }]

/-- A schema for it. -/
def reentrantSchema : Schema where
  types := [("Query", .object [("node", .named "Node")]), ("Node", .object [("id", .named "ID")])]
  query? := some "Query"
  mutation? := none
  subscription? := none

/-- When the selection set of the inline fragment is entered, the type of the query waits and not
one that the field before has left, although a directive was passed by since the fragment was
met. -/
theorem walk_disciplined_reentrantQuery :
    visits reentrantQuery
        = (visits reentrantQuery).take 8
          ++ ⟨[.operation .query], .enter (.inline none)⟩ :: (visits reentrantQuery).drop 9
      ∧ (stateBehind reentrantSchema ⟨"a.ts", 1⟩ [] ((visits reentrantQuery).take 8)).pending
        = some "Query"
      ∧ (stateBehind reentrantSchema ⟨"a.ts", 1⟩ [] ((visits reentrantQuery).take 8)).stack
        = [some ("Query" : Text)] := by
  have hsplit : visits reentrantQuery
      = (visits reentrantQuery).take 8
        ++ ⟨[.operation .query], .enter (.inline none)⟩ :: (visits reentrantQuery).drop 9 := by
          decide
  obtain ⟨-, -, hstops, -⟩ := walk_disciplined reentrantSchema reentrantQuery ⟨"a.ts", 1⟩ []
  obtain ⟨hdisciplined, -⟩ := hstops _ _ _ hsplit
  exact ⟨hsplit, (hdisciplined.entered _ rfl).1, hdisciplined.stack⟩

end FieldAudit.Usage
