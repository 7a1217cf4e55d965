import FieldAudit.Proofs.GraphQL.Layout
import FieldAudit.Proofs.Introspection.Built
import FieldAudit.Proofs.Json.Part

/-!
Blemishes of the data that an endpoint gives. Most defects of a description are of kinds or missing
keys. The others are of names, of texts that are no GraphQL values, and of values that are no
objects where a member is asked for. A step of building is blamed if every such defect of it goes
back to a blemish that stands somewhere in the data. Inside a facet of a type a missing object is a
defect of kinds, so only names and texts count there.
-/

set_option autoImplicit false

namespace FieldAudit.Introspection

open Json (Value)
open Json.Value (IsPart)

variable {α β : Type}

/-! ## 1. Blemishes -/

/-- An object stands in a list that is a member of an object of the data, under a key. -/
def Listed (data : Value) (key : Text) (members : Entries Value) : Prop :=
  ∃ owner items, IsPart (.object owner) data ∧ Value.member key owner = .array items
    ∧ .object members ∈ items

/-- An object is listed among the arguments of a directive. -/
def ListedForDirective (data : Value) (members : Entries Value) : Prop :=
  ∃ directive items, Listed data "directives" directive
    ∧ Value.member "args" directive = .array items
    ∧ .object members ∈ items

/-- The keys under which things with names are listed. -/
def namedLists : List Text := ["types", "fields", "args", "inputFields", "directives"]

/-- The keys of the root types. -/
def rootKeys : List Text := ["queryType", "mutationType", "subscriptionType"]

/-- A reference to a type that stands outside the facets of types: to a root type, or to the type of
an argument of a directive. -/
inductive Referenced (data reference : Value) : Prop
  | root {members : Entries Value} {key : Text} (hdescription : description data = .ok members)
      (hkey : key ∈ rootKeys) (hreference : Value.member key members = reference)
      (hgiven : reference.isNull = false)
  | argument {members : Entries Value} (hlisted : ListedForDirective data members)
      (htype : Entries.get? "type" members = some reference)

/-- The data hold something that breaks the rules of GraphQL, or something else than an object where
a member is asked for. -/
inductive Blemished (data : Value) : Prop
  /-- The name of a type, a field, an argument, an input field or a directive is no name. -/
  | name {key name : Text} {members : Entries Value} (hkey : key ∈ namedLists)
      (hlisted : Listed data key members)
      (hname : Entries.get? "name" members = some (.string name))
      (hbad : GraphQL.isName name = false)
  /-- The default value of an argument or an input field is a text that writes no constant value. -/
  | default {key source : Text} {members : Entries Value}
      (hkey : key = "args" ∨ key = "inputFields") (hlisted : Listed data key members)
      (hdefault : Value.member "defaultValue" members = .string source)
      (hbad : ∀ literal, GraphQL.parseConstant source ≠ .ok literal)
  /-- The default value of an argument of a directive is a list whose items are asked for what they
  have not got. -/
  | items {members : Entries Value} {items : List Value} {problem : ItemProblem}
      (hlisted : ListedForDirective data members)
      (hdefault : Value.member "defaultValue" members = .array items)
      (hbad : ListedDefault.check items = .error problem) (hlack : problem.isLack = true)
  /-- A reference that stands outside the facets of types is no object. -/
  | reference {reference : Value} (hreference : Referenced data reference)
      (hbad : reference.members? = none)
  /-- What a wrapper in such a reference wraps is given and no object. -/
  | wrapped {reference : Value} {members : Entries Value} (hreference : Referenced data reference)
      (hpart : IsPart (.object members) reference)
      (hgiven : (Value.member "ofType" members).isGiven = true)
      (hbad : (Value.member "ofType" members).members? = none)
  /-- A directive is no object. -/
  | directive {members : Entries Value} {items : List Value} {item : Value}
      (hdescription : description data = .ok members)
      (hitems : (Value.member "directives" members).itemsOf = .ok items) (hitem : item ∈ items)
      (hbad : item.members? = none)

theorem Listed.isPart {data : Value} {key : Text} {members : Entries Value}
    (h : Listed data key members) : IsPart (.object members) data := by
  obtain ⟨owner, items, hpart, hlisted, hmember⟩ := h
  have hlist : (key, Value.array items) ∈ owner := Value.mem_of_member_eq hlisted rfl
  exact ((IsPart.item hmember .self).trans (.member hlist .self)).trans hpart

/-- If there are objects among the items of a value, it is a list: the items of a text and of an
object are texts. -/
theorem array_of_itemsOf {value : Value} {items : List Value} (hitems : value.itemsOf = .ok items)
    {members : Entries Value} (hmember : .object members ∈ items) : value = .array items := by
  cases value with
  | array list =>
    rw [Value.itemsOf] at hitems
    rw [Except.ok.inj hitems]
  | string t =>
    rw [Value.itemsOf] at hitems
    rw [← Except.ok.inj hitems] at hmember
    simp at hmember
  | object inner =>
    rw [Value.itemsOf] at hitems
    rw [← Except.ok.inj hitems] at hmember
    simp at hmember
  | null | bool | int | float => simp [Value.itemsOf] at hitems

theorem listed_of_itemsOf {data : Value} {key : Text} {owner : Entries Value} {items : List Value}
    (howner : IsPart (.object owner) data) (hitems : (Value.member key owner).itemsOf = .ok items)
    {members : Entries Value} (hmember : .object members ∈ items) : Listed data key members :=
  ⟨owner, items, howner, array_of_itemsOf hitems hmember, hmember⟩

/-- A name that stands in an object under one of the keys of named things. -/
def NamedIn (data : Value) (name : Value) : Prop :=
  ∃ key ∈ namedLists, ∃ members, Listed data key members ∧ Entries.get? "name" members = some name

/-! ## 2. Blame -/

/-- Whether defects of a family count: those of names and of texts always do, those of missing
objects where it is said. -/
def Counts (attributes : Bool) (family : Family) : Prop :=
  family = .name ∨ family = .syntaxError ∨ (attributes = true ∧ family = .attribute)

/-- A defect that counts goes back to a blemish. -/
def Blamed (attributes : Bool) (data : Value) (result : Build α) : Prop :=
  ∀ defect, result = .error defect → Counts attributes defect.family → Blemished data

section Blamed

variable {attributes : Bool} {data : Value}

theorem blamed_ok (value : α) : Blamed attributes data (.ok value : Build α) := by
  intro defect herror
  simp at herror

/-- A defect of kinds or of keys does not count. -/
theorem blamed_error {defect : Defect} (h : defect.family = .type ∨ defect.family = .key) :
    Blamed attributes data (.error defect : Build α) := by
  intro other herror hcounts
  rw [← Except.error.inj herror] at hcounts
  rcases h with hfamily | hfamily <;> simp [Counts, hfamily] at hcounts

theorem Blemished.blamed (h : Blemished data) (result : Build α) : Blamed attributes data result :=
  fun _ _ _ => h

theorem Blamed.bind {first : Build α} {next : α → Build β} (hfirst : Blamed attributes data first)
    (hnext : ∀ value, first = .ok value → Blamed attributes data (next value)) :
    Blamed attributes data (first >>= next) := by
  intro defect herror
  rcases (bind_eq_error_iff first next defect).mp herror with hdefect | ⟨value, hvalue, hdefect⟩
  · exact hfirst defect hdefect
  · exact hnext value hvalue defect hdefect

theorem Blamed.map {result : Build α} (h : Blamed attributes data result) (f : α → β) :
    Blamed attributes data (result.map f) := by
  intro defect herror
  cases result with
  | ok value => simp [Except.map] at herror
  | error cause =>
    have hcause : cause = defect := Except.error.inj herror
    exact h defect (congrArg Except.error hcause)

theorem blamed_foldlM {step : β → α → Build β} {xs : List α}
    (h : ∀ state, ∀ x ∈ xs, Blamed attributes data (step state x)) (state : β) :
    Blamed attributes data (xs.foldlM step state) := by
  induction xs generalizing state with
  | nil => exact blamed_ok state
  | cons x xs ih =>
    rw [List.foldlM_cons]
    refine (h state x List.mem_cons_self).bind fun next _ => ?_
    exact ih (fun other y hy => h other y (List.mem_cons_of_mem x hy)) next

theorem blamed_mapM {f : α → Build β} {xs : List α}
    (h : ∀ x ∈ xs, Blamed attributes data (f x)) : Blamed attributes data (xs.mapM f) := by
  induction xs with
  | nil => exact blamed_ok []
  | cons x xs ih =>
    rw [List.mapM_cons]
    refine (h x List.mem_cons_self).bind fun value _ => ?_
    refine (ih fun y hy => h y (List.mem_cons_of_mem x hy)).bind fun values _ => ?_
    exact blamed_ok _

theorem blamed_forM {f : α → Build Unit} {xs : List α}
    (h : ∀ x ∈ xs, Blamed attributes data (f x)) : Blamed attributes data (xs.forM f) := by
  induction xs with
  | nil => exact blamed_ok ()
  | cons x xs ih =>
    change Blamed attributes data (f x >>= fun _ => xs.forM f)
    refine (h x List.mem_cons_self).bind fun _ _ => ?_
    exact ih fun y hy => h y (List.mem_cons_of_mem x hy)

/-- A mismatch is a defect of kinds. -/
theorem blamed_matching (result : Except Json.Mismatch α) :
    Blamed attributes data (matching result) := by
  cases result with
  | ok value => exact blamed_ok value
  | error mismatch => exact blamed_error (.inl rfl)

/-- Inside a facet only names and texts count, and they count outside it. -/
theorem blamed_facet {build : Build α} (h : Blamed false data build) (type : Text) (part : Facet) :
    Blamed attributes data (facet type part build) := by
  intro defect herror hcounts
  obtain ⟨cause, hcause, rfl⟩ := (mapError_eq_error_iff _ _ _).mp herror
  refine h cause hcause ?_
  cases hfamily : cause.family with
  | name => exact .inl rfl
  | syntaxError => exact .inr (.inl rfl)
  | _ => simp [Counts, Defect.family, hfamily] at hcounts

/-! ## 3. Members, names and lists of named things -/

theorem blamed_require (key : Text) (members : Entries Value) :
    Blamed attributes data (require key members) := by
  rw [require]
  cases Entries.get? key members with
  | some value => exact blamed_ok value
  | none => exact blamed_error (.inr rfl)

theorem blamed_requirePart (words : String) (key : Text) (members : Entries Value) :
    Blamed attributes data (requirePart words key members) := by
  unfold requirePart
  dsimp only
  split
  · exact blamed_error (.inl rfl)
  · exact blamed_ok _

/-- Only a text that is no name makes a defect of names. -/
theorem blamed_checkName {name : Value} (h : NamedIn data name) :
    Blamed attributes data (checkName name) := by
  obtain ⟨key, hkey, members, hlisted, hname⟩ := h
  cases name with
  | string text =>
    by_cases hgood : GraphQL.isName text = true
    · cases text with
      | nil => simp [GraphQL.isName] at hgood
      | cons first rest =>
        obtain ⟨hstart, hrest⟩ : GraphQL.isNameStart first = true
            ∧ rest.all GraphQL.isNameContinue = true := by
          simpa [GraphQL.isName] using hgood
        have hchecked : checkName (.string (first :: rest)) = .ok (first :: rest) := by
          simp [checkName, hstart, hrest]
        rw [hchecked]
        exact blamed_ok _
    · rw [Bool.not_eq_true] at hgood
      exact (Blemished.name hkey hlisted hname hgood).blamed _
  | null => exact blamed_error (.inl rfl)
  | bool | int | float | array | object => exact blamed_error (.inl rfl)

theorem blamed_checkNames {things : Unchecked α} (h : ∀ thing ∈ things, NamedIn data thing.1) :
    Blamed attributes data (checkNames things) := by
  refine blamed_mapM fun thing hthing => ?_
  refine (blamed_checkName (h thing hthing)).bind fun name _ => ?_
  exact blamed_ok _

theorem blamed_buildNamed {build : Entries Value → Build α} {descriptions : List Value}
    (h : ∀ members, .object members ∈ descriptions → Blamed attributes data (build members)) :
    Blamed attributes data (buildNamed build descriptions) := by
  refine blamed_foldlM (fun things description hdescription => ?_) []
  refine (blamed_matching _).bind fun members hmembers => ?_
  refine (blamed_require _ _).bind fun key _ => ?_
  rw [membersOf_eq_ok hmembers] at hdescription
  refine (h members hdescription).bind fun thing _ => ?_
  refine (blamed_matching _).bind fun name _ => ?_
  exact blamed_ok _

theorem mem_putUnchecked {key : Value} {thing : α} {things : Unchecked α} {other : Value × α}
    (h : other ∈ putUnchecked key thing things) :
    other.1 = key ∨ ∃ same ∈ things, same.1 = other.1 := by
  induction things with
  | nil =>
    rw [putUnchecked, List.mem_singleton] at h
    exact .inl (congrArg Prod.fst h)
  | cons first rest ih =>
    obtain ⟨k, t⟩ := first
    -- the entry after a comparison stands in front of the rest, in which the thing may have been
    -- put
    have hfurther : other ∈ (k, t) :: putUnchecked key thing rest →
        other.1 = key ∨ ∃ same ∈ (k, t) :: rest, same.1 = other.1 := by
      intro hmem
      rcases List.mem_cons.mp hmem with hsame | hrest
      · exact .inr ⟨(k, t), List.mem_cons_self, congrArg Prod.fst hsame.symm⟩
      · rcases ih hrest with hkey | ⟨same, hsame, hname⟩
        · exact .inl hkey
        · exact .inr ⟨same, List.mem_cons_of_mem _ hsame, hname⟩
    unfold putUnchecked at h
    split at h
    · split at h
      · rcases List.mem_cons.mp h with hsame | hrest
        · rw [hsame]
          exact .inr ⟨_, List.mem_cons_self, rfl⟩
        · exact .inr ⟨other, List.mem_cons_of_mem _ hrest, rfl⟩
      · exact hfurther h
    · exact hfurther h

/-- What is built stands under the names that the descriptions give. -/
theorem name_of_buildNamed {build : Entries Value → Build α} {descriptions : List Value}
    {things : Unchecked α} (h : buildNamed build descriptions = .ok things) :
    ∀ thing ∈ things, ∃ members, .object members ∈ descriptions
      ∧ Entries.get? "name" members = some thing.1 := by
  refine foldlM_preserves (fun things : Unchecked α => ∀ thing ∈ things, ∃ members,
    .object members ∈ descriptions ∧ Entries.get? "name" members = some thing.1) ?_ ?_ h
  · exact fun thing hthing => absurd hthing List.not_mem_nil
  · intro before description hdescription after hbefore hstep thing hthing
    obtain ⟨members, hmembers, hstep⟩ := (bind_eq_ok_iff _ _ _).mp hstep
    obtain ⟨key, hkey, hstep⟩ := (bind_eq_ok_iff _ _ _).mp hstep
    obtain ⟨built, -, hstep⟩ := (bind_eq_ok_iff _ _ _).mp hstep
    obtain ⟨name, hname, hstep⟩ := (bind_eq_ok_iff _ _ _).mp hstep
    rw [← Except.ok.inj hstep] at hthing
    rcases mem_putUnchecked hthing with hnew | ⟨same, hsame, hold⟩
    · rw [membersOf_eq_ok hmembers] at hdescription
      refine ⟨members, hdescription, ?_⟩
      rw [hnew, asKey_eq_ok hname]
      exact get?_of_require hkey
    · rw [← hold]
      exact hbefore same hsame

end Blamed

end FieldAudit.Introspection
