import FieldAudit.Proofs.Introspection.Built

/-!
Data without wrappers. The references to the types of fields in the data of an answer may stand in
wrappers of lists and of types that are never null, to any depth and in any order; `bareData` takes
these wrappers away, and nothing else. A reference in wrappers leads to the type inside them
(`resolve_bareReference`), and the described types are the same by name and by kind
(`describeAll_bareOwner`).
-/

set_option autoImplicit false

namespace FieldAudit.Introspection

open Json (Value)

/-! ## 1. References -/

/-- Whether members are those of a wrapper. -/
def isWrapper (members : Entries Value) : Bool :=
  (Value.member "kind" members).word? == some "LIST"
    || (Value.member "kind" members).word? == some "NON_NULL"

/-- What a reference has inside its wrappers, given how many levels the reference has. -/
def bareWithin : Nat → Value → Value
  | levels + 1, .object members =>
    if isWrapper members then bareWithin levels (Value.member "ofType" members) else .object members
  | _, reference => reference

/-- A reference without its wrappers. -/
def bareReference (reference : Value) : Value := bareWithin (depth reference) reference

/-- A wrapper around a reference. -/
def wrapping (kind : Text) (inner : Value) : Value :=
  .object [("kind", .string kind), ("ofType", inner)]

/-- Wrappers are taken away one by one. -/
theorem bareReference_wrapping {kind : Text} (h : kind = "LIST" ∨ kind = "NON_NULL")
    (inner : Value) :
    bareReference (wrapping kind inner) = bareReference inner := by
  have hwrapper : isWrapper [("kind", .string kind), ("ofType", inner)] = true := by
    rcases h with rfl | rfl
    · rfl
    · rfl
  have hdepth : depth (wrapping kind inner) = depth inner + 1 := by
    simp [wrapping, depth, depthOfMembers]
  rw [bareReference, hdepth, wrapping, bareWithin, if_pos hwrapper]
  rfl

theorem isWrapper_iff (members : Entries Value) :
    isWrapper members = true ↔ (Value.member "kind" members).word? = some "LIST"
      ∨ (Value.member "kind" members).word? = some "NON_NULL" := by
  rw [isWrapper, Bool.or_eq_true, beq_iff_eq, beq_iff_eq]

section Resolve

variable {types : Entries Described} {levels : Nat} {reference : Value} {members : Entries Value}
  {type : TypeRef} {name : Text} {described : Described}

/-- A reference that is no wrapper stands for the type that it names, however many levels it is
given. -/
theorem resolveWithin_of_not_isWrapper (hwrapper : ¬ isWrapper members = true)
    (hnamed : namedType types (.object members) = .ok (name, described)) (levels : Nat) :
    resolveWithin types (levels + 1) (.object members) = .ok (.named name, described) := by
  unfold resolveWithin
  refine (bind_eq_ok_iff _ _ _).mpr ⟨members, rfl, ?_⟩
  split
  · next hkind => exact absurd ((isWrapper_iff members).mpr (.inl hkind)) hwrapper
  · next hkind => exact absurd ((isWrapper_iff members).mpr (.inr hkind)) hwrapper
  · exact (bind_eq_ok_iff _ _ _).mpr ⟨(name, described), hnamed, rfl⟩

/-- A reference that stands for a type is a wrapper around one that stands for a type with the same
inside, or it names the type. -/
theorem resolveWithin_succ_eq_ok
    (h : resolveWithin types (levels + 1) reference = .ok (type, described)) :
    ∃ members, reference = .object members
      ∧ ((isWrapper members = true ∧ ∃ inner, inner.core = type.core
          ∧ resolveWithin types levels (Value.member "ofType" members) = .ok (inner, described))
        ∨ (¬ isWrapper members = true ∧ ∃ name, type = .named name
          ∧ namedType types (.object members) = .ok (name, described))) := by
  unfold resolveWithin at h
  obtain ⟨members, hmembers, h⟩ := (bind_eq_ok_iff _ _ _).mp h
  obtain rfl := askedMembers_eq_ok hmembers
  refine ⟨members, rfl, ?_⟩
  split at h
  · next hkind =>
    obtain ⟨inner, hinner, h⟩ := (bind_eq_ok_iff _ _ _).mp h
    obtain ⟨⟨item, found⟩, hitem, h⟩ := (bind_eq_ok_iff _ _ _).mp h
    obtain ⟨rfl, rfl⟩ := Prod.mk.inj (Except.ok.inj h)
    rw [(wrapped_eq_ok hinner).1]
    exact .inl ⟨(isWrapper_iff members).mpr (.inl hkind), item, rfl, hitem⟩
  · next hkind =>
    obtain ⟨inner, hinner, h⟩ := (bind_eq_ok_iff _ _ _).mp h
    obtain ⟨⟨item, found⟩, hitem, h⟩ := (bind_eq_ok_iff _ _ _).mp h
    rw [(wrapped_eq_ok hinner).1]
    -- a type that is never null already is not wrapped once more
    dsimp only at h
    split at h
    · simp at h
    · obtain ⟨rfl, rfl⟩ := Prod.mk.inj (Except.ok.inj h)
      exact .inl ⟨(isWrapper_iff members).mpr (.inr hkind), item, rfl, hitem⟩
  · next hlist hnonNull =>
    obtain ⟨⟨name, found⟩, hnamed, h⟩ := (bind_eq_ok_iff _ _ _).mp h
    obtain ⟨rfl, rfl⟩ := Prod.mk.inj (Except.ok.inj h)
    refine .inr ⟨fun hwrapper => ?_, name, rfl, hnamed⟩
    rcases (isWrapper_iff members).mp hwrapper with hkind | hkind
    · exact hlist hkind
    · exact hnonNull hkind

/-- A reference that stands for a type has, inside its wrappers, a reference that stands for the
type inside them. -/
theorem resolveWithin_bareWithin
    (h : resolveWithin types levels reference = .ok (type, described)) :
    ∃ members, bareWithin levels reference = .object members
      ∧ ∀ others, resolveWithin types (others + 1) (.object members)
        = .ok (.named type.core, described) := by
  induction levels generalizing reference type with
  | zero => simp [resolveWithin] at h
  | succ levels ih =>
    obtain ⟨members, rfl, ⟨hwrapper, inner, hcore, hinner⟩ | ⟨hwrapper, name, rfl, hnamed⟩⟩ :=
      resolveWithin_succ_eq_ok h
    · rw [bareWithin, if_pos hwrapper, ← hcore]
      exact ih hinner
    · rw [bareWithin, if_neg hwrapper]
      exact ⟨members, rfl, resolveWithin_of_not_isWrapper hwrapper hnamed⟩

end Resolve

theorem resolve_bareReference {types : Entries Described} {reference : Value} {type : TypeRef}
    {described : Described} (h : resolve types reference = .ok (type, described)) :
    resolve types (bareReference reference) = .ok (.named type.core, described) := by
  obtain ⟨members, hbare, hresolve⟩ := resolveWithin_bareWithin h
  rw [bareReference, hbare]
  exact hresolve _

/-! ## 2. Data -/

/-- Members with the value under a key replaced by a function of it. -/
def withMember (key : Text) (f : Value → Value) (members : Entries Value) : Entries Value :=
  members.map fun member => (member.1, if member.1 = key then f member.2 else member.2)

/-- An object with its members replaced by a function of them; other values stay. -/
def inObject (f : Entries Value → Entries Value) : Value → Value
  | .object members => .object (f members)
  | value => value

/-- A list with its items replaced by a function of them; other values stay. -/
def eachItem (f : Value → Value) : Value → Value
  | .array items => .array (items.map f)
  | value => value

/-- A described field whose type is referred to without wrappers. -/
def bareField (members : Entries Value) : Entries Value := withMember "type" bareReference members

/-- Whether a described type is an object or an interface, whose fields may be selected. -/
def declaresFields (members : Entries Value) : Bool :=
  (Value.member "kind" members).word? == some "OBJECT"
    || (Value.member "kind" members).word? == some "INTERFACE"

/-- A described type whose fields, if it is an object or an interface, have types that are referred
to without wrappers. -/
def bareOwner (members : Entries Value) : Entries Value :=
  if declaresFields members then withMember "fields" (eachItem (inObject bareField)) members
    else members

/-- A description of types without the wrappers in the types of fields. -/
def bareDescription (members : Entries Value) : Entries Value :=
  withMember "types" (eachItem (inObject bareOwner)) members

/-- Data without the wrappers in the types of the fields of objects and interfaces; all else is as
it was. -/
def bareData (data : Value) : Value :=
  inObject (withMember "__schema" (inObject bareDescription)) data

theorem get?_withMember (key other : Text) (f : Value → Value) (members : Entries Value) :
    Entries.get? other (withMember key f members)
      = (Entries.get? other members).map fun value => if other = key then f value else value := by
  induction members with
  | nil => rfl
  | cons member rest ih =>
    obtain ⟨k, v⟩ := member
    rw [withMember, List.map_cons, Entries.get?, Entries.get?]
    by_cases hk : k = other
    · rw [if_pos hk, if_pos hk, hk]
      rfl
    · rw [if_neg hk, if_neg hk]
      exact ih

theorem member_withMember_of_ne {key other : Text} (h : other ≠ key) (f : Value → Value)
    (members : Entries Value) :
    Value.member other (withMember key f members) = Value.member other members := by
  rw [Value.member, Value.member, get?_withMember]
  simp only [if_neg h]
  rw [Option.map_id']

theorem member_withMember_self (key : Text) {f : Value → Value} (hnull : f .null = .null)
    (members : Entries Value) :
    Value.member key (withMember key f members) = f (Value.member key members) := by
  rw [Value.member, Value.member, get?_withMember]
  cases Entries.get? key members with
  | none => exact hnull.symm
  | some value => exact if_pos rfl

theorem require_withMember_of_ne {key other : Text} (h : other ≠ key) (f : Value → Value)
    (members : Entries Value) :
    require other (withMember key f members) = require other members := by
  rw [require, require, get?_withMember]
  simp only [if_neg h]
  rw [Option.map_id']

theorem require_withMember_self (key : Text) (f : Value → Value) (members : Entries Value) :
    require key (withMember key f members) = (require key members).map f := by
  rw [require, require, get?_withMember]
  cases Entries.get? key members with
  | none => rfl
  | some value => exact congrArg Except.ok (if_pos rfl)

theorem isNull_eachItem (f : Value → Value) (value : Value) :
    (eachItem f value).isNull = value.isNull := by
  cases value <;> rfl

/-- Going through items replaced by functions of their members: what is no object stays, so this
holds of whatever is gone through. -/
theorem itemsOf_eachItem (f : Entries Value → Entries Value) (value : Value) :
    itemsOf (eachItem (inObject f) value) = (itemsOf value).map (List.map (inObject f)) := by
  cases value with
  | array items => rfl
  | string text =>
    change Except.ok _ = Except.ok _
    rw [List.map_map]
    rfl
  | object members =>
    change Except.ok _ = Except.ok _
    rw [List.map_map]
    rfl
  | null | bool | int | float => rfl

/-! ## 3. Types by name -/

/-- A type that is read, with the members of its description without wrappers. -/
def bareDescribed : Described → Described
  | .object members => .object (bareOwner members)
  | .interface members => .interface (bareOwner members)
  | described => described

/-- Types that are read, all without wrappers. -/
def bareTypes (types : Entries Described) : Entries Described := types.mapValues bareDescribed

theorem member_bareOwner_of_ne {key : Text} (h : key ≠ "fields") (members : Entries Value) :
    Value.member key (bareOwner members) = Value.member key members := by
  unfold bareOwner
  split
  · exact member_withMember_of_ne h _ members
  · rfl

theorem require_bareOwner_of_ne {key : Text} (h : key ≠ "fields") (members : Entries Value) :
    require key (bareOwner members) = require key members := by
  unfold bareOwner
  split
  · exact require_withMember_of_ne h _ members
  · rfl

/-- A kind that is a word is a text. -/
theorem exists_kind_of_word? {members : Entries Value} {word : String}
    (h : (Value.member "kind" members).word? = some word) :
    ∃ kind, Entries.get? "kind" members = some kind ∧ matching kind.asKey = .ok kind
      ∧ kind.word? = some word := by
  rw [Value.member] at h
  cases hget : Entries.get? (Text.ofString "kind") members with
  | none =>
    rw [hget] at h
    simp [Value.word?] at h
  | some kind =>
    rw [hget, Option.getD_some] at h
    cases kind with
    | string text => exact ⟨.string text, rfl, rfl, h⟩
    | null | bool | int | float | array | object => simp [Value.word?] at h

/-- Objects are read with their members. -/
theorem describe_of_object {members : Entries Value}
    (h : (Value.member "kind" members).word? = some "OBJECT") (name : Value) :
    describe members name = orBuiltIn name (named name (.object members)) := by
  obtain ⟨kind, hget, hkey, hword⟩ := exists_kind_of_word? h
  unfold describe
  rw [hget]
  dsimp only
  rw [hkey]
  simp only [bind, Except.bind, hword]

/-- So are interfaces, which may not have the name of a built-in type. -/
theorem describe_of_interface {members : Entries Value}
    (h : (Value.member "kind" members).word? = some "INTERFACE") (name : Value) :
    describe members name = notBuiltIn name (.interface members) := by
  obtain ⟨kind, hget, hkey, hword⟩ := exists_kind_of_word? h
  unfold describe
  rw [hget]
  dsimp only
  rw [hkey]
  simp only [bind, Except.bind, hword]

/-- What is kept of a description has no part in the check of its name. -/
theorem named_bareDescribed {name : Value} {kept described : Described}
    (h : named name kept = .ok described) :
    named name (bareDescribed kept) = .ok (bareDescribed described) := by
  have hkept : described = kept := (named_eq_ok h).2
  unfold named at h ⊢
  obtain ⟨text, htext, -⟩ := (bind_eq_ok_iff _ _ _).mp h
  rw [hkept]
  exact (bind_eq_ok_iff _ _ _).mpr ⟨text, htext, rfl⟩

theorem orBuiltIn_bareDescribed {name : Value} {kept described : Described}
    (h : orBuiltIn name (named name kept) = .ok described) :
    orBuiltIn name (named name (bareDescribed kept)) = .ok (bareDescribed described) := by
  unfold orBuiltIn at h ⊢
  obtain ⟨builtIn, hbuiltIn, h⟩ := (bind_eq_ok_iff _ _ _).mp h
  refine (bind_eq_ok_iff _ _ _).mpr ⟨builtIn, hbuiltIn, ?_⟩
  cases builtIn with
  | none => exact named_bareDescribed h
  | some type =>
    rw [← Except.ok.inj h]
    rfl

theorem notBuiltIn_bareDescribed {name : Value} {kept described : Described}
    (h : notBuiltIn name kept = .ok described) :
    notBuiltIn name (bareDescribed kept) = .ok (bareDescribed described) := by
  unfold notBuiltIn at h ⊢
  obtain ⟨builtIn, hbuiltIn, h⟩ := (bind_eq_ok_iff _ _ _).mp h
  refine (bind_eq_ok_iff _ _ _).mpr ⟨builtIn, hbuiltIn, ?_⟩
  split at h
  · simp at h
  · exact named_bareDescribed h

/-- A description without wrappers is read as the type that the description is read as, without
wrappers. -/
theorem describe_bareOwner {members : Entries Value} {name : Value} {described : Described}
    (h : describe members name = .ok described) :
    describe (bareOwner members) name = .ok (bareDescribed described) := by
  by_cases hfields : declaresFields members = true
  · have hkind : Value.member "kind" (bareOwner members) = Value.member "kind" members :=
      member_bareOwner_of_ne (by decide) members
    rw [declaresFields, Bool.or_eq_true, beq_iff_eq, beq_iff_eq] at hfields
    rcases hfields with hobject | hinterface
    · rw [describe_of_object hobject] at h
      rw [describe_of_object (by rw [hkind]; exact hobject)]
      exact orBuiltIn_bareDescribed h
    · rw [describe_of_interface hinterface] at h
      rw [describe_of_interface (by rw [hkind]; exact hinterface)]
      exact notBuiltIn_bareDescribed h
  · have hsame : bareOwner members = members := if_neg hfields
    rw [hsame, h]
    rcases describe_cases h with ⟨_, _, -, rfl⟩ | rfl | rfl | rfl | ⟨_, rfl⟩ | rfl | rfl
    · rfl
    · rfl
    · rw [bareDescribed, hsame]
    · rw [bareDescribed, hsame]
    · rfl
    · rfl
    · rfl

/-- So are all descriptions. -/
theorem describeAll_bareOwner {descriptions : List Value} {types : Entries Described}
    (h : describeAll descriptions = .ok types) :
    describeAll (descriptions.map (inObject bareOwner)) = .ok (bareTypes types) := by
  refine foldlM_map_eq_ok bareTypes (inObject bareOwner) ?_ h
  intro before description after hstep
  obtain ⟨members, hmembers, hstep⟩ := (bind_eq_ok_iff _ _ _).mp hstep
  obtain ⟨name, hname, hstep⟩ := (bind_eq_ok_iff _ _ _).mp hstep
  obtain ⟨described, hdescribed, hstep⟩ := (bind_eq_ok_iff _ _ _).mp hstep
  obtain rfl := membersOf_eq_ok hmembers
  refine (bind_eq_ok_iff _ _ _).mpr ⟨bareOwner members, rfl, ?_⟩
  refine (bind_eq_ok_iff _ _ _).mpr ⟨name, ?_, ?_⟩
  · rw [require_bareOwner_of_ne (by decide)]
    exact hname
  refine (bind_eq_ok_iff _ _ _).mpr ⟨bareDescribed described, describe_bareOwner hdescribed, ?_⟩
  cases name with
  | string text =>
    rw [← Except.ok.inj hstep]
    exact congrArg Except.ok (Entries.put_mapValues bareDescribed text described before)
  | null | bool | int | float | array | object =>
    rw [← Except.ok.inj hstep]
    rfl

end FieldAudit.Introspection
