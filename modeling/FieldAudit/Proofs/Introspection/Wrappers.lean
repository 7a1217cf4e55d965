import FieldAudit.Proofs.Introspection.Bare
import FieldAudit.Proofs.Scan.Wrappers

/-!
Building from data without wrappers. If data build a schema, the data without wrappers build a
schema that is the same but for wrappers (`exists_build_bareData`): every step of building goes on
with what is inside the wrappers, and nothing else of it depends on them. So do any two data that
are the same but for wrappers (`bare_eq_of_build`).
-/

set_option autoImplicit false

namespace FieldAudit.Introspection

open Json (Value)

variable {α β : Type}

/-! ## 1. What is looked up among the types -/

theorem namedType_bareTypes (types : Entries Described) (reference : Value) :
    namedType (bareTypes types) reference
      = (namedType types reference).map fun found => (found.1, bareDescribed found.2) := by
  unfold namedType
  cases askedMembers reference with
  | error _ => rfl
  | ok members =>
    dsimp only [bind, Except.bind]
    split
    · rfl
    · cases matching (Value.member "name" members).asKey with
      | error _ => rfl
      | ok key =>
        cases key with
        | string text =>
          dsimp only
          rw [bareTypes, Entries.get?_mapValues]
          cases Entries.get? text types with
          | none => rfl
          | some described => rfl
        | null | bool | int | float | array | object => rfl

theorem resolveWithin_bareTypes (types : Entries Described) (levels : Nat) (reference : Value) :
    resolveWithin (bareTypes types) levels reference
      = (resolveWithin types levels reference).map fun found =>
        (found.1, bareDescribed found.2) := by
  induction levels generalizing reference with
  | zero => rfl
  | succ levels ih =>
    unfold resolveWithin
    cases askedMembers reference with
    | error _ => rfl
    | ok members =>
      dsimp only [bind, Except.bind]
      split
      · cases wrapped members with
        | error _ => rfl
        | ok inner =>
          dsimp only
          rw [ih]
          cases resolveWithin types levels inner with
          | error _ => rfl
          | ok found => rfl
      · cases wrapped members with
        | error _ => rfl
        | ok inner =>
          dsimp only
          rw [ih]
          cases resolveWithin types levels inner with
          | error _ => rfl
          | ok found =>
            obtain ⟨type, described⟩ := found
            cases type with
            | named _ | list _ | nonNull _ => rfl
      · rw [namedType_bareTypes]
        cases namedType types reference with
        | error _ => rfl
        | ok found => rfl

/-- A reference is resolved alike among types without wrappers. -/
theorem resolve_bareTypes (types : Entries Described) (reference : Value) :
    resolve (bareTypes types) reference
      = (resolve types reference).map fun found => (found.1, bareDescribed found.2) :=
  resolveWithin_bareTypes types _ reference

@[simp] theorem isOutput_bareDescribed (described : Described) :
    (bareDescribed described).isOutput = described.isOutput := by
  cases described <;> rfl

@[simp] theorem isInput_bareDescribed (described : Described) :
    (bareDescribed described).isInput = described.isInput := by
  cases described <;> rfl

@[simp] theorem isObject_bareDescribed (described : Described) :
    (bareDescribed described).isObject = described.isObject := by
  cases described <;> rfl

@[simp] theorem isInterface_bareDescribed (described : Described) :
    (bareDescribed described).isInterface = described.isInterface := by
  cases described <;> rfl

theorem objectType_bareTypes (types : Entries Described) :
    objectType (bareTypes types) = objectType types := by
  funext reference
  unfold objectType
  rw [resolve_bareTypes]
  cases resolve types reference with
  | error _ => rfl
  | ok found => simp [Except.map, bind, Except.bind]

theorem interfaceType_bareTypes (types : Entries Described) :
    interfaceType (bareTypes types) = interfaceType types := by
  funext reference
  unfold interfaceType
  rw [resolve_bareTypes]
  cases resolve types reference with
  | error _ => rfl
  | ok found => simp [Except.map, bind, Except.bind]

theorem buildInput_bareTypes (use : Use) (types : Entries Described) :
    buildInput use (bareTypes types) = buildInput use types := by
  funext members
  unfold buildInput
  cases require (Text.ofString "type") members with
  | error _ => rfl
  | ok reference =>
    dsimp only [bind, Except.bind]
    rw [resolve_bareTypes]
    cases resolve types reference with
    | error _ => rfl
    | ok found => simp [Except.map]

theorem buildArguments_bareTypes (types : Entries Described) :
    buildArguments (bareTypes types) = buildArguments types := by
  funext descriptions
  unfold buildArguments
  rw [buildInput_bareTypes]

theorem checkDirective_bareTypes (types : Entries Described) :
    checkDirective (bareTypes types) = checkDirective types := by
  funext description
  unfold checkDirective
  rw [buildArguments_bareTypes]

theorem rootType_bareTypes (types : Entries Described) :
    rootType (bareTypes types) = rootType types := by
  funext reference
  unfold rootType
  rw [objectType_bareTypes]

theorem checkInterfaces_bareOwner {types : Entries Described} {optional : Bool}
    {members : Entries Value} (h : checkInterfaces types optional members = .ok ()) :
    checkInterfaces (bareTypes types) optional (bareOwner members) = .ok () := by
  unfold checkInterfaces at h ⊢
  dsimp only at h ⊢
  rw [member_bareOwner_of_ne (by decide), interfaceType_bareTypes]
  split at h
  · next hnull =>
    rw [if_pos hnull]
    split at h
    · next hoptional =>
      rw [if_pos hoptional]
      rfl
    · simp at h
  · next hlisted =>
    rw [if_neg hlisted]
    exact h

/-! ## 2. Fields -/

theorem requirePart_withMember_of_ne {words : String} {key other : Text} (hne : other ≠ key)
    (f : Value → Value) {members : Entries Value} {value : Value}
    (h : requirePart words other members = .ok value) :
    requirePart words other (withMember key f members) = .ok value := by
  unfold requirePart at h ⊢
  dsimp only at h ⊢
  rw [member_withMember_of_ne hne]
  split at h
  · simp at h
  · next hgiven =>
    rw [if_neg hgiven]
    exact h

/-- A field whose type is referred to without wrappers has the type inside them. -/
theorem buildField_bareField {types : Entries Described} {members : Entries Value} {type : TypeRef}
    (h : buildField types members = .ok type) :
    buildField (bareTypes types) (bareField members) = .ok (.named type.core) := by
  unfold buildField at h ⊢
  obtain ⟨reference, hreference, h⟩ := (bind_eq_ok_iff _ _ _).mp h
  obtain ⟨⟨found, described⟩, hresolve, h⟩ := (bind_eq_ok_iff _ _ _).mp h
  have hbare : require "type" (bareField members) = .ok (bareReference reference) := by
    rw [bareField, require_withMember_self, hreference]
    rfl
  have hinside : resolve (bareTypes types) (bareReference reference)
      = .ok (.named found.core, bareDescribed described) := by
    rw [resolve_bareTypes, resolve_bareReference hresolve]
    rfl
  refine (bind_eq_ok_iff _ _ _).mpr ⟨_, hbare, (bind_eq_ok_iff _ _ _).mpr ⟨_, hinside, ?_⟩⟩
  dsimp only at h ⊢
  rw [isOutput_bareDescribed, buildArguments_bareTypes]
  split at h
  · simp [bind, Except.bind] at h
  · next houtput =>
    rw [if_neg houtput]
    obtain ⟨part, hpart, h⟩ := (bind_eq_ok_iff _ _ _).mp h
    obtain ⟨given, hgiven, h⟩ := (bind_eq_ok_iff _ _ _).mp h
    obtain ⟨named, hnamed, h⟩ := (bind_eq_ok_iff _ _ _).mp h
    rw [← Except.ok.inj h]
    refine (bind_eq_ok_iff _ _ _).mpr ⟨part, requirePart_withMember_of_ne (by decide) _ hpart, ?_⟩
    refine (bind_eq_ok_iff _ _ _).mpr ⟨given, hgiven, ?_⟩
    exact (bind_eq_ok_iff _ _ _).mpr ⟨named, hnamed, rfl⟩

theorem putUnchecked_map (f : α → β) (key : Value) (thing : α) (things : Unchecked α) :
    putUnchecked key (f thing) (things.map fun thing => (thing.1, f thing.2))
      = (putUnchecked key thing things).map fun thing => (thing.1, f thing.2) := by
  induction things with
  | nil => rfl
  | cons first rest ih =>
    obtain ⟨k, t⟩ := first
    -- the keys are the same on both sides, and they alone say where the thing goes
    cases key with
    | string a =>
      cases k with
      | string b =>
        change (if a = b then _ else _) = List.map _ (if a = b then _ else _)
        by_cases hname : a = b
        · rw [if_pos hname, if_pos hname]
          rfl
        · rw [if_neg hname, if_neg hname, ih]
          rfl
      | null | bool | int | float | array | object => exact congrArg (List.cons _) ih
    | null | bool | int | float | array | object => exact congrArg (List.cons _) ih

/-- Things that are built from other members to other things, under the same names. -/
theorem buildNamed_map {build : Entries Value → Build α} {other : Entries Value → Build β}
    (f : α → β) (g : Entries Value → Entries Value)
    (hname : ∀ members, require "name" (g members) = require "name" members)
    (hbuild : ∀ members thing, build members = .ok thing → other (g members) = .ok (f thing))
    {descriptions : List Value} {things : Unchecked α}
    (h : buildNamed build descriptions = .ok things) :
    buildNamed other (descriptions.map (inObject g))
      = .ok (things.map fun thing => (thing.1, f thing.2)) := by
  refine foldlM_map_eq_ok (fun things : Unchecked α => things.map fun thing => (thing.1, f thing.2))
    (inObject g) ?_ h
  intro before description after hstep
  obtain ⟨members, hmembers, hstep⟩ := (bind_eq_ok_iff _ _ _).mp hstep
  obtain ⟨key, hkey, hstep⟩ := (bind_eq_ok_iff _ _ _).mp hstep
  obtain ⟨thing, hthing, hstep⟩ := (bind_eq_ok_iff _ _ _).mp hstep
  obtain ⟨name, hchecked, hstep⟩ := (bind_eq_ok_iff _ _ _).mp hstep
  rw [membersOf_eq_ok hmembers, ← Except.ok.inj hstep, ← putUnchecked_map]
  refine (bind_eq_ok_iff _ _ _).mpr ⟨g members, rfl, ?_⟩
  refine (bind_eq_ok_iff _ _ _).mpr ⟨key, (hname members).trans hkey, ?_⟩
  refine (bind_eq_ok_iff _ _ _).mpr ⟨f thing, hbuild members thing hthing, ?_⟩
  exact (bind_eq_ok_iff _ _ _).mpr ⟨name, hchecked, rfl⟩

/-- Names are checked alike, whatever stands under them. -/
theorem checkNames_map (f : α → β) {things : Unchecked α} {checked : Entries α}
    (h : checkNames things = .ok checked) :
    checkNames (things.map fun thing => (thing.1, f thing.2)) = .ok (checked.mapValues f) := by
  have hplaces := mapM_eq_ok_iff.mp h
  refine mapM_eq_ok_iff.mpr ?_
  rw [Entries.mapValues, List.forall₂_map_left_iff, List.forall₂_map_right_iff]
  refine hplaces.imp ?_
  rintro ⟨key, thing⟩ entry hentry
  obtain ⟨name, hname, hentry⟩ := (bind_eq_ok_iff _ _ _).mp hentry
  rw [← Except.ok.inj hentry]
  exact (bind_eq_ok_iff _ _ _).mpr ⟨name, hname, rfl⟩

/-- The fields of a description without wrappers are those of the description, without wrappers. -/
theorem buildFields_bareOwner {types : Entries Described} {members : Entries Value}
    {things : Unchecked TypeRef} (h : buildFields types members = .ok things)
    (hfields : declaresFields members = true) :
    buildFields (bareTypes types) (bareOwner members)
      = .ok (things.map fun thing => (thing.1, TypeRef.named thing.2.core)) := by
  have hlisted : Value.member "fields" (bareOwner members)
      = eachItem (inObject bareField) (Value.member "fields" members) := by
    rw [bareOwner, if_pos hfields]
    exact member_withMember_self _ rfl members
  unfold buildFields at h ⊢
  dsimp only at h ⊢
  rw [hlisted, isNull_eachItem, itemsOf_eachItem]
  split at h
  · simp at h
  · next hnull =>
    rw [if_neg hnull]
    obtain ⟨items, hitems, h⟩ := (bind_eq_ok_iff _ _ _).mp h
    rw [hitems]
    have hname (members : Entries Value) : require "name" (bareField members)
        = require "name" members :=
      require_withMember_of_ne (by decide) _ members
    have hbuild (members : Entries Value) (type : TypeRef)
        (htype : buildField types members = .ok type) :
        buildField (bareTypes types) (bareField members) = .ok (.named type.core) :=
      buildField_bareField htype
    exact buildNamed_map (fun type : TypeRef => TypeRef.named type.core) bareField hname hbuild h

theorem buildField_bareTypes (types : Entries Described) :
    buildField (bareTypes types) = buildField types := by
  funext members
  unfold buildField
  rw [buildArguments_bareTypes]
  cases require (Text.ofString "type") members with
  | error _ => rfl
  | ok reference =>
    dsimp only [bind, Except.bind]
    rw [resolve_bareTypes]
    cases resolve types reference with
    | error _ => rfl
    | ok found =>
      dsimp only [Except.map]
      rw [isOutput_bareDescribed]

/-- The fields of a type whose description has no wrappers are checked with the fields of the type,
and are the same but for wrappers. -/
theorem exists_checked_bareOwner {types : Entries Described} {members : Entries Value}
    {things : Unchecked TypeRef} {checked : Entries TypeRef}
    (hthings : buildFields types members = .ok things)
    (hchecked : checkNames things = .ok checked) :
    ∃ others found, buildFields (bareTypes types) (bareOwner members) = .ok others
      ∧ checkNames others = .ok found
      ∧ found.mapValues (fun type => TypeRef.named type.core)
        = checked.mapValues fun type => TypeRef.named type.core := by
  by_cases hfields : declaresFields members = true
  · have hnames := checkNames_map (fun type : TypeRef => TypeRef.named type.core) hchecked
    refine ⟨_, _, buildFields_bareOwner hthings hfields, hnames, ?_⟩
    simp [Entries.mapValues, TypeRef.core]
  · refine ⟨things, checked, ?_, hchecked, rfl⟩
    rw [bareOwner, if_neg hfields]
    unfold buildFields at hthings ⊢
    rw [buildField_bareTypes]
    exact hthings

/-! ## 3. Schemas -/

/-- The facets of a type without wrappers are worked out with those of the type. -/
theorem exists_finish_bareDescribed {types : Entries Described} {name : Text}
    {described : Described} {type : SchemaType} (h : finish types name described = .ok type) :
    ∃ other, finish (bareTypes types) name (bareDescribed described) = .ok other
      ∧ other.bare = type.bare := by
  cases described with
  | builtIn | scalar | enum => exact ⟨type, h, rfl⟩
  | object members | interface members =>
    obtain ⟨_, hinterfaces, h⟩ := (bind_eq_ok_iff _ _ _).mp h
    obtain ⟨things, hthings, h⟩ := (bind_eq_ok_iff _ _ _).mp h
    obtain ⟨checked, hchecked, h⟩ := (bind_eq_ok_iff _ _ _).mp h
    obtain ⟨others, found, hothers, hfound, hsame⟩ :=
      exists_checked_bareOwner (facet_eq_ok_iff.mp hthings) hchecked
    have hlisted := checkInterfaces_bareOwner (facet_eq_ok_iff.mp hinterfaces)
    rw [← Except.ok.inj h]
    refine ⟨_, (bind_eq_ok_iff _ _ _).mpr ⟨(), facet_eq_ok_iff.mpr hlisted,
      (bind_eq_ok_iff _ _ _).mpr ⟨others, facet_eq_ok_iff.mpr hothers,
        (bind_eq_ok_iff _ _ _).mpr ⟨found, hfound, rfl⟩⟩⟩, ?_⟩
    simp only [SchemaType.bare, hsame]
  | union members possible =>
    refine ⟨type, ?_, rfl⟩
    unfold finish at h
    unfold bareDescribed finish
    rw [objectType_bareTypes]
    exact h
  | inputObject members listed =>
    refine ⟨type, ?_, rfl⟩
    unfold finish at h
    unfold bareDescribed finish
    rw [buildInput_bareTypes]
    exact h

theorem exists_finishes_bareTypes {types rest : Entries Described} {finished : Entries SchemaType}
    (h : List.Forall₂ (Finishes types) rest finished) :
    ∃ others : Entries SchemaType, List.Forall₂ (Finishes (bareTypes types)) (bareTypes rest) others
      ∧ others.mapValues SchemaType.bare = finished.mapValues SchemaType.bare := by
  induction h with
  | nil => exact ⟨[], .nil, rfl⟩
  | @cons entry type rest finished hfirst _ ih =>
    obtain ⟨others, hothers, hsame⟩ := ih
    obtain ⟨other, hother, hbare⟩ := exists_finish_bareDescribed hfirst.2
    refine ⟨(entry.1, other) :: others, .cons ⟨rfl, hother⟩ hothers, ?_⟩
    have hentry : (entry.1, other.bare) = (type.1, type.2.bare) := by rw [hbare, hfirst.1]
    exact congrArg₂ List.cons hentry hsame

/-- The description in data without wrappers. -/
theorem description_bareData {data : Value} {members : Entries Value}
    (h : description data = .ok members) :
    description (bareData data) = .ok (bareDescription members) := by
  cases data with
  | object parts =>
    have hpart : Value.member "__schema" (withMember "__schema" (inObject bareDescription) parts)
        = inObject bareDescription (Value.member "__schema" parts) :=
          member_withMember_self _ rfl parts
    unfold description at h
    dsimp only at h
    split at h
    · next found hfound =>
      have hbare : bareData (.object parts)
          = .object (withMember "__schema" (inObject bareDescription) parts) := rfl
      rw [← Except.ok.inj h, hbare, description, hpart, hfound]
      rfl
    · simp at h
  | null | bool | int | float | string | array => simp [description] at h

/-- The types that a description without wrappers lists. -/
theorem listed_bareDescription {members : Entries Value} {entries : List Value}
    (h : (require "types" members >>= itemsOf) = .ok entries) :
    (require "types" (bareDescription members) >>= itemsOf)
      = .ok (entries.map (inObject bareOwner)) := by
  obtain ⟨list, hlist, hentries⟩ := (bind_eq_ok_iff _ _ _).mp h
  refine (bind_eq_ok_iff _ _ _).mpr ⟨eachItem (inObject bareOwner) list, ?_, ?_⟩
  · rw [bareDescription, require_withMember_self, hlist]
    rfl
  · rw [itemsOf_eachItem, hentries]
    rfl

/-- **Data without wrappers.** If data build a schema, the data without wrappers build the schema
without wrappers. -/
theorem exists_build_bareData {data : Value} {schema : Schema} (h : build data = .ok schema) :
    ∃ other, build (bareData data) = .ok other ∧ other.bare = schema.bare := by
  obtain ⟨members, entries, types, hbuilds⟩ := (build_eq_ok_iff data schema).mp h
  obtain ⟨others, hothers, hsame⟩ := exists_finishes_bareTypes hbuilds.finished
  have hmember (key : Text) (hne : key ≠ "types") :
      Value.member key (bareDescription members) = Value.member key members :=
    member_withMember_of_ne hne _ members
  refine ⟨⟨others, schema.query?, schema.mutation?, schema.subscription?⟩, ?_, ?_⟩
  · refine (build_eq_ok_iff _ _).mpr
      ⟨bareDescription members, entries.map (inObject bareOwner), bareTypes types, ?_⟩
    exact
      { described := description_bareData hbuilds.described
        listed := listed_bareDescription hbuilds.listed
        read := describeAll_bareOwner hbuilds.read
        query := by
          rw [rootType_bareTypes, hmember _ (by decide)]
          exact hbuilds.query
        mutation := by
          rw [rootType_bareTypes, hmember _ (by decide)]
          exact hbuilds.mutation
        subscription := by
          rw [rootType_bareTypes, hmember _ (by decide)]
          exact hbuilds.subscription
        directives := by
          rw [checkDirective_bareTypes, hmember _ (by decide)]
          exact hbuilds.directives
        finished := hothers }
  · unfold Schema.bare
    dsimp only
    rw [hsame]

/-- Data that are the same but for wrappers build schemas that are the same but for wrappers. -/
theorem bare_eq_of_build {data data' : Value} {schema schema' : Schema}
    (h : build data = .ok schema) (h' : build data' = .ok schema')
    (hsame : bareData data = bareData data') : schema.bare = schema'.bare := by
  obtain ⟨other, hother, hbare⟩ := exists_build_bareData h
  obtain ⟨other', hother', hbare'⟩ := exists_build_bareData h'
  rw [hsame, hother'] at hother
  rw [← hbare, ← hbare', Except.ok.inj hother]

end FieldAudit.Introspection
