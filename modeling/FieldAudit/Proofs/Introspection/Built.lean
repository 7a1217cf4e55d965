import FieldAudit.Introspection.Build
import FieldAudit.Proofs.Attempt
import FieldAudit.Proofs.Entries

/-!
What a schema that is built is made of. Every step of building is inverted once: what it has taken,
if it has succeeded (`describe_cases`, `build_eq_ok_iff`). From the steps follows that nothing in a
schema has the name of its neighbour: the types have different names, and so have the fields of
every type, however often the description repeats a name (`nodup_keys_of_build`,
`nodup_fields_of_build`).
-/

set_option autoImplicit false

namespace FieldAudit.Introspection

open Json (Value)

variable {α : Type}

/-! ## 1. Members of descriptions -/

theorem get?_of_require {key : Text} {members : Entries Value} {value : Value}
    (h : require key members = .ok value) : Entries.get? key members = some value := by
  rw [require] at h
  cases hget : Entries.get? key members with
  | some found =>
    rw [hget] at h
    rw [Except.ok.inj h]
  | none =>
    rw [hget] at h
    simp at h

theorem member_of_requirePart {words : String} {key : Text} {members : Entries Value}
    {value : Value} (h : requirePart words key members = .ok value) :
    value = Value.member key members := by
  unfold requirePart at h
  dsimp only at h
  split at h
  · simp at h
  · exact (Except.ok.inj h).symm

theorem itemsOf_eq_ok_iff {value : Value} {items : List Value} :
    itemsOf value = .ok items ↔ value.itemsOf = .ok items :=
  mapError_eq_ok_iff _ _ _

theorem membersOf_eq_ok {value : Value} {members : Entries Value}
    (h : membersOf value = .ok members) :
    value = .object members := by
  have hmembers : value.membersOf = .ok members := (mapError_eq_ok_iff _ _ _).mp h
  cases value with
  | object others =>
    rw [Value.membersOf] at hmembers
    rw [Except.ok.inj hmembers]
  | null | bool | int | float | string | array => simp [Value.membersOf] at hmembers

theorem askedMembers_eq_ok {value : Value} {members : Entries Value}
    (h : askedMembers value = .ok members) : value = .object members := by
  cases value with
  | object others =>
    rw [askedMembers] at h
    rw [Except.ok.inj h]
  | null | bool | int | float | string | array => simp [askedMembers] at h

theorem wrapped_eq_ok {members : Entries Value} {inner : Value} (h : wrapped members = .ok inner) :
    Value.member "ofType" members = inner ∧ inner.isGiven = true := by
  unfold wrapped at h
  dsimp only at h
  split at h
  · next hgiven =>
    rw [Except.ok.inj h] at hgiven
    exact ⟨Except.ok.inj h, hgiven⟩
  · simp at h

theorem asKey_eq_ok {value key : Value} (h : matching value.asKey = .ok key) : key = value := by
  have hkey : value.asKey = .ok key := (mapError_eq_ok_iff _ _ _).mp h
  cases value with
  | array | object => simp [Value.asKey] at hkey
  | null | bool | int | float | string =>
    exact (Except.ok.inj hkey).symm

/-- A name that is checked is a text. -/
theorem eq_string_of_checkName {value : Value} {name : Text} (h : checkName value = .ok name) :
    value = .string name := by
  cases value with
  | string text =>
    cases text with
    | nil => simp [checkName] at h
    | cons first rest =>
      simp only [checkName] at h
      split at h
      · simp at h
      · split at h
        · simp at h
        · rw [Except.ok.inj h]
  | null | bool | int | float | array | object => simp [checkName] at h

theorem facet_eq_ok_iff {type : Text} {part : Facet} {step : Build α} {result : α} :
    facet type part step = .ok result ↔ step = .ok result :=
  mapError_eq_ok_iff _ _ _

/-! ## 2. Described types -/

theorem named_eq_ok {name : Value} {kept described : Described}
    (h : named name kept = .ok described) :
    (∃ text, name = .string text) ∧ described = kept := by
  unfold named at h
  obtain ⟨text, htext, hkept⟩ := (bind_eq_ok_iff _ _ _).mp h
  exact ⟨⟨text, eq_string_of_checkName htext⟩, (Except.ok.inj hkept).symm⟩

theorem notBuiltIn_eq_ok {name : Value} {kept described : Described}
    (h : notBuiltIn name kept = .ok described) :
    (∃ text, name = .string text) ∧ described = kept := by
  unfold notBuiltIn at h
  obtain ⟨builtIn, -, hrest⟩ := (bind_eq_ok_iff _ _ _).mp h
  split at hrest
  · simp at hrest
  · exact named_eq_ok hrest

/-- A description stands for the built-in type of its name, or it is read. -/
theorem orBuiltIn_eq_ok {name : Value} {build : Build Described} {described : Described}
    (h : orBuiltIn name build = .ok described) :
    (∃ text type, name = .string text ∧ Entries.get? text MetaType.declarations = some type
        ∧ described = .builtIn type)
      ∨ build = .ok described := by
  unfold orBuiltIn at h
  obtain ⟨builtIn, hbuiltIn, h⟩ := (bind_eq_ok_iff _ _ _).mp h
  cases builtIn with
  | none => exact .inr h
  | some type =>
    unfold builtIn? at hbuiltIn
    obtain ⟨key, hkey, hbuiltIn⟩ := (bind_eq_ok_iff _ _ _).mp hbuiltIn
    split at hbuiltIn
    · next text =>
      exact .inl ⟨text, type, (asKey_eq_ok hkey).symm, Except.ok.inj hbuiltIn,
        (Except.ok.inj h).symm⟩
    · simpa using Except.ok.inj hbuiltIn

/-- What a description can be read as: a built-in type, or what its kind says with the members that
are kept of it. -/
theorem describe_cases {members : Entries Value} {name : Value} {described : Described}
    (h : describe members name = .ok described) :
    (∃ key type, Entries.get? key MetaType.declarations = some type ∧ described = .builtIn type)
    ∨ described = .scalar ∨ described = .object members ∨ described = .interface members
    ∨ (∃ possible, described = .union members possible) ∨ described = .enum
    ∨ described = .inputObject members (Value.member "inputFields" members) := by
  unfold describe at h
  dsimp only at h
  cases hkind : Entries.get? (Text.ofString "kind") members with
  | none =>
    rw [hkind] at h
    simp at h
  | some kind =>
    rw [hkind] at h
    obtain ⟨key, -, h⟩ := (bind_eq_ok_iff _ _ _).mp h
    -- a case for each kind, in the order of the definition, and one for all other words
    split at h
    · rcases orBuiltIn_eq_ok h with ⟨text, type, -, hget, hsame⟩ | hread
      · exact .inl ⟨text, type, hget, hsame⟩
      · exact .inr (.inl (named_eq_ok hread).2)
    · rcases orBuiltIn_eq_ok h with ⟨text, type, -, hget, hsame⟩ | hread
      · exact .inl ⟨text, type, hget, hsame⟩
      · exact .inr (.inr (.inl (named_eq_ok hread).2))
    · exact .inr (.inr (.inr (.inl (notBuiltIn_eq_ok h).2)))
    · obtain ⟨possible, -, h⟩ := (bind_eq_ok_iff _ _ _).mp h
      exact .inr (.inr (.inr (.inr (.inl ⟨possible, (notBuiltIn_eq_ok h).2⟩))))
    · obtain ⟨values, -, h⟩ := (bind_eq_ok_iff _ _ _).mp h
      rcases orBuiltIn_eq_ok h with ⟨text, type, -, hget, hsame⟩ | hread
      · exact .inl ⟨text, type, hget, hsame⟩
      · obtain ⟨_, -, hread⟩ := (bind_eq_ok_iff _ _ _).mp hread
        exact .inr (.inr (.inr (.inr (.inr (.inl (named_eq_ok hread).2)))))
    · obtain ⟨fields, hfields, h⟩ := (bind_eq_ok_iff _ _ _).mp h
      rw [← member_of_requirePart hfields]
      exact .inr (.inr (.inr (.inr (.inr (.inr (notBuiltIn_eq_ok h).2)))))
    · simp at h

/-- What holds of every type that a description can be read as holds of every type that is read. -/
theorem forall_mem_of_describeAll {descriptions : List Value} {types : Entries Described}
    (kept : Described → Prop)
    (hread : ∀ members, .object members ∈ descriptions → ∀ name described,
      describe members name = .ok described → kept described)
    (h : describeAll descriptions = .ok types) : ∀ entry ∈ types, kept entry.2 := by
  refine foldlM_preserves (fun types : Entries Described => ∀ entry ∈ types, kept entry.2) ?_ ?_ h
  · exact fun entry hentry => absurd hentry List.not_mem_nil
  · intro before description hdescription after hbefore hstep entry hentry
    obtain ⟨members, hmembers, hstep⟩ := (bind_eq_ok_iff _ _ _).mp hstep
    obtain ⟨name, -, hstep⟩ := (bind_eq_ok_iff _ _ _).mp hstep
    obtain ⟨described, hdescribed, hstep⟩ := (bind_eq_ok_iff _ _ _).mp hstep
    rw [membersOf_eq_ok hmembers] at hdescription
    cases name with
    | string text =>
      rw [← Except.ok.inj hstep] at hentry
      rcases Entries.mem_put hentry with hnew | hold
      · rw [hnew]
        exact hread members hdescription _ described hdescribed
      · exact hbefore entry hold
    | null | bool | int | float | array | object =>
      rw [← Except.ok.inj hstep] at hentry
      exact hbefore entry hentry

/-! ## 3. The steps of building -/

/-- The facets of a type are worked out, and it keeps its name. -/
def Finishes (types : Entries Described) (entry : Text × Described) (finished : Text × SchemaType) :
    Prop :=
  finished.1 = entry.1 ∧ finish types entry.1 entry.2 = .ok finished.2

/-- A schema is built from data by way of what the data list: the types are read, the root types are
looked up among them, the directives are checked, and the facets of the types are worked out. -/
structure Builds (data : Value) (schema : Schema) (members : Entries Value) (entries : List Value)
    (types : Entries Described) : Prop where
  described : description data = .ok members
  listed : (require "types" members >>= itemsOf) = .ok entries
  read : describeAll entries = .ok types
  query : rootType types (Value.member "queryType" members) = .ok schema.query?
  mutation : rootType types (Value.member "mutationType" members) = .ok schema.mutation?
  subscription : rootType types (Value.member "subscriptionType" members) = .ok schema.subscription?
  directives : (Value.member "directives" members).isGiven = true →
    ∃ items, itemsOf (Value.member "directives" members) = .ok items
      ∧ ∀ item ∈ items, checkDirective types item = .ok ()
  finished : List.Forall₂ (Finishes types) types schema.types

theorem finishes_iff (types : Entries Described) (entry : Text × Described)
    (finished : Text × SchemaType) :
    (do return (entry.1, ← finish types entry.1 entry.2) : Build (Text × SchemaType)) = .ok finished
      ↔ Finishes types entry finished := by
  obtain ⟨name, type⟩ := finished
  rw [bind_eq_ok_iff]
  constructor
  · rintro ⟨found, hfound, hsame⟩
    obtain ⟨rfl, rfl⟩ := Prod.mk.inj (Except.ok.inj hsame)
    exact ⟨rfl, hfound⟩
  · rintro ⟨hname, hfinish⟩
    dsimp only at hname
    rw [hname]
    exact ⟨type, hfinish, rfl⟩

/-- The last step of building puts the schema together. -/
theorem finishAll_eq_ok_iff (types : Entries Described)
    (query? mutation? subscription? : Option Text) (schema : Schema) :
    (do
      let finished ← types.mapM fun (name, described) => do
        return (name, ← finish types name described)
      return ⟨finished, query?, mutation?, subscription?⟩ : Build Schema) = .ok schema
    ↔ List.Forall₂ (Finishes types) types schema.types ∧ query? = schema.query?
      ∧ mutation? = schema.mutation? ∧ subscription? = schema.subscription? := by
  rw [bind_eq_ok_iff]
  simp only [mapM_eq_ok_iff, finishes_iff]
  constructor
  · rintro ⟨finished, hfinished, hschema⟩
    rw [← Except.ok.inj hschema]
    exact ⟨hfinished, rfl, rfl, rfl⟩
  · rintro ⟨hfinished, rfl, rfl, rfl⟩
    exact ⟨schema.types, hfinished, rfl⟩

/-- **How a schema is built.** A schema is built exactly if every step of building succeeds. -/
theorem build_eq_ok_iff (data : Value) (schema : Schema) :
    build data = .ok schema
      ↔ ∃ members entries types, Builds data schema members entries types := by
  unfold build
  simp only [bind_eq_ok_iff]
  constructor
  · rintro ⟨members, hmembers, list, hlist, entries, hentries, types, htypes, query?, hquery,
      mutation?, hmutation, subscription?, hsubscription, hrest⟩
    -- the directives are checked if they are given, and have no part in the types
    have hchecked : ((Value.member "directives" members).isGiven = true →
        ∃ items, itemsOf (Value.member "directives" members) = .ok items
          ∧ ∀ item ∈ items, checkDirective types item = .ok ())
        ∧ List.Forall₂ (Finishes types) types schema.types ∧ query? = schema.query?
        ∧ mutation? = schema.mutation? ∧ subscription? = schema.subscription? := by
      split at hrest
      · obtain ⟨items, hitems, hrest⟩ := (bind_eq_ok_iff _ _ _).mp hrest
        obtain ⟨_, hall, hrest⟩ := (bind_eq_ok_iff _ _ _).mp hrest
        refine ⟨fun _ => ⟨items, hitems, forM_eq_ok_iff.mp hall⟩, ?_⟩
        exact (finishAll_eq_ok_iff _ _ _ _ _).mp hrest
      · next hmissing =>
        refine ⟨fun hgiven => absurd hgiven hmissing, ?_⟩
        exact (finishAll_eq_ok_iff _ _ _ _ _).mp hrest
    obtain ⟨hdirectives, hfinished, rfl, rfl, rfl⟩ := hchecked
    have hlisted : (require "types" members >>= itemsOf) = .ok entries :=
      (bind_eq_ok_iff _ _ _).mpr ⟨list, hlist, hentries⟩
    exact ⟨members, entries, types, hmembers, hlisted, htypes, hquery, hmutation, hsubscription,
      hdirectives, hfinished⟩
  · rintro ⟨members, entries, types, h⟩
    obtain ⟨list, hlist, hentries⟩ := (bind_eq_ok_iff _ _ _).mp h.listed
    refine ⟨members, h.described, list, hlist, entries, hentries, types, h.read, _, h.query, _,
      h.mutation, _, h.subscription, ?_⟩
    have hlast := (finishAll_eq_ok_iff types _ _ _ schema).mpr ⟨h.finished, rfl, rfl, rfl⟩
    split
    · next hgiven =>
      obtain ⟨items, hitems, hall⟩ := h.directives hgiven
      refine (bind_eq_ok_iff _ _ _).mpr ⟨items, hitems, ?_⟩
      exact (bind_eq_ok_iff _ _ _).mpr ⟨(), forM_eq_ok_iff.mpr hall, hlast⟩
    · exact hlast

/-! ## 4. Names of types -/

theorem nodup_keys_of_describeAll {descriptions : List Value} {types : Entries Described}
    (h : describeAll descriptions = .ok types) : (Entries.keys types).Nodup := by
  refine foldlM_preserves (fun types : Entries Described => (Entries.keys types).Nodup)
    Entries.nodup_keys_nil ?_ h
  intro before description _ after hbefore hstep
  obtain ⟨members, -, hstep⟩ := (bind_eq_ok_iff _ _ _).mp hstep
  obtain ⟨name, -, hstep⟩ := (bind_eq_ok_iff _ _ _).mp hstep
  obtain ⟨described, -, hstep⟩ := (bind_eq_ok_iff _ _ _).mp hstep
  cases name with
  | string text =>
    rw [← Except.ok.inj hstep]
    exact Entries.nodup_keys_put hbefore text described
  | null | bool | int | float | array | object =>
    rw [← Except.ok.inj hstep]
    exact hbefore

/-- Working out the facets of types keeps their names, in order. -/
theorem keys_of_finishes {types rest : Entries Described} {finished : Entries SchemaType}
    (h : List.Forall₂ (Finishes types) rest finished) :
    Entries.keys finished = Entries.keys rest := by
  induction h with
  | nil => rfl
  | cons hfirst _ ih =>
    rw [Entries.keys, List.map_cons, hfirst.1]
    exact congrArg _ ih

/-- The types of a schema that is built have different names. -/
theorem nodup_keys_of_build {data : Value} {schema : Schema} (h : build data = .ok schema) :
    (Entries.keys schema.types).Nodup := by
  obtain ⟨members, entries, types, hbuilds⟩ := (build_eq_ok_iff data schema).mp h
  rw [keys_of_finishes hbuilds.finished]
  exact nodup_keys_of_describeAll hbuilds.read

/-! ## 5. Names of fields -/

/-- The texts among the names that nobody has checked. -/
def textsOf (things : Unchecked α) : List Text := things.filterMap fun thing => thing.1.text?

@[simp] theorem textsOf_cons (key : Value) (thing : α) (things : Unchecked α) :
    textsOf ((key, thing) :: things) = key.text?.toList ++ textsOf things := by
  cases key with
  | string text => rfl
  | null | bool | int | float | array | object => rfl

/-- A thing takes the place of the one at the front if both stand under the same text, and goes
further back otherwise. -/
theorem putUnchecked_cons (key k : Value) (thing t : α) (rest : Unchecked α) :
    (∃ name, key = .string name ∧ k = .string name
        ∧ putUnchecked key thing ((k, t) :: rest) = (k, thing) :: rest)
      ∨ (∀ name, key = .string name → k ≠ .string name)
        ∧ putUnchecked key thing ((k, t) :: rest) = (k, t) :: putUnchecked key thing rest := by
  cases key with
  | string a =>
    cases k with
    | string b =>
      by_cases hname : a = b
      · rw [hname]
        exact .inl ⟨b, rfl, rfl, if_pos rfl⟩
      · refine .inr ⟨?_, if_neg hname⟩
        intro name hkey hk
        exact hname ((Value.string.inj hkey).trans (Value.string.inj hk).symm)
    | null | bool | int | float | array | object => exact .inr ⟨fun name _ => by simp, rfl⟩
  | null | bool | int | float | array | object => exact .inr ⟨fun name hkey => by simp at hkey, rfl⟩

/-- Adding a thing under a text adds the text, unless it is there; under anything else it adds no
text. -/
theorem textsOf_putUnchecked (key : Value) (thing : α) (things : Unchecked α) :
    textsOf (putUnchecked key thing things)
      = textsOf things ++ key.text?.toList.filter fun name => name ∉ textsOf things := by
  induction things with
  | nil =>
    cases key with
    | string name => rfl
    | null | bool | int | float | array | object => rfl
  | cons first rest ih =>
    obtain ⟨k, t⟩ := first
    rcases putUnchecked_cons key k thing t rest with ⟨name, rfl, rfl, hput⟩ | ⟨hother, hput⟩
    · -- the text is there, so nothing is added
      rw [hput, textsOf_cons, textsOf_cons, List.filter_eq_nil_iff.mpr, List.append_nil]
      intro other hname
      simp [hname]
    · -- the thing at the front stands under another text, or under none
      have hfront : ∀ name ∈ key.text?.toList, name ∉ k.text?.toList := by
        intro name hname hk
        cases key with
        | string own =>
          cases k with
          | string text =>
            simp only [Value.text?, Option.toList_some, List.mem_singleton] at hname hk
            exact hother own rfl (by rw [← hname, ← hk])
          | null | bool | int | float | array | object => simp [Value.text?] at hk
        | null | bool | int | float | array | object => simp [Value.text?] at hname
      have hsame : (key.text?.toList.filter fun name => name ∉ k.text?.toList ++ textsOf rest)
          = key.text?.toList.filter fun name => name ∉ textsOf rest := by
        refine List.filter_congr fun name hname => ?_
        simp [hfront name hname]
      rw [hput, textsOf_cons, textsOf_cons, ih, hsame, List.append_assoc]

/-- Things that are built one after the other have different texts as names. -/
theorem nodup_textsOf_buildNamed {build : Entries Value → Build α} {descriptions : List Value}
    {things : Unchecked α} (h : buildNamed build descriptions = .ok things) :
    (textsOf things).Nodup := by
  have hnone : (textsOf ([] : Unchecked α)).Nodup := List.nodup_nil
  refine foldlM_preserves (fun things : Unchecked α => (textsOf things).Nodup) hnone ?_ h
  intro before description _ after hbefore hstep
  obtain ⟨members, -, hstep⟩ := (bind_eq_ok_iff _ _ _).mp hstep
  obtain ⟨key, -, hstep⟩ := (bind_eq_ok_iff _ _ _).mp hstep
  obtain ⟨built, -, hstep⟩ := (bind_eq_ok_iff _ _ _).mp hstep
  obtain ⟨name, -, hstep⟩ := (bind_eq_ok_iff _ _ _).mp hstep
  rw [← Except.ok.inj hstep, textsOf_putUnchecked, List.nodup_append]
  have hone : (name.text?.toList).Nodup := by
    cases name.text? with
    | none => exact List.nodup_nil
    | some text => exact List.nodup_singleton text
  refine ⟨hbefore, hone.filter _, ?_⟩
  rintro other hother _ hnew rfl
  exact of_decide_eq_true (List.mem_filter.mp hnew).2 hother

/-- Things whose names are checked stand under texts. -/
theorem keys_of_checkNames {things : Unchecked α} {checked : Entries α}
    (h : checkNames things = .ok checked) : Entries.keys checked = textsOf things := by
  have hplaces := mapM_eq_ok_iff.mp h
  clear h
  induction hplaces with
  | nil => rfl
  | @cons thing entry things checked hfirst _ ih =>
    obtain ⟨key, built⟩ := thing
    obtain ⟨name, hname, hentry⟩ := (bind_eq_ok_iff _ _ _).mp hfirst
    have hkey : key = .string name := eq_string_of_checkName hname
    rw [← Except.ok.inj hentry, hkey]
    exact congrArg (name :: ·) ih

/-- Fields that are built have different names. -/
theorem nodup_keys_of_checkNames {build : Entries Value → Build α} {descriptions : List Value}
    {things : Unchecked α} {checked : Entries α}
    (hbuilt : buildNamed build descriptions = .ok things)
    (hchecked : checkNames things = .ok checked) : (Entries.keys checked).Nodup := by
  rw [keys_of_checkNames hchecked]
  exact nodup_textsOf_buildNamed hbuilt

theorem nodup_keys_of_buildFields {types : Entries Described} {members : Entries Value}
    {things : Unchecked TypeRef} {checked : Entries TypeRef}
    (hbuilt : buildFields types members = .ok things) (hchecked : checkNames things = .ok checked) :
    (Entries.keys checked).Nodup := by
  unfold buildFields at hbuilt
  dsimp only at hbuilt
  split at hbuilt
  · simp at hbuilt
  · obtain ⟨items, -, hbuilt⟩ := (bind_eq_ok_iff _ _ _).mp hbuilt
    exact nodup_keys_of_checkNames hbuilt hchecked

/-- The fields of the types that belong to every schema have different names. -/
theorem nodup_fields_declarations :
    ∀ entry ∈ MetaType.declarations, (Entries.keys entry.2.fields).Nodup := by
  decide

/-- A type that is read has fields with different names, once its facets are worked out. -/
theorem nodup_fields_of_finish {types : Entries Described} {name : Text} {described : Described}
    {type : SchemaType}
    (hbuiltIn : ∀ known, described = .builtIn known → (Entries.keys known.fields).Nodup)
    (h : finish types name described = .ok type) : (Entries.keys type.fields).Nodup := by
  cases described with
  | builtIn known =>
    rw [← Except.ok.inj h]
    exact hbuiltIn known rfl
  | scalar | enum =>
    rw [← Except.ok.inj h]
    exact List.nodup_nil
  | object members | interface members =>
    obtain ⟨_, -, h⟩ := (bind_eq_ok_iff _ _ _).mp h
    obtain ⟨things, hthings, h⟩ := (bind_eq_ok_iff _ _ _).mp h
    obtain ⟨fields, hfields, h⟩ := (bind_eq_ok_iff _ _ _).mp h
    rw [← Except.ok.inj h]
    exact nodup_keys_of_buildFields (facet_eq_ok_iff.mp hthings) hfields
  | union members possible =>
    obtain ⟨_, -, h⟩ := (bind_eq_ok_iff _ _ _).mp h
    rw [← Except.ok.inj h]
    exact List.nodup_nil
  | inputObject members listed =>
    obtain ⟨_, -, h⟩ := (bind_eq_ok_iff _ _ _).mp h
    obtain ⟨_, -, h⟩ := (bind_eq_ok_iff _ _ _).mp h
    rw [← Except.ok.inj h]
    exact List.nodup_nil

theorem nodup_fields_of_finishes {types rest : Entries Described} {finished : Entries SchemaType}
    (hbuiltIn : ∀ entry ∈ rest, ∀ known, entry.2 = .builtIn known →
      (Entries.keys known.fields).Nodup)
    (h : List.Forall₂ (Finishes types) rest finished) :
    ∀ entry ∈ finished, (Entries.keys entry.2.fields).Nodup := by
  induction h with
  | nil => exact fun entry hentry => absurd hentry List.not_mem_nil
  | cons hfirst _ ih =>
    obtain ⟨hknown, hrest⟩ := List.forall_mem_cons.mp hbuiltIn
    exact List.forall_mem_cons.mpr ⟨nodup_fields_of_finish hknown hfirst.2, ih hrest⟩

/-- The fields of every type of a schema that is built have different names. -/
theorem nodup_fields_of_build {data : Value} {schema : Schema} (h : build data = .ok schema) :
    ∀ entry ∈ schema.types, (Entries.keys entry.2.fields).Nodup := by
  obtain ⟨members, entries, types, hbuilds⟩ := (build_eq_ok_iff data schema).mp h
  have hbuiltIn : ∀ entry ∈ types, ∀ known, entry.2 = .builtIn known →
      (Entries.keys known.fields).Nodup := by
    refine forall_mem_of_describeAll (fun described => ∀ known, described = .builtIn known →
      (Entries.keys known.fields).Nodup) ?_ hbuilds.read
    rintro members - name described hdescribed known rfl
    -- only a type that belongs to every schema is taken as it is
    rcases describe_cases hdescribed with ⟨key, type, hget, hsame⟩ | hother
    · rw [Described.builtIn.inj hsame]
      exact nodup_fields_declarations _ (Entries.mem_of_get?_eq_some hget)
    · simp at hother
  exact nodup_fields_of_finishes hbuiltIn hbuilds.finished

end FieldAudit.Introspection
