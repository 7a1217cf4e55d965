import FieldAudit.Proofs.Exchange.Fetched
import FieldAudit.Proofs.Introspection.Bare

/-!
What data declare, against what the schema lists that is built from them. If the data name every
type and every field of a type once, the listing has an entry for each described object type,
introspection aside, in the order of the data, with the fields in the order of the data
(`listing_of_build`). What a type refers to, and whether anything refers to it, has no part in that.
-/

set_option autoImplicit false

namespace FieldAudit.Introspection

open Json (Value)

variable {α : Type}

/-! ## 1. What data declare -/

/-- The items of the list under a key; nothing else has any. -/
def itemsUnder (key : Text) (members : Entries Value) : List Value :=
  match Value.member key members with
  | .array items => items
  | _ => []

/-- The name in a description. -/
def nameIn (description : Value) : Option Text :=
  (Value.member "name" (description.members?.getD [])).text?

/-- The names in the descriptions that are listed under a key. -/
def namesUnder (key : Text) (members : Entries Value) : List Text :=
  (itemsUnder key members).filterMap nameIn

/-- The name of a described object type, introspection aside, with the names of its fields. -/
def declaredObject? (description : Value) : Option (Text × List Text) :=
  let members := description.members?.getD []
  match nameIn description with
  | some name =>
    if (Value.member "kind" members).word? = some "OBJECT" ∧ Schema.isReservedName name = false then
      some (name, namesUnder "fields" members)
    else none
  | none => none

/-- The description of a schema in data. -/
def schemaMembers (data : Value) : Entries Value :=
  (Value.member "__schema" (data.members?.getD [])).members?.getD []

/-- The object types that data describe, introspection aside, with the names of their fields. -/
def declaredObjects (data : Value) : Entries (List Text) :=
  (itemsUnder "types" (schemaMembers data)).filterMap declaredObject?

theorem schemaMembers_of_description {data : Value} {members : Entries Value}
    (h : description data = .ok members) : schemaMembers data = members := by
  unfold description at h
  split at h
  · split at h
    · next outer described hmember =>
      rw [schemaMembers, Value.members?, Option.getD_some, hmember, ← Except.ok.inj h]
      rfl
    · simp at h
  · simp at h

/-- The items of a value are those of a list, as far as something is made of descriptions only. -/
theorem filterMap_itemsOf {f : Value → Option α} (hf : ∀ t, f (.string t) = none) {key : Text}
    {members : Entries Value} {items : List Value}
    (h : itemsOf (Value.member key members) = .ok items) :
    items.filterMap f = (itemsUnder key members).filterMap f := by
  have hitems := itemsOf_eq_ok_iff.mp h
  unfold itemsUnder
  cases hvalue : Value.member key members with
  | array own =>
    rw [hvalue] at hitems
    rw [← Except.ok.inj hitems]
  | string text =>
    rw [hvalue] at hitems
    rw [← Except.ok.inj hitems, List.filterMap_map, List.filterMap_nil, List.filterMap_eq_nil_iff]
    exact fun p _ => hf [p]
  | object own =>
    rw [hvalue] at hitems
    rw [← Except.ok.inj hitems, List.filterMap_map, List.filterMap_nil, List.filterMap_eq_nil_iff]
    exact fun member _ => hf member.1
  | null | bool | int | float =>
    rw [hvalue] at hitems
    simp [Value.itemsOf] at hitems

/-! ## 2. Types -/

/-- What a description under a name can be read as: the built-in type of the name; an object type,
if that is its kind; and neither of them, if it is not. -/
inductive ReadAs (members : Entries Value) (name : Text) : Described → Prop
  | builtIn {type : SchemaType} (hget : Entries.get? name MetaType.declarations = some type) :
      ReadAs members name (.builtIn type)
  | object (hkind : (Value.member "kind" members).word? = some "OBJECT") :
      ReadAs members name (.object members)
  | other {described : Described} (hkind : (Value.member "kind" members).word? ≠ some "OBJECT")
      (hbuiltIn : ∀ type, described ≠ .builtIn type) (hobject : ∀ own, described ≠ .object own) :
      ReadAs members name described

/-- A description is read under a name that is a text, and as its kind and its name say. -/
theorem exists_readAs {members : Entries Value} {name : Value} {described : Described}
    (h : describe members name = .ok described) :
    ∃ text, name = .string text ∧ ReadAs members text described := by
  by_cases hkind : (Value.member "kind" members).word? = some "OBJECT"
  · rw [describe_of_object hkind] at h
    rcases orBuiltIn_eq_ok h with ⟨text, type, hname, hget, rfl⟩ | hread
    · exact ⟨text, hname, .builtIn hget⟩
    · obtain ⟨⟨text, hname⟩, rfl⟩ := named_eq_ok hread
      exact ⟨text, hname, .object hkind⟩
  · -- whatever else the kind is, it is read under a text, and as no object type unless the text is
    -- built in
    have hother : ∀ {kept : Described},
        (∀ type, kept ≠ .builtIn type) → (∀ own, kept ≠ .object own) →
        (∃ text, name = .string text) ∧ described = kept →
          ∃ text, name = .string text ∧ ReadAs members text described := by
      rintro kept hbuiltIn hobject ⟨⟨text, hname⟩, rfl⟩
      exact ⟨text, hname, .other hkind hbuiltIn hobject⟩
    unfold describe at h
    dsimp only at h
    cases hget : Entries.get? (Text.ofString "kind") members with
    | none =>
      rw [hget] at h
      simp at h
    | some kind =>
      rw [Value.member, hget, Option.getD_some] at hkind
      rw [hget] at h
      obtain ⟨key, hkey, h⟩ := (bind_eq_ok_iff _ _ _).mp h
      rw [asKey_eq_ok hkey] at h
      split at h
      · rcases orBuiltIn_eq_ok h with ⟨text, type, hname, htype, rfl⟩ | hread
        · exact ⟨text, hname, .builtIn htype⟩
        · exact hother (by simp) (by simp) (named_eq_ok hread)
      · next hword => exact absurd hword hkind
      · exact hother (by simp) (by simp) (notBuiltIn_eq_ok h)
      · obtain ⟨possible, -, h⟩ := (bind_eq_ok_iff _ _ _).mp h
        exact hother (by simp) (by simp) (notBuiltIn_eq_ok h)
      · obtain ⟨values, -, h⟩ := (bind_eq_ok_iff _ _ _).mp h
        rcases orBuiltIn_eq_ok h with ⟨text, type, hname, htype, rfl⟩ | hread
        · exact ⟨text, hname, .builtIn htype⟩
        · obtain ⟨_, -, hread⟩ := (bind_eq_ok_iff _ _ _).mp hread
          exact hother (by simp) (by simp) (named_eq_ok hread)
      · obtain ⟨fields, -, h⟩ := (bind_eq_ok_iff _ _ _).mp h
        exact hother (by simp) (by simp) (notBuiltIn_eq_ok h)
      · simp at h

/-- A description is read under its name. -/
def Reads (entry : Value) (type : Text × Described) : Prop :=
  ∃ members, entry = .object members ∧ nameIn entry = some type.1 ∧ ReadAs members type.1 type.2

/-- The step that reads one description after others. -/
def readNext (types : Entries Described) (entry : Value) : Build (Entries Described) := do
  let members ← membersOf entry
  let name ← require "name" members
  let described ← describe members name
  match name with
  | .string name => return Entries.put name described types
  | _ => return types

theorem describeAll_eq (entries : List Value) : describeAll entries = entries.foldlM readNext [] :=
  rfl

theorem nameIn_object {members : Entries Value} {value : Value}
    (h : require "name" members = .ok value) :
    nameIn (.object members) = value.text? := by
  have hmember : Value.member "name" members = value := by
    rw [Value.member, get?_of_require h, Option.getD_some]
  rw [nameIn, Value.members?, Option.getD_some, hmember]

/-- What the next description adds: a type under its name. -/
theorem exists_reads_of_readNext {before after : Entries Described} {entry : Value}
    (h : readNext before entry = .ok after) :
    ∃ type, Reads entry type ∧ after = Entries.put type.1 type.2 before := by
  obtain ⟨members, hmembers, h⟩ := (bind_eq_ok_iff _ _ _).mp h
  obtain ⟨name, hname, h⟩ := (bind_eq_ok_iff _ _ _).mp h
  obtain ⟨described, hdescribed, h⟩ := (bind_eq_ok_iff _ _ _).mp h
  obtain ⟨text, rfl, hread⟩ := exists_readAs hdescribed
  have hentry : entry = .object members := membersOf_eq_ok hmembers
  refine ⟨(text, described), ⟨members, hentry, ?_, hread⟩, (Except.ok.inj h).symm⟩
  rw [hentry, nameIn_object hname]
  rfl

/-- Descriptions with different names are read one by one, in order. -/
theorem exists_forall₂_reads {entries : List Value} {before types : Entries Described}
    (h : entries.foldlM readNext before = .ok types)
    (hnodup : (Entries.keys before ++ entries.filterMap nameIn).Nodup) :
    ∃ more, types = before ++ more ∧ List.Forall₂ Reads entries more := by
  induction entries generalizing before with
  | nil => exact ⟨[], by rw [List.append_nil, Except.ok.inj h], .nil⟩
  | cons entry entries ih =>
    rw [List.foldlM_cons] at h
    obtain ⟨next, hnext, h⟩ := (bind_eq_ok_iff _ _ _).mp h
    obtain ⟨type, hread, rfl⟩ := exists_reads_of_readNext hnext
    obtain ⟨members, -, hname, -⟩ := id hread
    rw [List.filterMap_cons_some hname] at hnodup
    -- the name is new, so the type comes last
    have hnew : type.1 ∉ Entries.keys before := by
      intro hmem
      exact (List.nodup_append.mp hnodup).2.2 _ hmem _ List.mem_cons_self rfl
    rw [Entries.put_of_not_mem hnew] at h
    have hkeys : Entries.keys (before ++ [(type.1, type.2)]) = Entries.keys before ++ [type.1] := by
      rw [Entries.keys, List.map_append]
      rfl
    obtain ⟨more, rfl, hmore⟩ := ih h (by rwa [hkeys, List.append_assoc])
    exact ⟨type :: more, List.append_assoc _ _ _, .cons hread hmore⟩

/-! ## 3. Fields -/

/-- The step that builds one thing after others. -/
def buildNext (build : Entries Value → Build α) (things : Unchecked α) (entry : Value) :
    Build (Unchecked α) := do
  let members ← membersOf entry
  let key ← require "name" members
  let thing ← build members
  let key ← matching key.asKey
  return putUnchecked key thing things

theorem buildNamed_eq (build : Entries Value → Build α) (entries : List Value) :
    buildNamed build entries = entries.foldlM (buildNext build) [] := rfl

/-- Things with different names are built one by one, in order. -/
theorem textsOf_of_foldlM {build : Entries Value → Build α} {entries : List Value}
    {before things : Unchecked α} (h : entries.foldlM (buildNext build) before = .ok things)
    (hnodup : (textsOf before ++ entries.filterMap nameIn).Nodup) :
    textsOf things = textsOf before ++ entries.filterMap nameIn := by
  induction entries generalizing before with
  | nil => rw [Except.ok.inj h, List.filterMap_nil, List.append_nil]
  | cons entry entries ih =>
    rw [List.foldlM_cons] at h
    obtain ⟨next, hnext, h⟩ := (bind_eq_ok_iff _ _ _).mp h
    obtain ⟨members, hmembers, hnext⟩ := (bind_eq_ok_iff _ _ _).mp hnext
    obtain ⟨key, hkey, hnext⟩ := (bind_eq_ok_iff _ _ _).mp hnext
    obtain ⟨thing, -, hnext⟩ := (bind_eq_ok_iff _ _ _).mp hnext
    obtain ⟨same, hsame, hnext⟩ := (bind_eq_ok_iff _ _ _).mp hnext
    rw [asKey_eq_ok hsame] at hnext
    have hname : nameIn entry = key.text? := by rw [membersOf_eq_ok hmembers, nameIn_object hkey]
    have hcons : (entry :: entries).filterMap nameIn
        = key.text?.toList ++ entries.filterMap nameIn := by
      rw [← hname]
      cases hnone : nameIn entry with
      | none => exact List.filterMap_cons_none hnone
      | some name => exact List.filterMap_cons_some hnone
    rw [hcons, ← List.append_assoc] at hnodup ⊢
    have hnew : ∀ name, key.text? = some name → name ∉ textsOf before := by
      intro name hsome hmem
      rw [hsome] at hnodup
      exact (List.nodup_append.mp (List.nodup_append.mp hnodup).1).2.2 _ hmem _
        List.mem_cons_self rfl
    have hnextTexts : textsOf next = textsOf before ++ key.text?.toList := by
      rw [← Except.ok.inj hnext, textsOf_putUnchecked, List.filter_eq_self.mpr]
      exact fun name hname => decide_eq_true (hnew name (Option.mem_toList.mp hname))
    rw [← hnextTexts] at hnodup ⊢
    exact ih h hnodup

/-- The fields of a type have the names that its description lists, in order. -/
theorem keys_of_buildFields {types : Entries Described} {members : Entries Value}
    {things : Unchecked TypeRef} {fields : Entries TypeRef}
    (hbuilt : buildFields types members = .ok things) (hchecked : checkNames things = .ok fields)
    (hnodup : (namesUnder "fields" members).Nodup) :
    Entries.keys fields = namesUnder "fields" members := by
  unfold buildFields at hbuilt
  dsimp only at hbuilt
  split at hbuilt
  · simp at hbuilt
  · obtain ⟨items, hitems, hbuilt⟩ := (bind_eq_ok_iff _ _ _).mp hbuilt
    have hnames : items.filterMap nameIn = namesUnder "fields" members :=
      filterMap_itemsOf (fun _ => rfl) hitems
    rw [keys_of_checkNames hchecked, ← hnames]
    rw [← hnames] at hnodup
    rw [buildNamed_eq] at hbuilt
    exact textsOf_of_foldlM hbuilt hnodup

/-! ## 4. The listing -/

/-- What the listing of a schema has of a type. -/
def listedObject? (entry : Text × SchemaType) : Option (Text × List Text) :=
  match entry.2 with
  | .object fields =>
    if Schema.isReservedName entry.1 then none else some (entry.1, Entries.keys fields)
  | _ => none

theorem listing_eq (schema : Schema) : schema.listing = schema.types.filterMap listedObject? := rfl

/-- The names of the built-in scalars. -/
def scalarNames : List Text := ["Int", "Float", "String", "Boolean", "ID"]

/-- A built-in type is a scalar, or its name is reserved. -/
theorem builtIn_cases : ∀ entry ∈ MetaType.declarations,
    (entry.1 ∈ scalarNames ∧ entry.2 = .scalar) ∨ Schema.isReservedName entry.1 = true := by
  decide

theorem listedObject?_of_isReserved {name : Text} (h : Schema.isReservedName name = true)
    (type : SchemaType) :
    listedObject? (name, type) = none := by
  unfold listedObject?
  cases type with
  | object fields => exact if_pos h
  | scalar | interface | union | enum | inputObject => rfl

/-- Of a type that is neither built in nor an object type, the listing has nothing. -/
theorem listedObject?_of_finish {types : Entries Described} {name : Text} {described : Described}
    {type : SchemaType} (hbuiltIn : ∀ known, described ≠ .builtIn known)
    (hobject : ∀ own, described ≠ .object own) (h : finish types name described = .ok type) :
    listedObject? (name, type) = none := by
  cases described with
  | builtIn known => exact absurd rfl (hbuiltIn known)
  | object own => exact absurd rfl (hobject own)
  | scalar | enum =>
    rw [← Except.ok.inj h]
    rfl
  | union own possible =>
    obtain ⟨_, -, h⟩ := (bind_eq_ok_iff _ _ _).mp h
    rw [← Except.ok.inj h]
    rfl
  | interface own =>
    obtain ⟨_, -, h⟩ := (bind_eq_ok_iff _ _ _).mp h
    obtain ⟨_, -, h⟩ := (bind_eq_ok_iff _ _ _).mp h
    obtain ⟨_, -, h⟩ := (bind_eq_ok_iff _ _ _).mp h
    rw [← Except.ok.inj h]
    rfl
  | inputObject own fields =>
    obtain ⟨_, -, h⟩ := (bind_eq_ok_iff _ _ _).mp h
    obtain ⟨_, -, h⟩ := (bind_eq_ok_iff _ _ _).mp h
    rw [← Except.ok.inj h]
    rfl

/-- What a description with a name declares. -/
theorem declaredObject?_of_nameIn {members : Entries Value} {name : Text}
    (hname : nameIn (.object members) = some name) :
    declaredObject? (.object members)
      = if (Value.member "kind" members).word? = some "OBJECT"
        ∧ Schema.isReservedName name = false then
          some (name, namesUnder "fields" members)
        else none := by
  unfold declaredObject?
  rw [hname]
  rfl

/-- Under a reserved name nothing is declared. -/
theorem declaredObject?_of_isReserved {members : Entries Value} {name : Text}
    (hname : nameIn (.object members) = some name) (hreserved : Schema.isReservedName name = true) :
    declaredObject? (.object members) = none := by
  rw [declaredObject?_of_nameIn hname, if_neg]
  rw [hreserved]
  simp

/-- A description declares nothing but a type under its own name. -/
theorem eq_of_declaredObject?_eq_some {members : Entries Value} {name : Text}
    {object : Text × List Text} (hname : nameIn (.object members) = some name)
    (h : declaredObject? (.object members) = some object) :
    object.1 = name := by
  rw [declaredObject?_of_nameIn hname] at h
  split at h
  · rw [← Option.some.inj h]
  · simp at h

/-- Of a built-in type the listing has nothing, and a description under its name declares nothing,
unless it is an object type with the name of a scalar. -/
theorem listedObject?_of_builtIn {members : Entries Value} {name : Text} {known : SchemaType}
    (hname : nameIn (.object members) = some name)
    (hget : Entries.get? name MetaType.declarations = some known)
    (hscalar : ∀ object, declaredObject? (.object members) = some object → object.1 ∉ scalarNames) :
    listedObject? (name, known) = none ∧ declaredObject? (.object members) = none := by
  rcases builtIn_cases _ (Entries.mem_of_get?_eq_some hget) with
    ⟨hscalarName, hscalarType⟩ | hreserved
  · dsimp only at hscalarName hscalarType
    refine ⟨by rw [hscalarType]; rfl, ?_⟩
    rw [Option.eq_none_iff_forall_ne_some]
    intro object hobject
    apply hscalar object hobject
    rwa [eq_of_declaredObject?_eq_some hname hobject]
  · exact ⟨listedObject?_of_isReserved hreserved known,
      declaredObject?_of_isReserved hname hreserved⟩

/-- What the listing has of a described object type is what the description declares. -/
theorem listedObject?_of_object {types : Entries Described} {members : Entries Value} {name : Text}
    {type : SchemaType} (hname : nameIn (.object members) = some name)
    (hkind : (Value.member "kind" members).word? = some "OBJECT")
    (hfinish : finish types name (.object members) = .ok type)
    (hfields : (namesUnder "fields" members).Nodup) :
    listedObject? (name, type) = declaredObject? (.object members) := by
  obtain ⟨_, -, hfinish⟩ := (bind_eq_ok_iff _ _ _).mp hfinish
  obtain ⟨things, hthings, hfinish⟩ := (bind_eq_ok_iff _ _ _).mp hfinish
  obtain ⟨fields, hchecked, hfinish⟩ := (bind_eq_ok_iff _ _ _).mp hfinish
  have hkeys : Entries.keys fields = namesUnder "fields" members :=
    keys_of_buildFields (facet_eq_ok_iff.mp hthings) hchecked hfields
  rw [← Except.ok.inj hfinish]
  cases hreserved : Schema.isReservedName name with
  | true =>
    rw [listedObject?_of_isReserved hreserved, declaredObject?_of_isReserved hname hreserved]
  | false =>
    rw [declaredObject?_of_nameIn hname, if_pos ⟨hkind, hreserved⟩, ← hkeys, listedObject?]
    dsimp only
    rw [hreserved, if_neg Bool.false_ne_true]

/-- What the listing has of a type is what its description declares, whatever the other types
are. -/
theorem listedObject?_eq_declaredObject? {types : Entries Described} {entry : Value}
    {type : Text × Described} {finished : Text × SchemaType} (hread : Reads entry type)
    (hfinished : Finishes types type finished)
    (hfields : (namesUnder "fields" (entry.members?.getD [])).Nodup)
    (hscalar : ∀ object, declaredObject? entry = some object → object.1 ∉ scalarNames) :
    listedObject? finished = declaredObject? entry := by
  obtain ⟨members, rfl, hname, hread⟩ := hread
  obtain ⟨name, described⟩ := type
  obtain ⟨finishedName, finishedType⟩ := finished
  obtain ⟨hsame, hfinish⟩ := hfinished
  dsimp only at hsame hfinish hname hread
  subst finishedName
  cases hread with
  | @builtIn known hget =>
    obtain ⟨hlisted, hnone⟩ := listedObject?_of_builtIn hname hget hscalar
    rw [← Except.ok.inj hfinish, hlisted, hnone]
  | object hkind => exact listedObject?_of_object hname hkind hfinish hfields
  | other hkind hbuiltIn hobject =>
    rw [declaredObject?_of_nameIn hname, if_neg fun hboth => hkind hboth.1]
    exact listedObject?_of_finish hbuiltIn hobject hfinish

/-- The listing of the types that come of descriptions is what the descriptions declare. -/
theorem filterMap_listedObject? {known types : Entries Described} {entries : List Value}
    {finished : Entries SchemaType} (hreads : List.Forall₂ Reads entries types)
    (hfinished : List.Forall₂ (Finishes known) types finished)
    (hfields : ∀ entry ∈ entries, (namesUnder "fields" (entry.members?.getD [])).Nodup)
    (hscalars : ∀ object ∈ entries.filterMap declaredObject?, object.1 ∉ scalarNames) :
    finished.filterMap listedObject? = entries.filterMap declaredObject? := by
  induction hreads generalizing finished with
  | nil =>
    cases hfinished
    rfl
  | @cons entry type entries types hread _ ih =>
    cases hfinished with
    | @cons _ first _ rest hfirst hrest =>
      obtain ⟨hfield, hfields⟩ := List.forall_mem_cons.mp hfields
      have hscalar : ∀ object, declaredObject? entry = some object → object.1 ∉ scalarNames := by
        intro object hobject
        exact hscalars object (List.mem_filterMap.mpr ⟨entry, List.mem_cons_self, hobject⟩)
      have hothers : ∀ object ∈ entries.filterMap declaredObject?, object.1 ∉ scalarNames := by
        intro object hobject
        obtain ⟨other, hmem, hother⟩ := List.mem_filterMap.mp hobject
        exact hscalars object (List.mem_filterMap.mpr ⟨other, List.mem_cons_of_mem _ hmem, hother⟩)
      rw [List.filterMap_cons, List.filterMap_cons,
        listedObject?_eq_declaredObject? hread hfirst hfield hscalar, ih hrest hfields hothers]

/-- Only a list of descriptions is read. -/
theorem items_of_reads {value : Value} {entries : List Value} {types : Entries Described}
    (hitems : itemsOf value = .ok entries) (hreads : List.Forall₂ Reads entries types) :
    ∀ entry ∈ entries, ∃ items, value = .array items ∧ entry ∈ items := by
  intro entry hentry
  obtain ⟨members, rfl⟩ : ∃ members, entry = .object members := by
    clear hitems
    induction hreads with
    | nil => exact absurd hentry List.not_mem_nil
    | cons hread _ ih =>
      rcases List.mem_cons.mp hentry with rfl | hentry
      · obtain ⟨members, hmembers, -⟩ := hread
        exact ⟨members, hmembers⟩
      · exact ih hentry
  have hvalue := itemsOf_eq_ok_iff.mp hitems
  cases value with
  | array items =>
    rw [← Except.ok.inj hvalue] at hentry
    exact ⟨items, rfl, hentry⟩
  | string text =>
    rw [← Except.ok.inj hvalue] at hentry
    simp at hentry
  | object own =>
    rw [← Except.ok.inj hvalue] at hentry
    simp at hentry
  | null | bool | int | float => simp [Value.itemsOf] at hvalue

/-- If data name every type once, and every field of a type once, and no object type has the name of
a built-in scalar, then the schema that is built from them lists the object types that they
declare. -/
theorem listing_of_build {data : Value} {schema : Schema} (h : build data = .ok schema)
    (htypes : (namesUnder "types" (schemaMembers data)).Nodup)
    (hfields : ∀ entry ∈ itemsUnder "types" (schemaMembers data),
      (namesUnder "fields" (entry.members?.getD [])).Nodup)
    (hscalars : ∀ object ∈ declaredObjects data, object.1 ∉ scalarNames) :
    schema.listing = declaredObjects data := by
  obtain ⟨members, entries, types, hbuilds⟩ := (build_eq_ok_iff data schema).mp h
  have hmembers := schemaMembers_of_description hbuilds.described
  rw [declaredObjects] at hscalars ⊢
  rw [hmembers] at htypes hfields hscalars ⊢
  -- what is read are the items under the key, as far as names and declarations go
  obtain ⟨value, hvalue, hitems⟩ := (bind_eq_ok_iff _ _ _).mp hbuilds.listed
  obtain rfl : Value.member "types" members = value := by
    rw [Value.member, get?_of_require hvalue, Option.getD_some]
  have hnames : entries.filterMap nameIn = namesUnder "types" members :=
    filterMap_itemsOf (fun _ => rfl) hitems
  have hdeclared := filterMap_itemsOf (f := declaredObject?) (fun _ => rfl) hitems
  rw [← hdeclared] at hscalars ⊢
  have hread := hbuilds.read
  rw [describeAll_eq] at hread
  obtain ⟨more, rfl, hreads⟩ := exists_forall₂_reads hread (by rwa [hnames])
  rw [listing_eq]
  refine filterMap_listedObject? hreads hbuilds.finished (fun entry hentry => ?_) hscalars
  obtain ⟨items, harray, hmem⟩ := items_of_reads hitems hreads entry hentry
  refine hfields entry ?_
  rw [itemsUnder, harray]
  exact hmem

end FieldAudit.Introspection
