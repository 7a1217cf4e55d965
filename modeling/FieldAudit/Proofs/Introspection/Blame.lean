import FieldAudit.Proofs.Introspection.Blemish

/-!
Where defects come from that do not just make an answer unusable. Every step of building a schema is
blamed, from the names of its types down to the default values of its arguments; so a defect of
names, of texts or of missing objects goes back to a blemish that stands somewhere in the data
(`blamed_build`), whatever the rest of the data is.
-/

set_option autoImplicit false

namespace FieldAudit.Introspection

open Json (Value)
open Json.Value (IsPart)

variable {attributes : Bool} {data : Value}

/-! ## 1. Types by name -/

theorem blamed_named {name : Value} (hname : NamedIn data name) (described : Described) :
    Blamed attributes data (named name described) := by
  unfold named
  exact (blamed_checkName hname).bind fun _ _ => blamed_ok _

theorem blamed_builtIn? (name : Value) : Blamed attributes data (builtIn? name) := by
  unfold builtIn?
  refine (blamed_matching _).bind fun key _ => ?_
  split <;> exact blamed_ok _

theorem blamed_orBuiltIn {name : Value} {build : Build Described}
    (h : Blamed attributes data build) : Blamed attributes data (orBuiltIn name build) := by
  unfold orBuiltIn
  refine (blamed_builtIn? name).bind fun builtIn _ => ?_
  cases builtIn with
  | some type => exact blamed_ok _
  | none => exact h

theorem blamed_notBuiltIn {name : Value} (hname : NamedIn data name) (described : Described) :
    Blamed attributes data (notBuiltIn name described) := by
  unfold notBuiltIn
  refine (blamed_builtIn? name).bind fun builtIn _ => ?_
  split
  · exact blamed_error (.inl rfl)
  · exact blamed_named hname described

theorem blamed_checkEnumValues (values : Value) :
    Blamed attributes data (checkEnumValues values) := by
  unfold checkEnumValues
  refine (blamed_matching _).bind fun items _ => ?_
  refine (blamed_buildNamed fun _ _ => blamed_ok _).bind fun _ _ => ?_
  exact blamed_ok _

theorem blamed_describe {members : Entries Value} {name : Value} (hname : NamedIn data name) :
    Blamed attributes data (describe members name) := by
  have hunknown : Blamed attributes data
      (.error (.unknownKind (.object members)) : Build Described) :=
    blamed_error (.inl rfl)
  unfold describe
  dsimp only
  cases Entries.get? "kind" members with
  | none => exact hunknown
  | some kind =>
    refine (blamed_matching _).bind fun key _ => ?_
    -- a case for each kind, in the order of the definition
    split
    · exact blamed_orBuiltIn (blamed_named hname _)
    · exact blamed_orBuiltIn (blamed_named hname _)
    · exact blamed_notBuiltIn hname _
    · exact (blamed_requirePart _ _ _).bind fun possible _ => blamed_notBuiltIn hname _
    · refine (blamed_requirePart _ _ _).bind fun values _ => blamed_orBuiltIn ?_
      exact (blamed_checkEnumValues values).bind fun _ _ => blamed_named hname _
    · exact (blamed_requirePart _ _ _).bind fun fields _ => blamed_notBuiltIn hname _
    · exact hunknown

/-- What is kept of a description for later stands in the data. -/
def DescribedIn (data : Value) : Described → Prop
  | .object members | .interface members => IsPart (.object members) data
  | .inputObject members fields =>
    IsPart (.object members) data ∧ fields = Value.member "inputFields" members
  | _ => True

theorem describedIn_of_describe {members : Entries Value} {name : Value} {described : Described}
    (hpart : IsPart (.object members) data) (h : describe members name = .ok described) :
    DescribedIn data described := by
  rcases describe_cases h with ⟨_, _, -, rfl⟩ | rfl | rfl | rfl | ⟨_, rfl⟩ | rfl | rfl
  · trivial
  · trivial
  · exact hpart
  · exact hpart
  · trivial
  · trivial
  · exact ⟨hpart, rfl⟩

/-- The descriptions of types make no other defects than those that are blamed. -/
theorem blamed_describeAll {descriptions : List Value}
    (h : ∀ members, .object members ∈ descriptions → Listed data "types" members) :
    Blamed attributes data (describeAll descriptions) := by
  refine blamed_foldlM (fun types description hdescription => ?_) []
  refine (blamed_matching _).bind fun members hmembers => ?_
  rw [membersOf_eq_ok hmembers] at hdescription
  refine (blamed_require _ _).bind fun name hname => ?_
  have hnamed : NamedIn data name :=
    ⟨"types", by decide, members, h members hdescription, get?_of_require hname⟩
  refine (blamed_describe hnamed).bind fun described _ => ?_
  cases name with
  | string text => exact blamed_ok _
  | null | bool | int | float | array | object => exact blamed_ok _

theorem describedIn_of_describeAll {descriptions : List Value} {types : Entries Described}
    (hlisted : ∀ members, .object members ∈ descriptions → Listed data "types" members)
    (h : describeAll descriptions = .ok types) : ∀ entry ∈ types, DescribedIn data entry.2 := by
  refine forall_mem_of_describeAll (DescribedIn data) ?_ h
  intro members hmembers name described hdescribed
  exact describedIn_of_describe (hlisted members hmembers).isPart hdescribed

/-! ## 2. References -/

theorem depth_le_depthOfMembers {key : Text} {value : Value} {members : Entries Value}
    (h : (key, value) ∈ members) : depth value ≤ depthOfMembers members := by
  induction members with
  | nil => exact absurd h List.not_mem_nil
  | cons first rest ih =>
    obtain ⟨k, v⟩ := first
    rw [depthOfMembers]
    rcases List.mem_cons.mp h with hfirst | hrest
    · obtain ⟨rfl, rfl⟩ := Prod.mk.inj hfirst
      exact Nat.le_max_left _ _
    · exact Nat.le_trans (ih hrest) (Nat.le_max_right _ _)

/-- Where missing objects count, a reference is part of one that stands outside the facets of types,
and is a blemish if it is no object. -/
def Vouched (attributes : Bool) (data reference : Value) : Prop :=
  attributes = true → ∃ whole, Referenced data whole ∧ IsPart reference whole
    ∧ (reference.members? = none → Blemished data)

/-- Where missing objects do not count, nothing has to be known of a reference. -/
theorem vouched_false (reference : Value) : Vouched false data reference :=
  fun h => absurd h Bool.false_ne_true

theorem vouched_of_referenced {reference : Value}
    (h : attributes = true → Referenced data reference) :
    Vouched attributes data reference :=
  fun hattributes => ⟨reference, h hattributes, .self, .reference (h hattributes)⟩

theorem Vouched.blemished {reference : Value} (h : Vouched attributes data reference)
    (hattributes : attributes = true) (hnone : reference.members? = none) : Blemished data := by
  obtain ⟨whole, -, -, hobject⟩ := h hattributes
  exact hobject hnone

theorem blamed_noMembers {α : Type} {value : Value} (h : attributes = true → Blemished data) :
    Blamed attributes data (.error (.noMembers value) : Build α) := by
  intro defect herror hcounts
  rw [← Except.error.inj herror] at hcounts
  rcases hcounts with hname | hsyntax | ⟨hattributes, -⟩
  · simp [Defect.family] at hname
  · simp [Defect.family] at hsyntax
  · exact h hattributes

theorem blamed_askedMembers {value : Value}
    (h : attributes = true → value.members? = none → Blemished data) :
    Blamed attributes data (askedMembers value) := by
  cases value with
  | object members => exact blamed_ok members
  | null | bool | int | float | string | array =>
    exact blamed_noMembers fun hcounts => h hcounts rfl

theorem blamed_namedType (types : Entries Described) {reference : Value}
    (h : Vouched attributes data reference) :
    Blamed attributes data (namedType types reference) := by
  unfold namedType
  refine (blamed_askedMembers h.blemished).bind fun members _ => ?_
  dsimp only
  split
  · exact blamed_error (.inl rfl)
  · refine (blamed_matching _).bind fun key _ => ?_
    split
    · split
      · exact blamed_ok _
      · exact blamed_error (.inl rfl)
    · exact blamed_error (.inl rfl)

theorem blamed_wrapped (members : Entries Value) : Blamed attributes data (wrapped members) := by
  unfold wrapped
  dsimp only
  split
  · exact blamed_ok _
  · exact blamed_error (.inl rfl)

/-- What a wrapper wraps is vouched for as the wrapper is, and has fewer levels. -/
theorem Vouched.wrapped {members : Entries Value} {inner : Value}
    (h : Vouched attributes data (.object members)) (hinner : wrapped members = .ok inner) :
    Vouched attributes data inner ∧ depth inner ≤ depthOfMembers members := by
  obtain ⟨hmember, hgiven⟩ := wrapped_eq_ok hinner
  have hnull : inner.isNull = false := by
    cases inner with
    | null => simp [Value.isGiven] at hgiven
    | bool | int | float | string | array | object => rfl
  have hmem : (Text.ofString "ofType", inner) ∈ members := Value.mem_of_member_eq hmember hnull
  refine ⟨fun hattributes => ?_, depth_le_depthOfMembers hmem⟩
  obtain ⟨whole, hwhole, hpart, -⟩ := h hattributes
  refine ⟨whole, hwhole, (IsPart.member hmem .self).trans hpart, fun hnone => ?_⟩
  rw [← hmember] at hgiven hnone
  exact .wrapped hwhole hpart hgiven hnone

/-- The induction is on the levels, of which there are always enough: what is wrapped has fewer
levels than its wrapper, and at the last one stands no object. -/
theorem blamed_resolveWithin (types : Entries Described) {levels : Nat} {reference : Value}
    (hdepth : depth reference ≤ levels) (h : Vouched attributes data reference) :
    Blamed attributes data (resolveWithin types levels reference) := by
  induction levels generalizing reference with
  | zero =>
    have hnone : reference.members? = none := by
      cases reference with
      | object members => simp [depth] at hdepth
      | null | bool | int | float | string | array => rfl
    exact blamed_noMembers fun hcounts => h.blemished hcounts hnone
  | succ levels ih =>
    rw [resolveWithin]
    refine (blamed_askedMembers h.blemished).bind fun members hmembers => ?_
    obtain rfl := askedMembers_eq_ok hmembers
    rw [depth, Nat.add_le_add_iff_right] at hdepth
    have hwrapped : ∀ inner, wrapped members = .ok inner →
        Blamed attributes data (resolveWithin types levels inner) := by
      intro inner hinner
      obtain ⟨hvouched, hfewer⟩ := h.wrapped hinner
      exact ih (Nat.le_trans hfewer hdepth) hvouched
    split
    · refine (blamed_wrapped members).bind fun inner hinner => ?_
      exact (hwrapped inner hinner).bind fun found _ => blamed_ok _
    · refine (blamed_wrapped members).bind fun inner hinner => ?_
      refine (hwrapped inner hinner).bind fun ⟨type, described⟩ _ => ?_
      dsimp only
      split
      · exact blamed_error (.inl rfl)
      · exact blamed_ok _
    · exact (blamed_namedType types h).bind fun found _ => blamed_ok _

theorem blamed_resolve (types : Entries Described) {reference : Value}
    (h : Vouched attributes data reference) : Blamed attributes data (resolve types reference) :=
  blamed_resolveWithin types (Nat.le_refl _) h

theorem blamed_objectType (types : Entries Described) {reference : Value}
    (h : Vouched attributes data reference) :
    Blamed attributes data (objectType types reference) := by
  unfold objectType
  refine (blamed_resolve types h).bind fun ⟨type, described⟩ _ => ?_
  dsimp only
  split
  · exact blamed_ok _
  · exact blamed_error (.inl rfl)

theorem blamed_interfaceType (types : Entries Described) {reference : Value}
    (h : Vouched attributes data reference) :
    Blamed attributes data (interfaceType types reference) := by
  unfold interfaceType
  refine (blamed_resolve types h).bind fun ⟨type, described⟩ _ => ?_
  dsimp only
  split
  · exact blamed_ok _
  · exact blamed_error (.inl rfl)

/-! ## 3. Inputs, fields and directives -/

/-- A default value makes no other defects than those that are blamed, if missing objects count for
the arguments of directives alone. -/
theorem blamed_checkDefault {key : Text} {members : Entries Value}
    (hkey : key = "args" ∨ key = "inputFields") (hlisted : Listed data key members)
    (hcounted : attributes = true → ListedForDirective data members) :
    Blamed attributes data (checkDefault (Value.member "defaultValue" members)) := by
  cases hdefault : Value.member "defaultValue" members with
  | null => exact blamed_ok ()
  | string source =>
    rw [checkDefault, checkConstant]
    cases hread : GraphQL.parseConstant source with
    | ok literal => exact blamed_ok ()
    | error error =>
      refine (Blemished.default hkey hlisted hdefault fun literal hok => ?_).blamed _
      rw [hread] at hok
      simp at hok
  | array items =>
    rw [checkDefault]
    intro defect herror hcounts
    obtain ⟨problem, hproblem, rfl⟩ := (mapError_eq_error_iff _ _ _).mp herror
    -- a problem of items counts only as a missing object, and only where those count
    by_cases hlack : problem.isLack = true
    · have hattributes : attributes = true := by simpa [Counts, Defect.family, hlack] using hcounts
      exact .items (hcounted hattributes) hdefault hproblem hlack
    · simp [Counts, Defect.family, hlack] at hcounts
  | object inner =>
    cases inner with
    | nil => exact blamed_error (.inl rfl)
    | cons first rest => exact blamed_error (.inr rfl)
  | bool | int | float => exact blamed_error (.inl rfl)

theorem blamed_buildInput (use : Use) (types : Entries Described) {key : Text}
    {members : Entries Value} (hkey : key = "args" ∨ key = "inputFields")
    (hlisted : Listed data key members)
    (hcounted : attributes = true → ListedForDirective data members) :
    Blamed attributes data (buildInput use types members) := by
  unfold buildInput
  refine (blamed_require _ _).bind fun type htype => ?_
  have hvouched : Vouched attributes data type :=
    vouched_of_referenced fun hattributes =>
      .argument (hcounted hattributes) (get?_of_require htype)
  refine (blamed_resolve types hvouched).bind fun ⟨type, described⟩ _ => ?_
  dsimp only
  split
  · exact (blamed_error (.inl rfl)).bind fun _ _ => blamed_checkDefault hkey hlisted hcounted
  · exact blamed_checkDefault hkey hlisted hcounted

/-- What is built of a list has names that stand in the data. -/
theorem namedIn_of_buildNamed {α : Type} {build : Entries Value → Build α} {key : Text}
    (hkey : key ∈ namedLists) {descriptions : List Value} {things : Unchecked α}
    (hlisted : ∀ members, .object members ∈ descriptions → Listed data key members)
    (h : buildNamed build descriptions = .ok things) : ∀ thing ∈ things, NamedIn data thing.1 := by
  intro thing hthing
  obtain ⟨members, hmembers, hname⟩ := name_of_buildNamed h thing hthing
  exact ⟨key, hkey, members, hlisted members hmembers, hname⟩

section Arguments

variable (types : Entries Described) {owner : Entries Value}

/-- Where missing objects count, the arguments are those of a directive. -/
theorem blamed_buildArguments (howner : IsPart (.object owner) data)
    (hdirective : attributes = true → Listed data "directives" owner) :
    Blamed attributes data (buildArguments types (Value.member "args" owner)) := by
  unfold buildArguments
  refine (blamed_matching _).bind fun items hitems => ?_
  refine blamed_buildNamed fun members hmembers => ?_
  have hlist := array_of_itemsOf (itemsOf_eq_ok_iff.mp hitems) hmembers
  refine blamed_buildInput .argument types (.inl rfl) ⟨owner, items, howner, hlist, hmembers⟩ ?_
  exact fun hattributes => ⟨owner, items, hdirective hattributes, hlist, hmembers⟩

theorem namedIn_of_buildArguments (howner : IsPart (.object owner) data) {things : Unchecked Unit}
    (h : buildArguments types (Value.member "args" owner) = .ok things) :
    ∀ thing ∈ things, NamedIn data thing.1 := by
  unfold buildArguments at h
  obtain ⟨items, hitems, hbuilt⟩ := (bind_eq_ok_iff _ _ _).mp h
  refine namedIn_of_buildNamed (by decide : Text.ofString "args" ∈ namedLists) ?_ hbuilt
  exact fun members hmembers => listed_of_itemsOf howner (itemsOf_eq_ok_iff.mp hitems) hmembers

/-- A field stands in a facet, where missing objects do not count. -/
theorem blamed_buildField (howner : IsPart (.object owner) data) :
    Blamed false data (buildField types owner) := by
  unfold buildField
  refine (blamed_require _ _).bind fun type _ => ?_
  refine (blamed_resolve types (vouched_false type)).bind fun ⟨type, described⟩ _ => ?_
  have harguments : Blamed false data (do
      let given ← buildArguments types (← requirePart "field args" "args" owner)
      let _ ← checkNames given
      return type) := by
    refine (blamed_requirePart _ _ _).bind fun args hargs => ?_
    obtain rfl := member_of_requirePart hargs
    have hnone : false = true → Listed data "directives" owner :=
      fun h => absurd h Bool.false_ne_true
    refine (blamed_buildArguments types howner hnone).bind fun given hgiven => ?_
    refine (blamed_checkNames (namedIn_of_buildArguments types howner hgiven)).bind fun _ _ => ?_
    exact blamed_ok _
  dsimp only
  split
  · exact (blamed_error (.inl rfl)).bind fun _ _ => harguments
  · exact harguments

end Arguments

theorem blamed_checkLocations (directive : Text) (locations : List Value) :
    Blamed attributes data (checkLocations directive locations) := by
  unfold checkLocations
  split
  · exact blamed_ok ()
  · exact blamed_error (.inl rfl)

theorem blamed_checkDirective (types : Entries Described) {description : Value}
    (h : ∀ members, description = .object members → Listed data "directives" members)
    (hobject : description.members? = none → Blemished data) :
    Blamed attributes data (checkDirective types description) := by
  unfold checkDirective
  refine (blamed_askedMembers fun _ => hobject).bind fun members hmembers => ?_
  have hlisted := h members (askedMembers_eq_ok hmembers)
  refine (blamed_requirePart _ _ _).bind fun given hgiven => ?_
  refine (blamed_requirePart _ _ _).bind fun locations _ => ?_
  refine (blamed_require _ _).bind fun key hkey => ?_
  refine (blamed_matching _).bind fun places _ => ?_
  obtain rfl := member_of_requirePart hgiven
  refine (blamed_buildArguments types hlisted.isPart fun _ => hlisted).bind fun built hbuilt => ?_
  have hnamed : NamedIn data key :=
    ⟨"directives", by decide, members, hlisted, get?_of_require hkey⟩
  refine (blamed_checkName hnamed).bind fun name _ => ?_
  refine (blamed_checkLocations name places).bind fun _ _ => ?_
  refine (blamed_checkNames (namedIn_of_buildArguments types hlisted.isPart hbuilt)).bind
    fun _ _ => ?_
  exact blamed_ok _

/-! ## 4. Facets of types -/

theorem blamed_checkInterfaces (types : Entries Described) (optional : Bool)
    (members : Entries Value) :
    Blamed false data (checkInterfaces types optional members) := by
  unfold checkInterfaces
  dsimp only
  split
  · split
    · exact blamed_ok _
    · exact blamed_error (.inl rfl)
  · refine (blamed_matching _).bind fun items _ => ?_
    have hall : ∀ item ∈ items, Blamed false data (interfaceType types item) :=
      fun item _ => blamed_interfaceType types (vouched_false item)
    exact (blamed_mapM hall).bind fun _ _ => blamed_ok _

section Fields

variable (types : Entries Described) {owner : Entries Value} (howner : IsPart (.object owner) data)
include howner

theorem blamed_buildFields : Blamed false data (buildFields types owner) := by
  unfold buildFields
  dsimp only
  split
  · exact blamed_error (.inl rfl)
  · refine (blamed_matching _).bind fun items hitems => ?_
    refine blamed_buildNamed fun members hmembers => ?_
    have hlisted : Listed data "fields" members :=
      listed_of_itemsOf howner (itemsOf_eq_ok_iff.mp hitems) hmembers
    exact blamed_buildField types hlisted.isPart

theorem namedIn_of_buildFields {fields : Unchecked TypeRef}
    (h : buildFields types owner = .ok fields) :
    ∀ field ∈ fields, NamedIn data field.1 := by
  unfold buildFields at h
  dsimp only at h
  split at h
  · simp at h
  · obtain ⟨items, hitems, hbuilt⟩ := (bind_eq_ok_iff _ _ _).mp h
    refine namedIn_of_buildNamed (by decide : Text.ofString "fields" ∈ namedLists) ?_ hbuilt
    exact fun members hmembers => listed_of_itemsOf howner (itemsOf_eq_ok_iff.mp hitems) hmembers

theorem blamed_inputFields {name : Text} :
    Blamed attributes data (do
      let fields ← facet name .fields do
        buildNamed (buildInput .inputField types) (← itemsOf (Value.member "inputFields" owner))
      let _ ← checkNames fields
      return SchemaType.inputObject) := by
  have hlisted : ∀ items, itemsOf (Value.member "inputFields" owner) = .ok items →
      ∀ members, .object members ∈ items → Listed data "inputFields" members :=
    fun items hitems members hmembers =>
      listed_of_itemsOf howner (itemsOf_eq_ok_iff.mp hitems) hmembers
  have hbuilt : Blamed false data (do
      buildNamed (buildInput .inputField types)
        (← itemsOf (Value.member "inputFields" owner))) := by
    refine (blamed_matching _).bind fun items hitems => ?_
    refine blamed_buildNamed fun members hmembers => ?_
    refine blamed_buildInput .inputField types (.inr rfl) (hlisted items hitems members hmembers) ?_
    exact fun h => absurd h Bool.false_ne_true
  refine (blamed_facet hbuilt name .fields).bind fun fields hfields => ?_
  obtain ⟨items, hitems, hfields⟩ :=
    (bind_eq_ok_iff _ _ _).mp ((mapError_eq_ok_iff _ _ _).mp hfields)
  have hnamed : ∀ field ∈ fields, NamedIn data field.1 :=
    namedIn_of_buildNamed (by decide : Text.ofString "inputFields" ∈ namedLists)
      (hlisted items hitems) hfields
  exact (blamed_checkNames hnamed).bind fun _ _ => blamed_ok _

theorem blamed_outputType (name : Text) (optional : Bool) (close : Entries TypeRef → SchemaType) :
    Blamed attributes data (do
      facet name .interfaces (checkInterfaces types optional owner)
      let fields ← facet name .fields (buildFields types owner)
      return close (← checkNames fields)) := by
  have hinterfaces : Blamed false data (checkInterfaces types optional owner) :=
    blamed_checkInterfaces types optional owner
  refine (blamed_facet hinterfaces name .interfaces).bind fun _ _ => ?_
  refine (blamed_facet (blamed_buildFields types howner) name .fields).bind fun fields hfields => ?_
  have hnamed := namedIn_of_buildFields types howner ((mapError_eq_ok_iff _ _ _).mp hfields)
  exact (blamed_checkNames hnamed).bind fun _ _ => blamed_ok _

end Fields

theorem blamed_finish (types : Entries Described) (name : Text) {described : Described}
    (h : DescribedIn data described) : Blamed attributes data (finish types name described) := by
  -- what is kept of a description stands in the data, so the facets that are built from it can be
  -- blamed
  cases described with
  | builtIn type => exact blamed_ok type
  | scalar => exact blamed_ok _
  | enum => exact blamed_ok _
  | object members => exact blamed_outputType types h name false .object
  | interface members => exact blamed_outputType types h name true .interface
  | union members possible =>
    have hmembers : Blamed false data (do (← itemsOf possible).mapM (objectType types)) := by
      refine (blamed_matching _).bind fun items _ => ?_
      exact blamed_mapM fun item _ => blamed_objectType types (vouched_false item)
    exact (blamed_facet hmembers name .members).bind fun _ _ => blamed_ok _
  | inputObject members fields =>
    obtain ⟨hpart, rfl⟩ := h
    exact blamed_inputFields types hpart

/-! ## 5. Schemas -/

theorem data_of_description {members : Entries Value} (h : description data = .ok members) :
    IsPart (.object members) data := by
  unfold description at h
  split at h
  · next outer =>
    split at h
    · next found hfound =>
      rw [← Except.ok.inj h]
      exact .member (Value.mem_of_member_eq hfound rfl) .self
    · simp at h
  · simp at h

theorem blamed_description : Blamed attributes data (description data) := by
  unfold description
  split
  · split
    · exact blamed_ok _
    · exact blamed_error (.inl rfl)
  · exact blamed_error (.inl rfl)

theorem blamed_rootType (types : Entries Described) {members : Entries Value} {key : Text}
    (hdescription : description data = .ok members) (hkey : key ∈ rootKeys) :
    Blamed attributes data (rootType types (Value.member key members)) := by
  unfold rootType
  split
  · exact blamed_ok _
  · next hnull =>
    rw [Bool.not_eq_true] at hnull
    have hvouched : Vouched attributes data (Value.member key members) :=
      vouched_of_referenced fun _ => .root hdescription hkey rfl hnull
    exact (blamed_objectType types hvouched).map some

theorem blamed_directives (types : Entries Described) {members : Entries Value} {items : List Value}
    (hdescription : description data = .ok members)
    (hitems : itemsOf (Value.member "directives" members) = .ok items) :
    Blamed attributes data (items.forM (checkDirective types)) := by
  have hlist := itemsOf_eq_ok_iff.mp hitems
  have hpart := data_of_description hdescription
  refine blamed_forM fun item hitem => ?_
  refine blamed_checkDirective types (fun inner hinner => ?_) fun hnone => ?_
  · rw [hinner] at hitem
    exact listed_of_itemsOf hpart hlist hitem
  · exact .directive hdescription hlist hitem hnone

/-- **Where defects come from.** Building the schema that data describe fails with a defect of
names, of texts or of missing objects only if the data are blemished. -/
theorem blamed_build (data : Value) : Blamed true data (build data) := by
  unfold build
  -- in the order of the definition: the types by name, the root types, the directives and the
  -- facets
  refine blamed_description.bind fun members hdescription => ?_
  have hpart := data_of_description hdescription
  refine (blamed_require _ _).bind fun list hlist => ?_
  refine (blamed_matching _).bind fun items hitems => ?_
  have hlisted : ∀ inner, .object inner ∈ items → Listed data "types" inner := by
    intro inner hinner
    have hmember : Value.member "types" members = list := by
      rw [Value.member, get?_of_require hlist]
      rfl
    rw [← hmember] at hitems
    exact listed_of_itemsOf hpart (itemsOf_eq_ok_iff.mp hitems) hinner
  refine (blamed_describeAll hlisted).bind fun types htypes => ?_
  have hdescribed := describedIn_of_describeAll hlisted htypes
  refine (blamed_rootType types hdescription (by decide)).bind fun query? _ => ?_
  refine (blamed_rootType types hdescription (by decide)).bind fun mutation? _ => ?_
  refine (blamed_rootType types hdescription (by decide)).bind fun subscription? _ => ?_
  have hfinish : Blamed true data (types.mapM fun entry => do
      return (entry.1, ← finish types entry.1 entry.2)) := by
    refine blamed_mapM fun entry hentry => ?_
    refine (blamed_finish types entry.1 (hdescribed entry hentry)).bind fun _ _ => ?_
    exact blamed_ok _
  dsimp only
  split
  · refine (blamed_matching _).bind fun directives hdirectives => ?_
    refine (blamed_directives types hdescription hdirectives).bind fun _ _ => ?_
    exact hfinish.bind fun finished _ => blamed_ok _
  · exact hfinish.bind fun finished _ => blamed_ok _

end FieldAudit.Introspection
