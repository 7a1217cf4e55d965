import FieldAudit.Proofs.Exchange.Answer
import FieldAudit.Proofs.Introspection.Blame

/-!
What becomes of the data of an answer. A schema comes of data that describe one. Data with a defect
of kinds or of missing keys are reported as unusable; any other defect is not reported as a problem
of the answer. Such a defect goes back to a blemish that stands in the data, so data without
blemishes make a schema or are reported (`fetch_reported_unless_blemished`).
-/

set_option autoImplicit false

namespace FieldAudit.Exchange

open Introspection (Blemished build)
open Json (Value)

/-! ## 1. Failures -/

/-- A defect is reported as a problem exactly if it is of kinds or of missing keys; then the data
are unusable. -/
theorem failureOf_cases (defect : Introspection.Defect) :
    (failureOf defect = .problem (.unusable defect)
      ∧ ¬ Introspection.Counts true defect.family)
    ∨ (failureOf defect = .defect defect ∧ Introspection.Counts true defect.family) := by
  unfold failureOf Introspection.Counts
  cases defect.family with
  | type | key => exact .inl ⟨rfl, by simp⟩
  | _ => exact .inr ⟨rfl, by simp⟩

/-- Once there are data, fetching is building the schema that they describe. -/
theorem result_fetch {endpoint : Value} {headers : Entries Text} {verbose : Bool} {reply : Reply}
    {data : Value} (h : (introspect endpoint headers verbose reply).result = .ok data) :
    (fetch endpoint headers verbose reply).result = (build data).mapError failureOf := by
  unfold fetch
  rw [Attempt.result_bind, h]
  rfl

/-- A schema that is fetched is built from the data of the answer. -/
theorem exists_build_eq_ok {endpoint : Value} {headers : Entries Text} {verbose : Bool}
    {reply : Reply} {schema : Schema}
    (h : (fetch endpoint headers verbose reply).result = .ok schema) :
    ∃ data, (introspect endpoint headers verbose reply).result = .ok data
      ∧ build data = .ok schema := by
  cases hdata : (introspect endpoint headers verbose reply).result with
  | error failure =>
    rw [fetch, Attempt.result_bind, hdata] at h
    simp [bind, Except.bind] at h
  | ok data =>
    rw [result_fetch hdata, mapError_eq_ok_iff] at h
    exact ⟨data, rfl, h⟩

/-! ## 2. The data -/

/-- **The outcomes of data.** Once an answer has given data, whatever they are: a schema comes of
them exactly if they describe it; there is a failure that is not reported as a problem exactly if
building the schema fails with a defect of names, of texts or of missing objects; and if the data
are not blemished there is a schema, or they are reported as unusable. -/
theorem fetch_reported_unless_blemished (endpoint : Value) (headers : Entries Text) (verbose : Bool)
    (reply : Reply) (data : Value)
    (hdata : (introspect endpoint headers verbose reply).result = .ok data) :
    let result := (fetch endpoint headers verbose reply).result
    (∀ schema, result = .ok schema ↔ build data = .ok schema)
    ∧ ((∃ failure, result = .error failure ∧ ∀ problem, failure ≠ .problem problem)
      ↔ ∃ defect, build data = .error defect ∧ (defect.family = .name ∨ defect.family = .syntaxError
        ∨ defect.family = .attribute))
    ∧ (¬ Blemished data → (∃ schema, result = .ok schema)
      ∨ ∃ defect, build data = .error defect ∧ result = .error (.problem (.unusable defect))) := by
  intro result
  have hresult : result = (build data).mapError failureOf := result_fetch hdata
  rw [hresult]
  cases hbuild : build data with
  | ok schema =>
    refine ⟨fun other => ?_, ?_, fun _ => .inl ⟨schema, rfl⟩⟩
    · simp [Except.mapError]
    · simp [Except.mapError]
  | error defect =>
    have hmapped : (Except.error defect : Introspection.Build Schema).mapError failureOf
        = .error (failureOf defect) := rfl
    rw [hmapped]
    rcases failureOf_cases defect with ⟨hfailure, hcounts⟩ | ⟨hfailure, hcounts⟩
    · rw [hfailure]
      refine ⟨by simp, ?_, fun _ => .inr ⟨defect, rfl, rfl⟩⟩
      simpa [Introspection.Counts] using hcounts
    · rw [hfailure]
      refine ⟨by simp, ?_, fun hnone => ?_⟩
      · simpa [Introspection.Counts] using hcounts
      · exact absurd (Introspection.blamed_build data defect hbuild hcounts) hnone

/-! ## 3. Two answers -/

/-- The body of an answer whose data hold no description. -/
def undescribedBody : String := "\x7b\"data\": \x7b\"__schema\": null\x7d\x7d"

/-- The data of that answer. -/
def undescribed : Value := .object [("__schema", .null)]

/-- Data without lists, and without an object below their own, are not blemished. -/
theorem not_blemished_undescribed : ¬ Blemished undescribed := by
  have hnull : ∀ key, Value.member key [(Text.ofString "__schema", Value.null)] = .null := by
    intro key
    rw [Value.member, Entries.get?]
    by_cases hkey : Text.ofString "__schema" = key
    · rw [if_pos hkey]
      rfl
    · rw [if_neg hkey]
      rfl
  have hpart : ∀ members, Value.IsPart (.object members) undescribed →
      members = [(Text.ofString "__schema", Value.null)] := by
    intro members h
    cases h with
    | self => rfl
    | member hmember hbelow =>
      rw [List.mem_singleton] at hmember
      obtain ⟨rfl, rfl⟩ := Prod.mk.inj hmember
      cases hbelow
  have hlisted : ∀ key members, ¬ Introspection.Listed undescribed key members := by
    rintro key members ⟨owner, items, howner, hitems, -⟩
    rw [hpart owner howner, hnull key] at hitems
    simp at hitems
  have hnone : ∀ members, Introspection.description undescribed ≠ .ok members := by
    intro members hdescription
    rw [undescribed, Introspection.description, hnull] at hdescription
    simp at hdescription
  have hargument : ∀ members, ¬ Introspection.ListedForDirective undescribed members := by
    rintro members ⟨directive, items, hdirective, -⟩
    exact hlisted _ _ hdirective
  have hreference : ∀ reference, ¬ Introspection.Referenced undescribed reference := by
    rintro reference (⟨hdescription, -⟩ | ⟨hmember, -⟩)
    · exact hnone _ hdescription
    · exact hargument _ hmember
  intro h
  cases h with
  | name _ hmember => exact hlisted _ _ hmember
  | default _ hmember => exact hlisted _ _ hmember
  | items hmember => exact hargument _ hmember
  | reference hreferenced => exact hreference _ hreferenced
  | wrapped hreferenced => exact hreference _ hreferenced
  | directive hdescription => exact hnone _ hdescription

/-- The answer whose data hold no description is reported. -/
theorem fetch_reported_unless_blemished_undescribed :
    ∃ defect, build undescribed = .error defect
      ∧ (fetch (.string "http://localhost") [] false (answerOf undescribedBody)).result
        = .error (.problem (.unusable defect)) := by
  have hbody : Text.Utf8.decodeLossy (undescribedBody.toList.map Char.toUInt8)
      = Text.ofString undescribedBody :=
    Text.Utf8.decodeLossy_toUInt8 (by decide)
  have hread : Json.read (Text.ofString undescribedBody)
      = .ok (.object [("data", undescribed)]) := by cbv
  have hdata : (introspect (.string "http://localhost") [] false (answerOf undescribedBody)).result
      = .ok undescribed := by
    rw [answerOf, result_introspect_answer, hbody, if_pos (by decide), dataOf, hread]
    rfl
  obtain ⟨hschema, -, hreported⟩ :=
    fetch_reported_unless_blemished (.string "http://localhost") [] false
    (answerOf undescribedBody) undescribed hdata
  rcases hreported not_blemished_undescribed with ⟨schema, hresult⟩ | hproblem
  · -- without a description there is no schema
    have hbuild : (build undescribed).toOption.isNone = true := by decide
    rw [(hschema schema).mp hresult] at hbuild
    exact absurd hbuild (by simp [Except.toOption])
  · exact hproblem

/-- The body of an answer that describes a scalar with a dash in its name. -/
def dashedBody : String :=
  "\x7b\"data\": \x7b\"__schema\": \x7b\"types\": [\x7b\"kind\": \"SCALAR\", \"name\": \"a-b\"\x7d]\x7d\x7d\x7d"

/-- The data of that answer. -/
def dashed : Value :=
  .object [("__schema", .object [
    ("types", .array [.object [("kind", .string "SCALAR"), ("name", .string "a-b")]])])]

/-- Data with a name that is none are not reported as a problem. -/
theorem fetch_unreported :
    ∃ data failure,
      (introspect (.string "http://localhost") [] false (answerOf dashedBody)).result = .ok data
      ∧ data.isGiven = true
      ∧ (fetch (.string "http://localhost") [] false (answerOf dashedBody)).result = .error failure
      ∧ ∀ problem, failure ≠ .problem problem := by
  have hbody : Text.Utf8.decodeLossy (dashedBody.toList.map Char.toUInt8)
      = Text.ofString dashedBody :=
    Text.Utf8.decodeLossy_toUInt8 (by decide)
  have hread : Json.read (Text.ofString dashedBody) = .ok (.object [("data", dashed)]) := by cbv
  have hdata : (introspect (.string "http://localhost") [] false (answerOf dashedBody)).result
      = .ok dashed := by
    rw [answerOf, result_introspect_answer, hbody, if_pos (by decide), dataOf, hread]
    rfl
  have hbuild : build dashed = .error (.badNameCharacter "a-b") := by rfl
  refine ⟨dashed, .defect (.badNameCharacter "a-b"), hdata, rfl, ?_, by simp⟩
  rw [result_fetch hdata, hbuild]
  rfl

end FieldAudit.Exchange
