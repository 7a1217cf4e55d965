import FieldAudit.Exchange
import FieldAudit.Proofs.Attempt
import FieldAudit.Proofs.Text.Lossy
import Mathlib.Data.List.Permutation

/-!
What becomes of an answer. Data come of an answer exactly if its status says that the request
succeeded and its body is an object whose data are given. Every other answer is reported as a
problem with the status and the body of the answer, and with the errors that stand in the place of
the data. Two kinds of bodies are not reported: those nested too deeply to be read, and those whose
errors have a message that is no text (`introspect_reported_unless_unreported`).
-/

set_option autoImplicit false

namespace FieldAudit.Exchange

open Json (Value)

/-! ## 1. Errors in words -/

/-- Messages are spelled if all of them are texts; the first that is none is the failure. -/
theorem spellMessages_cases (index : Nat) (messages : List Value) :
    (∃ texts, spellMessages index messages = .ok texts ∧ ∀ message ∈ messages, message.text? ≠ none)
    ∨ ∃ place message, spellMessages index messages = .error (.notSpellable place message)
      ∧ message ∈ messages ∧ message.text? = none := by
  induction messages generalizing index with
  | nil => exact .inl ⟨[], rfl, fun message hmessage => absurd hmessage List.not_mem_nil⟩
  | cons first rest ih =>
    cases htext : first.text? with
    | none =>
      refine .inr ⟨index, first, ?_, List.mem_cons_self, htext⟩
      cases first with
      | string t => simp [Value.text?] at htext
      | null | bool | int | float | array | object => rfl
    | some t =>
      have hfirst : first = .string t := by
        cases first with
        | string s =>
          rw [Value.text?] at htext
          rw [Option.some.inj htext]
        | null | bool | int | float | array | object => simp [Value.text?] at htext
      rw [hfirst, spellMessages]
      rcases ih (index + 1) with ⟨texts, hrest, hall⟩ | ⟨place, message, hrest, hmem, hnone⟩
      · rw [hrest]
        refine .inl ⟨t :: texts, rfl, List.forall_mem_cons.mpr ⟨?_, hall⟩⟩
        simp [Value.text?]
      · rw [hrest]
        exact .inr ⟨place, message, rfl, List.mem_cons_of_mem _ hmem, hnone⟩

/-- An error has a message that is no text if it is an object that says so. -/
theorem text?_errorMessage_eq_none_iff (error : Value) :
    (errorMessage error).text? = none
      ↔ ∃ members message, error = .object members
        ∧ Entries.get? "message" members = some message ∧ message.text? = none := by
  cases error with
  | object members =>
    rw [errorMessage]
    cases hmessage : Entries.get? (Text.ofString "message") members with
    | none => simp [Value.text?, hmessage]
    | some message => simp [hmessage]
  | null | bool | int | float | string | array => simp [errorMessage, Value.text?]

/-- Among errors there is an object whose message is no text. -/
def Wordless (errors : Value) : Prop :=
  ∃ items members message, errors = .array items ∧ Value.object members ∈ items
    ∧ Entries.get? "message" members = some message ∧ message.text? = none

theorem spellErrors_cases (errors : Value) :
    (∃ line, spellErrors errors = .ok line ∧ ¬ Wordless errors)
    ∨ ∃ place message, spellErrors errors = .error (.notSpellable place message)
      ∧ Wordless errors := by
  cases errors with
  | array items =>
    rw [spellErrors]
    rcases spellMessages_cases 0 (items.map errorMessage) with
      ⟨texts, hspelled, hall⟩ | ⟨place, message, hspelled, hmem, hnone⟩
    · rw [hspelled]
      refine .inl ⟨_, rfl, ?_⟩
      rintro ⟨others, members, message, hitems, hmember, hmessage, hnone⟩
      obtain rfl := Value.array.inj hitems
      apply hall _ (List.mem_map_of_mem hmember)
      exact (text?_errorMessage_eq_none_iff _).mpr ⟨members, message, rfl, hmessage, hnone⟩
    · rw [hspelled]
      obtain ⟨error, herror, rfl⟩ := List.mem_map.mp hmem
      obtain ⟨members, found, rfl, hfound, htext⟩ := (text?_errorMessage_eq_none_iff error).mp hnone
      exact .inr ⟨place, _, rfl, items, members, found, rfl, herror, hfound, htext⟩
  | null | bool | int | float | string | object =>
    refine .inl ⟨_, rfl, ?_⟩
    rintro ⟨items, members, message, hitems, -⟩
    simp at hitems

/-! ## 2. The body -/

/-- The body is an object whose data are given. -/
def Usable (body : Text) (data : Value) : Prop :=
  ∃ members, Json.read body = .ok (.object members) ∧ Value.member "data" members = data
    ∧ data.isGiven = true

/-- The errors in the body: those of an object, or null. -/
def errorsIn (body : Text) : Value :=
  match Json.read body with
  | .ok value => Value.member "errors" (value.members?.getD [])
  | .error _ => .null

/-- A body that keeps its problem from being reported. -/
inductive Unreported (body : Text) : Prop
  /-- Lists and objects are nested too deeply. -/
  | nested {error : Json.ReadError} (hread : Json.read body = .error error)
      (hdepth : error.problem.isDepth = true)
  /-- There are no data, and an error has a message that is no text. -/
  | wordless {value : Value} (hread : Json.read body = .ok value)
      (hnone : ∀ data, ¬ Usable body data) (herrors : Wordless (errorsIn body))

/-- Errors with a message that is no text are not spelled, and they are given. -/
theorem Wordless.isGiven {errors : Value} (h : Wordless errors) : errors.isGiven = true := by
  obtain ⟨items, members, message, rfl, hmember, -⟩ := h
  cases items with
  | nil => exact absurd hmember List.not_mem_nil
  | cons item rest => rfl

section Body

variable {body : Text} {value : Value}

/-- Data of a body that is read are those of its object. -/
theorem usable_iff_of_read (hread : Json.read body = .ok value) (data : Value) :
    Usable body data
      ↔ Value.member "data" (value.members?.getD []) = data ∧ data.isGiven = true := by
  constructor
  · rintro ⟨members, hobject, hmember, hgiven⟩
    rw [hread] at hobject
    rw [Except.ok.inj hobject]
    exact ⟨hmember, hgiven⟩
  · rintro ⟨hmember, hgiven⟩
    cases value with
    | object members => exact ⟨members, hread, hmember, hgiven⟩
    | null | bool | int | float | string | array =>
      -- what is no object has no members, so its data are null
      rw [← hmember] at hgiven
      simp [Value.members?, Value.member, Value.isGiven] at hgiven

theorem Usable.unique {first second : Value} (hfirst : Usable body first)
    (hsecond : Usable body second) : first = second := by
  obtain ⟨members, hread, hmember, -⟩ := hfirst
  obtain ⟨others, hother, hsame, -⟩ := hsecond
  rw [hread] at hother
  rw [← hmember, ← hsame, Value.object.inj (Except.ok.inj hother)]

theorem not_usable_of_error {error : Json.ReadError} (hread : Json.read body = .error error)
    (data : Value) : ¬ Usable body data := by
  rintro ⟨members, hobject, -⟩
  exact absurd hread (ne_error_of_eq_ok hobject error)

/-- A body that cannot be read is not reported exactly if it is nested too deeply. -/
theorem unreported_iff_of_error {error : Json.ReadError} (hread : Json.read body = .error error) :
    Unreported body ↔ error.problem.isDepth = true := by
  constructor
  · rintro (⟨hother, hdeep⟩ | ⟨hother, -, -⟩)
    · rw [hread] at hother
      rwa [Except.error.inj hother]
    · exact absurd hread (ne_error_of_eq_ok hother error)
  · exact fun hdeep => .nested hread hdeep

/-- A body that can be read is not reported exactly if it has no data and an error whose message is
no text. -/
theorem unreported_iff_of_read (hread : Json.read body = .ok value) :
    Unreported body ↔ (∀ data, ¬ Usable body data) ∧ Wordless (errorsIn body) := by
  constructor
  · rintro (⟨hother, -⟩ | ⟨-, hnone, herrors⟩)
    · exact absurd hother (ne_error_of_eq_ok hread _)
    · exact ⟨hnone, herrors⟩
  · exact fun ⟨hnone, herrors⟩ => .wordless hread hnone herrors

/-- What becomes of a body that cannot be read: it is no JSON, or it is nested too deeply. -/
theorem dataOf_of_error (status : Int) {error : Json.ReadError}
    (hread : Json.read body = .error error) :
    (dataOf status body).result
      = .error (if error.problem.isDepth then .nested error
        else .problem (.notJson status body error)) := by
  unfold dataOf
  rw [hread]
  rfl

/-- What becomes of a body whose data are given: these. -/
theorem dataOf_of_given (status : Int) (hread : Json.read body = .ok value)
    (hgiven : (Value.member "data" (value.members?.getD [])).isGiven = true) :
    (dataOf status body).result = .ok (Value.member "data" (value.members?.getD [])) := by
  unfold dataOf
  rw [hread]
  dsimp only
  rw [if_pos hgiven]
  rfl

/-- What becomes of a body that is read and has no data: its problem, or the failure to spell its
errors. -/
theorem dataOf_of_not_given (status : Int) (hread : Json.read body = .ok value)
    (hnone : (Value.member "data" (value.members?.getD [])).isGiven ≠ true) :
    ((dataOf status body).result = .error (.problem (.noData status body (errorsIn body)))
        ∧ ¬ Wordless (errorsIn body))
    ∨ ∃ place message, (dataOf status body).result = .error (.notSpellable place message)
        ∧ Wordless (errorsIn body) := by
  have herrors : errorsIn body = Value.member "errors" (value.members?.getD []) := by
    rw [errorsIn, hread]
  unfold dataOf
  rw [hread, herrors]
  dsimp only
  rw [if_neg hnone]
  by_cases hgiven : (Value.member "errors" (value.members?.getD [])).isGiven = true
  · rw [if_pos hgiven]
    rcases spellErrors_cases (Value.member "errors" (value.members?.getD [])) with
      ⟨line, hline, hwords⟩ | ⟨place, message, hline, hwords⟩
    · rw [hline]
      exact .inl ⟨rfl, hwords⟩
    · rw [hline]
      exact .inr ⟨place, message, rfl, hwords⟩
  · -- errors that are not given are not spelled
    rw [if_neg hgiven]
    exact .inl ⟨rfl, fun hwords => hgiven hwords.isGiven⟩

/-- What becomes of a body: its data, or a problem that carries the status, the body and the errors,
or a failure that is no such problem, exactly if the body keeps its problem from being reported. -/
theorem dataOf_cases (status : Int) (body : Text) :
    (∃ data, (dataOf status body).result = .ok data ∧ Usable body data ∧ ¬ Unreported body)
    ∨ (∃ problem, (dataOf status body).result = .error (.problem problem)
      ∧ problem.status? = some status ∧ problem.body = body ∧ problem.errors = errorsIn body
      ∧ (∀ data, ¬ Usable body data) ∧ ¬ Unreported body)
    ∨ (∃ failure, (dataOf status body).result = .error failure
      ∧ (∀ problem, failure ≠ .problem problem) ∧ (∀ data, ¬ Usable body data)
        ∧ Unreported body) := by
  cases hread : Json.read body with
  | error error =>
    have hnone := not_usable_of_error hread
    rw [unreported_iff_of_error hread, dataOf_of_error status hread]
    by_cases hdepth : error.problem.isDepth = true
    · rw [if_pos hdepth]
      exact .inr (.inr ⟨_, rfl, by simp, hnone, hdepth⟩)
    · have herrors : errorsIn body = .null := by rw [errorsIn, hread]
      rw [if_neg hdepth]
      exact .inr (.inl ⟨_, rfl, rfl, rfl, herrors.symm, hnone, hdepth⟩)
  | ok value =>
    have husable := usable_iff_of_read hread
    rw [unreported_iff_of_read hread]
    by_cases hdata : (Value.member "data" (value.members?.getD [])).isGiven = true
    · have hfound := (husable _).mpr ⟨rfl, hdata⟩
      exact .inl ⟨_, dataOf_of_given status hread hdata, hfound, fun h => h.1 _ hfound⟩
    · have hnone : ∀ data, ¬ Usable body data := by
        intro data hfound
        obtain ⟨rfl, hgiven⟩ := (husable data).mp hfound
        exact hdata hgiven
      rcases dataOf_of_not_given status hread hdata with
        ⟨hresult, hwords⟩ | ⟨place, message, hresult, hwords⟩
      · exact .inr (.inl ⟨_, hresult, rfl, rfl, rfl, hnone, fun h => hwords h.2⟩)
      · exact .inr (.inr ⟨_, hresult, by simp, hnone, hnone, hwords⟩)

end Body

/-! ## 3. The answer -/

/-- What becomes of an answer, apart from what is printed: of its body if the status says that the
request succeeded, and a refusal otherwise. -/
theorem result_introspect_answer (endpoint : Value) (headers : Entries Text) (verbose : Bool)
    (status : Int) (reason? : Option Text) (bytes : List UInt8) :
    (introspect endpoint headers verbose (.answer status reason? bytes)).result
      = if isSuccess status = true then (dataOf status (Text.Utf8.decodeLossy bytes)).result
        else .error (.problem (.refused status reason? (Text.Utf8.decodeLossy bytes))) := by
  unfold introspect
  cases verbose with
  | true =>
    rw [if_pos rfl, Attempt.result_emitAll_bind, Attempt.result_emit_bind]
    dsimp only
    split <;> rfl
  | false =>
    rw [if_neg Bool.false_ne_true, Attempt.result_emit_bind]
    dsimp only
    split <;> rfl

/-- **The outcomes of an answer.** Whatever its status, its reason and its body are: data come of it
exactly if the status says that the request succeeded and the body is an object whose data are
given; there is a failure that is not reported as a problem exactly if the request succeeded and the
body keeps its problem from being reported; and in every other case there is a problem with the
status and the body of the answer, and with the errors in the body of a request that succeeded. -/
theorem introspect_reported_unless_unreported (endpoint : Value) (headers : Entries Text)
    (verbose : Bool) (status : Int) (reason? : Option Text) (bytes : List UInt8) :
    let body := Text.Utf8.decodeLossy bytes
    let result := (introspect endpoint headers verbose (.answer status reason? bytes)).result
    (∀ data, result = .ok data ↔ isSuccess status = true ∧ Usable body data)
    ∧ ((∃ failure, result = .error failure ∧ ∀ problem, failure ≠ .problem problem)
      ↔ isSuccess status = true ∧ Unreported body)
    ∧ (¬ (isSuccess status = true ∧ ((∃ data, Usable body data) ∨ Unreported body)) →
      ∃ problem, result = .error (.problem problem)
        ∧ problem.status? = some status ∧ problem.body = body
        ∧ problem.errors = if isSuccess status = true then errorsIn body else .null) := by
  intro body result
  have hresult : result = if isSuccess status = true then (dataOf status body).result
      else .error (.problem (.refused status reason? body)) :=
    result_introspect_answer endpoint headers verbose status reason? bytes
  by_cases hsuccess : isSuccess status = true
  · rw [if_pos hsuccess] at hresult
    simp only [hsuccess, true_and, if_true]
    rw [hresult]
    rcases dataOf_cases status body with
      ⟨found, hfound, husable, hreported⟩
      | ⟨problem, hproblem, hcarried, hbody, herrors, hnone, hreported⟩
      | ⟨failure, hfailure, hother, hnone, hunreported⟩
    · rw [hfound]
      refine ⟨fun data => ⟨fun hok => ?_, fun h => ?_⟩, ?_, fun hneither => ?_⟩
      · rw [← Except.ok.inj hok]
        exact husable
      · rw [husable.unique h]
      · simp [hreported]
      · exact absurd (.inl ⟨found, husable⟩) hneither
    · rw [hproblem]
      refine ⟨?_, ?_, fun _ => ⟨problem, rfl, hcarried, hbody, herrors⟩⟩
      · simp [hnone]
      · simp [hreported]
    · rw [hfailure]
      refine ⟨?_, ?_, fun hneither => absurd (.inr hunreported) hneither⟩
      · simp [hnone]
      · simpa [hunreported] using hother
  · rw [if_neg hsuccess] at hresult
    rw [Bool.not_eq_true] at hsuccess
    simp only [hsuccess, Bool.false_eq_true, false_and, if_false]
    rw [hresult]
    refine ⟨by simp, by simp, fun _ => ⟨_, rfl, rfl, rfl, rfl⟩⟩

/-! ## 4. Two answers -/

/-- An answer whose body is an ASCII text. -/
def answerOf (body : String) : Reply := .answer 200 (some "OK") (body.toList.map Char.toUInt8)

/-- The body of an answer that denies the schema, with an error that says so. -/
def deniedBody : String := "\x7b\"data\": null, \"errors\": [\x7b\"message\": \"no\"\x7d, null]\x7d"

/-- The errors of that answer. -/
def deniedErrors : Value := .array [.object [("message", .string "no")], .null]

/-- An answer without data whose errors are reported. -/
theorem introspect_reported_unless_unreported_denied :
    ∃ problem, (introspect (.string "http://localhost") [] false (answerOf deniedBody)).result
        = .error (.problem problem)
      ∧ problem.status? = some 200 ∧ problem.body = Text.ofString deniedBody
      ∧ problem.errors = deniedErrors := by
  have hbody : Text.Utf8.decodeLossy (deniedBody.toList.map Char.toUInt8)
      = Text.ofString deniedBody :=
    Text.Utf8.decodeLossy_toUInt8 (by decide)
  have hread : Json.read (Text.ofString deniedBody)
      = .ok (.object [("data", .null), ("errors", deniedErrors)]) := by cbv
  have herrors : errorsIn (Text.ofString deniedBody) = deniedErrors := by
    rw [errorsIn, hread]
    rfl
  have hnone : ∀ data, ¬ Usable (Text.ofString deniedBody) data := by
    intro data husable
    obtain ⟨rfl, hgiven⟩ := (usable_iff_of_read hread data).mp husable
    exact absurd hgiven (by decide)
  have hreported : ¬ Unreported (Text.ofString deniedBody) := by
    rintro (⟨hother, -⟩ | ⟨-, -, items, members, message, hitems, hmember, hmessage, htext⟩)
    · rw [hread] at hother
      simp at hother
    · -- the one object among the errors has a text for its message
      rw [herrors] at hitems
      obtain rfl := Value.array.inj hitems
      simp only [List.mem_cons, Value.object.injEq, List.not_mem_nil, or_false,
        reduceCtorEq] at hmember
      rw [hmember, Entries.get?, if_pos rfl] at hmessage
      rw [← Option.some.inj hmessage] at htext
      simp [Value.text?] at htext
  obtain ⟨-, -, hproblem⟩ :=
    introspect_reported_unless_unreported (.string "http://localhost") [] false
    200 (some "OK") (deniedBody.toList.map Char.toUInt8)
  rw [hbody] at hproblem
  obtain ⟨problem, hresult, hstatus, hcarried, hgiven⟩ := hproblem (by simp [hnone, hreported])
  refine ⟨problem, hresult, hstatus, hcarried, ?_⟩
  rw [hgiven, herrors, if_pos (by decide)]

/-- The body of an answer without data, with an error whose message is null. -/
def wordlessBody : String := "\x7b\"errors\": [\x7b\"message\": null\x7d]\x7d"

/-- An answer without data is not reported as a problem if the message of its error is null. -/
theorem introspect_unreported :
    ∃ failure, (introspect (.string "http://localhost") [] false (answerOf wordlessBody)).result
        = .error failure
      ∧ ∀ problem, failure ≠ .problem problem := by
  have hbody : Text.Utf8.decodeLossy (wordlessBody.toList.map Char.toUInt8)
      = Text.ofString wordlessBody :=
    Text.Utf8.decodeLossy_toUInt8 (by decide)
  have hread : Json.read (Text.ofString wordlessBody)
      = .ok (.object [("errors", .array [.object [("message", .null)]])]) := by cbv
  refine ⟨.notSpellable 0 .null, ?_, by simp⟩
  rw [answerOf, result_introspect_answer, hbody, if_pos (by decide), dataOf, hread]
  rfl

end FieldAudit.Exchange
