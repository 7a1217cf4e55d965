import FieldAudit.Sweep

/-!
What a sweep sends. Every step of a sweep is silent but the exchange with the endpoint, and the
exchange sends its request before it looks at the reply; so a sweep sends exactly one request,
whatever comes of it (`requests_run`).
-/

set_option autoImplicit false

namespace FieldAudit

/-- The request that an effect sends, if it sends one. -/
def Effect.request? : Effect → Option Request
  | .print _ => none
  | .send request => some request

/-- The requests among effects, in order. -/
def requests (effects : List Effect) : List Request := effects.filterMap Effect.request?

theorem requests_append (first second : List Effect) :
    requests (first ++ second) = requests first ++ requests second :=
  List.filterMap_append

/-- Printed lines send nothing. -/
theorem requests_print (lines : List Text) : requests (lines.map .print) = [] := by
  unfold requests
  rw [List.filterMap_map, List.filterMap_eq_nil_iff]
  exact fun _ _ => rfl

namespace Attempt

variable {φ ψ α β : Type}

/-! ## 1. Attempts that send nothing -/

/-- An attempt that sends nothing. -/
def Silent (attempt : Attempt Effect φ α) : Prop := requests attempt.effects = []

theorem silent_pure (value : α) : Silent (pure value : Attempt Effect φ α) := rfl

theorem silent_fail (failure : φ) : Silent (fail failure : Attempt Effect φ α) := rfl

theorem silent_ofExcept (result : Except φ α) : Silent (ofExcept result : Attempt Effect φ α) := rfl

theorem silent_emit_print (line : Text) : Silent (emit (.print line) : Attempt Effect φ Unit) := rfl

theorem silent_emitAll_print (lines : List Text) :
    Silent (emitAll (lines.map .print) : Attempt Effect φ Unit) :=
  requests_print lines

/-- What follows a silent attempt sends all that is sent. -/
theorem requests_bind_of_silent {first : Attempt Effect φ α} (hfirst : Silent first)
    (next : α → Attempt Effect φ β) :
    requests (first >>= next).effects
      = match first.result with
        | .ok value => requests (next value).effects
        | .error _ => [] := by
  change requests (first.andThen next).effects = _
  unfold andThen
  cases first.result with
  | ok value => rw [requests_append, hfirst, List.nil_append]
  | error failure => exact hfirst

/-- If what follows an attempt is silent, the attempt sends all that is sent. -/
theorem requests_bind_of_silent_next (first : Attempt Effect φ α) {next : α → Attempt Effect φ β}
    (hnext : ∀ value, Silent (next value)) :
    requests (first >>= next).effects = requests first.effects := by
  change requests (first.andThen next).effects = _
  unfold andThen
  cases first.result with
  | ok value => rw [requests_append, hnext value, List.append_nil]
  | error failure => rfl

theorem Silent.bind {first : Attempt Effect φ α} (hfirst : Silent first)
    {next : α → Attempt Effect φ β} (hnext : ∀ value, Silent (next value)) :
    Silent (first >>= next) :=
  (requests_bind_of_silent_next first hnext).trans hfirst

/-- After printed lines, what follows sends all that is sent. -/
theorem requests_emitAll_bind (lines : List Text) (next : Unit → Attempt Effect φ β) :
    requests (emitAll (lines.map .print) >>= next).effects = requests (next ()).effects :=
  requests_bind_of_silent (silent_emitAll_print lines) next

end Attempt

/-! ## 2. The exchange -/

namespace Exchange

open Attempt

/-- Looking at the body of an answer sends nothing. -/
theorem silent_dataOf (status : Int) (body : Text) : Silent (dataOf status body) := by
  unfold dataOf
  split
  · exact silent_fail _
  · dsimp only
    split
    · exact silent_pure _
    · split
      · refine (silent_ofExcept _).bind fun line => ?_
        exact (silent_emit_print _).bind fun _ => silent_fail _
      · exact silent_fail _

/-- Asking for the data sends the request, whatever the reply is. -/
theorem requests_introspect (endpoint : Json.Value) (headers : Entries Text) (verbose : Bool)
    (reply : Reply) :
    requests (introspect endpoint headers verbose reply).effects = [request endpoint headers] := by
  have hsend : ∀ next : Unit → Attempt Effect ExchangeFailure Json.Value, (∀ u, Silent (next u)) →
      requests (emit (.send (request endpoint headers)) >>= next).effects
        = [request endpoint headers] :=
    fun next hnext => requests_bind_of_silent_next (emit (.send (request endpoint headers))) hnext
  -- the reply is looked at after the request is sent, and looking at it is silent in every case
  unfold introspect
  cases reply with
  | broken kind message =>
    cases verbose with
    | false => exact hsend _ fun _ => silent_fail _
    | true => exact (requests_emitAll_bind _ _).trans (hsend _ fun _ => silent_fail _)
  | answer status reason? bytes =>
    have hanswer : Silent (if isSuccess status then dataOf status (Text.Utf8.decodeLossy bytes)
        else fail (.problem (.refused status reason? (Text.Utf8.decodeLossy bytes)))) := by
      split
      · exact silent_dataOf status _
      · exact silent_fail _
    cases verbose with
    | false => exact hsend _ fun _ => hanswer
    | true => exact (requests_emitAll_bind _ _).trans (hsend _ fun _ => hanswer)

/-- Fetching the schema sends the request. -/
theorem requests_fetch (endpoint : Json.Value) (headers : Entries Text) (verbose : Bool)
    (reply : Reply) :
    requests (fetch endpoint headers verbose reply).effects = [request endpoint headers] := by
  unfold fetch
  rw [requests_bind_of_silent_next _ fun data => silent_ofExcept _]
  exact requests_introspect endpoint headers verbose reply

end Exchange

/-! ## 3. The sweep -/

namespace Sweep

open Attempt

/-- What follows printed lines is silent, so the whole is. -/
theorem silent_printAll_bind {α : Type} (lines : List Text) {next : Unit → Step α}
    (hnext : ∀ u, Silent (next u)) : Silent (printAll lines >>= next) :=
  (silent_emitAll_print lines).bind hnext

theorem requests_fetchSchema (settings : Settings) (verbose : Bool) (reply : Reply) :
    requests (fetchSchema settings verbose reply).effects
      = [Exchange.request settings.endpoint settings.headers] := by
  unfold fetchSchema printAll
  rw [requests_emitAll_bind, requests_emitAll_bind, requests_bind_of_silent_next]
  · exact Exchange.requests_fetch settings.endpoint settings.headers verbose reply
  · exact fun schema => silent_printAll_bind _ fun _ => silent_pure schema

theorem silent_discover (settings : Settings) (w : Workspace) : Silent (discover settings w) := by
  unfold discover
  refine silent_printAll_bind _ fun _ => silent_printAll_bind _ fun _ => ?_
  refine (silent_ofExcept _).bind fun patterns => silent_printAll_bind _ fun _ => ?_
  exact (silent_ofExcept _).bind fun files => silent_printAll_bind _ fun _ => silent_pure files

theorem silent_scanUsages (schema : Schema) (verbose : Bool) (w : Workspace) (files : List Text) :
    Silent (scanUsages schema verbose w files) := by
  unfold scanUsages
  refine silent_printAll_bind _ fun _ => silent_printAll_bind _ fun _ => ?_
  exact (silent_ofExcept _).bind fun scan => silent_printAll_bind _ fun _ => silent_pure scan

theorem silent_buildReport (settings : Settings) (schema : Schema) (moment : Moment)
    (files : List Text) (scan : Scan) : Silent (buildReport settings schema moment files scan) := by
  unfold buildReport
  refine silent_printAll_bind _ fun _ => ?_
  dsimp only
  split
  · exact silent_fail _
  · exact silent_printAll_bind _ fun _ => silent_pure _

/-- Everything up to the report sends the one request. -/
theorem requests_investigate (settings : Settings) (verbose : Bool) (w : Workspace)
    (moment : Moment) (reply : Reply) :
    requests (investigate settings verbose w moment reply).effects
      = [Exchange.request settings.endpoint settings.headers] := by
  unfold investigate
  rw [requests_bind_of_silent_next]
  · exact requests_fetchSchema settings verbose reply
  · intro schema
    refine (silent_discover settings w).bind fun files => ?_
    refine (silent_scanUsages schema verbose w files).bind fun scan => ?_
    refine (silent_buildReport settings schema moment files scan).bind fun findings => ?_
    exact silent_printAll_bind _ fun _ => silent_pure findings

/-- **A sweep sends one request.** The request is the one for the schema of the endpoint, and it is
sent whether the sweep comes to its end or not. -/
theorem requests_run (settings : Settings) (base : Text) (verbose : Bool) (w : Workspace)
    (moment : Moment) (reply : Reply) :
    requests (run settings base verbose w moment reply).effects
      = [Exchange.request settings.endpoint settings.headers] := by
  have hprint : ∀ line, requests ((investigate settings verbose w moment reply).effects
      ++ [.print line]) = [Exchange.request settings.endpoint settings.headers] := by
    intro line
    rw [requests_append, requests_investigate]
    rfl
  -- what comes after the investigation prints one line, whichever way the sweep ends
  unfold run
  dsimp only
  split
  · exact hprint _
  · split
    · exact hprint _
    · exact hprint _

end Sweep

end FieldAudit
