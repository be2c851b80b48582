import NocoMiddleware.Foundation.Retries
import NocoMiddleware.Js.Text

/-!
# Which NocoDB requests are sent again

`shouldRetryNocoDBRequest` and the sends of one request under `axios-retry`, which asks
it after every failure until the configured number of retries is used up.  An outcome
says what the caller learns and, apart from that, whether NocoDB applied the request.
-/

namespace NocoMiddleware
namespace Upstream

open Js Foundation

/-- An `AxiosError`, as far as the policy reads it: `response?.status`, `config?.method`
and `code`. -/
structure AxiosError where
  status : Option Nat
  method : Option JsString
  code : Option JsString
  deriving DecidableEq

/-- `READ_METHODS`. -/
def readMethods : List JsString :=
  [js "get", js "head", js "options"]

/-- `TRANSIENT_NETWORK_CODES`. -/
def transientNetworkCodes : List JsString :=
  [js "ECONNRESET", js "ECONNREFUSED", js "ETIMEDOUT", js "ECONNABORTED", js "EAI_AGAIN",
    js "EPIPE"]

/-- `String.prototype.toLowerCase` on a request method, an ASCII token. -/
def toLowerCase (text : JsString) : JsString :=
  text.map fun unit => if 65 ≤ unit.toNat ∧ unit.toNat ≤ 90 then unit + 32 else unit

/-- `shouldRetryNocoDBRequest`. -/
def shouldRetryNocoDBRequest (error : AxiosError) : Bool :=
  if error.status = some 429 then true
  else
    match error.method.map toLowerCase with
    | none => false
    | some method =>
        if method = [] || !readMethods.contains method then false
        else
          match error.status with
          | none =>
              match error.code with
              | none => false
              | some code => transientNetworkCodes.contains code
          | some status => 500 ≤ status

/-- Why a send failed: the status of the answer, if there was one, and the error code. -/
structure Failure where
  status : Option Nat
  code : Option JsString
  deriving DecidableEq

/-- The error of a request with the given method. -/
def Failure.toError (failure : Failure) (method : JsString) : AxiosError :=
  { status := failure.status, method := some method, code := failure.code }

/-- What became of one send.  The server answers 429 without processing the request. -/
structure Outcome where
  failure : Option Failure
  applied : Bool
  unprocessed : failure.bind Failure.status = some 429 → applied = false
  deriving DecidableEq

/-- The failure of a send is one that is sent again. -/
def isRetried (method : JsString) (outcome : Outcome) : Bool :=
  match outcome.failure with
  | none => false
  | some failure => shouldRetryNocoDBRequest (failure.toError method)

/-- One send of a request through the HTTP client with `retries` configured. -/
def sendRequest (retries : Nat) (method : JsString) :
    Attempts Outcome → Outcome → Option (Attempts Outcome) :=
  attempt (isRetried method) retries

/-- `POST`, `PUT`, `PATCH` and `DELETE`, in any letter case. -/
def isWrite (method : JsString) : Bool :=
  [js "post", js "put", js "patch", js "delete"].contains (toLowerCase method)

/-! ## The policy -/

/-- A failure is retried if the server did not process the request, or if the request
only reads and the failure is one of the server or of the connection. -/
theorem shouldRetryNocoDBRequest_iff (error : AxiosError) :
    shouldRetryNocoDBRequest error = true ↔
      error.status = some 429 ∨
        (∃ method, error.method = some method ∧ toLowerCase method ∈ readMethods) ∧
          match error.status with
          | none => ∃ code, error.code = some code ∧ code ∈ transientNetworkCodes
          | some status => 500 ≤ status := by
  obtain ⟨status, method, code⟩ := error
  by_cases hlimited : status = some 429
  · simp [shouldRetryNocoDBRequest, hlimited]
  · cases method with
    | none => simp [shouldRetryNocoDBRequest, hlimited]
    | some method =>
        have hempty : ([] : JsString) ∉ readMethods := by decide
        by_cases hread : toLowerCase method ∈ readMethods
        · have hne : toLowerCase method ≠ [] := fun h => hempty (h ▸ hread)
          cases status with
          | none => cases code <;> simp [shouldRetryNocoDBRequest, hread, hne]
          | some status =>
              have hstatus : status ≠ 429 := fun h => hlimited (by rw [h])
              simp [shouldRetryNocoDBRequest, hread, hne, hstatus]
        · simp [shouldRetryNocoDBRequest, hlimited, hread]

/-- No method is both read and written with. -/
theorem not_mem_readMethods_of_isWrite {method : JsString} (h : isWrite method = true) :
    toLowerCase method ∉ readMethods := by
  have hdisjoint : ∀ lower ∈ [js "post", js "put", js "patch", js "delete"],
      lower ∉ readMethods := by
    decide
  exact hdisjoint _ (by simpa [isWrite] using h)

/-- A write is retried only where the server answers that it did not process it. -/
theorem isRetried_of_isWrite {method : JsString} (h : isWrite method = true)
    {outcome : Outcome} (hretried : isRetried method outcome = true) :
    outcome.failure.bind Failure.status = some 429 := by
  unfold isRetried at hretried
  split at hretried
  · contradiction
  · next failure hfailure =>
      rw [hfailure]
      rcases (shouldRetryNocoDBRequest_iff _).mp hretried with hlimited | ⟨hread, -⟩
      · exact hlimited
      · obtain ⟨lower, hmethod, hmem⟩ := hread
        obtain rfl : method = lower := Option.some.inj hmethod
        exact absurd hmem (not_mem_readMethods_of_isWrite h)

/-- A client error other than 429 is not retried. -/
theorem isRetried_of_clientError {method : JsString} {outcome : Outcome} {status : Nat}
    (hstatus : outcome.failure.bind Failure.status = some status) (hclient : status < 500)
    (hlimited : status ≠ 429) : isRetried method outcome = false := by
  rw [← Bool.not_eq_true]
  intro hretried
  unfold isRetried at hretried
  split at hretried
  · contradiction
  · next failure hfailure =>
      rw [hfailure] at hstatus
      change failure.status = some status at hstatus
      rcases (shouldRetryNocoDBRequest_iff _).mp hretried with h | ⟨-, h⟩
      · change failure.status = some 429 at h
        rw [hstatus] at h
        exact hlimited (Option.some.inj h)
      · simp only [Failure.toError, hstatus] at h
        omega

/-! ## The sends of a request -/

variable {retries : Nat} {method : JsString} {outcomes : List Outcome}
  {attempts : Attempts Outcome}

/-- Whatever becomes of its sends, a request is answered after no more than the
configured number of retries. -/
theorem sendRequest_settles (henough : retries < outcomes.length) :
    ∃ sent unsent last, outcomes = sent ++ unsent ∧
      runEvents (sendRequest retries method) .start sent = some last ∧ last.settled = true := by
  apply exists_settled rfl (Nat.zero_le retries)
  show retries < 0 + outcomes.length
  omega

/-- Whatever becomes of its sends, a write is applied at most once, no request is sent
more often than the retries allow, and a client error other than 429 ends it. -/
theorem writes_applied_at_most_once
    (hrun : runEvents (sendRequest retries method) .start outcomes = some attempts) :
    (isWrite method = true → attempts.outcomes.countP Outcome.applied ≤ 1) ∧
      attempts.outcomes.length ≤ retries + 1 ∧
      ∀ before outcome after, attempts.outcomes = before ++ outcome :: after →
        ∀ status, outcome.failure.bind Failure.status = some status →
          400 ≤ status → status < 500 → status ≠ 429 → after = [] := by
  have hsound := sound_of_run hrun
  constructor
  · intro hwrite
    apply hsound.countP_le_one
    intro outcome _ happlied
    -- an applied write was not refused with 429, so it is not sent again
    rw [← Bool.not_eq_true]
    intro hretried
    have hunprocessed := outcome.unprocessed (isRetried_of_isWrite hwrite hretried)
    simp [happlied] at hunprocessed
  constructor
  · exact hsound.length_le
  · intro before outcome after hsplit status hstatus _ hclient hlimited
    exact hsound.last_of_not_retry hsplit (isRetried_of_clientError hstatus hclient hlimited)

/-- A create that is refused once and then applied without an answer arriving. -/
def refusedThenLost : List Outcome :=
  [⟨some ⟨some 429, none⟩, false, fun _ => rfl⟩,
    ⟨some ⟨none, some (js "ECONNRESET")⟩, true, fun h => by simp at h⟩]

/-- It is sent twice and applied once. -/
theorem refused_create_applied_at_most_once :
    runEvents (sendRequest 3 (js "Post")) .start refusedThenLost =
        some ⟨1, refusedThenLost, true⟩ ∧
      (isWrite (js "Post") = true → refusedThenLost.countP Outcome.applied ≤ 1) ∧
      refusedThenLost.length ≤ 3 + 1 ∧
      ∀ before outcome after, refusedThenLost = before ++ outcome :: after →
        ∀ status, outcome.failure.bind Failure.status = some status →
          400 ≤ status → status < 500 → status ≠ 429 → after = [] := by
  have hrun : runEvents (sendRequest 3 (js "Post")) .start refusedThenLost =
      some ⟨1, refusedThenLost, true⟩ := by decide
  exact ⟨hrun, writes_applied_at_most_once hrun⟩

end Upstream
end NocoMiddleware
