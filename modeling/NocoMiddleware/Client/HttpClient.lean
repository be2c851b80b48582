import NocoMiddleware.Foundation.EventRun
import NocoMiddleware.Js.Json
import Mathlib.Logic.Function.Basic

/-!
# The HTTP client of the client library

`createHttpClient` gives all services one axios instance with two interceptors.  They share
the token storage with the application and the flag `isRefreshing` with each other, so the
instance is a machine: its events are what the event loop can run without a pause (a
request interceptor, the arrival of a response, the completion of a refresh, a call of the
application on the storage), in any order.

A storage call may throw, which the faults of an event say.  `instance(config)` runs the
interceptors again over the same config, with the retry flag and the headers it has.
-/

namespace NocoMiddleware
namespace Client

open Js Foundation

/-! ## Tokens and errors -/

structure TokenPair where
  accessToken : JsString
  refreshToken : Option JsString := none
  deriving DecidableEq

/-- Compares by value. -/
def sameSession (a b : Option TokenPair) : Bool :=
  a.map TokenPair.accessToken = b.map TokenPair.accessToken &&
    a.bind TokenPair.refreshToken = b.bind TokenPair.refreshToken

@[simp] theorem sameSession_iff {a b : Option TokenPair} : sameSession a b = true ↔ a = b := by
  rcases a with _ | ⟨access, refresh⟩ <;> rcases b with _ | ⟨access', refresh'⟩ <;>
    simp [sameSession]

structure Response where
  status : Nat
  data : Option Json

/-- What axios rejects with; there is no response to a request that got none. -/
structure AxiosError where
  response : Option Response
  message : Option JsString

structure MiddlewareError where
  message : JsString
  statusCode : Nat
  deriving DecidableEq

/-- What can be thrown at the interceptors. -/
inductive Thrown where
  | middlewareError (error : MiddlewareError)
  | axiosError (error : AxiosError)
  | error (message : JsString)

/-- What the promise of a request can be rejected with: a `MiddlewareError`, the type error
of a failed conversion to a string, or an error of the storage as it was thrown. -/
inductive Rejection where
  | middlewareError (error : MiddlewareError)
  | typeError
  | error (message : JsString)
  deriving DecidableEq

/-- The message that `normaliseError` converts. -/
def AxiosError.text (error : AxiosError) : Json :=
  let data := error.response.bind Response.data
  let message := Json.orElse (Json.property data (js "message"))
    (Json.orElse (Json.property data (js "error")) (error.message.map Json.string))
  message.getD (.string (js "An unknown error occurred"))

def AxiosError.status (error : AxiosError) : Nat :=
  match error.response with
  | none => 0
  | some response => response.status

/-- The 401 of the middleware. -/
def unauthorized : AxiosError where
  response := some ⟨401, some (.object [(js "message", .string (js "Unauthorized"))])⟩
  message := some (js "Request failed with status code 401")

/-- `none` is the type error of `String(message)`. -/
def normaliseError : Thrown → Option MiddlewareError
  | .middlewareError error => some error
  | .axiosError error => error.text.toText.map fun message => ⟨message, error.status⟩
  | .error message => some ⟨message, 0⟩

/-- `throw normaliseError(error)`. -/
def throwNormalised (error : Thrown) : Rejection :=
  match normaliseError error with
  | some error => .middlewareError error
  | none => .typeError

example : throwNormalised (.axiosError unauthorized) =
    .middlewareError ⟨js "Unauthorized", 401⟩ := by decide

theorem throwNormalised_axiosError (error : AxiosError) :
    (∃ message, throwNormalised (.axiosError error) = .middlewareError ⟨message, error.status⟩) ∨
      throwNormalised (.axiosError error) = .typeError ∧ error.text.toText = none := by
  cases h : error.text.toText with
  | none =>
      refine Or.inr ⟨?_, rfl⟩
      simp [throwNormalised, normaliseError, h]
  | some message =>
      refine Or.inl ⟨message, ?_⟩
      simp [throwNormalised, normaliseError, h]

/-! ## The machine -/

inductive Phase where
  | idle
  /-- The request interceptor has yet to run. -/
  | queued
  | sent
  | refreshing (error : AxiosError) (sessionBefore : Option TokenPair)
  | fulfilled
  | rejected (reason : Rejection)

/-- A request: the retry flag and the `Authorization` header of its config, and how far
it has come. -/
structure Request where
  retry : Bool := false
  authorization : Option JsString := none
  phase : Phase := .idle

/-- What the interceptors do that others can see, and what they are told. -/
inductive Effect (ι : Type*) where
  | sent (request : ι) (authorization : Option JsString)
  | failed (request : ι) (error : AxiosError)
  | refreshStarted (request : ι) (session : Option TokenPair)
  | refreshed (request : ι) (accessToken : JsString)
  | storageSet (request : ι) (previous : Option TokenPair) (tokens : TokenPair)
  | storageClear (request : ι) (previous : Option TokenPair)

@[simp] def Effect.request {ι : Type*} : Effect ι → ι
  | .sent r _ | .failed r _ | .refreshStarted r _ | .refreshed r _ => r
  | .storageSet r _ _ | .storageClear r _ => r

structure HttpClient (ι : Type*) where
  hasRefresh : Bool
  storage : Option TokenPair := none
  isRefreshing : Bool := false
  requests : ι → Request := fun _ => {}
  trace : List (Effect ι) := []

/-- The messages that the storage calls of an event throw, if they do. -/
structure StorageFaults where
  get : Option JsString := none
  set : Option JsString := none
  clear : Option JsString := none
  deriving DecidableEq

inductive Event (ι : Type*) where
  | issue (request : ι)
  | setTokens (tokens : TokenPair)
  | clearTokens
  | send (request : ι) (faults : StorageFaults)
  | respond (request : ι)
  | fail (request : ι) (error : AxiosError) (faults : StorageFaults)
  | refreshed (request : ι) (accessToken : JsString) (faults : StorageFaults)
  | refreshFailed (request : ι) (faults : StorageFaults)

def Event.faults {ι : Type*} : Event ι → StorageFaults
  | .send _ faults | .fail _ _ faults | .refreshed _ _ faults | .refreshFailed _ faults => faults
  | _ => {}

/-- No storage call of the event throws. -/
def Event.Faultless {ι : Type*} (event : Event ι) : Prop := event.faults = {}

instance {ι : Type*} (event : Event ι) : Decidable event.Faultless :=
  inferInstanceAs (Decidable (event.faults = {}))

theorem Event.Faultless.get {ι : Type*} {event : Event ι} (h : event.Faultless) :
    event.faults.get = none := congrArg StorageFaults.get h

theorem Event.Faultless.set {ι : Type*} {event : Event ι} (h : event.Faultless) :
    event.faults.set = none := congrArg StorageFaults.set h

theorem Event.Faultless.clear {ι : Type*} {event : Event ι} (h : event.Faultless) :
    event.faults.clear = none := congrArg StorageFaults.clear h

/-- `Bearer <accessToken>`. -/
def bearer (accessToken : JsString) : JsString := js "Bearer " ++ accessToken

theorem bearer_injective : Function.Injective bearer := fun _ _ h => List.append_cancel_left h

/-- The header that the request interceptor leaves: a stored token replaces it. -/
def requestInterceptor (tokens : Option TokenPair) (authorization : Option JsString) :
    Option JsString :=
  match tokens with
  | none => authorization
  | some tokens =>
      if tokens.accessToken = [] then authorization else some (bearer tokens.accessToken)

namespace HttpClient

section

variable {ι : Type*} (client : HttpClient ι) (effect : Effect ι)

def note : HttpClient ι := { client with trace := client.trace ++ [effect] }

@[simp] theorem note_requests : (client.note effect).requests = client.requests := rfl
@[simp] theorem note_storage : (client.note effect).storage = client.storage := rfl
@[simp] theorem note_isRefreshing :
    (client.note effect).isRefreshing = client.isRefreshing := rfl
@[simp] theorem note_hasRefresh : (client.note effect).hasRefresh = client.hasRefresh := rfl
@[simp] theorem note_trace : (client.note effect).trace = client.trace ++ [effect] := rfl

/-- Whether the response interceptor starts a refresh. -/
def mayRefresh (r : ι) (error : AxiosError) : Bool :=
  error.response.map Response.status = some 401 && !(client.requests r).retry &&
    !client.isRefreshing && client.hasRefresh

variable {client} in
theorem mayRefresh_iff {r : ι} {error : AxiosError} :
    client.mayRefresh r error = true ↔
      error.response.map Response.status = some 401 ∧ (client.requests r).retry = false ∧
        client.isRefreshing = false ∧ client.hasRefresh = true := by
  simp [mayRefresh, and_assoc]

/-- The call of `onRefresh` for a request is pending. -/
def Pending (r : ι) : Prop :=
  ∃ error session, (client.requests r).phase = .refreshing error session

end

variable {ι : Type*} [DecidableEq ι]

/-- One request changed. -/
def put (client : HttpClient ι) (r : ι) (request : Request) : HttpClient ι :=
  { client with requests := Function.update client.requests r request }

def enter (client : HttpClient ι) (r : ι) (phase : Phase) : HttpClient ι :=
  client.put r { client.requests r with phase := phase }

def reject (client : HttpClient ι) (r : ι) (reason : Rejection) : HttpClient ι :=
  client.enter r (.rejected reason)

/-- The request interceptor, and the request that goes out with its header.  What the
interceptor throws goes through the response interceptor. -/
def send (client : HttpClient ι) (r : ι) (faults : StorageFaults) : HttpClient ι :=
  match faults.get with
  | some message => client.reject r (throwNormalised (.error message))
  | none =>
      let authorization := requestInterceptor client.storage (client.requests r).authorization
      (client.put r { client.requests r with authorization := authorization, phase := .sent }).note
        (.sent r authorization)

/-- The response interceptor, up to the call of `onRefresh`. -/
def fail (client : HttpClient ι) (r : ι) (error : AxiosError) (faults : StorageFaults) :
    HttpClient ι :=
  let told := client.note (.failed r error)
  if client.mayRefresh r error then
    let flagged :=
      { told.put r { client.requests r with retry := true } with isRefreshing := true }
    match faults.get with
    | some message => flagged.reject r (.error message)
    | none => (flagged.enter r (.refreshing error client.storage)).note
        (.refreshStarted r client.storage)
  else told.reject r (throwNormalised (.axiosError error))

/-- The response interceptor, from a successful `onRefresh` on. -/
def completeRefresh (client : HttpClient ι) (r : ι) (error : AxiosError)
    (sessionBefore : Option TokenPair) (newAccessToken : JsString) (faults : StorageFaults) :
    HttpClient ι :=
  let told := { client.note (.refreshed r newAccessToken) with isRefreshing := false }
  match faults.get with
  | some message => told.reject r (.error message)
  | none =>
      match client.storage with
      | none => told.reject r (throwNormalised (.axiosError error))
      | some sessionNow =>
          let unchanged := sameSession (some sessionNow) sessionBefore
          let storedByCallback := sessionNow.accessToken = newAccessToken
          if unchanged || storedByCallback then
            let tokens := { sessionNow with accessToken := newAccessToken }
            let called := told.note (.storageSet r client.storage tokens)
            match faults.set with
            | some message => called.reject r (.error message)
            | none => { called.enter r .queued with storage := some tokens }
          else told.reject r (throwNormalised (.axiosError error))

/-- The response interceptor, from a failed `onRefresh` on. -/
def abandonRefresh (client : HttpClient ι) (r : ι) (error : AxiosError) (faults : StorageFaults) :
    HttpClient ι :=
  let called := { client.note (.storageClear r client.storage) with isRefreshing := false }
  match faults.clear with
  | some message => called.reject r (.error message)
  | none => { called.reject r (throwNormalised (.axiosError error)) with storage := none }

/-- What one event does; `none` where the request is not there yet or already elsewhere. -/
def step (client : HttpClient ι) : Event ι → Option (HttpClient ι)
  | .issue r =>
      match (client.requests r).phase with
      | .idle => some (client.enter r .queued)
      | _ => none
  | .setTokens tokens => some { client with storage := some tokens }
  | .clearTokens => some { client with storage := none }
  | .send r faults =>
      match (client.requests r).phase with
      | .queued => some (client.send r faults)
      | _ => none
  | .respond r =>
      match (client.requests r).phase with
      | .sent => some (client.enter r .fulfilled)
      | _ => none
  | .fail r error faults =>
      match (client.requests r).phase with
      | .sent => some (client.fail r error faults)
      | _ => none
  | .refreshed r accessToken faults =>
      match (client.requests r).phase with
      | .refreshing error sessionBefore =>
          some (client.completeRefresh r error sessionBefore accessToken faults)
      | _ => none
  | .refreshFailed r faults =>
      match (client.requests r).phase with
      | .refreshing error _ => some (client.abandonRefresh r error faults)
      | _ => none

/-- The client as `createHttpClient` returns it, over a storage that may hold tokens. -/
def createHttpClient (hasRefresh : Bool) (storage : Option TokenPair) : HttpClient ι :=
  { hasRefresh := hasRefresh, storage := storage }

/-! ## What a step can do -/

section

variable (client : HttpClient ι) (r : ι) (request : Request) (phase : Phase)
  (reason : Rejection)

@[simp] theorem put_requests :
    (client.put r request).requests = Function.update client.requests r request := rfl
@[simp] theorem put_storage : (client.put r request).storage = client.storage := rfl
@[simp] theorem put_isRefreshing :
    (client.put r request).isRefreshing = client.isRefreshing := rfl
@[simp] theorem put_hasRefresh : (client.put r request).hasRefresh = client.hasRefresh := rfl
@[simp] theorem put_trace : (client.put r request).trace = client.trace := rfl

@[simp] theorem enter_requests :
    (client.enter r phase).requests =
      Function.update client.requests r { client.requests r with phase := phase } := rfl
@[simp] theorem enter_storage : (client.enter r phase).storage = client.storage := rfl
@[simp] theorem enter_isRefreshing :
    (client.enter r phase).isRefreshing = client.isRefreshing := rfl
@[simp] theorem enter_hasRefresh : (client.enter r phase).hasRefresh = client.hasRefresh := rfl
@[simp] theorem enter_trace : (client.enter r phase).trace = client.trace := rfl

@[simp] theorem reject_requests :
    (client.reject r reason).requests =
      Function.update client.requests r { client.requests r with phase := .rejected reason } :=
  rfl
@[simp] theorem reject_storage : (client.reject r reason).storage = client.storage := rfl
@[simp] theorem reject_isRefreshing :
    (client.reject r reason).isRefreshing = client.isRefreshing := rfl
@[simp] theorem reject_hasRefresh :
    (client.reject r reason).hasRefresh = client.hasRefresh := rfl
@[simp] theorem reject_trace : (client.reject r reason).trace = client.trace := rfl

end

/-- A property of each request, which may speak of the trace. -/
def Each (property : List (Effect ι) → ι → Request → Prop) (client : HttpClient ι) : Prop :=
  ∀ r, property client.trace r (client.requests r)

/-- A step that changes one request, and tells of that one only. -/
theorem each_of_update {client client' : HttpClient ι}
    {property : List (Effect ι) → ι → Request → Prop} {r : ι} {request : Request}
    {told : List (Effect ι)}
    (hgrow : ∀ trace told r request, (∀ effect ∈ told, effect.request ≠ r) →
      property trace r request → property (trace ++ told) r request)
    (heach : client.Each property)
    (hrequests : client'.requests = Function.update client.requests r request)
    (htrace : client'.trace = client.trace ++ told) (htold : ∀ effect ∈ told, effect.request = r)
    (hr : property (client.trace ++ told) r request) : client'.Each property := by
  intro r'
  rw [hrequests, htrace]
  by_cases hr' : r' = r
  · rw [hr', Function.update_self]
    exact hr
  · rw [Function.update_of_ne hr']
    have hother : ∀ effect ∈ told, effect.request ≠ r' := by
      intro effect hmem
      rw [htold effect hmem]
      exact Ne.symm hr'
    exact hgrow _ _ _ _ hother (heach r')

/-- A step that changes one request, and tells of nothing. -/
theorem each_of_silent {client client' : HttpClient ι}
    {property : List (Effect ι) → ι → Request → Prop} {r : ι} {request : Request}
    (heach : client.Each property)
    (hrequests : client'.requests = Function.update client.requests r request)
    (htrace : client'.trace = client.trace) (hr : property client.trace r request) :
    client'.Each property := by
  intro r'
  rw [hrequests, htrace]
  by_cases hr' : r' = r
  · rw [hr', Function.update_self]
    exact hr
  · rw [Function.update_of_ne hr']
    exact heach r'

/-- The steps of the machine, one rule for each way through its handlers. -/
inductive Step (client : HttpClient ι) : Event ι → HttpClient ι → Prop where
  | issue {r} (hidle : (client.requests r).phase = .idle) :
      Step client (.issue r) (client.enter r .queued)
  | setTokens (tokens) : Step client (.setTokens tokens) { client with storage := some tokens }
  | clearTokens : Step client .clearTokens { client with storage := none }
  | sendThrows {r faults message} (hqueued : (client.requests r).phase = .queued)
      (hget : faults.get = some message) :
      Step client (.send r faults) (client.reject r (throwNormalised (.error message)))
  | send {r faults authorization} (hqueued : (client.requests r).phase = .queued)
      (hget : faults.get = none)
      (hauthorization :
        authorization = requestInterceptor client.storage (client.requests r).authorization) :
      Step client (.send r faults)
        ((client.put r { client.requests r with
          authorization := authorization, phase := .sent }).note (.sent r authorization))
  | respond {r} (hsent : (client.requests r).phase = .sent) :
      Step client (.respond r) (client.enter r .fulfilled)
  | failRejects {r error faults} (hsent : (client.requests r).phase = .sent)
      (hmay : client.mayRefresh r error = false) :
      Step client (.fail r error faults)
        ((client.note (.failed r error)).reject r (throwNormalised (.axiosError error)))
  | startThrows {r error faults message} (hsent : (client.requests r).phase = .sent)
      (hmay : client.mayRefresh r error = true) (hget : faults.get = some message) :
      Step client (.fail r error faults)
        { (client.note (.failed r error)).put r
            { client.requests r with retry := true, phase := .rejected (.error message) } with
          isRefreshing := true }
  | refreshStarts {r error faults} (hsent : (client.requests r).phase = .sent)
      (hmay : client.mayRefresh r error = true) (hget : faults.get = none) :
      Step client (.fail r error faults)
        { ((client.note (.failed r error)).put r
            { client.requests r with
              retry := true, phase := .refreshing error client.storage }).note
            (.refreshStarted r client.storage) with
          isRefreshing := true }
  | refreshedThrows {r error session accessToken faults message}
      (hrefreshing : (client.requests r).phase = .refreshing error session)
      (hget : faults.get = some message) :
      Step client (.refreshed r accessToken faults)
        { (client.note (.refreshed r accessToken)).reject r (.error message) with
          isRefreshing := false }
  | sessionChanged {r error session accessToken faults}
      (hrefreshing : (client.requests r).phase = .refreshing error session)
      (hget : faults.get = none)
      (hchanged : client.storage ≠ none → client.storage ≠ session)
      (hnotStored : ∀ tokens, client.storage = some tokens → tokens.accessToken ≠ accessToken) :
      Step client (.refreshed r accessToken faults)
        { (client.note (.refreshed r accessToken)).reject r
            (throwNormalised (.axiosError error)) with
          isRefreshing := false }
  | setThrows {r error session accessToken faults message tokens}
      (hrefreshing : (client.requests r).phase = .refreshing error session)
      (hget : faults.get = none) (hset : faults.set = some message)
      (hstorage : client.storage = some tokens)
      (hsession : some tokens = session ∨ tokens.accessToken = accessToken) :
      Step client (.refreshed r accessToken faults)
        { ((client.note (.refreshed r accessToken)).note
            (.storageSet r (some tokens) { tokens with accessToken := accessToken })).reject r
            (.error message) with
          isRefreshing := false }
  | resend {r error session accessToken faults tokens}
      (hrefreshing : (client.requests r).phase = .refreshing error session)
      (hget : faults.get = none) (hset : faults.set = none)
      (hstorage : client.storage = some tokens)
      (hsession : some tokens = session ∨ tokens.accessToken = accessToken) :
      Step client (.refreshed r accessToken faults)
        { ((client.note (.refreshed r accessToken)).note
            (.storageSet r (some tokens) { tokens with accessToken := accessToken })).enter r
            .queued with
          isRefreshing := false, storage := some { tokens with accessToken := accessToken } }
  | clearThrows {r error session faults message}
      (hrefreshing : (client.requests r).phase = .refreshing error session)
      (hclear : faults.clear = some message) :
      Step client (.refreshFailed r faults)
        { (client.note (.storageClear r client.storage)).reject r (.error message) with
          isRefreshing := false }
  | abandon {r error session faults}
      (hrefreshing : (client.requests r).phase = .refreshing error session)
      (hclear : faults.clear = none) :
      Step client (.refreshFailed r faults)
        { (client.note (.storageClear r client.storage)).reject r
            (throwNormalised (.axiosError error)) with
          isRefreshing := false, storage := none }

variable {client client' : HttpClient ι} {event : Event ι}

theorem step_send {r : ι} {faults : StorageFaults}
    (hqueued : (client.requests r).phase = .queued) :
    Step client (.send r faults) (client.send r faults) := by
  unfold send
  cases hget : faults.get with
  | some message => exact .sendThrows hqueued hget
  | none => exact .send hqueued hget rfl

theorem step_fail {r : ι} {error : AxiosError} {faults : StorageFaults}
    (hsent : (client.requests r).phase = .sent) :
    Step client (.fail r error faults) (client.fail r error faults) := by
  cases hmay : client.mayRefresh r error with
  | false =>
      have h : Step client (.fail r error faults) _ := .failRejects hsent hmay
      simpa [fail, hmay] using h
  | true =>
      cases hget : faults.get with
      | some message =>
          have h := Step.startThrows hsent hmay hget
          simpa [fail, hmay, hget, reject, enter, put, note] using h
      | none =>
          have h := Step.refreshStarts hsent hmay hget
          simpa [fail, hmay, hget, reject, enter, put, note] using h

theorem step_completeRefresh {r : ι} {error : AxiosError} {session : Option TokenPair}
    {accessToken : JsString} {faults : StorageFaults}
    (hrefreshing : (client.requests r).phase = .refreshing error session) :
    Step client (.refreshed r accessToken faults)
      (client.completeRefresh r error session accessToken faults) := by
  cases hget : faults.get with
  | some message =>
      have h : Step client (.refreshed r accessToken faults) _ :=
        .refreshedThrows hrefreshing hget
      simpa [completeRefresh, hget, reject, enter, put, note] using h
  | none =>
      cases hstorage : client.storage with
      | none =>
          have h : Step client (.refreshed r accessToken faults) _ :=
            .sessionChanged hrefreshing hget (by simp [hstorage]) (by simp [hstorage])
          simpa [completeRefresh, hget, hstorage, reject, enter, put, note] using h
      | some tokens =>
          by_cases hsession : some tokens = session ∨ tokens.accessToken = accessToken
          · cases hset : faults.set with
            | some message =>
                have h := Step.setThrows hrefreshing hget hset hstorage hsession
                simpa [completeRefresh, hget, hstorage, hset, hsession, reject, enter, put,
                  note] using h
            | none =>
                have h := Step.resend hrefreshing hget hset hstorage hsession
                simpa [completeRefresh, hget, hstorage, hset, hsession, reject, enter, put,
                  note] using h
          · have h : Step client (.refreshed r accessToken faults) _ :=
              .sessionChanged hrefreshing hget (by simp_all) (by simp_all)
            simpa [completeRefresh, hget, hstorage, hsession, reject, enter, put, note] using h

theorem step_abandonRefresh {r : ι} {error : AxiosError} {session : Option TokenPair}
    {faults : StorageFaults}
    (hrefreshing : (client.requests r).phase = .refreshing error session) :
    Step client (.refreshFailed r faults) (client.abandonRefresh r error faults) := by
  cases hclear : faults.clear with
  | some message =>
      have h := Step.clearThrows hrefreshing hclear
      simpa [abandonRefresh, hclear, reject, enter, put, note] using h
  | none =>
      have h := Step.abandon hrefreshing hclear
      simpa [abandonRefresh, hclear, reject, enter, put, note] using h

/-- A step is one of the steps. -/
theorem step_cases (h : client.step event = some client') : Step client event client' := by
  cases event with
  | issue r =>
      cases hphase : (client.requests r).phase <;> simp only [step, hphase] at h <;> cases h
      exact .issue hphase
  | setTokens tokens =>
      cases h
      exact .setTokens tokens
  | clearTokens =>
      cases h
      exact .clearTokens
  | send r faults =>
      cases hphase : (client.requests r).phase <;> simp only [step, hphase] at h <;> cases h
      exact step_send hphase
  | respond r =>
      cases hphase : (client.requests r).phase <;> simp only [step, hphase] at h <;> cases h
      exact .respond hphase
  | fail r error faults =>
      cases hphase : (client.requests r).phase <;> simp only [step, hphase] at h <;> cases h
      exact step_fail hphase
  | refreshed r accessToken faults =>
      cases hphase : (client.requests r).phase <;> simp only [step, hphase] at h <;> cases h
      exact step_completeRefresh hphase
  | refreshFailed r faults =>
      cases hphase : (client.requests r).phase <;> simp only [step, hphase] at h <;> cases h
      exact step_abandonRefresh hphase

/-- What the interceptors did stays on record. -/
theorem Step.trace_extends (h : Step client event client') : client.trace <+: client'.trace := by
  cases h <;> simp

theorem trace_extends_of_run {first last : HttpClient ι} {events : List (Event ι)}
    (hrun : runEvents step first events = some last) : first.trace <+: last.trace :=
  run_keeps (fun client => first.trace <+: client.trace)
    (fun _ _ _ h hstep => h.trans (step_cases hstep).trace_extends) (List.prefix_refl _) hrun

end HttpClient

end Client
end NocoMiddleware
