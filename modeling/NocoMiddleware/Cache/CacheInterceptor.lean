import NocoMiddleware.Foundation.EventRun
import NocoMiddleware.Js.OrderedMap
import NocoMiddleware.Js.Text

/-!
# The response cache

`CacheInterceptor.intercept` under any interleaving of requests.  A `GET` request looks
its URL up in the cache; on a miss its handler runs, the response is delivered, and it is
stored while other requests go on.  The cache may lose an entry at any time.

Handlers are arbitrary: what one returns is chosen anew for every request.
-/

namespace NocoMiddleware
namespace Cache

open Js Foundation

/-- `DEFAULT_CACHE_TTL_MS`. -/
def defaultCacheTtlMs : Nat := 60 * 1000

/-- The key under which the response to a URL is kept. -/
def routeKey (url : JsString) : JsString :=
  js "route:" ++ url

theorem routeKey_injective : Function.Injective routeKey :=
  fun _ _ h => List.append_cancel_left h

/-- A request with its authenticated user. -/
structure Request (User : Type) where
  method : JsString
  url : JsString
  user : User
  deriving DecidableEq

/-- The request is one whose response is cached. -/
def Request.IsGet {User : Type} (request : Request User) : Prop :=
  request.method = js "GET"

instance {User : Type} (request : Request User) : Decidable request.IsGet :=
  inferInstanceAs (Decidable (_ = _))

/-- How far a request has come. -/
inductive Stage (Value : Type) where
  | arrived
  | handling
  | storing (response : Value)
  | done
  deriving DecidableEq

/-- An entry of the cache. -/
structure Entry (Value : Type) where
  value : Value
  expiresAt : Nat
  deriving DecidableEq

/-- A response to a request, and the time at which it was delivered or stored. -/
structure Response (User Value : Type) where
  request : Request User
  value : Value
  time : Nat
  deriving DecidableEq

/-- The cache and the requests, with what handlers returned, what was stored (the latest
first) and what was delivered. -/
structure State (User Value : Type) where
  clock : Nat
  cache : OrderedMap JsString (Entry Value)
  calls : List (Request User × Stage Value)
  results : List (Request User × Value)
  stored : List (Response User Value)
  delivered : List (Response User Value)

/-- The state after startup. -/
def State.start {User Value : Type} (clock : Nat) : State User Value :=
  ⟨clock, .empty, [], [], [], []⟩

/-- What happens next; requests are numbered in the order of their arrival. -/
inductive Event (User Value : Type) where
  | advance (clock : Nat)
  | arrive (request : Request User)
  /-- `cacheService.get`, where the request is a `GET`. -/
  | lookup (call : Nat)
  /-- The handler returns. -/
  | handle (call : Nat) (response : Value)
  /-- The handler throws. -/
  | fail (call : Nat)
  /-- `cacheService.set`. -/
  | store (call : Nat)
  /-- The cache drops an entry. -/
  | evict (key : JsString)

section

variable {User Value : Type}

/-- The value that `cacheService.get` answers with. -/
def State.cached (state : State User Value) (key : JsString) : Option Value :=
  ((state.cache.get key).filter fun entry => state.clock ≤ entry.expiresAt).map Entry.value

variable (truthy : Value → Bool)

/-- The response of a cache hit: a kept value counts only if it is truthy. -/
def State.hit (state : State User Value) (request : Request User) : Option Value :=
  if request.IsGet then (state.cached (routeKey request.url)).filter fun value => truthy value
  else none

/-- One step of the interceptor. -/
def interceptStep (state : State User Value) : Event User Value → Option (State User Value)
  | .advance clock => if state.clock ≤ clock then some { state with clock := clock } else none
  | .arrive request => some { state with calls := state.calls ++ [(request, .arrived)] }
  | .lookup call =>
      match state.calls[call]? with
      | some (request, .arrived) =>
          match state.hit truthy request with
          | some value =>
              some { state with
                calls := state.calls.set call (request, .done)
                delivered := state.delivered ++ [⟨request, value, state.clock⟩] }
          | none => some { state with calls := state.calls.set call (request, .handling) }
      | _ => none
  | .handle call response =>
      match state.calls[call]? with
      | some (request, .handling) =>
          some { state with
            calls := state.calls.set call
              (request, if request.IsGet then .storing response else .done)
            results := state.results ++ [(request, response)]
            delivered := state.delivered ++ [⟨request, response, state.clock⟩] }
      | _ => none
  | .fail call =>
      match state.calls[call]? with
      | some (request, .handling) =>
          some { state with calls := state.calls.set call (request, .done) }
      | _ => none
  | .store call =>
      match state.calls[call]? with
      | some (request, .storing response) =>
          some { state with
            cache := state.cache.set (routeKey request.url)
              ⟨response, state.clock + defaultCacheTtlMs⟩
            calls := state.calls.set call (request, .done)
            stored := ⟨request, response, state.clock⟩ :: state.stored }
      | _ => none
  | .evict key => some { state with cache := state.cache.delete key }

variable {truthy} {state state' : State User Value}

/-- The latest response that was stored for a URL. -/
def State.lastStored (state : State User Value) (url : JsString) :
    Option (Response User Value) :=
  state.stored.find? fun response => response.request.url = url

/-! ## Where responses come from -/

/-- A delivered response is one that the handler returned for a request of the same user
to the same URL. -/
def Own (state : State User Value) (delivered : Response User Value) : Prop :=
  ∃ result ∈ state.results, result.1.user = delivered.request.user ∧
    result.1.url = delivered.request.url ∧ result.2 = delivered.value

/-- A delivered response to a `GET` request is one that the handler returned for a `GET`
request of another user to the same URL, and that had been stored no longer than
`DEFAULT_CACHE_TTL_MS` before. -/
def Shared (state : State User Value) (delivered : Response User Value) : Prop :=
  delivered.request.IsGet ∧ ∃ stored ∈ state.stored,
    stored.request.IsGet ∧ stored.request.url = delivered.request.url ∧
      stored.request.user ≠ delivered.request.user ∧ stored.value = delivered.value ∧
      (stored.request, stored.value) ∈ state.results ∧ stored.time ≤ delivered.time ∧
      delivered.time ≤ stored.time + defaultCacheTtlMs

/-- What the interceptor keeps: responses are stored for `GET` requests after the handler
returned them, and the entry of a URL is the latest one stored for it. -/
structure Traced (state : State User Value) : Prop where
  storing : ∀ request response, (request, Stage.storing response) ∈ state.calls →
    request.IsGet ∧ (request, response) ∈ state.results
  stored : ∀ response ∈ state.stored, response.request.IsGet ∧
    (response.request, response.value) ∈ state.results ∧ response.time ≤ state.clock
  cached : ∀ key entry, state.cache.get key = some entry →
    ∃ url last, key = routeKey url ∧ state.lastStored url = some last ∧
      last.value = entry.value ∧ entry.expiresAt = last.time + defaultCacheTtlMs

theorem traced_start (clock : Nat) : Traced (State.start clock : State User Value) where
  storing := by simp [State.start]
  stored := by simp [State.start]
  cached := by simp [State.start]

/-- The response of a hit is the latest one stored for the URL, and not too old. -/
theorem Traced.hit (h : Traced state) {request : Request User} {value : Value}
    (hhit : state.hit truthy request = some value) :
    request.IsGet ∧ ∃ last, state.lastStored request.url = some last ∧ last ∈ state.stored ∧
      last.request.url = request.url ∧ last.value = value ∧
      state.clock ≤ last.time + defaultCacheTtlMs := by
  unfold State.hit at hhit
  split at hhit
  · next hget =>
      obtain ⟨hcached, -⟩ := Option.filter_eq_some_iff.mp hhit
      obtain ⟨entry, hentry, rfl⟩ := Option.map_eq_some_iff.mp hcached
      obtain ⟨hentry, hlive⟩ := Option.filter_eq_some_iff.mp hentry
      obtain ⟨url, last, hkey, hlast, hvalue, hexpires⟩ := h.cached _ _ hentry
      obtain rfl : request.url = url := routeKey_injective hkey
      rw [decide_eq_true_eq, hexpires] at hlive
      obtain ⟨hmem, hurl⟩ := of_find hlast
      exact ⟨hget, last, hlast, hmem, hurl, hvalue, hlive⟩
  · contradiction

/-- The stages of the calls after one of them has moved on. -/
theorem storing_of_set {calls : List (Request User × Stage Value)} {call : Nat}
    {request other : Request User} {stage : Stage Value} {response : Value}
    (hmem : (other, Stage.storing response) ∈ calls.set call (request, stage)) :
    (other, Stage.storing response) ∈ calls ∨ other = request ∧ stage = .storing response := by
  rcases List.mem_or_eq_of_mem_set hmem with hmem | heq
  · exact Or.inl hmem
  · obtain ⟨rfl, rfl⟩ := Prod.mk.inj heq
    exact Or.inr ⟨rfl, rfl⟩

theorem done_ne_storing (response : Value) : Stage.done ≠ .storing response := nofun

theorem handling_ne_storing (response : Value) : Stage.handling ≠ .storing response := nofun

/-- A call that moves on, but not to its `cacheService.set`. -/
theorem Traced.moves (h : Traced state) (call : Nat) (request : Request User)
    {stage : Stage Value} (hstage : ∀ response, stage ≠ .storing response)
    (delivered : List (Response User Value)) :
    Traced { state with
      calls := state.calls.set call (request, stage)
      delivered := delivered } where
  storing other response hmem := by
    rcases storing_of_set hmem with hmem | ⟨-, hsame⟩
    · exact h.storing other response hmem
    · exact absurd hsame (hstage response)
  stored := h.stored
  cached := h.cached

/-- The handler has returned, and the response to a `GET` is to be stored. -/
theorem Traced.handles (h : Traced state) (call : Nat) (request : Request User)
    (response : Value) (delivered : List (Response User Value)) :
    Traced { state with
      calls := state.calls.set call (request, if request.IsGet then .storing response else .done)
      results := state.results ++ [(request, response)]
      delivered := delivered } where
  storing other value hmem := by
    rcases storing_of_set hmem with hmem | ⟨rfl, hstage⟩
    · obtain ⟨hget, hresult⟩ := h.storing other value hmem
      exact ⟨hget, List.mem_append_left _ hresult⟩
    · split at hstage
      · next hget =>
          obtain rfl := Stage.storing.inj hstage
          exact ⟨hget, List.mem_append_right _ (List.mem_singleton_self _)⟩
      · contradiction
  stored other hother := by
    obtain ⟨hget, hresult, htime⟩ := h.stored other hother
    exact ⟨hget, List.mem_append_left _ hresult, htime⟩
  cached := h.cached

/-- The entry of a URL is overwritten by the response that is stored for it. -/
theorem Traced.stores (h : Traced state) {call : Nat} {request : Request User}
    {response : Value} (hcall : state.calls[call]? = some (request, .storing response)) :
    Traced { state with
      cache := state.cache.set (routeKey request.url) ⟨response, state.clock + defaultCacheTtlMs⟩
      calls := state.calls.set call (request, .done)
      stored := ⟨request, response, state.clock⟩ :: state.stored } where
  storing := (h.moves call request done_ne_storing state.delivered).storing
  stored other hother := by
    rcases List.mem_cons.mp hother with rfl | hother
    · obtain ⟨hget, hresult⟩ := h.storing _ _ (List.mem_of_getElem? hcall)
      exact ⟨hget, hresult, le_refl _⟩
    · exact h.stored other hother
  cached key entry hentry := by
    rw [OrderedMap.get_set] at hentry
    split at hentry
    · next hkey =>
        obtain rfl := Option.some.inj hentry
        exact ⟨request.url, ⟨request, response, state.clock⟩, hkey,
          List.find?_cons_of_pos (by simp), rfl, rfl⟩
    · next hkey =>
        obtain ⟨url, last, rfl, hlast, hrest⟩ := h.cached key entry hentry
        have hurl : request.url ≠ url := fun hurl => hkey (by rw [hurl])
        refine ⟨url, last, rfl, ?_, hrest⟩
        rw [State.lastStored, List.find?_cons_of_neg (by simpa using hurl)]
        exact hlast

theorem Traced.step {event : Event User Value} (h : Traced state)
    (hstep : interceptStep truthy state event = some state') : Traced state' := by
  cases event with
  | advance clock =>
      simp only [interceptStep] at hstep
      split at hstep
      · next hlater =>
          obtain rfl := Option.some.inj hstep
          refine ⟨h.storing, ?_, h.cached⟩
          intro response hresponse
          obtain ⟨hget, hresult, htime⟩ := h.stored response hresponse
          exact ⟨hget, hresult, le_trans htime hlater⟩
      · contradiction
  | arrive request =>
      obtain rfl := Option.some.inj hstep
      refine ⟨?_, h.stored, h.cached⟩
      intro other response hmem
      rcases List.mem_append.mp hmem with hmem | hmem
      · exact h.storing other response hmem
      · simp at hmem
  | lookup call =>
      simp only [interceptStep] at hstep
      split at hstep
      · split at hstep
        · obtain rfl := Option.some.inj hstep
          exact h.moves call _ done_ne_storing _
        · obtain rfl := Option.some.inj hstep
          exact h.moves call _ handling_ne_storing _
      · contradiction
  | handle call response =>
      simp only [interceptStep] at hstep
      split at hstep
      · obtain rfl := Option.some.inj hstep
        exact h.handles call _ response _
      · contradiction
  | fail call =>
      simp only [interceptStep] at hstep
      split at hstep
      · obtain rfl := Option.some.inj hstep
        exact h.moves call _ done_ne_storing _
      · contradiction
  | store call =>
      simp only [interceptStep] at hstep
      split at hstep
      · next request response hcall =>
          obtain rfl := Option.some.inj hstep
          exact h.stores hcall
      · contradiction
  | evict key =>
      obtain rfl := Option.some.inj hstep
      refine ⟨h.storing, h.stored, ?_⟩
      intro other entry hentry
      exact h.cached other entry (OrderedMap.get_of_get_delete hentry).2

/-- What a step delivers is the response of a hit or one that the handler just returned. -/
theorem delivered_of_step {event : Event User Value}
    (hstep : interceptStep truthy state event = some state') :
    (∀ result ∈ state.results, result ∈ state'.results) ∧
      (∀ response ∈ state.stored, response ∈ state'.stored) ∧
      ∀ delivered ∈ state'.delivered, delivered ∈ state.delivered ∨
        (delivered.request, delivered.value) ∈ state'.results ∨
        delivered.time = state.clock ∧
          state.hit truthy delivered.request = some delivered.value ∧
          ∃ call, event = .lookup call ∧
            state.calls[call]? = some (delivered.request, .arrived) := by
  cases event with
  | advance clock =>
      simp only [interceptStep] at hstep
      split at hstep
      · obtain rfl := Option.some.inj hstep
        exact ⟨fun _ h => h, fun _ h => h, fun _ h => Or.inl h⟩
      · contradiction
  | arrive request =>
      obtain rfl := Option.some.inj hstep
      exact ⟨fun _ h => h, fun _ h => h, fun _ h => Or.inl h⟩
  | lookup call =>
      simp only [interceptStep] at hstep
      split at hstep
      · next request hcall =>
          split at hstep
          · next value hhit =>
              obtain rfl := Option.some.inj hstep
              refine ⟨fun _ h => h, fun _ h => h, ?_⟩
              intro delivered hdelivered
              rw [List.mem_append, List.mem_singleton] at hdelivered
              rcases hdelivered with hdelivered | rfl
              · exact Or.inl hdelivered
              · exact Or.inr (Or.inr ⟨rfl, hhit, call, rfl, hcall⟩)
          · obtain rfl := Option.some.inj hstep
            exact ⟨fun _ h => h, fun _ h => h, fun _ h => Or.inl h⟩
      · contradiction
  | handle call response =>
      simp only [interceptStep] at hstep
      split at hstep
      · obtain rfl := Option.some.inj hstep
        refine ⟨fun _ h => List.mem_append_left _ h, fun _ h => h, ?_⟩
        intro delivered hdelivered
        rw [List.mem_append, List.mem_singleton] at hdelivered
        rcases hdelivered with hdelivered | rfl
        · exact Or.inl hdelivered
        · exact Or.inr (Or.inl (List.mem_append_right _ (List.mem_singleton_self _)))
      · contradiction
  | fail call =>
      simp only [interceptStep] at hstep
      split at hstep
      · obtain rfl := Option.some.inj hstep
        exact ⟨fun _ h => h, fun _ h => h, fun _ h => Or.inl h⟩
      · contradiction
  | store call =>
      simp only [interceptStep] at hstep
      split at hstep
      · obtain rfl := Option.some.inj hstep
        exact ⟨fun _ h => h, fun _ h => List.mem_cons_of_mem _ h, fun _ h => Or.inl h⟩
      · contradiction
  | evict key =>
      obtain rfl := Option.some.inj hstep
      exact ⟨fun _ h => h, fun _ h => h, fun _ h => Or.inl h⟩

theorem Own.mono {delivered : Response User Value} (h : Own state delivered)
    (hresults : ∀ result ∈ state.results, result ∈ state'.results) : Own state' delivered := by
  obtain ⟨result, hresult, hsame⟩ := h
  exact ⟨result, hresults result hresult, hsame⟩

theorem Shared.mono {delivered : Response User Value} (h : Shared state delivered)
    (hresults : ∀ result ∈ state.results, result ∈ state'.results)
    (hstored : ∀ response ∈ state.stored, response ∈ state'.stored) :
    Shared state' delivered := by
  obtain ⟨hget, stored, hmem, hstoredGet, hurl, huser, hvalue, hresult, htime⟩ := h
  exact ⟨hget, stored, hstored stored hmem, hstoredGet, hurl, huser, hvalue,
    hresults _ hresult, htime⟩

/-- A hit delivers a response of the same user, or one that another user shares. -/
theorem Traced.own_or_shared (h : Traced state) {delivered : Response User Value}
    (htime : delivered.time = state.clock)
    (hhit : state.hit truthy delivered.request = some delivered.value) :
    Own state delivered ∨ Shared state delivered := by
  obtain ⟨hget, last, -, hmem, hurl, hvalue, hlive⟩ := h.hit hhit
  obtain ⟨hlastGet, hresult, hpast⟩ := h.stored last hmem
  by_cases huser : last.request.user = delivered.request.user
  · exact Or.inl ⟨_, hresult, huser, hurl, hvalue⟩
  · rw [← htime] at hlive hpast
    exact Or.inr ⟨hget, last, hmem, hlastGet, hurl, huser, hvalue, hresult, hpast, hlive⟩

/-- One step delivers only responses of the same user and shared ones. -/
theorem served_step {event : Event User Value} (h : Traced state)
    (hserved : ∀ delivered ∈ state.delivered, Own state delivered ∨ Shared state delivered)
    (hstep : interceptStep truthy state event = some state') :
    ∀ delivered ∈ state'.delivered, Own state' delivered ∨ Shared state' delivered := by
  obtain ⟨hresults, hstored, hdelivered⟩ := delivered_of_step hstep
  have hmono : ∀ delivered, Own state delivered ∨ Shared state delivered →
      Own state' delivered ∨ Shared state' delivered := by
    intro delivered hold
    exact hold.imp (fun hown => hown.mono hresults) (fun hshared => hshared.mono hresults hstored)
  intro delivered hmem
  rcases hdelivered delivered hmem with hold | hresult | ⟨htime, hhit, -⟩
  · exact hmono delivered (hserved delivered hold)
  · exact Or.inl ⟨_, hresult, rfl, rfl, rfl⟩
  · exact hmono delivered (h.own_or_shared htime hhit)

/-- In every run each delivered response is one that the handler returned for the same
user and URL, or one that a `GET` request of another user to the same URL had stored in
the last minute. -/
theorem responses_own_or_shared {events : List (Event User Value)} {clock : Nat}
    (hrun : runEvents (interceptStep truthy) (.start clock) events = some state) :
    ∀ delivered ∈ state.delivered, Own state delivered ∨ Shared state delivered := by
  have hboth : Traced state ∧
      ∀ delivered ∈ state.delivered, Own state delivered ∨ Shared state delivered := by
    apply run_keeps (fun state => Traced state ∧
      ∀ delivered ∈ state.delivered, Own state delivered ∨ Shared state delivered) _ _ hrun
    · rintro state event state' ⟨htraced, hserved⟩ hstep
      exact ⟨htraced.step hstep, served_step htraced hserved hstep⟩
    · exact ⟨traced_start clock, by simp [State.start]⟩
  exact hboth.2

/-- Two users request the same URL; the handler answers each with its own data. -/
def twoUsers : List (Event JsString JsString) :=
  [.arrive ⟨js "GET", js "/examples", js "alice"⟩, .lookup 0, .handle 0 (js "data of alice"),
    .store 0, .advance 1000, .arrive ⟨js "GET", js "/examples", js "bob"⟩, .lookup 1]

/-- What is delivered in that run: the second user receives the response to the first. -/
theorem delivered_twoUsers :
    (runEvents (interceptStep fun response => response ≠ []) (.start 0) twoUsers).map
        (fun state => (state.delivered, state.results)) =
      some ([⟨⟨js "GET", js "/examples", js "alice"⟩, js "data of alice", 0⟩,
          ⟨⟨js "GET", js "/examples", js "bob"⟩, js "data of alice", 1000⟩],
        [(⟨js "GET", js "/examples", js "alice"⟩, js "data of alice")]) := by
  decide

theorem responses_own_or_shared_twoUsers :
    ∃ state : State JsString JsString,
      runEvents (interceptStep fun response => response ≠ []) (.start 0) twoUsers =
        some state ∧
      state.delivered.length = 2 ∧
      ∀ delivered ∈ state.delivered, Own state delivered ∨ Shared state delivered := by
  obtain ⟨state, hrun, hstate⟩ := Option.map_eq_some_iff.mp delivered_twoUsers
  refine ⟨state, hrun, ?_, responses_own_or_shared hrun⟩
  rw [(Prod.mk.inj hstate).1]
  rfl

/-- So not every response delivered to a user was made for a request of that user. -/
theorem response_of_other_user_delivered :
    ¬ ∀ (truthy : JsString → Bool) (clock : Nat) (events : List (Event JsString JsString))
        (state : State JsString JsString),
        runEvents (interceptStep truthy) (.start clock) events = some state →
          ∀ delivered ∈ state.delivered, delivered.request.IsGet → Own state delivered := by
  intro h
  obtain ⟨state, hrun, hstate⟩ := Option.map_eq_some_iff.mp delivered_twoUsers
  obtain ⟨hdelivered, hresults⟩ := Prod.mk.inj hstate
  have hown := h _ 0 twoUsers state hrun
    ⟨⟨js "GET", js "/examples", js "bob"⟩, js "data of alice", 1000⟩
    (by rw [hdelivered]; decide) rfl
  obtain ⟨result, hmem, huser, -⟩ := hown
  rw [hresults, List.mem_singleton] at hmem
  subst hmem
  revert huser
  decide

/-! ## Users apart -/

/-- A lookup that finds a response finds one that was stored for its own user. -/
def FindsOwn (truthy : Value → Bool) (state : State User Value) : Event User Value → Prop
  | .lookup call => ∀ request, state.calls[call]? = some (request, .arrived) →
      (state.hit truthy request).isSome → ∀ last ∈ state.lastStored request.url,
        last.request.user = request.user
  | _ => True

/-- Where lookups find only what was stored for their own user, nothing is shared. -/
theorem responses_own {events : List (Event User Value)} {clock : Nat}
    (hfinds : Along (interceptStep truthy) (.start clock) (FindsOwn truthy) events)
    (hrun : runEvents (interceptStep truthy) (.start clock) events = some state) :
    ∀ delivered ∈ state.delivered, Own state delivered := by
  have hboth : Traced state ∧ ∀ delivered ∈ state.delivered, Own state delivered := by
    apply run_induction (fun state => Traced state ∧
      ∀ delivered ∈ state.delivered, Own state delivered) _ _ hfinds hrun
    · exact ⟨traced_start clock, by simp [State.start]⟩
    · rintro state event state' ⟨htraced, hown⟩ hfound hstep
      refine ⟨htraced.step hstep, ?_⟩
      obtain ⟨hresults, -, hdelivered⟩ := delivered_of_step hstep
      intro delivered hmem
      rcases hdelivered delivered hmem with hold | hresult | ⟨-, hhit, call, rfl, hcall⟩
      · exact (hown delivered hold).mono hresults
      · exact ⟨_, hresult, rfl, rfl, rfl⟩
      · obtain ⟨-, last, hlast, hstored, hurl, hvalue, -⟩ := htraced.hit hhit
        have huser := hfound delivered.request hcall (by simp [hhit]) last hlast
        exact ⟨_, hresults _ (htraced.stored last hstored).2.1, huser, hurl, hvalue⟩
  exact hboth.2

end

end Cache
end NocoMiddleware
