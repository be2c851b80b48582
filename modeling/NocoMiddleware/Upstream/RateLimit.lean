import NocoMiddleware.Foundation.Windows
import NocoMiddleware.Upstream.RetryPolicy

/-!
# The rate limit of the Data API

`enforceRateLimit` of `nocodb.service.ts` with the calls that pass through it and the
retry layer underneath.  A call takes a slot before each of its requests: the slots are
handed out one after the other along `rateLimitChain`, `minRequestInterval` apart.  A
failed request that is sent again waits for its own delay only.

Timers are exact: the clock does not pass the time at which one is due.
-/

namespace NocoMiddleware
namespace Upstream

open Js Foundation

/-- `rateLimit`, in requests per second. -/
def rateLimit : Nat := 5

/-- `minRequestInterval`, in milliseconds. -/
def minRequestInterval : Nat := 1000 / rateLimit

/-- `NOCODB_RETRY_COUNT`, `NOCODB_RETRY_BASE_DELAY` and `NOCODB_RETRY_MAX_DELAY`. -/
structure RetryConfig where
  retryCount : Nat
  retryBaseDelay : Nat
  retryMaxDelay : Nat

/-- The configuration without these variables. -/
def RetryConfig.default : RetryConfig :=
  ⟨3, 1000, 10000⟩

/-- `retryDelay`: the values that it may return, with a jitter of a quarter of the delay
at most and rounded. -/
def RetryConfig.AllowsDelay (config : RetryConfig) (retryCountParam result : Nat) : Prop :=
  let delay := min (config.retryBaseDelay * 2 ^ (retryCountParam - 1)) config.retryMaxDelay
  3 * delay < 4 * result + 2 ∧ 4 * result < 5 * delay + 2

instance (config : RetryConfig) (retryCountParam result : Nat) :
    Decidable (config.AllowsDelay retryCountParam result) :=
  inferInstanceAs (Decidable (_ ∧ _))

/-- The calls of the Data API. -/
inductive DataCall where
  | create
  | read
  | update
  | delete
  | list (withCount : Bool)
  | count
  deriving DecidableEq

/-- The requests that a call makes one after the other, each after a slot of its own. -/
def DataCall.requests : DataCall → List JsString
  | create => [js "post"]
  | read => [js "get"]
  | update => [js "patch"]
  | delete => [js "delete"]
  | list withCount => if withCount then [js "get", js "get"] else [js "get"]
  | count => [js "get"]

/-- Where a call stands: its remaining requests wait for a slot, a request is under way,
or it waits until it is sent again. -/
inductive Phase where
  | queued (requests : List JsString)
  | inFlight (retryCount : Nat) (method : JsString) (rest : List JsString)
  | backingOff (retryCount : Nat) (method : JsString) (rest : List JsString) (due : Nat)
  | finished
  deriving DecidableEq

/-- The time at which the timer of a call is due. -/
def Phase.due : Phase → Option Nat
  | backingOff _ _ _ due => some due
  | _ => none

/-- A request that was sent, and whether it had been sent before. -/
structure Start where
  time : Nat
  resent : Bool
  deriving DecidableEq

/-- The rate limiter, the calls in the order in which they were made, and the requests
that were sent.  `chain` holds the calls that wait in `rateLimitChain`, `sleeping` the one
whose link waits for its scheduled time. -/
structure Limiter where
  clock : Nat
  nextAllowedTime : Nat
  chain : List Nat
  sleeping : Option (Nat × Nat)
  calls : List Phase
  starts : List Start
  deriving DecidableEq

/-- The state after startup. -/
def Limiter.start (clock : Nat) : Limiter :=
  ⟨clock, 0, [], none, [], []⟩

/-- What happens next. -/
inductive Event where
  /-- Time passes. -/
  | advance (clock : Nat)
  /-- A method of the service is called. -/
  | call (called : DataCall)
  /-- The next link of `rateLimitChain` runs. -/
  | schedule
  /-- The link that sleeps is due, and its request is sent. -/
  | proceed
  /-- A send has an outcome; a retry is delayed as given. -/
  | answer (call : Nat) (outcome : Outcome) (delay : Nat)
  /-- A delayed retry is due. -/
  | resend (call : Nat)

section

variable (config : RetryConfig)

/-- What the outcome of a send does: `axios-retry` delays the next send, or the call goes
on with its next request or ends. -/
def settleSend (state : Limiter) (call retryCount : Nat) (method : JsString)
    (rest : List JsString) (outcome : Outcome) (delay : Nat) : Option Limiter :=
  if isRetried method outcome && retryCount < config.retryCount then
    if config.AllowsDelay (retryCount + 1) delay then
      some { state with
        calls := state.calls.set call
          (.backingOff (retryCount + 1) method rest (state.clock + delay)) }
    else none
  else if outcome.failure.isNone && rest ≠ [] then
    -- the count of a list waits for a slot of its own
    some { state with
      calls := state.calls.set call (.queued rest)
      chain := state.chain ++ [call] }
  else some { state with calls := state.calls.set call .finished }

/-- One step of the limiter and its calls. -/
def limiterStep (state : Limiter) : Event → Option Limiter
  | .advance clock =>
      if state.clock ≤ clock ∧ (∀ link ∈ state.sleeping, clock ≤ link.2) ∧
          ∀ phase ∈ state.calls, ∀ due ∈ phase.due, clock ≤ due then
        some { state with clock := clock }
      else none
  | .call called =>
      some { state with
        calls := state.calls ++ [.queued called.requests]
        chain := state.chain ++ [state.calls.length] }
  | .schedule =>
      match state.sleeping, state.chain with
      | none, call :: chain =>
          let scheduledTime := max state.clock state.nextAllowedTime
          some { state with
            chain := chain
            sleeping := some (call, scheduledTime)
            nextAllowedTime := scheduledTime + minRequestInterval }
      | _, _ => none
  | .proceed =>
      match state.sleeping with
      | some (call, scheduledTime) =>
          match state.calls[call]? with
          | some (.queued (method :: rest)) =>
              if state.clock = scheduledTime then
                some { state with
                  sleeping := none
                  calls := state.calls.set call (.inFlight 0 method rest)
                  starts := state.starts ++ [⟨state.clock, false⟩] }
              else none
          | _ => none
      | none => none
  | .answer call outcome delay =>
      match state.calls[call]? with
      | some (.inFlight retryCount method rest) =>
          settleSend config state call retryCount method rest outcome delay
      | _ => none
  | .resend call =>
      match state.calls[call]? with
      | some (.backingOff retryCount method rest due) =>
          if state.clock = due then
            some { state with
              calls := state.calls.set call (.inFlight retryCount method rest)
              starts := state.starts ++ [⟨state.clock, true⟩] }
          else none
      | _ => none

/-! ## What a step does to the times -/

/-- What the steps of each kind do to the clock, the slots and the list of starts. -/
inductive Timed (state state' : Limiter) : Event → Prop where
  | advance {clock : Nat} (hclock : state'.clock = clock) (hlater : state.clock ≤ clock)
      (hdue : ∀ link ∈ state.sleeping, clock ≤ link.2)
      (hnext : state'.nextAllowedTime = state.nextAllowedTime)
      (hsleeping : state'.sleeping = state.sleeping) (hstarts : state'.starts = state.starts) :
      Timed state state' (.advance clock)
  | schedule {call : Nat} (hclock : state'.clock = state.clock) (hidle : state.sleeping = none)
      (hsleeping : state'.sleeping = some (call, max state.clock state.nextAllowedTime))
      (hnext : state'.nextAllowedTime =
        max state.clock state.nextAllowedTime + minRequestInterval)
      (hstarts : state'.starts = state.starts) :
      Timed state state' .schedule
  | proceed {call : Nat} (hclock : state'.clock = state.clock)
      (hdue : state.sleeping = some (call, state.clock)) (hsleeping : state'.sleeping = none)
      (hnext : state'.nextAllowedTime = state.nextAllowedTime)
      (hstarts : state'.starts = state.starts ++ [⟨state.clock, false⟩]) :
      Timed state state' .proceed
  | resend {call : Nat} (hclock : state'.clock = state.clock)
      (hsleeping : state'.sleeping = state.sleeping)
      (hnext : state'.nextAllowedTime = state.nextAllowedTime)
      (hstarts : state'.starts = state.starts ++ [⟨state.clock, true⟩]) :
      Timed state state' (.resend call)
  | other {event : Event} (hclock : state'.clock = state.clock)
      (hsleeping : state'.sleeping = state.sleeping)
      (hnext : state'.nextAllowedTime = state.nextAllowedTime)
      (hstarts : state'.starts = state.starts) :
      Timed state state' event

variable {config} {state state' : Limiter} {event : Event}

theorem settleSend_eq_some {call retryCount delay : Nat} {method : JsString}
    {rest : List JsString} {outcome : Outcome}
    (h : settleSend config state call retryCount method rest outcome delay = some state') :
    ∃ phase chain, state' =
      { state with calls := state.calls.set call phase, chain := chain } := by
  unfold settleSend at h
  split at h
  · split at h
    · obtain rfl := Option.some.inj h
      exact ⟨_, state.chain, rfl⟩
    · contradiction
  · split at h
    · obtain rfl := Option.some.inj h
      exact ⟨_, _, rfl⟩
    · obtain rfl := Option.some.inj h
      exact ⟨_, state.chain, rfl⟩

theorem timed_of_step (h : limiterStep config state event = some state') :
    Timed state state' event := by
  cases event with
  | advance clock =>
      simp only [limiterStep] at h
      split at h
      · next hadvance =>
          obtain rfl := Option.some.inj h
          exact .advance rfl hadvance.1 hadvance.2.1 rfl rfl rfl
      · contradiction
  | call called =>
      obtain rfl := Option.some.inj h
      exact .other rfl rfl rfl rfl
  | schedule =>
      simp only [limiterStep] at h
      split at h
      · next hidle _ =>
          obtain rfl := Option.some.inj h
          exact .schedule rfl hidle rfl rfl rfl
      · contradiction
  | proceed =>
      simp only [limiterStep] at h
      split at h
      · next call scheduledTime hsleeping =>
          split at h
          · split at h
            · next hdue =>
                obtain rfl := Option.some.inj h
                exact .proceed rfl (by rw [hsleeping, hdue]) rfl rfl rfl
            · contradiction
          · contradiction
      · contradiction
  | answer call outcome delay =>
      simp only [limiterStep] at h
      split at h
      · obtain ⟨phase, chain, rfl⟩ := settleSend_eq_some h
        exact .other rfl rfl rfl rfl
      · contradiction
  | resend call =>
      simp only [limiterStep] at h
      split at h
      · split at h
        · obtain rfl := Option.some.inj h
          exact .resend rfl rfl rfl rfl
        · contradiction
      · contradiction

/-! ## The slots -/

/-- The slots that were handed out lie `minRequestInterval` before the next one, which is
the one that a link sleeps for or else the earliest that is still allowed. -/
structure Slotted (state : Limiter) : Prop where
  past : ∀ start ∈ state.starts, start.time ≤ state.clock
  allowed : ∀ start ∈ state.starts, start.resent = false →
    start.time + minRequestInterval ≤ state.nextAllowedTime
  scheduled : ∀ link ∈ state.sleeping, link.2 + minRequestInterval = state.nextAllowedTime ∧
    ∀ start ∈ state.starts, start.resent = false →
      start.time + minRequestInterval ≤ link.2

theorem slotted_start (clock : Nat) : Slotted (.start clock) where
  past := by simp [Limiter.start]
  allowed := by simp [Limiter.start]
  scheduled := by simp [Limiter.start]

/-- A request that is sent now is no later than the clock. -/
theorem Slotted.past_concat {resent : Bool} (h : Slotted state)
    (hclock : state'.clock = state.clock)
    (hstarts : state'.starts = state.starts ++ [⟨state.clock, resent⟩]) :
    ∀ start ∈ state'.starts, start.time ≤ state'.clock := by
  intro start hstart
  rw [hstarts, List.mem_append, List.mem_singleton] at hstart
  rcases hstart with hstart | rfl
  · have := h.past start hstart
    omega
  · exact le_of_eq hclock.symm

theorem Slotted.step (h : Slotted state)
    (hstep : limiterStep config state event = some state') : Slotted state' := by
  cases timed_of_step hstep with
  | advance hclock hlater hdue hnext hsleeping hstarts =>
      constructor
      · intro start hstart
        rw [hstarts] at hstart
        have := h.past start hstart
        omega
      · simpa only [hstarts, hnext] using h.allowed
      · simpa only [hstarts, hnext, hsleeping] using h.scheduled
  | schedule hclock hidle hsleeping hnext hstarts =>
      constructor
      · simpa only [hstarts, hclock] using h.past
      · intro start hstart hfirst
        rw [hstarts] at hstart
        have := h.allowed start hstart hfirst
        omega
      · intro link hlink
        rw [hsleeping] at hlink
        obtain rfl := Option.some.inj hlink
        constructor
        · exact hnext.symm
        · intro start hstart hfirst
          rw [hstarts] at hstart
          have := h.allowed start hstart hfirst
          show start.time + minRequestInterval ≤ max state.clock state.nextAllowedTime
          omega
  | proceed hclock hdue hsleeping hnext hstarts =>
      obtain ⟨hscheduled, -⟩ := h.scheduled _ hdue
      constructor
      · exact h.past_concat hclock hstarts
      · intro start hstart hfirst
        rw [hstarts, List.mem_append, List.mem_singleton] at hstart
        rw [hnext]
        rcases hstart with hstart | rfl
        · exact h.allowed start hstart hfirst
        · exact le_of_eq hscheduled
      · intro link hlink
        simp [hsleeping] at hlink
  | resend hclock hsleeping hnext hstarts =>
      -- a re-sent request takes no slot
      have hfirst : ∀ start ∈ state'.starts, start.resent = false → start ∈ state.starts := by
        intro start hstart hfirst
        rw [hstarts, List.mem_append, List.mem_singleton] at hstart
        rcases hstart with hstart | rfl
        · exact hstart
        · contradiction
      constructor
      · exact h.past_concat hclock hstarts
      · intro start hstart hresent
        rw [hnext]
        exact h.allowed start (hfirst start hstart hresent) hresent
      · intro link hlink
        rw [hsleeping] at hlink
        obtain ⟨hscheduled, hbefore⟩ := h.scheduled link hlink
        rw [hnext]
        exact ⟨hscheduled, fun start hstart hresent =>
          hbefore start (hfirst start hstart hresent) hresent⟩
  | other hclock hsleeping hnext hstarts =>
      constructor
      · simpa only [hstarts, hclock] using h.past
      · simpa only [hstarts, hnext] using h.allowed
      · simpa only [hstarts, hnext, hsleeping] using h.scheduled

/-! ## The requests of a second -/

/-- A re-sent request keeps the distance of a slot from the requests before it, and the
requests that take slots keep it from those that were re-sent. -/
def KeepsDistance (state : Limiter) : Event → Prop
  | .proceed => ∀ start ∈ state.starts, start.resent = true →
      start.time + minRequestInterval ≤ state.clock
  | .resend _ => ∀ start ∈ state.starts, start.time + minRequestInterval ≤ state.clock
  | _ => True

instance (state : Limiter) (event : Event) : Decidable (KeepsDistance state event) :=
  match event with
  | .proceed => inferInstanceAs (Decidable (∀ start ∈ state.starts, start.resent = true →
      start.time + minRequestInterval ≤ state.clock))
  | .resend _ => inferInstanceAs (Decidable (∀ start ∈ state.starts,
      start.time + minRequestInterval ≤ state.clock))
  | .advance _ | .call _ | .schedule | .answer _ _ _ => isTrue trivial

/-- One step that keeps the distance. -/
theorem spaced_step (hslotted : Slotted state)
    (hspaced : Spaced minRequestInterval (state.starts.map Start.time))
    (hdistance : KeepsDistance state event)
    (hstep : limiterStep config state event = some state') :
    Spaced minRequestInterval (state'.starts.map Start.time) := by
  have hsent : ∀ resent, (∀ start ∈ state.starts,
      start.time + minRequestInterval ≤ state.clock) →
      state'.starts = state.starts ++ [⟨state.clock, resent⟩] →
      Spaced minRequestInterval (state'.starts.map Start.time) := by
    intro resent hearlier hstarts
    rw [hstarts, List.map_append]
    apply hspaced.concat
    intro time htime
    obtain ⟨start, hstart, rfl⟩ := List.mem_map.mp htime
    exact hearlier start hstart
  cases timed_of_step hstep with
  | advance _ _ _ _ _ hstarts => rwa [hstarts]
  | schedule _ _ _ _ hstarts => rwa [hstarts]
  | other _ _ _ hstarts => rwa [hstarts]
  | resend _ _ _ hstarts => exact hsent true hdistance hstarts
  | proceed _ hdue _ _ hstarts =>
      apply hsent false _ hstarts
      intro start hstart
      cases hresent : start.resent with
      | true => exact hdistance start hstart hresent
      | false => exact (hslotted.scheduled _ hdue).2 start hstart hresent

/-- While re-sent requests keep the distance of a slot, no more than `rateLimit` requests
start in any second. -/
theorem starts_in_second_le {events : List Event} {clock : Nat}
    (hdistance : Along (limiterStep config) (.start clock) KeepsDistance events)
    (hrun : runEvents (limiterStep config) (.start clock) events = some state) (start : Nat) :
    (state.starts.map Start.time).countP (inWindow start 1000) ≤ rateLimit := by
  have hboth : Slotted state ∧ Spaced minRequestInterval (state.starts.map Start.time) := by
    apply run_induction (fun state => Slotted state ∧
      Spaced minRequestInterval (state.starts.map Start.time)) _ _ hdistance hrun
    · exact ⟨slotted_start clock, List.Pairwise.nil⟩
    · rintro state event state' ⟨hslotted, hspaced⟩ hkept hstep
      exact ⟨hslotted.step hstep, spaced_step hslotted hspaced hkept hstep⟩
  exact hboth.2.countP_inWindow_le start rateLimit

/-- NocoDB is unavailable. -/
def unavailable : Outcome :=
  ⟨some ⟨some 503, none⟩, false, fun _ => rfl⟩

/-- A request is answered. -/
def succeeded : Outcome :=
  ⟨none, false, fun _ => rfl⟩

/-- A read that fails and is sent again a second later, when nothing else is sent. -/
def lateRetry : List Event :=
  [.call .read, .schedule, .proceed, .answer 0 unavailable 1000, .advance 1000, .resend 0,
    .answer 0 succeeded 0]

theorem starts_in_second_lateRetry :
    ∃ state, runEvents (limiterStep .default) (.start 0) lateRetry = some state ∧
      state.starts.map Start.time = [0, 1000] ∧
      ∀ start, (state.starts.map Start.time).countP (inWindow start 1000) ≤ rateLimit := by
  have hrun : runEvents (limiterStep .default) (.start 0) lateRetry =
      some ⟨1000, 200, [], none, [.finished], [⟨0, false⟩, ⟨1000, true⟩]⟩ := by decide
  have hdistance : Along (limiterStep .default) (.start 0) KeepsDistance lateRetry := by decide
  exact ⟨_, hrun, rfl, starts_in_second_le hdistance hrun⟩

/-- Six reads are made at once; the first one fails and is sent again while the others
take their slots. -/
def retryAmongReads : List Event :=
  List.replicate 6 (.call .read) ++
    [.schedule, .proceed, .advance 10, .answer 0 unavailable 990, .schedule, .advance 200,
      .proceed, .schedule, .advance 400, .proceed, .schedule, .advance 600, .proceed, .schedule,
      .advance 800, .proceed, .schedule, .advance 1000, .proceed, .resend 0]

/-- The retry takes no slot, so six requests start within one second. -/
theorem six_starts_in_second :
    ¬ ∀ (config : RetryConfig) (clock : Nat) (events : List Event) (state : Limiter),
        runEvents (limiterStep config) (.start clock) events = some state →
          ∀ start, (state.starts.map Start.time).countP (inWindow start 1000) ≤ rateLimit := by
  intro h
  have hrun : (runEvents (limiterStep .default) (.start 0) retryAmongReads).map
      (fun state => state.starts.map Start.time) = some [0, 200, 400, 600, 800, 1000, 1000] := by
    decide
  obtain ⟨state, hstate, hstarts⟩ := Option.map_eq_some_iff.mp hrun
  have hbound := h .default 0 retryAmongReads state hstate 200
  rw [hstarts] at hbound
  revert hbound
  decide

end

end Upstream
end NocoMiddleware
