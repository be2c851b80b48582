import Mathlib.Data.List.Chain
import NocoMiddleware.Foundation.EventRun
import NocoMiddleware.Foundation.Windows
import NocoMiddleware.Upstream.RateLimit

/-!
# The slot queue with late timers

`enforceRateLimit` of `nocodb.service.ts` on its own, where `setTimeout` is there: the calls
wait in `rateLimitChain`, and the link of a call computes its slot when the call before it has
been released.  The clock may stand still but never goes back, a link may run at any time
after its turn has come, and a timer may fire at any time from its due time on.
-/

namespace NocoMiddleware
namespace Upstream

open Foundation

/-- A link of `rateLimitChain` that has run, with the delay that it has computed. -/
structure Turn where
  call : Nat
  now : Nat
  delay : Nat
  deriving DecidableEq

/-- A call that was released, and when it was due. -/
structure Release where
  call : Nat
  due : Nat
  time : Nat
  deriving DecidableEq

/-- The timer of the call was not late. -/
def Release.OnTime (release : Release) : Prop :=
  release.time ≤ release.due

instance (release : Release) : Decidable release.OnTime :=
  inferInstanceAs (Decidable (_ ≤ _))

/-- The calls are numbered in their order.  `chain` holds those whose link has not run,
`sleeping` the one that waits for its timer, with the time at which it is due. -/
structure SlotQueue where
  clock : Nat
  nextAllowedTime : Nat
  calls : Nat
  chain : List Nat
  sleeping : Option (Nat × Nat)
  turns : List Turn
  released : List Release
  deriving DecidableEq

/-- The queue of a new service. -/
def SlotQueue.start (clock : Nat) : SlotQueue where
  clock := clock
  nextAllowedTime := 0
  calls := 0
  chain := []
  sleeping := none
  turns := []
  released := []

/-- What happens next. -/
inductive SlotEvent where
  /-- Time passes. -/
  | advance (clock : Nat)
  /-- `enforceRateLimit` is called. -/
  | call
  /-- The next link runs: the call before it has been released. -/
  | turn
  /-- The timer fires. -/
  | fire

/-- The link of a call. -/
def runLink (queue : SlotQueue) (call : Nat) (chain : List Nat) : SlotQueue :=
  let now := queue.clock
  let scheduledTime := max now queue.nextAllowedTime
  let delay := scheduledTime - now
  let next : SlotQueue :=
    { queue with
      nextAllowedTime := scheduledTime + minRequestInterval
      chain := chain
      turns := queue.turns ++ [⟨call, now, delay⟩] }
  if delay = 0 then { next with released := queue.released ++ [⟨call, now, now⟩] }
  else { next with sleeping := some (call, now + delay) }

/-- One step of the queue. -/
def slotStep (queue : SlotQueue) : SlotEvent → Option SlotQueue
  | .advance clock => if queue.clock ≤ clock then some { queue with clock := clock } else none
  | .call =>
      some { queue with
        calls := queue.calls + 1
        chain := queue.chain ++ [queue.calls] }
  | .turn =>
      match queue.sleeping, queue.chain with
      | none, call :: chain => some (runLink queue call chain)
      | _, _ => none
  | .fire =>
      match queue.sleeping with
      | some (call, due) =>
          if due ≤ queue.clock then
            some { queue with
              sleeping := none
              released := queue.released ++ [⟨call, due, queue.clock⟩] }
          else none
      | none => none

/-! ## What a step does -/

/-- The steps of each kind.  A link releases its call at once, or sets its timer to the next
slot. -/
inductive SlotMove (queue queue' : SlotQueue) : Prop where
  | advance {clock : Nat} (hlater : queue.clock ≤ clock)
      (heq : queue' = { queue with clock := clock })
  | call (heq : queue' =
      { queue with calls := queue.calls + 1, chain := queue.chain ++ [queue.calls] })
  | pass {call : Nat} {chain : List Nat} (hidle : queue.sleeping = none)
      (hchain : queue.chain = call :: chain) (hfree : queue.nextAllowedTime ≤ queue.clock)
      (heq : queue' =
        { queue with
          nextAllowedTime := queue.clock + minRequestInterval
          chain := chain
          turns := queue.turns ++ [⟨call, queue.clock, 0⟩]
          released := queue.released ++ [⟨call, queue.clock, queue.clock⟩] })
  | wait {call : Nat} {chain : List Nat} (hidle : queue.sleeping = none)
      (hchain : queue.chain = call :: chain) (hbusy : queue.clock < queue.nextAllowedTime)
      (heq : queue' =
        { queue with
          nextAllowedTime := queue.nextAllowedTime + minRequestInterval
          chain := chain
          sleeping := some (call, queue.nextAllowedTime)
          turns := queue.turns ++ [⟨call, queue.clock, queue.nextAllowedTime - queue.clock⟩] })
  | fire {call due : Nat} (hsleeping : queue.sleeping = some (call, due))
      (hdue : due ≤ queue.clock)
      (heq : queue' =
        { queue with
          sleeping := none
          released := queue.released ++ [⟨call, due, queue.clock⟩] })

variable {queue queue' : SlotQueue}

theorem slotMove_of_runLink {call : Nat} {chain : List Nat} (hidle : queue.sleeping = none)
    (hchain : queue.chain = call :: chain) : SlotMove queue (runLink queue call chain) := by
  by_cases hfree : queue.nextAllowedTime ≤ queue.clock
  · apply SlotMove.pass hidle hchain hfree
    have hscheduled : max queue.clock queue.nextAllowedTime = queue.clock := Nat.max_eq_left hfree
    simp only [runLink, hscheduled, Nat.sub_self, if_true]
  · have hbusy := Nat.lt_of_not_le hfree
    apply SlotMove.wait hidle hchain hbusy
    have hscheduled : max queue.clock queue.nextAllowedTime = queue.nextAllowedTime :=
      Nat.max_eq_right hbusy.le
    have hdelay : queue.nextAllowedTime - queue.clock ≠ 0 := by omega
    have hdue : queue.clock + (queue.nextAllowedTime - queue.clock) = queue.nextAllowedTime := by
      omega
    simp only [runLink, hscheduled, if_neg hdelay, hdue]

theorem slotMove_of_step {event : SlotEvent} (h : slotStep queue event = some queue') :
    SlotMove queue queue' := by
  cases event with
  | advance clock =>
      rw [slotStep] at h
      split at h
      · next hlater => exact .advance hlater (Option.some.inj h).symm
      · contradiction
  | call => exact .call (Option.some.inj h).symm
  | turn =>
      rw [slotStep] at h
      split at h
      · next hidle hchain =>
          obtain rfl := Option.some.inj h
          exact slotMove_of_runLink hidle hchain
      · contradiction
  | fire =>
      rw [slotStep] at h
      split at h
      · next hsleeping =>
          split at h
          · next hdue => exact .fire hsleeping hdue (Option.some.inj h).symm
          · contradiction
      · contradiction

/-! ## The slots of a run -/

/-- The later call was due a slot after the earlier one was, and not before that was
released. -/
def Follows (earlier later : Release) : Prop :=
  earlier.due + minRequestInterval ≤ later.due ∧ earlier.time ≤ later.due

/-- The next slot lies after the last release: it is no more than a slot ahead of the clock, or
a call sleeps for the slot before it. -/
structure Queued (queue : SlotQueue) : Prop where
  order : queue.released.map Release.call ++ queue.sleeping.toList.map Prod.fst ++ queue.chain =
    List.range queue.calls
  past : ∀ release ∈ queue.released, release.due ≤ release.time ∧ release.time ≤ queue.clock
  chained : queue.released.IsChain Follows
  idle : queue.sleeping = none → queue.nextAllowedTime ≤ queue.clock + minRequestInterval ∧
    ∀ last ∈ queue.released.getLast?, last.due + minRequestInterval ≤ queue.nextAllowedTime
  busy : ∀ timer ∈ queue.sleeping, queue.nextAllowedTime = timer.2 + minRequestInterval ∧
    ∀ last ∈ queue.released.getLast?,
      last.due + minRequestInterval ≤ timer.2 ∧ last.time ≤ timer.2
  delays : ∀ turn ∈ queue.turns, turn.delay ≤ minRequestInterval

theorem queued_start (clock : Nat) : Queued (.start clock) where
  order := rfl
  past := by simp [SlotQueue.start]
  chained := List.IsChain.nil
  idle := by simp [SlotQueue.start]
  busy := by simp [SlotQueue.start]
  delays := by simp [SlotQueue.start]

theorem Queued.advance {clock : Nat} (h : Queued queue) (hlater : queue.clock ≤ clock) :
    Queued { queue with clock := clock } := by
  constructor
  · exact h.order
  · intro release hrelease
    obtain ⟨hdue, hpast⟩ := h.past release hrelease
    exact ⟨hdue, hpast.trans hlater⟩
  · exact h.chained
  · intro hidle
    obtain ⟨hnext, hlast⟩ := h.idle hidle
    refine ⟨?_, hlast⟩
    show queue.nextAllowedTime ≤ clock + minRequestInterval
    omega
  · exact h.busy
  · exact h.delays

theorem Queued.call (h : Queued queue) :
    Queued { queue with calls := queue.calls + 1, chain := queue.chain ++ [queue.calls] } := by
  constructor
  · show _ ++ (queue.chain ++ [queue.calls]) = List.range (queue.calls + 1)
    rw [← List.append_assoc, h.order, List.range_succ]
  · exact h.past
  · exact h.chained
  · exact h.idle
  · exact h.busy
  · exact h.delays

/-- A call that is released after the last one. -/
theorem Queued.past_concat {release : Release} (h : Queued queue)
    (hdue : release.due ≤ release.time) (hnow : release.time = queue.clock) :
    ∀ other ∈ queue.released ++ [release],
      other.due ≤ other.time ∧ other.time ≤ queue.clock := by
  intro other hother
  rcases List.mem_append.mp hother with hold | hnew
  · exact h.past other hold
  · rw [List.mem_singleton] at hnew
    rw [hnew]
    exact ⟨hdue, hnow.le⟩

theorem Queued.chained_concat {release : Release} (h : Queued queue)
    (hlast : ∀ last ∈ queue.released.getLast?, Follows last release) :
    (queue.released ++ [release]).IsChain Follows := by
  apply h.chained.append (List.IsChain.singleton release)
  intro last hmem first hfirst
  obtain rfl := Option.some.inj hfirst
  exact hlast last hmem

/-- A link that runs after the last one. -/
theorem Queued.delays_concat {turn : Turn} (h : Queued queue)
    (hdelay : turn.delay ≤ minRequestInterval) :
    ∀ other ∈ queue.turns ++ [turn], other.delay ≤ minRequestInterval := by
  intro other hother
  rcases List.mem_append.mp hother with hold | hnew
  · exact h.delays other hold
  · rwa [List.mem_singleton.mp hnew]

theorem Queued.pass {call : Nat} {chain : List Nat} (h : Queued queue)
    (hidle : queue.sleeping = none) (hchain : queue.chain = call :: chain)
    (hfree : queue.nextAllowedTime ≤ queue.clock) :
    Queued { queue with
      nextAllowedTime := queue.clock + minRequestInterval
      chain := chain
      turns := queue.turns ++ [⟨call, queue.clock, 0⟩]
      released := queue.released ++ [⟨call, queue.clock, queue.clock⟩] } := by
  obtain ⟨-, hlast⟩ := h.idle hidle
  have horder := h.order
  rw [hidle, hchain] at horder
  constructor
  · show (queue.released ++ [_]).map Release.call ++ queue.sleeping.toList.map Prod.fst ++ chain = _
    rw [hidle, ← horder]
    simp
  · exact h.past_concat le_rfl rfl
  · apply h.chained_concat
    -- the last release was due a slot before the next allowed time, which has come
    intro last hmem
    have hdue := hlast last hmem
    have hpast := (h.past last (List.mem_of_getLast? hmem)).2
    constructor
    · show last.due + minRequestInterval ≤ queue.clock
      omega
    · exact hpast
  · intro _
    constructor
    · exact le_rfl
    · intro last hmem
      have hmem : (queue.released ++ [(⟨call, queue.clock, queue.clock⟩ : Release)]).getLast? =
        some last := hmem
      rw [List.getLast?_concat] at hmem
      obtain rfl := Option.some.inj hmem
      exact le_rfl
  · intro timer htimer
    have hsome : queue.sleeping = some timer := htimer
    rw [hidle] at hsome
    contradiction
  · exact h.delays_concat (Nat.zero_le _)

theorem Queued.wait {call : Nat} {chain : List Nat} (h : Queued queue)
    (hidle : queue.sleeping = none) (hchain : queue.chain = call :: chain)
    (hbusy : queue.clock < queue.nextAllowedTime) :
    Queued { queue with
      nextAllowedTime := queue.nextAllowedTime + minRequestInterval
      chain := chain
      sleeping := some (call, queue.nextAllowedTime)
      turns := queue.turns ++ [⟨call, queue.clock, queue.nextAllowedTime - queue.clock⟩] } := by
  obtain ⟨hnext, hlast⟩ := h.idle hidle
  have horder := h.order
  rw [hidle, hchain] at horder
  constructor
  · rw [← horder]
    simp
  · exact h.past
  · exact h.chained
  · intro hnone
    contradiction
  · intro timer htimer
    obtain rfl := Option.some.inj htimer
    refine ⟨rfl, ?_⟩
    intro last hmem
    have hpast := (h.past last (List.mem_of_getLast? hmem)).2
    refine ⟨hlast last hmem, ?_⟩
    show last.time ≤ queue.nextAllowedTime
    omega
  · apply h.delays_concat
    show queue.nextAllowedTime - queue.clock ≤ minRequestInterval
    omega

theorem Queued.fire {call due : Nat} (h : Queued queue)
    (hsleeping : queue.sleeping = some (call, due)) (hdue : due ≤ queue.clock) :
    Queued { queue with
      sleeping := none
      released := queue.released ++ [⟨call, due, queue.clock⟩] } := by
  obtain ⟨hnext, hlast⟩ := h.busy (call, due) hsleeping
  have horder := h.order
  rw [hsleeping] at horder
  constructor
  · rw [← horder]
    simp
  · exact h.past_concat hdue rfl
  · apply h.chained_concat
    intro last hmem
    exact hlast last hmem
  · intro _
    constructor
    -- the next slot follows the due time, however late the timer was
    · show queue.nextAllowedTime ≤ queue.clock + minRequestInterval
      omega
    · intro last hmem
      have hmem : (queue.released ++ [(⟨call, due, queue.clock⟩ : Release)]).getLast? =
        some last := hmem
      rw [List.getLast?_concat] at hmem
      obtain rfl := Option.some.inj hmem
      exact hnext.ge
  · intro timer hnone
    contradiction
  · exact h.delays

theorem Queued.step {event : SlotEvent} (h : Queued queue)
    (hstep : slotStep queue event = some queue') : Queued queue' := by
  cases slotMove_of_step hstep with
  | advance hlater heq => rw [heq]; exact h.advance hlater
  | call heq => rw [heq]; exact h.call
  | pass hidle hchain hfree heq => rw [heq]; exact h.pass hidle hchain hfree
  | wait hidle hchain hbusy heq => rw [heq]; exact h.wait hidle hchain hbusy
  | fire hsleeping hdue heq => rw [heq]; exact h.fire hsleeping hdue

theorem queued_of_run {events : List SlotEvent} {clock : Nat}
    (hrun : runEvents slotStep (.start clock) events = some queue) : Queued queue :=
  run_keeps Queued (fun _ _ _ h hstep => h.step hstep) (queued_start clock) hrun

/-! ## The distance of releases -/

/-- The calls are released in their order. -/
theorem Queued.released_order (h : Queued queue) :
    queue.released.map Release.call = List.range queue.released.length := by
  have hprefix : queue.released.map Release.call <+: List.range queue.calls := by
    rw [← h.order, List.append_assoc]
    exact List.prefix_append _ _
  have htake := List.prefix_iff_eq_take.mp hprefix
  rw [List.length_map, List.take_range] at htake
  have hlength := congrArg List.length htake
  rw [List.length_map, List.length_range] at hlength
  rwa [← hlength] at htake

/-- The due times of calls lie as many slots apart as the calls. -/
theorem Queued.due_spacing (h : Queued queue) {i k : Nat} {earlier later : Release}
    (hearlier : queue.released[i]? = some earlier)
    (hlater : queue.released[i + k]? = some later) :
    earlier.due + minRequestInterval * k ≤ later.due := by
  -- each release is due a slot after the one before it
  induction k generalizing later with
  | zero =>
      obtain rfl := Option.some.inj (hearlier.symm.trans hlater)
      omega
  | succ k ih =>
      obtain ⟨hlength, rfl⟩ := List.getElem?_eq_some_iff.mp hlater
      have hbefore : i + k < queue.released.length := by omega
      have hprevious := ih (List.getElem?_eq_getElem hbefore)
      obtain ⟨hslot, -⟩ := List.isChain_iff_getElem.mp h.chained (i + k) hlength
      rw [Nat.mul_succ]
      show _ ≤ queue.released[i + k + 1].due
      omega

/-- A later call is not due before an earlier one was released, and a slot later for each call
in between. -/
theorem Queued.release_spacing (h : Queued queue) {i k : Nat} {earlier later : Release}
    (hearlier : queue.released[i]? = some earlier)
    (hlater : queue.released[i + (k + 1)]? = some later) :
    earlier.time + minRequestInterval * k ≤ later.due := by
  obtain ⟨hlength, rfl⟩ := List.getElem?_eq_some_iff.mp hearlier
  obtain ⟨hlast, -⟩ := List.getElem?_eq_some_iff.mp hlater
  have hnext : i + 1 < queue.released.length := by omega
  -- the next call was not due before the earlier one was released
  obtain ⟨-, hreleased⟩ := List.isChain_iff_getElem.mp h.chained i hnext
  have hindex : i + (k + 1) = (i + 1) + k := by omega
  rw [hindex] at hlater
  have hspacing := h.due_spacing (List.getElem?_eq_getElem hnext) hlater
  omega

/-- Along every run the calls are released in their order, a slot apart from the second one on,
and from the first one on if its timer was not late; no link computes a delay of more than a
slot. -/
theorem slot_spacing {events : List SlotEvent} {clock : Nat}
    (hrun : runEvents slotStep (.start clock) events = some queue) :
    queue.released.map Release.call = List.range queue.released.length ∧
      (∀ i k earlier later, 1 ≤ k → queue.released[i]? = some earlier →
        queue.released[i + k]? = some later →
        earlier.time + 200 * (k - 1) ≤ later.time ∧
          (earlier.OnTime → earlier.time + 200 * k ≤ later.time)) ∧
      ∀ turn ∈ queue.turns, turn.delay ≤ 200 := by
  have h := queued_of_run hrun
  have hslot : minRequestInterval = 200 := by decide
  refine ⟨h.released_order, ?_, ?_⟩
  · intro i k earlier later hk hearlier hlater
    have hdue := (h.past later (List.mem_of_getElem? hlater)).1
    constructor
    · obtain ⟨k, rfl⟩ := Nat.exists_eq_add_of_le' hk
      have hspacing := h.release_spacing hearlier hlater
      rw [hslot] at hspacing
      rw [Nat.add_sub_cancel]
      omega
    · intro hontime
      have hspacing := h.due_spacing hearlier hlater
      rw [hslot] at hspacing
      unfold Release.OnTime at hontime
      omega
  · intro turn hturn
    rw [← hslot]
    exact h.delays turn hturn

/-- Three calls at once; the timer of the second one is 150 ms late. -/
def lateTimer : List SlotEvent :=
  [.call, .call, .call, .turn, .turn, .advance 1350, .fire, .turn, .advance 1400, .fire]

/-- The first call was on time, so the third one is two slots after it, although it is only 50 ms
after the second one. -/
theorem slot_spacing_lateTimer :
    ∃ queue, runEvents slotStep (.start 1000) lateTimer = some queue ∧
      queue.released = [⟨0, 1000, 1000⟩, ⟨1, 1200, 1350⟩, ⟨2, 1400, 1400⟩] ∧
      1000 + 200 * 2 ≤ (⟨2, 1400, 1400⟩ : Release).time := by
  have hrun : runEvents slotStep (.start 1000) lateTimer = some
      ⟨1400, 1600, 3, [], none, [⟨0, 1000, 0⟩, ⟨1, 1000, 200⟩, ⟨2, 1350, 50⟩],
        [⟨0, 1000, 1000⟩, ⟨1, 1200, 1350⟩, ⟨2, 1400, 1400⟩]⟩ := by decide
  refine ⟨_, hrun, rfl, ?_⟩
  exact ((slot_spacing hrun).2.1 0 2 ⟨0, 1000, 1000⟩ ⟨2, 1400, 1400⟩ (by decide) rfl rfl).2
    (by decide)

end Upstream
end NocoMiddleware
