import Mathlib.Data.List.Basic
import Mathlib.Data.List.Induction
import Mathlib.Tactic.Common

/-!
# Runs of event-driven machines

A machine reacts to one event after the other; `step state event` is `none` where the
state does not allow the event.  A run is the list of its events, so what is asked of
its steps (`Along`) may speak of the state before each of them.
-/

namespace NocoMiddleware
namespace Foundation

section

variable {σ ε : Type*} (step : σ → ε → Option σ)

/-- The state after a list of events. -/
def runEvents (first : σ) (events : List ε) : Option σ :=
  events.foldlM step first

/-- Every step of a run satisfies a condition on the state before it and its event. -/
def Along (first : σ) (condition : σ → ε → Prop) (events : List ε) : Prop :=
  ∀ before event after state, events = before ++ event :: after →
    runEvents step first before = some state → condition state event

variable {step} {first last : σ} {events : List ε} {condition : σ → ε → Prop}

@[simp] theorem runEvents_nil : runEvents step first [] = some first := rfl

theorem runEvents_concat (event : ε) :
    runEvents step first (events ++ [event]) =
      (runEvents step first events).bind fun state => step state event := by
  simp [runEvents, List.foldlM_append]

/-- A run that goes on has gone through each of its states. -/
theorem runEvents_concat_eq_some {event : ε}
    (h : runEvents step first (events ++ [event]) = some last) :
    ∃ state, runEvents step first events = some state ∧ step state event = some last := by
  rw [runEvents_concat] at h
  exact Option.bind_eq_some_iff.mp h

/-- A run taken apart at one of its steps. -/
theorem runEvents_split {before after : List ε} {event : ε} {state : σ}
    (h : runEvents step first (before ++ event :: after) = some last)
    (hstate : runEvents step first before = some state) :
    ∃ next, step state event = some next ∧ runEvents step next after = some last := by
  rw [runEvents, List.foldlM_append] at h
  change (runEvents step first before).bind _ = some last at h
  rw [hstate, Option.bind_some, List.foldlM_cons] at h
  exact Option.bind_eq_some_iff.mp h

theorem Along.mono {weaker : σ → ε → Prop} (h : Along step first condition events)
    (hweaker : ∀ state event, condition state event → weaker state event) :
    Along step first weaker events :=
  fun before event after state hsplit hstate =>
    hweaker state event (h before event after state hsplit hstate)

theorem Along.and {other : σ → ε → Prop} (h : Along step first condition events)
    (h' : Along step first other events) :
    Along step first (fun state event => condition state event ∧ other state event) events :=
  fun before event after state hsplit hstate =>
    ⟨h before event after state hsplit hstate, h' before event after state hsplit hstate⟩

theorem along_nil : Along step first condition [] := by
  intro before event after state hsplit _
  simp at hsplit

/-- The condition of a run, step by step. -/
theorem along_cons_iff {event : ε} :
    Along step first condition (event :: events) ↔
      condition first event ∧
        ∀ next ∈ step first event, Along step next condition events := by
  constructor
  · intro h
    constructor
    · exact h [] event events first rfl rfl
    · intro next hnext before other after state hsplit hstate
      apply h (event :: before) other after state
      · rw [hsplit, List.cons_append]
      · rw [runEvents, List.foldlM_cons, hnext]
        exact hstate
  · rintro ⟨hevent, hrest⟩ before other after state hsplit hstate
    cases before with
    | nil =>
        obtain ⟨rfl, rfl⟩ := List.cons.inj hsplit
        obtain rfl := Option.some.inj hstate
        exact hevent
    | cons _ before =>
        obtain ⟨rfl, htail⟩ := List.cons.inj hsplit
        rw [runEvents, List.foldlM_cons] at hstate
        obtain ⟨next, hnext, hstate⟩ := Option.bind_eq_some_iff.mp hstate
        exact hrest next hnext before other after state htail hstate

/-- The condition of a run, from its first step on. -/
theorem along_cons {event : ε} {next : σ} (h : condition first event)
    (hstep : step first event = some next) (hnext : Along step next condition events) :
    Along step first condition (event :: events) := by
  refine along_cons_iff.mpr ⟨h, ?_⟩
  intro other hother
  obtain rfl : next = other := Option.some.inj (hstep.symm.trans hother)
  exact hnext

/-- Whether a condition holds along a given run can be computed. -/
instance decidableAlong [∀ state event, Decidable (condition state event)] :
    (start : σ) → (events : List ε) → Decidable (Along step start condition events)
  | _, [] => isTrue along_nil
  | _, _ :: events =>
      have : ∀ next, Decidable (Along step next condition events) :=
        fun next => decidableAlong next events
      decidable_of_iff _ along_cons_iff.symm

/-- An event of a run happens in one of its states. -/
theorem Along.exists_of_mem {event : ε} (h : Along step first condition events)
    (hrun : runEvents step first events = some last) (hmem : event ∈ events) :
    ∃ state, condition state event := by
  obtain ⟨before, after, hsplit⟩ := List.append_of_mem hmem
  cases hstate : runEvents step first before with
  | none =>
      rw [hsplit, runEvents, List.foldlM_append] at hrun
      change (runEvents step first before).bind _ = some last at hrun
      simp [hstate] at hrun
  | some state => exact ⟨state, h before event after state hsplit hstate⟩

theorem along_of_forall_mem {property : ε → Prop} (h : ∀ event ∈ events, property event) :
    Along step first (fun _ event => property event) events := by
  intro before event after state hsplit _
  refine h event ?_
  simp [hsplit]

/-- The condition of a run holds along its beginnings. -/
theorem Along.initial {before : List ε} (h : Along step first condition events)
    (hinitial : before <+: events) : Along step first condition before := by
  obtain ⟨after, hsplit⟩ := hinitial
  intro before' event after' state hbefore hstate
  refine h before' event (after' ++ after) state ?_ hstate
  rw [← hsplit, hbefore, List.append_assoc, List.cons_append]

/-- The condition of a run that has one more event. -/
theorem along_concat {event : ε} (h : Along step first condition (events ++ [event])) :
    Along step first condition events ∧
      ∀ state, runEvents step first events = some state → condition state event := by
  constructor
  · exact h.initial (List.prefix_append events [event])
  · intro state hstate
    exact h events event [] state rfl hstate

/-- The rule for runs: what holds at the start and is kept by every step that meets the
condition holds in the end. -/
theorem run_induction (invariant : σ → Prop) (hstart : invariant first)
    (hstep : ∀ state event state', invariant state → condition state event →
      step state event = some state' → invariant state')
    (hcondition : Along step first condition events)
    (hrun : runEvents step first events = some last) : invariant last := by
  induction events using List.reverseRecOn generalizing last with
  | nil =>
      obtain rfl := Option.some.inj hrun
      exact hstart
  | append_singleton events event ih =>
      obtain ⟨state, hstate, hlast⟩ := runEvents_concat_eq_some hrun
      obtain ⟨hbefore, hevent⟩ := along_concat hcondition
      exact hstep state event last (ih hbefore hstate) (hevent state hstate) hlast

/-- What one step keeps is kept to the end of the run. -/
theorem run_keeps (property : σ → Prop)
    (hstep : ∀ state event state', property state → step state event = some state' →
      property state')
    (hfirst : property first) (hrun : runEvents step first events = some last) :
    property last := by
  have hall : Along step first (fun _ _ => True) events := fun _ _ _ _ _ _ => trivial
  exact run_induction property hfirst
    (fun state event state' h _ hlast => hstep state event state' h hlast) hall hrun

end

end Foundation
end NocoMiddleware
