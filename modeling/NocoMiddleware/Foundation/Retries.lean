import NocoMiddleware.Foundation.EventRun

/-!
# Operations that are attempted again

An operation is attempted until an outcome asks for no further attempt or the budget of
retries is used up.  Every attempt stays in the history, so what is said of a history
holds of every attempt that was made.
-/

namespace NocoMiddleware
namespace Foundation

/-- The attempts made so far, the retries among them, and whether the last outcome was
given to the caller. -/
structure Attempts (α : Type*) where
  retryCount : Nat
  outcomes : List α
  settled : Bool
  deriving DecidableEq

namespace Attempts

/-- Before the first attempt. -/
def start {α : Type*} : Attempts α :=
  ⟨0, [], false⟩

end Attempts

section

variable {α : Type*} (retry : α → Bool) (retries : Nat)

/-- The outcome of one more attempt. -/
def attempt (attempts : Attempts α) (outcome : α) : Option (Attempts α) :=
  if attempts.settled then none
  else if retry outcome && attempts.retryCount < retries then
    some ⟨attempts.retryCount + 1, attempts.outcomes ++ [outcome], false⟩
  else some ⟨attempts.retryCount, attempts.outcomes ++ [outcome], true⟩

/-- What the history of an operation says: before the end each attempt is followed by a
retry, and the outcome that settles it is the one attempt more. -/
structure Attempts.Sound (attempts : Attempts α) : Prop where
  bounded : attempts.retryCount ≤ retries
  counted : attempts.outcomes.length = attempts.retryCount + if attempts.settled then 1 else 0
  retried : ∀ before outcome after, attempts.outcomes = before ++ outcome :: after →
    after ≠ [] ∨ attempts.settled = false → retry outcome = true

variable {retry retries} {attempts attempts' : Attempts α} {outcome : α} {outcomes : List α}

theorem Attempts.sound_start : (start : Attempts α).Sound retry retries where
  bounded := Nat.zero_le _
  counted := rfl
  retried before outcome after hsplit _ := by simp [start] at hsplit

/-- An attempt is made only of an operation that is not settled, and its outcome is
added to the history. -/
theorem attempt_eq_some (h : attempt retry retries attempts outcome = some attempts') :
    attempts.settled = false ∧ attempts'.outcomes = attempts.outcomes ++ [outcome] ∧
      ((retry outcome = true ∧ attempts.retryCount < retries ∧
          attempts'.retryCount = attempts.retryCount + 1 ∧ attempts'.settled = false) ∨
        (attempts'.retryCount = attempts.retryCount ∧ attempts'.settled = true)) := by
  unfold attempt at h
  split at h
  · contradiction
  · next hopen =>
      rw [Bool.not_eq_true] at hopen
      split at h
      · next hretry =>
          rw [Bool.and_eq_true, decide_eq_true_eq] at hretry
          obtain rfl := Option.some.inj h
          exact ⟨hopen, rfl, Or.inl ⟨hretry.1, hretry.2, rfl, rfl⟩⟩
      · obtain rfl := Option.some.inj h
        exact ⟨hopen, rfl, Or.inr ⟨rfl, rfl⟩⟩

/-- One attempt keeps the history sound. -/
theorem Attempts.Sound.attempt (hsound : attempts.Sound retry retries)
    (h : Foundation.attempt retry retries attempts outcome = some attempts') :
    attempts'.Sound retry retries := by
  obtain ⟨hopen, houtcomes, hcase⟩ := attempt_eq_some h
  have hlength := hsound.counted
  rw [hopen] at hlength
  constructor
  · have hbounded := hsound.bounded
    rcases hcase with ⟨-, hcount, hnext, -⟩ | ⟨hnext, -⟩ <;> omega
  · rw [houtcomes, List.length_append, List.length_singleton, hlength]
    rcases hcase with ⟨-, -, hnext, hsettled⟩ | ⟨hnext, hsettled⟩ <;> simp [hnext, hsettled]
  · intro before other after hsplit hfollowed
    rw [houtcomes] at hsplit
    by_cases hafter : after = []
    · -- the attempt just made
      subst hafter
      obtain ⟨-, hlast⟩ := List.append_inj' hsplit rfl
      obtain rfl : outcome = other := List.singleton_inj.mp hlast
      rcases hcase with ⟨hretry, -⟩ | ⟨-, hsettled⟩
      · exact hretry
      · simp [hsettled] at hfollowed
    · -- an earlier one: the operation was open, so each of them was retried
      obtain ⟨rest, last, rfl⟩ := List.eq_nil_or_concat' after |>.resolve_left hafter
      rw [← List.cons_append, ← List.append_assoc] at hsplit
      obtain ⟨hearlier, -⟩ := List.append_inj' hsplit rfl
      exact hsound.retried before other rest hearlier (Or.inr hopen)

/-- The histories of all runs are sound. -/
theorem sound_of_run
    (hrun : runEvents (attempt retry retries) .start outcomes = some attempts) :
    attempts.Sound retry retries :=
  run_keeps (Attempts.Sound retry retries)
    (fun _ _ _ hsound hstep => hsound.attempt hstep) Attempts.sound_start hrun

/-- An open operation is settled after no more attempts than the budget has left and
one, whatever their outcomes are. -/
theorem exists_settled (hopen : attempts.settled = false)
    (hbounded : attempts.retryCount ≤ retries)
    (henough : retries < attempts.retryCount + outcomes.length) :
    ∃ made left last, outcomes = made ++ left ∧
      runEvents (attempt retry retries) attempts made = some last ∧ last.settled = true := by
  induction outcomes generalizing attempts with
  | nil =>
      rw [List.length_nil] at henough
      omega
  | cons outcome outcomes ih =>
      rw [List.length_cons] at henough
      by_cases hretry : (retry outcome && decide (attempts.retryCount < retries)) = true
      · have hnext : attempt retry retries attempts outcome =
            some ⟨attempts.retryCount + 1, attempts.outcomes ++ [outcome], false⟩ := by
          simp only [attempt, hopen, hretry, if_true, Bool.false_eq_true, if_false]
        rw [Bool.and_eq_true, decide_eq_true_eq] at hretry
        have hopen' : (⟨attempts.retryCount + 1, attempts.outcomes ++ [outcome], false⟩ :
            Attempts α).settled = false := rfl
        obtain ⟨made, left, last, rfl, hrun, hsettled⟩ := ih hopen'
          (by show attempts.retryCount + 1 ≤ retries; omega)
          (by show retries < attempts.retryCount + 1 + outcomes.length; omega)
        refine ⟨outcome :: made, left, last, rfl, ?_, hsettled⟩
        rw [runEvents, List.foldlM_cons, hnext]
        exact hrun
      · have hlast : attempt retry retries attempts outcome =
            some ⟨attempts.retryCount, attempts.outcomes ++ [outcome], true⟩ := by
          simp only [attempt, hopen, hretry, Bool.false_eq_true, if_false]
        refine ⟨[outcome], outcomes,
          ⟨attempts.retryCount, attempts.outcomes ++ [outcome], true⟩, rfl, ?_, rfl⟩
        rw [runEvents, List.foldlM_cons, hlast]
        rfl

namespace Attempts.Sound

/-- The budget bounds the number of attempts. -/
theorem length_le (hsound : attempts.Sound retry retries) :
    attempts.outcomes.length ≤ retries + 1 := by
  have hbounded := hsound.bounded
  have hcounted := hsound.counted
  split at hcounted <;> omega

/-- An outcome that asks for no retry is the last one. -/
theorem last_of_not_retry (hsound : attempts.Sound retry retries) {before after : List α}
    (hsplit : attempts.outcomes = before ++ outcome :: after) (h : retry outcome = false) :
    after = [] := by
  by_contra hafter
  have hretried := hsound.retried before outcome after hsplit (Or.inl hafter)
  simp [h] at hretried

/-- A property that excludes a retry holds of the last outcome only. -/
theorem countP_le_one (hsound : attempts.Sound retry retries) (property : α → Bool)
    (hfinal : ∀ outcome ∈ attempts.outcomes, property outcome = true → retry outcome = false) :
    attempts.outcomes.countP property ≤ 1 := by
  rcases List.eq_nil_or_concat' attempts.outcomes with hnil | ⟨before, last, hsplit⟩
  · simp [hnil]
  · have hbefore : before.countP property = 0 := by
      rw [List.countP_eq_zero]
      intro outcome hmem hproperty
      obtain ⟨front, rest, rfl⟩ := List.append_of_mem hmem
      have hwhole : attempts.outcomes = front ++ outcome :: (rest ++ [last]) := by
        simp [hsplit]
      have hretry := hfinal outcome (by simp [hwhole]) hproperty
      exact absurd (hsound.last_of_not_retry hwhole hretry) (by simp)
    rw [hsplit, List.countP_append, hbefore]
    have := List.countP_le_length (p := property) (l := [last])
    simpa using this

end Attempts.Sound

end

end Foundation
end NocoMiddleware
