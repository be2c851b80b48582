import Mathlib.Data.List.Basic
import Mathlib.Tactic.Common

/-!
# Counting events in a window of time

Events whose times keep a distance of `gap` from each other: of them no more than
`size` lie in a window of `size` gaps, wherever it starts.
-/

namespace NocoMiddleware
namespace Foundation

/-- The times are ascending, each at least `gap` after all earlier ones. -/
def Spaced (gap : Nat) (times : List Nat) : Prop :=
  times.Pairwise fun earlier later => earlier + gap ≤ later

/-- The time lies in the half-open window of the given length. -/
def inWindow (start length time : Nat) : Bool :=
  start ≤ time && time < start + length

namespace Spaced

variable {gap : Nat} {times : List Nat}

theorem concat {time : Nat} (h : Spaced gap times)
    (hlast : ∀ earlier ∈ times, earlier + gap ≤ time) : Spaced gap (times ++ [time]) := by
  apply List.pairwise_append.mpr
  refine ⟨h, List.pairwise_singleton _ _, ?_⟩
  intro earlier hearlier later hlater
  rw [List.mem_singleton.mp hlater]
  exact hlast earlier hearlier

/-- No more than `size` of the times lie in a window of `size` gaps. -/
theorem countP_inWindow_le (h : Spaced gap times) (start size : Nat) :
    times.countP (inWindow start (size * gap)) ≤ size := by
  induction times generalizing start size with
  | nil => exact Nat.zero_le size
  | cons time times ih =>
      obtain ⟨hfirst, hrest⟩ := List.pairwise_cons.mp h
      rw [List.countP_cons]
      by_cases hinside : inWindow start (size * gap) time = true
      · -- the later times lie in what the window has left after one gap
        have hbounds := hinside
        simp only [inWindow, Bool.and_eq_true, decide_eq_true_eq] at hbounds
        obtain ⟨size, rfl⟩ : ∃ smaller, size = smaller + 1 := by
          cases size with
          | zero => omega
          | succ smaller => exact ⟨smaller, rfl⟩
        have hlater : ∀ later ∈ times, inWindow start ((size + 1) * gap) later = true →
            inWindow (start + gap) (size * gap) later = true := by
          intro later hlater hwindow
          have hgap := hfirst later hlater
          simp only [inWindow, Bool.and_eq_true, decide_eq_true_eq] at hwindow ⊢
          rw [Nat.succ_mul] at hwindow
          omega
        have hcount := List.countP_mono_left hlater
        have hsmaller := ih hrest (start + gap) size
        rw [if_pos hinside]
        omega
      · rw [if_neg hinside, Nat.add_zero]
        exact ih hrest start size

end Spaced

end Foundation
end NocoMiddleware
