import Mathlib.Order.Bounds.Basic

/-!
The longest run of a condition from zero on, within a bound.

A loop that goes on as long as a condition holds, and at most a given number of times,
makes as many steps as the longest run is long.
-/

namespace Immulog.Lib

/-- `n` is the greatest length, at most `bound`, for which `P` holds all along. -/
def LongestRun (P : Nat → Prop) (bound n : Nat) : Prop :=
  IsGreatest {k | k ≤ bound ∧ ∀ i < k, P i} n

namespace LongestRun

variable {P : Nat → Prop} {bound n : Nat}

theorem le_bound (longest : LongestRun P bound n) : n ≤ bound :=
  longest.1.1

theorem holds (longest : LongestRun P bound n) {i : Nat} (inside : i < n) : P i :=
  longest.1.2 i inside

/-- A run ends at the bound or where the condition fails. -/
theorem stops (longest : LongestRun P bound n) : n = bound ∨ ¬ P n := by
  by_contra goes_on
  rw [not_or, not_not] at goes_on
  have longer : n + 1 ≤ n := by
    refine longest.2 ⟨?_, fun i inside => ?_⟩
    · have := longest.le_bound
      omega
    · rcases Nat.lt_succ_iff_lt_or_eq.1 inside with before | rfl
      · exact longest.holds before
      · exact goes_on.2
  omega

theorem of_stops (inside : n ≤ bound) (holds : ∀ i < n, P i) (stops : n = bound ∨ ¬ P n) :
    LongestRun P bound n := by
  refine ⟨⟨inside, holds⟩, fun k run => ?_⟩
  rcases stops with rfl | fails
  · exact run.1
  · exact Nat.le_of_not_lt fun longer => fails (run.2 n longer)

/-- One step, and then a run of what is left. -/
theorem succ (first : P 0) (later : LongestRun (fun i => P (i + 1)) bound n) :
    LongestRun P (bound + 1) (n + 1) := by
  refine of_stops (Nat.succ_le_succ later.le_bound) (fun i inside => ?_) ?_
  · cases i with
    | zero => exact first
    | succ i => exact later.holds (Nat.lt_of_succ_lt_succ inside)
  · rcases later.stops with rfl | fails
    · exact .inl rfl
    · exact .inr fails

end LongestRun

end Immulog.Lib
