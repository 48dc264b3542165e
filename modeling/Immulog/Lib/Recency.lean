import Mathlib.Data.List.Basic

/-!
Recency of use.

A history lists what was used, the newest first.  `lastUse uses a` counts the uses up
to the last one of `a`, so that of two things the one with the smaller count was used
less recently.
-/

namespace Immulog.Lib

variable {α : Type} [DecidableEq α]

def lastUse (uses : List α) (a : α) : Nat :=
  uses.length - uses.idxOf a

theorem lastUse_cons_self (uses : List α) (a : α) : lastUse (a :: uses) a = uses.length + 1 := by
  simp [lastUse]

theorem lastUse_cons_of_ne {uses : List α} {a b : α} (differ : b ≠ a) :
    lastUse (b :: uses) a = lastUse uses a := by
  rw [lastUse, lastUse, List.idxOf_cons_ne _ differ, List.length_cons]
  omega

theorem lastUse_le (uses : List α) (a : α) : lastUse uses a ≤ uses.length :=
  Nat.sub_le ..

/-- Two things are not used at the same time. -/
theorem lastUse_inj {uses : List α} {a b : α} (used : a ∈ uses)
    (same : lastUse uses a = lastUse uses b) : a = b := by
  have inside := List.idxOf_lt_length_of_mem used
  have index : uses.idxOf a = uses.idxOf b := by
    have bound : uses.idxOf b ≤ uses.length := List.idxOf_le_length
    simp only [lastUse] at same
    omega
  exact (List.idxOf_inj used).1 index

end Immulog.Lib
