import Mathlib.Logic.Function.Basic
import Mathlib.Data.List.Basic

/-!
Checksums by polynomial division.

A division register of any width whose polynomial has its top bit set loses nothing
in a step, so that a checksum over a string separates strings that differ in one
item.
-/

namespace Immulog.Lib

/-! ## The register -/

/-- One bit of a reflected division. -/
def divideBit {w : Nat} (poly c : BitVec w) : BitVec w :=
  if c.getLsbD 0 then (c >>> 1) ^^^ poly else c >>> 1

theorem getLsbD_divideBit {w : Nat} (poly c : BitVec w) (i : Nat) :
    (divideBit poly c).getLsbD i =
      (c.getLsbD (1 + i) ^^ (c.getLsbD 0 && poly.getLsbD i)) := by
  unfold divideBit
  cases c.getLsbD 0 <;> simp

/-- The bit that is shifted out comes back at the top. -/
theorem divideBit_injective {w : Nat} {poly : BitVec w} (top : poly.msb = true) :
    Function.Injective (divideBit poly) := by
  intro a b same
  have bits : ∀ i, (a.getLsbD (1 + i) ^^ (a.getLsbD 0 && poly.getLsbD i)) =
      (b.getLsbD (1 + i) ^^ (b.getLsbD 0 && poly.getLsbD i)) := by
    intro i
    rw [← getLsbD_divideBit, same, getLsbD_divideBit]
  have positive : 0 < w := by
    rcases Nat.eq_zero_or_pos w with rfl | positive
    · rw [BitVec.eq_nil poly] at top
      exact absurd top (by decide)
    · exact positive
  have low : a.getLsbD 0 = b.getLsbD 0 := by
    have last := bits (w - 1)
    rw [BitVec.msb_eq_getLsbD_last] at top
    rw [Nat.add_sub_cancel' positive, BitVec.getLsbD_of_ge a w (Nat.le_refl w),
      BitVec.getLsbD_of_ge b w (Nat.le_refl w), top] at last
    simpa using last
  apply BitVec.eq_of_getLsbD_eq
  intro i _
  cases i with
  | zero => exact low
  | succ i =>
      have here := bits i
      rw [low] at here
      rw [Nat.add_comm i 1]
      simpa using here

/-! ## Strings -/

variable {σ ι : Type} {step : σ → ι → σ}

/-- Two registers that differ still differ behind the same string. -/
theorem foldl_injective (keeps : ∀ x, Function.Injective fun s => step s x) (items : List ι) :
    Function.Injective fun s => items.foldl step s := by
  induction items with
  | nil => exact fun _ _ same => same
  | cons x items ih => exact fun _ _ same => keeps x (ih same)

/-- Strings that differ in one item leave different registers. -/
theorem foldl_ne_of_ne (keeps : ∀ x, Function.Injective fun s => step s x)
    (separates : ∀ s, Function.Injective (step s)) (start : σ) (front back : List ι) {x y : ι}
    (differ : x ≠ y) :
    (front ++ x :: back).foldl step start ≠ (front ++ y :: back).foldl step start := by
  intro same
  rw [List.foldl_append, List.foldl_append, List.foldl_cons, List.foldl_cons] at same
  exact differ (separates _ (foldl_injective keeps back same))

end Immulog.Lib
