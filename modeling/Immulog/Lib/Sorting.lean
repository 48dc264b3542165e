import Mathlib.Data.List.Sort
import Mathlib.Data.Multiset.Bind

/-!
Lists sorted by a comparison.

A sort with a lawful comparison forgets exactly the order of a list, so that two lists
are sorted to the same one when they hold the same elements.  `nested` is the same for
lists of lists whose order does not matter on either level.
-/

namespace Immulog.Lib

open Std

variable {α : Type}

/-- The list in the order of the comparison. -/
def sortBy (cmp : α → α → Ordering) (xs : List α) : List α :=
  xs.insertionSort fun a b => cmp a b ≠ .gt

section Comparison

variable {cmp : α → α → Ordering}

theorem perm_sortBy (cmp : α → α → Ordering) (xs : List α) : (sortBy cmp xs).Perm xs :=
  List.perm_insertionSort _ xs

variable [TransCmp cmp]

/-- The order in which the sort leaves a list. -/
theorem pairwise_sortBy (xs : List α) : (sortBy cmp xs).Pairwise fun a b => cmp a b ≠ .gt := by
  have trans : IsTrans α fun a b => cmp a b ≠ .gt := by
    refine ⟨fun a b c first second => ?_⟩
    rw [ne_eq, ← Ordering.isLE_iff_ne_gt] at first second ⊢
    exact TransCmp.isLE_trans first second
  have total : Std.Total fun a b : α => cmp a b ≠ .gt := by
    refine ⟨fun a b => ?_⟩
    have swap : cmp b a = (cmp a b).swap := OrientedCmp.eq_swap
    rw [swap]
    cases cmp a b <;> simp
  exact List.pairwise_insertionSort _ xs

/-- Items with distinct keys are sorted into ascending ones. -/
theorem ascending_sortBy_on [LawfulEqCmp cmp] {ι : Type} {f : ι → α} {xs : List ι}
    (distinct : (xs.map f).Nodup) :
    ((sortBy (fun a b => cmp (f a) (f b)) xs).map f).Pairwise fun a b => cmp a b = .lt := by
  have onKeys : TransCmp fun a b : ι => cmp (f a) (f b) :=
    { eq_swap := OrientedCmp.eq_swap, isLE_trans := TransCmp.isLE_trans }
  have once := ((perm_sortBy (fun a b => cmp (f a) (f b)) xs).map f).nodup_iff.2 distinct
  rw [List.Nodup, List.pairwise_map] at once
  rw [List.pairwise_map]
  refine ((pairwise_sortBy xs).and once).imp ?_
  intro a b both
  cases order : cmp (f a) (f b) with
  | lt => rfl
  | eq => exact absurd (LawfulEqCmp.eq_of_compare order) both.2
  | gt => exact absurd order both.1

/-- Two lists are sorted to the same list when one is a permutation of the other. -/
theorem sortBy_eq_iff [LawfulEqCmp cmp] {xs ys : List α} :
    sortBy cmp xs = sortBy cmp ys ↔ xs.Perm ys := by
  constructor
  · intro same
    have front := perm_sortBy cmp xs
    rw [same] at front
    exact front.symm.trans (perm_sortBy cmp ys)
  · intro perm
    have antisymm : ∀ a b, cmp a b ≠ .gt → cmp b a ≠ .gt → a = b := by
      intro a b first second
      rw [ne_eq, ← Ordering.isLE_iff_ne_gt] at first second
      exact LawfulEqCmp.eq_of_compare (OrientedCmp.isLE_antisymm first second)
    exact List.Perm.eq_of_pairwise (fun a b _ _ => antisymm a b) (pairwise_sortBy xs)
      (pairwise_sortBy ys) ((perm_sortBy cmp xs).trans (perm.trans (perm_sortBy cmp ys).symm))

end Comparison

/-- A list of lists without the order of either. -/
def nested (xs : List (List α)) : Multiset (Multiset α) :=
  .ofList (xs.map Multiset.ofList)

/-- With a canonical form for the inner lists, the nested multisets are compared by it. -/
theorem nested_eq_iff {f : List α → List α} (perm : ∀ x, (f x).Perm x)
    (canonical : ∀ x y, x.Perm y → f x = f y) {xs ys : List (List α)} :
    nested xs = nested ys ↔ (xs.map f).Perm (ys.map f) := by
  refine Multiset.coe_eq_coe.trans ?_
  constructor
  · intro same
    have lifted := same.map fun m : Multiset α => Quot.liftOn m f canonical
    rwa [List.map_map, List.map_map] at lifted
  · intro same
    have forgets : (Multiset.ofList : List α → Multiset α) = Multiset.ofList ∘ f :=
      funext fun x => Multiset.coe_eq_coe.2 (perm x).symm
    rw [forgets, ← List.map_map, ← List.map_map]
    exact same.map _

theorem nested_flatten {xs ys : List (List α)} (same : nested xs = nested ys) :
    xs.flatten.Perm ys.flatten := by
  have joined := congrArg Multiset.join same
  rw [nested, nested, Multiset.coe_join, Multiset.coe_join] at joined
  exact Multiset.coe_eq_coe.1 joined

theorem nested_length {xs ys : List (List α)} (same : nested xs = nested ys) :
    xs.length = ys.length := by
  have cards := congrArg Multiset.card same
  simpa [nested] using cards

end Immulog.Lib
