import Mathlib.Data.Nat.ModEq

/-!
Rings of slots.

A ring of a fixed number of slots holds a list: its elements stand in the slots from the
head on, around the end if need be, and all other slots are empty.
-/

namespace Immulog.Lib

variable {α : Type}

/-- The ring holds the list from the head on and nothing else. -/
structure Ring (slots : List (Option α)) (head : Nat) (xs : List α) : Prop where
  head_lt : head < slots.length
  count_le : xs.length ≤ slots.length
  slot : ∀ i < slots.length, slots[(head + i) % slots.length]? = some xs[i]?

/-- Within one turn, different distances lead to different slots. -/
theorem around_inj {n head i j : Nat} (iLt : i < n) (jLt : j < n)
    (same : (head + i) % n = (head + j) % n) : i = j :=
  Nat.ModEq.eq_of_lt_of_lt (Nat.ModEq.add_left_cancel' head same) iLt jLt

namespace Ring

variable {slots : List (Option α)} {head : Nat} {x : α} {xs : List α}

theorem of_replicate {n : Nat} (positive : 0 < n) :
    Ring (List.replicate n (none : Option α)) 0 [] where
  head_lt := by rwa [List.length_replicate]
  count_le := Nat.zero_le _
  slot := by
    intro i inside
    rw [List.length_replicate] at inside ⊢
    rw [List.getElem?_replicate, if_pos (Nat.mod_lt _ positive)]
    rfl

theorem emptied (ring : Ring slots head xs) : Ring (slots.map fun _ => (none : Option α)) 0 [] := by
  rw [List.map_const']
  exact of_replicate (Nat.zero_lt_of_lt ring.head_lt)

/-- The element at a distance from the head. -/
theorem get (ring : Ring slots head xs) {i : Nat} (inside : i < slots.length) :
    (slots[(head + i) % slots.length]?).join = xs[i]? := by
  rw [ring.slot i inside]
  rfl

/-- The first element goes, and the head moves on. -/
theorem pop (ring : Ring slots head (x :: xs)) :
    Ring (slots.set head none) ((head + 1) % slots.length) xs := by
  have positive : 0 < slots.length := Nat.zero_lt_of_lt ring.head_lt
  have count : xs.length + 1 ≤ slots.length := ring.count_le
  refine ⟨?_, ?_, ?_⟩
  · rw [List.length_set]
    exact Nat.mod_lt _ positive
  · rw [List.length_set]
    omega
  · intro i inside
    rw [List.length_set] at inside ⊢
    rw [Nat.mod_add_mod, Nat.add_assoc, Nat.add_comm 1]
    rcases Nat.lt_or_ge (i + 1) slots.length with before | wraps
    · have other : head ≠ (head + (i + 1)) % slots.length := by
        intro same
        have zero : (head + 0) % slots.length = (head + (i + 1)) % slots.length := by
          rwa [Nat.add_zero, Nat.mod_eq_of_lt ring.head_lt]
        cases around_inj positive before zero
      rw [List.getElem?_set_ne other, ring.slot _ before, List.getElem?_cons_succ]
    · have all : i + 1 = slots.length := by omega
      rw [all, Nat.add_mod_right, Nat.mod_eq_of_lt ring.head_lt,
        List.getElem?_set_self ring.head_lt, List.getElem?_eq_none (by omega)]

/-- A new element stands behind the last one. -/
theorem push (ring : Ring slots head xs) (room : xs.length < slots.length) (x : α) :
    Ring (slots.set ((head + xs.length) % slots.length) (some x)) head (xs ++ [x]) := by
  have positive : 0 < slots.length := Nat.zero_lt_of_lt ring.head_lt
  refine ⟨?_, ?_, ?_⟩
  · rw [List.length_set]
    exact ring.head_lt
  · rw [List.length_set, List.length_append, List.length_singleton]
    exact room
  · intro i inside
    rw [List.length_set] at inside ⊢
    by_cases here : i = xs.length
    · rw [here, List.getElem?_set_self (Nat.mod_lt _ positive)]
      simp
    · have other : (head + xs.length) % slots.length ≠ (head + i) % slots.length :=
        fun same => here (around_inj room inside same).symm
      rw [List.getElem?_set_ne other, ring.slot i inside]
      rcases Nat.lt_or_ge i xs.length with before | behind
      · rw [List.getElem?_append_left before]
      · rw [List.getElem?_eq_none behind, List.getElem?_eq_none (by
          rw [List.length_append, List.length_singleton]
          omega)]

end Ring

end Immulog.Lib
