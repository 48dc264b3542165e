import Immulog.Lib.Cursor
import Mathlib.Data.List.Nodup
import Mathlib.Data.List.Perm.Subperm

/-!
Extensional tree maps as the maps of a program.

`mapOf` builds a map from a list of entries; a map is built again from its own
entries, in whatever representation they were stored in between.  `InOrder` is the
check a reader makes on the keys of a list in canonical order.
-/

namespace Immulog.Lib

open Std

variable {α β : Type} [Ord α]

/-! ## Keys in canonical order -/

/-- There is a previous key, and it is not below the next one. -/
def Misordered (previous : Option α) (next : α) : Prop :=
  previous.any (fun p => compare p next != .lt) = true

instance (previous : Option α) (next : α) : Decidable (Misordered previous next) :=
  inferInstanceAs (Decidable (_ = true))

/-- In order after the keys before it. -/
def InOrder (done : List α) (next : α) : Prop :=
  ¬ Misordered done.getLast? next

theorem inOrder_concat {done : List α} {last next : α} :
    InOrder (done ++ [last]) next ↔ compare last next = .lt := by
  simp [InOrder, Misordered]

/-- Ascending keys are in order. -/
theorem inOrder_of_pairwise {ι : Type} {f : ι → α} {items : List ι}
    (sorted : (items.map f).Pairwise (fun a b => compare a b = .lt)) :
    Cursor.Allowed (fun done x => InOrder (done.map f) (f x)) items := by
  rintro done x left rfl
  rcases List.eq_nil_or_concat done with rfl | ⟨front, y, rfl⟩
  · simp [InOrder, Misordered]
  · rw [List.concat_eq_append, List.map_append, List.map_singleton, inOrder_concat]
    simp only [List.concat_eq_append, List.map_append, List.map_cons, List.map_nil] at sorted
    exact (List.pairwise_append.1 sorted).2.2 (f y) (by simp) (f x) (by simp)

/-- Keys that are each in order ascend. -/
theorem pairwise_of_inOrder [TransOrd α] {ι : Type} {f : ι → α} {items : List ι}
    (allowed : Cursor.Allowed (fun done x => InOrder (done.map f) (f x)) items) :
    (items.map f).Pairwise (fun a b => compare a b = .lt) := by
  induction items using List.reverseRecOn with
  | nil => simp
  | append_singleton items x ih =>
      obtain ⟨earlier, last⟩ := Cursor.allowed_concat.1 allowed
      have sorted := ih earlier
      rw [List.map_append, List.pairwise_append]
      refine ⟨sorted, by simp, ?_⟩
      intro a mem b here
      obtain rfl : b = f x := by simpa using here
      rcases List.eq_nil_or_concat items with rfl | ⟨front, y, rfl⟩
      · simp at mem
      · rw [List.concat_eq_append, List.map_append, List.map_singleton] at sorted last mem
        have below := inOrder_concat.1 last
        rcases List.mem_append.1 mem with inside | same
        · exact TransCmp.lt_trans
            ((List.pairwise_append.1 sorted).2.2 a inside (f y) (by simp)) below
        · obtain rfl : a = f y := by simpa using same
          exact below

theorem nodup_of_ascending [LawfulEqOrd α] {keys : List α}
    (sorted : keys.Pairwise (fun a b => compare a b = .lt)) : keys.Nodup := by
  refine sorted.imp ?_
  rintro a b below rfl
  rw [ReflOrd.compare_self] at below
  cases below

variable [TransOrd α] [LawfulEqOrd α]

/-! ## Inserting a list of entries -/

theorem getElem?_insert_eq_some {m : ExtTreeMap α β} {k k' : α} {v w : β} :
    (m.insert k v)[k']? = some w ↔ k = k' ∧ v = w ∨ k ≠ k' ∧ m[k']? = some w := by
  rw [ExtTreeMap.getElem?_insert]
  by_cases same : k = k'
  · simp [same, ReflOrd.compare_self]
  · simp [same]

theorem getElem?_erase_eq_some {m : ExtTreeMap α β} {k k' : α} {w : β} :
    (m.erase k)[k']? = some w ↔ k ≠ k' ∧ m[k']? = some w := by
  rw [ExtTreeMap.getElem?_erase]
  by_cases same : k = k'
  · simp [same, ReflOrd.compare_self]
  · simp [same]

theorem modify_id (m : ExtTreeMap α β) (k : α) : m.modify k (fun v => v) = m := by
  ext k' v
  rw [ExtTreeMap.getElem?_modify]
  split
  · rename_i same
    obtain rfl := LawfulEqCmp.eq_of_compare same
    simp
  · rfl

theorem modify_modify (m : ExtTreeMap α β) (k : α) (f g : β → β) :
    (m.modify k f).modify k g = m.modify k (g ∘ f) := by
  ext k' v
  simp only [ExtTreeMap.getElem?_modify]
  split <;> simp

/-- A value made on demand and then changed. -/
theorem modify_made (m : ExtTreeMap α β) (k : α) (made : β) (f : β → β) :
    (if k ∈ m then m else m.insert k made).modify k f = m.insert k (f (m.getD k made)) := by
  ext k' v
  rw [ExtTreeMap.getElem?_modify, ExtTreeMap.getElem?_insert]
  by_cases same : compare k k' = .eq
  · simp only [same, if_true]
    by_cases inside : k ∈ m
    · simp [inside, ExtTreeMap.getD_eq_getD_getElem?]
    · simp [inside, ExtTreeMap.getD_eq_fallback]
  · simp only [same, if_false]
    split
    · rfl
    · simp [ExtTreeMap.getElem?_insert, same]

theorem insert_eq_modify {m : ExtTreeMap α β} {k : α} {v : β} {f : β → β}
    (found : m[k]? = some v) : m.insert k (f v) = m.modify k f := by
  apply ExtTreeMap.ext_getElem?
  intro k'
  rw [ExtTreeMap.getElem?_insert, ExtTreeMap.getElem?_modify]
  split
  · rw [found]
    rfl
  · rfl

section Insert

variable {ι : Type} {f : ι → α} {g : ι → β}

/-- What is found after inserting a list was inserted, or was there before. -/
theorem mem_of_foldl_insert {items : List ι} {m : ExtTreeMap α β} {k : α} {v : β}
    (found : (items.foldl (fun m x => m.insert (f x) (g x)) m)[k]? = some v) :
    (∃ x ∈ items, f x = k ∧ g x = v) ∨ m[k]? = some v := by
  induction items generalizing m with
  | nil => exact .inr found
  | cons x items ih =>
      rcases ih found with ⟨y, mem, same⟩ | before
      · exact .inl ⟨y, List.mem_cons_of_mem x mem, same⟩
      · rw [ExtTreeMap.getElem?_insert] at before
        split at before
        · rename_i same
          exact .inl ⟨x, List.mem_cons_self, LawfulEqOrd.eq_of_compare same,
            Option.some.inj before⟩
        · exact .inr before

theorem contains_foldl_insert {items : List ι} {m : ExtTreeMap α β} {k : α} :
    k ∈ items.foldl (fun m x => m.insert (f x) (g x)) m ↔
      (∃ x ∈ items, f x = k) ∨ k ∈ m := by
  induction items generalizing m with
  | nil => simp
  | cons x items ih => simp [ih, ExtTreeMap.mem_insert, or_assoc, or_left_comm]

/-- With distinct keys, what was inserted is found. -/
theorem getElem?_foldl_insert {items : List ι} {m : ExtTreeMap α β} {x : ι}
    (distinct : (items.map f).Nodup) (mem : x ∈ items) :
    (items.foldl (fun m x => m.insert (f x) (g x)) m)[f x]? = some (g x) := by
  induction items generalizing m with
  | nil => simp at mem
  | cons y items ih =>
      rw [List.map_cons, List.nodup_cons] at distinct
      rcases List.mem_cons.1 mem with rfl | later
      · have absent : ¬ ∃ z ∈ items, f z = f x := by
          rintro ⟨z, inside, same⟩
          exact distinct.1 (same ▸ List.mem_map_of_mem inside)
        have there : f x ∈ items.foldl (fun m x => m.insert (f x) (g x))
            (m.insert (f x) (g x)) :=
          contains_foldl_insert.2 (.inr ExtTreeMap.mem_insert_self)
        obtain ⟨v, found⟩ := Option.isSome_iff_exists.1 (ExtTreeMap.isSome_getElem?_iff_mem.2 there)
        rcases mem_of_foldl_insert found with ⟨z, inside, same, -⟩ | before
        · exact absurd ⟨z, inside, same⟩ absent
        · rw [ExtTreeMap.getElem?_insert_self] at before
          rw [List.foldl_cons, found, ← before]
      · exact ih distinct.2 later

/-- A key that no item has keeps its value. -/
theorem getElem?_foldl_insert_of_not_mem {items : List ι} {m : ExtTreeMap α β} {k : α}
    (absent : k ∉ items.map f) :
    (items.foldl (fun m x => m.insert (f x) (g x)) m)[k]? = m[k]? := by
  induction items generalizing m with
  | nil => rfl
  | cons x items ih =>
      rw [List.map_cons, List.mem_cons, not_or] at absent
      have other : f x ≠ k := fun same => absent.1 same.symm
      rw [List.foldl_cons, ih absent.2, ExtTreeMap.getElem?_insert]
      simp [other]

theorem size_foldl_insert {items : List ι} (distinct : (items.map f).Nodup) :
    (items.foldl (fun m x => m.insert (f x) (g x)) (∅ : ExtTreeMap α β)).size =
      items.length := by
  induction items using List.reverseRecOn with
  | nil => simp
  | append_singleton items x ih =>
      rw [List.map_append, List.nodup_append] at distinct
      have fresh : f x ∉ items.foldl (fun m x => m.insert (f x) (g x))
          (∅ : ExtTreeMap α β) := by
        rw [contains_foldl_insert]
        rintro (⟨y, mem, same⟩ | empty)
        · exact distinct.2.2 _ (List.mem_map_of_mem mem) (f x) (by simp) same
        · simp at empty
      rw [ExtTreeMap.mem_iff_contains] at fresh
      rw [List.foldl_append, List.foldl_cons, List.foldl_nil, ExtTreeMap.size_insert, if_neg fresh,
        ih distinct.1, List.length_append, List.length_singleton]

end Insert

/-- Distinct keys of a map are at most as many as its entries. -/
theorem length_le_size {keys : List α} {m : ExtTreeMap α β} (distinct : keys.Nodup)
    (mem : ∀ k ∈ keys, k ∈ m) : keys.length ≤ m.size := by
  rw [← ExtTreeMap.length_keys]
  exact (distinct.subperm fun k inside => ExtTreeMap.mem_keys.2 (mem k inside)).length_le

omit [LawfulEqOrd α] in
theorem ascending_keys_toList (m : ExtTreeMap α β) :
    (m.toList.map Prod.fst).Pairwise (fun a b => compare a b = .lt) := by
  rw [List.pairwise_map]
  exact ExtTreeMap.ordered_keys_toList

/-- The map of a list of entries. -/
def mapOf (entries : List (α × β)) : ExtTreeMap α β :=
  entries.foldl (fun m entry => m.insert entry.1 entry.2) ∅

/-- With distinct keys, the map finds exactly what is listed. -/
theorem getElem?_mapOf {entries : List (α × β)} (distinct : (entries.map Prod.fst).Nodup)
    {e : α × β} : (mapOf entries)[e.1]? = some e.2 ↔ e ∈ entries := by
  constructor
  · intro found
    rcases mem_of_foldl_insert (f := Prod.fst) found with ⟨other, mem, key, value⟩ | before
    · obtain rfl : other = e := Prod.ext key value
      exact mem
    · simp at before
  · intro mem
    exact getElem?_foldl_insert (f := Prod.fst) distinct mem

/-- Lists with distinct keys have the same map when one is a permutation of the other. -/
theorem mapOf_eq_iff {entries entries' : List (α × β)} (distinct : (entries.map Prod.fst).Nodup)
    (distinct' : (entries'.map Prod.fst).Nodup) :
    mapOf entries = mapOf entries' ↔ entries.Perm entries' := by
  constructor
  · intro same
    refine (List.perm_ext_iff_of_nodup (List.Nodup.of_map _ distinct)
      (List.Nodup.of_map _ distinct')).2 fun entry => ?_
    rw [← getElem?_mapOf distinct, ← getElem?_mapOf distinct', same]
  · intro perm
    apply ExtTreeMap.ext_getElem?
    intro key
    refine Option.ext fun value => ?_
    have left := getElem?_mapOf distinct (e := (key, value))
    have right := getElem?_mapOf distinct' (e := (key, value))
    rw [left, right, perm.mem_iff]

end Immulog.Lib
