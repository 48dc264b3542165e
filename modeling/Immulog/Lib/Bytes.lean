import Mathlib.Algebra.Order.Ring.Nat
import Mathlib.Tactic.Ring

/-!
Byte strings, fixed-width integers in them, and slices.

`leBytes` and `leNat` are the little-endian codec of naturals; `beBytes` and
`beNat` the big-endian one, whose order agrees with the order of the byte
strings.  `slice` is a half-open range of a byte string; `slice_layout` reads
one field of a fixed layout back.
-/

namespace Immulog.Lib

abbrev Bytes := List UInt8

/-! ## Little-endian naturals -/

/-- The `width` low bytes of `n`, least significant first. -/
def leBytes : Nat → Nat → Bytes
  | 0, _ => []
  | width + 1, n => UInt8.ofNat n :: leBytes width (n / 256)

def leNat : Bytes → Nat
  | [] => 0
  | b :: bs => b.toNat + 256 * leNat bs

@[simp] theorem length_leBytes (width n : Nat) : (leBytes width n).length = width := by
  induction width generalizing n with
  | zero => rfl
  | succ width ih => simp [leBytes, ih]

theorem leNat_leBytes {width n : Nat} (small : n < 256 ^ width) :
    leNat (leBytes width n) = n := by
  induction width generalizing n with
  | zero =>
      have zero : n = 0 := by simpa using small
      simp [leBytes, leNat, zero]
  | succ width ih =>
      have quotient : n / 256 < 256 ^ width := by
        rw [Nat.div_lt_iff_lt_mul (by decide)]
        simpa [Nat.pow_succ] using small
      simp only [leBytes, leNat, ih quotient, UInt8.toNat_ofNat']
      omega

theorem leNat_lt (bs : Bytes) : leNat bs < 256 ^ bs.length := by
  induction bs with
  | nil => simp [leNat]
  | cons b bs ih =>
      have byte := b.toNat_lt
      simp only [leNat, List.length_cons, Nat.pow_succ]
      omega

theorem leBytes_leNat (bs : Bytes) : leBytes bs.length (leNat bs) = bs := by
  induction bs with
  | nil => rfl
  | cons b bs ih =>
      have byte := b.toNat_lt
      have low : UInt8.ofNat (b.toNat + 256 * leNat bs) = b := by
        apply UInt8.toNat_inj.1
        simp only [UInt8.toNat_ofNat']
        omega
      have high : (b.toNat + 256 * leNat bs) / 256 = leNat bs := by omega
      simp only [List.length_cons, leNat, leBytes, low, high, ih]

/-! ## Big-endian naturals -/

def beBytes (width n : Nat) : Bytes :=
  (leBytes width n).reverse

def beNat (bs : Bytes) : Nat :=
  leNat bs.reverse

@[simp] theorem length_beBytes (width n : Nat) : (beBytes width n).length = width := by
  simp [beBytes]

theorem beNat_beBytes {width n : Nat} (small : n < 256 ^ width) :
    beNat (beBytes width n) = n := by
  simp [beNat, beBytes, leNat_leBytes small]

theorem beNat_lt (bs : Bytes) : beNat bs < 256 ^ bs.length := by
  simpa [beNat] using leNat_lt bs.reverse

theorem beBytes_beNat (bs : Bytes) : beBytes bs.length (beNat bs) = bs := by
  have inner := leBytes_leNat bs.reverse
  rw [List.length_reverse] at inner
  simp [beBytes, beNat, inner]

/-! ## Slices -/

/-- `bs[start:stop]`. -/
def slice (bs : Bytes) (start stop : Nat) : Bytes :=
  (bs.drop start).take (stop - start)

@[simp] theorem length_slice (bs : Bytes) (start stop : Nat) :
    (slice bs start stop).length = min (stop - start) (bs.length - start) := by
  simp [slice]

/-- Field `k` of a layout stands behind the fields before it, whatever follows. -/
theorem slice_layout {fields : List Bytes} {sizes : List Nat} {field : Bytes} (rest : Bytes)
    (layout : fields.map List.length = sizes) {k start stop : Nat}
    (found : fields[k]? = some field) (starts : (sizes.take k).sum = start)
    (stops : (sizes.take (k + 1)).sum = stop) :
    slice (fields.flatten ++ rest) start stop = field := by
  subst layout
  induction fields generalizing k start stop with
  | nil => simp at found
  | cons first fields ih =>
      cases k with
      | zero =>
          obtain rfl : first = field := by simpa using found
          subst starts stops
          simp [slice]
      | succ k =>
          simp only [List.map_cons, List.take_succ_cons, List.sum_cons] at starts stops
          have next : slice (fields.flatten ++ rest) (start - first.length)
              (stop - first.length) = field :=
            ih (k := k) (by simpa using found) (by omega) (by omega)
          rw [← next, slice, slice, List.flatten_cons, List.append_assoc, List.drop_append,
            List.drop_eq_nil_of_le (by omega), List.nil_append]
          congr 1
          omega

/-- Neighbouring slices join. -/
theorem slice_append_slice (bs : Bytes) {start middle stop : Nat} (first : start ≤ middle)
    (second : middle ≤ stop) :
    slice bs start middle ++ slice bs middle stop = slice bs start stop := by
  have split : stop - start = (middle - start) + (stop - middle) := by omega
  rw [slice, slice, slice, split, List.take_add, List.drop_drop]
  congr 3
  omega

theorem slice_append_drop (bs : Bytes) {start stop : Nat} (le : start ≤ stop) :
    slice bs start stop ++ bs.drop stop = bs.drop start := by
  have behind : bs.drop stop = (bs.drop start).drop (stop - start) := by
    rw [List.drop_drop, Nat.add_sub_cancel' le]
  rw [slice, behind, List.take_append_drop]

/-- The first `n` bytes of a string that starts with `n` given bytes. -/
theorem slice_zero_append {bs rest : Bytes} {n : Nat} (size : n = bs.length) :
    slice (bs ++ rest) 0 n = bs := by
  simp [slice, size]

/-- A slice inside a beginning of the bytes. -/
theorem slice_of_isPrefix {bs cs : Bytes} {start stop : Nat} (front : bs <+: cs)
    (inside : stop ≤ bs.length) : slice bs start stop = slice cs start stop := by
  obtain ⟨rest, rfl⟩ := front
  rcases Nat.le_total start bs.length with h | h
  · rw [slice, slice, List.drop_append_of_le_length h, List.take_append_of_le_length]
    rw [List.length_drop]
    omega
  · have empty : stop - start = 0 := by omega
    simp [slice, empty]

end Immulog.Lib
