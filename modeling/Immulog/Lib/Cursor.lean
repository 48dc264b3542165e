import Immulog.Lib.Bytes
import Immulog.Lib.Result
import Mathlib.Data.List.Induction

/-!
Readers over the bytes still to be consumed.

A `Cursor` fails or returns a value and what is left.  `Parses d bs a` says that
`d` consumes exactly `bs` in front of any rest and returns `a`; the rules compose
it along binds, checks and counted loops.  `run_bind_eq_ok` and
`run_ensure_bind_eq_ok` take a successful run apart, `run_loop_eq_ok` a successful
counted loop into the items it read.
-/

namespace Immulog.Lib

/-- A reader with errors in `ε`. -/
abbrev Cursor (ε α : Type) := StateT Bytes (Except ε) α

namespace Cursor

variable {ε α β σ : Type}

/-- The next `n` bytes. -/
def take (n : Nat) (e : ε) : Cursor ε Bytes := fun bs =>
  if bs.length < n then .error e else .ok (bs.take n, bs.drop n)

/-- Stop with `e` when what was read is bad. -/
def ensure (bad : Prop) [Decidable bad] (e : ε) : Cursor ε Unit := fun bs =>
  if bad then .error e else .ok ((), bs)

/-- How many bytes are left. -/
def remaining : Cursor ε Nat := fun bs =>
  .ok (bs.length, bs)

/-- A computation that reads nothing. -/
def lift (x : Except ε α) : Cursor ε α := fun bs =>
  x.map fun a => (a, bs)

/-- Stop with `e`. -/
def fail (e : ε) : Cursor ε α := fun _ =>
  .error e

/-- Stop with `e` unless everything has been read. -/
def finish (e : ε) : Cursor ε Unit := do
  let left ← remaining
  ensure (left ≠ 0) e

/-- The value read from `data`. -/
def readFrom (data : Bytes) (d : Cursor ε α) : Except ε α :=
  (d data).map Prod.fst

/-- Repeat a step that carries a state. -/
def loop (step : σ → Cursor ε σ) : Nat → σ → Cursor ε σ
  | 0, s => pure s
  | n + 1, s => do
      let next ← step s
      loop step n next

/-! ## Taking a run apart -/

theorem run_pure_eq_ok {a b : α} {bs rest : Bytes} :
    (pure a : Cursor ε α) bs = .ok (b, rest) ↔ a = b ∧ bs = rest := by
  change Except.ok (a, bs) = .ok (b, rest) ↔ _
  simp

/-- A reader in two parts reads the first, and the second behind it. -/
theorem run_bind_eq_ok {d : Cursor ε α} {f : α → Cursor ε β} {b : β} {bs rest : Bytes} :
    (d >>= f) bs = .ok (b, rest) ↔
      ∃ a mid, d bs = .ok (a, mid) ∧ f a mid = .ok (b, rest) := by
  change (d bs >>= fun p => f p.1 p.2) = _ ↔ _
  rw [bind_eq_ok]
  constructor
  · rintro ⟨⟨a, mid⟩, read, next⟩
    exact ⟨a, mid, read, next⟩
  · rintro ⟨a, mid, read, next⟩
    exact ⟨(a, mid), read, next⟩

theorem run_ensure_eq_ok {bad : Prop} [Decidable bad] {e : ε} {bs rest : Bytes} {u : Unit} :
    ensure bad e bs = .ok (u, rest) ↔ ¬ bad ∧ bs = rest := by
  by_cases h : bad <;> simp [ensure, h]

theorem run_ensure_bind_eq_ok {bad : Prop} [Decidable bad] {e : ε} {f : Unit → Cursor ε β}
    {b : β} {bs rest : Bytes} :
    (ensure bad e >>= f) bs = .ok (b, rest) ↔ ¬ bad ∧ f () bs = .ok (b, rest) := by
  constructor
  · intro run
    obtain ⟨_, _, checked, next⟩ := run_bind_eq_ok.1 run
    obtain ⟨good, rfl⟩ := run_ensure_eq_ok.1 checked
    exact ⟨good, next⟩
  · rintro ⟨good, next⟩
    exact run_bind_eq_ok.2 ⟨(), bs, run_ensure_eq_ok.2 ⟨good, rfl⟩, next⟩

/-- So many bytes are taken, and no fewer. -/
theorem run_take_eq_ok {n : Nat} {e : ε} {bs out rest : Bytes} :
    take n e bs = .ok (out, rest) ↔ out.length = n ∧ bs = out ++ rest := by
  unfold take
  split
  · rename_i short
    simp only [reduceCtorEq, false_iff]
    rintro ⟨size, rfl⟩
    simp at short
    omega
  · rename_i long
    simp only [Except.ok.injEq, Prod.mk.injEq]
    constructor
    · rintro ⟨rfl, rfl⟩
      exact ⟨by simp; omega, by simp⟩
    · rintro ⟨size, rfl⟩
      simp [← size]

theorem run_remaining_eq_ok {n : Nat} {bs rest : Bytes} :
    (remaining : Cursor ε Nat) bs = .ok (n, rest) ↔ n = bs.length ∧ bs = rest := by
  simp [remaining, eq_comm]

theorem run_finish_eq_ok {e : ε} {bs rest : Bytes} {u : Unit} :
    finish e bs = .ok (u, rest) ↔ bs = [] ∧ rest = [] := by
  simp only [finish, run_bind_eq_ok, run_remaining_eq_ok, run_ensure_eq_ok, ne_eq,
    Decidable.not_not]
  constructor
  · rintro ⟨n, _, ⟨rfl, rfl⟩, none, rfl⟩
    exact ⟨List.length_eq_zero_iff.1 none, List.length_eq_zero_iff.1 none⟩
  · rintro ⟨rfl, rfl⟩
    exact ⟨0, [], ⟨rfl, rfl⟩, rfl, rfl⟩

theorem readFrom_eq_ok {d : Cursor ε α} {data : Bytes} {a : α} :
    readFrom data d = .ok a ↔ ∃ rest, d data = .ok (a, rest) := by
  simp only [readFrom, map_eq_ok, Prod.exists]
  constructor
  · rintro ⟨b, rest, read, rfl⟩
    exact ⟨rest, read⟩
  · rintro ⟨rest, read⟩
    exact ⟨a, rest, read, rfl⟩

theorem run_lift_eq_ok {x : Except ε α} {a : α} {bs rest : Bytes} :
    lift x bs = .ok (a, rest) ↔ x = .ok a ∧ bs = rest := by
  cases x <;> simp [lift, Except.map]

theorem run_map_eq_ok {d : Cursor ε α} {f : α → β} {b : β} {bs rest : Bytes} :
    (f <$> d) bs = .ok (b, rest) ↔ ∃ a, d bs = .ok (a, rest) ∧ f a = b := by
  change (d bs >>= fun p => Except.ok (f p.1, p.2)) = _ ↔ _
  rw [bind_eq_ok]
  simp only [Except.ok.injEq, Prod.mk.injEq]
  constructor
  · rintro ⟨⟨a, mid⟩, read, rfl, rfl⟩
    exact ⟨a, read, rfl⟩
  · rintro ⟨a, read, rfl⟩
    exact ⟨(a, rest), read, rfl, rfl⟩

/-- A field of fixed size that its writer puts back. -/
theorem run_field_eq_ok {n : Nat} {e : ε} {read : Bytes → α} (write : α → Bytes) {v : α}
    {bs rest : Bytes} (size : (write v).length = n) (back : read (write v) = v)
    (canonical : ∀ field : Bytes, field.length = n → write (read field) = field) :
    (read <$> take n e) bs = .ok (v, rest) ↔ bs = write v ++ rest := by
  rw [run_map_eq_ok]
  simp only [run_take_eq_ok]
  constructor
  · rintro ⟨field, ⟨length, rfl⟩, rfl⟩
    rw [canonical field length]
  · rintro rfl
    exact ⟨write v, ⟨size, rfl⟩, back⟩

/-- Every item of a list is allowed after the items before it. -/
def Allowed {ι : Type} (Ok : List ι → ι → Prop) (items : List ι) : Prop :=
  ∀ done x left, items = done ++ x :: left → Ok done x

theorem Allowed.mono {ι : Type} {Ok Ok' : List ι → ι → Prop} {items : List ι}
    (allowed : Allowed Ok items) (weaker : ∀ done x, Ok done x → Ok' done x) :
    Allowed Ok' items :=
  fun done x left split => weaker done x (allowed done x left split)

theorem Allowed.mem {ι : Type} {Ok : List ι → ι → Prop} {items : List ι} {x : ι}
    (allowed : Allowed Ok items) (found : x ∈ items) : ∃ done, Ok done x := by
  obtain ⟨done, left, split⟩ := List.append_of_mem found
  exact ⟨done, allowed done x left split⟩

@[simp] theorem Allowed.nil {ι : Type} (Ok : List ι → ι → Prop) : Allowed Ok [] := by
  intro done x left split
  simp at split

theorem allowed_concat {ι : Type} {Ok : List ι → ι → Prop} {items : List ι} {x : ι} :
    Allowed Ok (items ++ [x]) ↔ Allowed Ok items ∧ Ok items x := by
  constructor
  · intro allowed
    refine ⟨fun done y left split => allowed done y (left ++ [x]) (by simp [split]), ?_⟩
    exact allowed items x [] rfl
  · rintro ⟨earlier, last⟩ done y left split
    rcases List.eq_nil_or_concat left with rfl | ⟨left, z, rfl⟩
    · obtain ⟨rfl, same⟩ := List.append_inj' split rfl
      obtain rfl : x = y := by simpa using same
      exact last
    · have whole : items ++ [x] = (done ++ y :: left) ++ [z] := by simp [split]
      exact earlier done y left (List.append_inj' whole rfl).1

/-- A condition on the position of an item. -/
theorem allowed_length_iff {ι : Type} {Q : Nat → ι → Prop} {items : List ι} :
    Allowed (fun done x => Q done.length x) items ↔ ∀ p ∈ items.zipIdx, Q p.2 p.1 := by
  induction items using List.reverseRecOn with
  | nil => simp
  | append_singleton items x ih =>
      rw [allowed_concat, ih]
      simp [List.zipIdx_append, or_imp, forall_and]

/-- A counted loop, one item a step: `after` is the state once the given items have
been read, `Ok` says which item may follow them. -/
theorem run_loop_eq_ok {ι : Type} {step : σ → Cursor ε σ} (enc : ι → Bytes) (after : List ι → σ)
    (Ok : List ι → ι → Prop)
    (each : ∀ done s' bs rest, Allowed Ok done → (step (after done) bs = .ok (s', rest) ↔
      ∃ x, Ok done x ∧ s' = after (done ++ [x]) ∧ bs = enc x ++ rest))
    {n : Nat} {s' : σ} {bs rest : Bytes} :
    loop step n (after []) bs = .ok (s', rest) ↔
      ∃ items, items.length = n ∧ Allowed Ok items ∧ s' = after items ∧
        bs = items.flatMap enc ++ rest := by
  suffices general : ∀ n done bs, Allowed Ok done →
      (loop step n (after done) bs = .ok (s', rest) ↔
        ∃ items, items.length = n ∧ Allowed Ok (done ++ items) ∧ s' = after (done ++ items) ∧
          bs = items.flatMap enc ++ rest) by
    simpa using general n [] bs (Allowed.nil Ok)
  intro n
  induction n with
  | zero =>
      intro done bs allowed
      constructor
      · intro run
        obtain ⟨rfl, rfl⟩ := run_pure_eq_ok.1 run
        exact ⟨[], rfl, by simpa using allowed, by simp, rfl⟩
      · rintro ⟨items, none, -, rfl, rfl⟩
        obtain rfl := List.length_eq_zero_iff.1 none
        exact run_pure_eq_ok.2 ⟨by simp, by simp⟩
  | succ n ih =>
      intro done bs allowed
      constructor
      · intro run
        obtain ⟨next, mid, first, later⟩ := run_bind_eq_ok.1 run
        obtain ⟨x, ok, rfl, rfl⟩ := (each done next bs mid allowed).1 first
        obtain ⟨items, rfl, more, rfl, rfl⟩ :=
          (ih (done ++ [x]) mid (allowed_concat.2 ⟨allowed, ok⟩)).1 later
        exact ⟨x :: items, rfl, by simpa using more, by simp, by simp⟩
      · rintro ⟨items, size, more, rfl, rfl⟩
        obtain ⟨x, items, rfl⟩ := List.exists_cons_of_length_eq_add_one size
        have ok := more done x items rfl
        refine run_bind_eq_ok.2 ⟨after (done ++ [x]), items.flatMap enc ++ rest,
          (each done _ _ _ allowed).2 ⟨x, ok, rfl, by simp⟩, ?_⟩
        refine (ih (done ++ [x]) _ (allowed_concat.2 ⟨allowed, ok⟩)).2
          ⟨items, by simpa using size, ?_⟩
        exact ⟨by simpa using more, by simp, rfl⟩

/-! ## Reading an encoding back -/

/-- `d` consumes exactly `enc`, whatever follows, and returns `a`. -/
def Parses (d : Cursor ε α) (enc : Bytes) (a : α) : Prop :=
  ∀ rest, d (enc ++ rest) = .ok (a, rest)

theorem Parses.pure (a : α) : Parses (pure a : Cursor ε α) [] a :=
  fun _ => rfl

/-- Encodings are read one behind the other. -/
theorem Parses.bind {d : Cursor ε α} {f : α → Cursor ε β} {enc enc' : Bytes} {a : α} {b : β}
    (first : Parses d enc a) (second : Parses (f a) enc' b) :
    Parses (d >>= f) (enc ++ enc') b := by
  intro rest
  rw [List.append_assoc, run_bind_eq_ok]
  exact ⟨a, enc' ++ rest, first _, second rest⟩

theorem Parses.ensure {bad : Prop} [Decidable bad] {e : ε} {f : Unit → Cursor ε β}
    {enc : Bytes} {b : β} (good : ¬ bad) (next : Parses (f ()) enc b) :
    Parses (Cursor.ensure bad e >>= f) enc b := by
  intro rest
  rw [run_ensure_bind_eq_ok]
  exact ⟨good, next rest⟩

theorem Parses.take {enc : Bytes} {n : Nat} (size : enc.length = n) (e : ε) :
    Parses (Cursor.take n e) enc enc := by
  intro rest
  rw [run_take_eq_ok]
  exact ⟨size, rfl⟩

theorem Parses.map {d : Cursor ε α} {enc : Bytes} {a : α} (f : α → β) (read : Parses d enc a) :
    Parses (f <$> d) enc (f a) := by
  intro rest
  change (d (enc ++ rest) >>= fun p => Except.ok (f p.1, p.2)) = _
  rw [read rest]
  rfl

/-- A loop reads the encodings of a list of items when each step reads one item.
`after` is the state once the given items have been read. -/
theorem Parses.loop {ι : Type} {step : σ → Cursor ε σ} (enc : ι → Bytes) (after : List ι → σ)
    {items : List ι}
    (each : ∀ done x rest, items = done ++ x :: rest →
      Parses (step (after done)) (enc x) (after (done ++ [x]))) :
    Parses (Cursor.loop step items.length (after [])) (items.flatMap enc) (after items) := by
  suffices general : ∀ done left, items = done ++ left →
      Parses (Cursor.loop step left.length (after done)) (left.flatMap enc) (after items) from
    general [] items rfl
  intro done left
  induction left generalizing done with
  | nil =>
      intro split
      rw [List.append_nil] at split
      subst split
      exact Parses.pure _
  | cons x left ih =>
      intro split
      have first := each done x left split
      have later := ih (done ++ [x]) (by simp [split])
      exact first.bind later

/-- What a reader consumes is gone for the next one. -/
theorem Parses.run_bind {d : Cursor ε α} {enc : Bytes} {a : α} (read : Parses d enc a)
    (f : α → Cursor ε β) (rest : Bytes) : (d >>= f) (enc ++ rest) = f a rest := by
  change (d (enc ++ rest) >>= fun p => f p.1 p.2) = _
  rw [read rest]
  rfl

/-- A loop over the encodings of known items succeeds exactly when every item is allowed
after the ones before it. -/
theorem run_loop_items {ι : Type} {step : σ → Cursor ε σ} (enc : ι → Bytes) (after : List ι → σ)
    (Ok : List ι → ι → Prop) {items : List ι}
    (each : ∀ done x left, items = done ++ x :: left → ∀ s' rest rest',
      step (after done) (enc x ++ rest) = .ok (s', rest') ↔
        Ok done x ∧ s' = after (done ++ [x]) ∧ rest' = rest)
    {s' : σ} {rest rest' : Bytes} :
    Cursor.loop step items.length (after []) (items.flatMap enc ++ rest) = .ok (s', rest') ↔
      Allowed Ok items ∧ s' = after items ∧ rest' = rest := by
  suffices general : ∀ left done, items = done ++ left → Allowed Ok done →
      (Cursor.loop step left.length (after done) (left.flatMap enc ++ rest) = .ok (s', rest') ↔
        Allowed Ok items ∧ s' = after items ∧ rest' = rest) from
    general items [] rfl (Allowed.nil Ok)
  intro left
  induction left with
  | nil =>
      intro done split allowed
      rw [List.append_nil] at split
      subst split
      refine run_pure_eq_ok.trans ?_
      simp [allowed, eq_comm]
  | cons x left ih =>
      intro done split allowed
      rw [List.flatMap_cons, List.append_assoc]
      refine run_bind_eq_ok.trans ?_
      constructor
      · rintro ⟨next, mid, first, later⟩
        obtain ⟨ok, rfl, rfl⟩ := (each done x left split next _ mid).1 first
        exact (ih (done ++ [x]) (by simp [split]) (allowed_concat.2 ⟨allowed, ok⟩)).1 later
      · intro found
        have ok := found.1 done x left split
        refine ⟨after (done ++ [x]), left.flatMap enc ++ rest,
          (each done x left split _ _ _).2 ⟨ok, rfl, rfl⟩, ?_⟩
        exact (ih (done ++ [x]) (by simp [split]) (allowed_concat.2 ⟨allowed, ok⟩)).2 found

end Cursor

end Immulog.Lib
