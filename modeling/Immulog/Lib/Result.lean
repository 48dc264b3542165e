import Mathlib.Logic.Basic

/-!
Checks in the `Except` monad.

A function that validates its input step by step is a chain of `failIf` checks
and binds.  `bind_eq_ok` and `failIf_eq_ok` take such a chain apart from its result;
`failIf_of_not` performs one passed check.  An encoder and a decoder that check their
input in this way may be inverse to each other (`Inverts`).
-/

namespace Immulog.Lib

variable {ε α β : Type}

/-- Stop with `e` when the input is bad. -/
def failIf (bad : Prop) [Decidable bad] (e : ε) : Except ε Unit :=
  if bad then .error e else .ok ()

@[simp] theorem ok_bind (a : α) (f : α → Except ε β) : (Except.ok a >>= f) = f a :=
  rfl

@[simp] theorem error_bind (e : ε) (f : α → Except ε β) : (Except.error e >>= f) = .error e :=
  rfl

@[simp] theorem throw_eq_error (e : ε) : (throw e : Except ε α) = .error e :=
  rfl

@[simp] theorem pure_eq_ok (a : α) : (pure a : Except ε α) = .ok a :=
  rfl

theorem bind_eq_ok {x : Except ε α} {f : α → Except ε β} {b : β} :
    (x >>= f) = .ok b ↔ ∃ a, x = .ok a ∧ f a = .ok b := by
  cases x <;> simp

theorem map_eq_ok {x : Except ε α} {f : α → β} {b : β} :
    x.map f = .ok b ↔ ∃ a, x = .ok a ∧ f a = b := by
  cases x <;> simp [Except.map]

theorem mapError_eq_ok {x : Except ε α} {f : ε → β} {a : α} :
    x.mapError f = .ok a ↔ x = .ok a := by
  cases x with
  | error e =>
      change Except.error (f e) = .ok a ↔ _
      simp
  | ok b =>
      change Except.ok b = .ok a ↔ _
      simp

theorem failIf_of_not {bad : Prop} [Decidable bad] {e : ε} (good : ¬ bad) :
    failIf bad e = .ok () :=
  if_neg good

theorem failIf_of {bad : Prop} [Decidable bad] {e : ε} (fails : bad) :
    failIf bad e = .error e :=
  if_pos fails

theorem failIf_eq_ok {bad : Prop} [Decidable bad] {e : ε} {u : Unit} :
    failIf bad e = .ok u ↔ ¬ bad := by
  by_cases h : bad <;> simp [failIf, h]

/-- A loop succeeds as before where every turn does. -/
theorem foldlM_ok_mono {ι σ : Type} {f g : σ → ι → Except ε σ}
    (turn : ∀ s x s', f s x = .ok s' → g s x = .ok s') {xs : List ι} {s s' : σ}
    (ok : xs.foldlM f s = .ok s') : xs.foldlM g s = .ok s' := by
  induction xs generalizing s with
  | nil => exact ok
  | cons x xs ih =>
      rw [List.foldlM_cons, bind_eq_ok] at ok
      obtain ⟨mid, first, rest⟩ := ok
      rw [List.foldlM_cons, turn s x mid first]
      exact ih rest

/-- A writer that checks every item and appends its encoding. -/
theorem foldlM_append_eq_ok {ι : Type} {step : List α → ι → Except ε (List α)} (Ok : ι → Prop)
    (enc : ι → List α)
    (each : ∀ data x out, step data x = .ok out ↔ Ok x ∧ out = data ++ enc x)
    {items : List ι} {data out : List α} :
    items.foldlM step data = .ok out ↔
      (∀ x ∈ items, Ok x) ∧ out = data ++ items.flatMap enc := by
  induction items generalizing data with
  | nil => simp [eq_comm]
  | cons x items ih =>
      rw [List.foldlM_cons, bind_eq_ok]
      simp only [each, ih, List.mem_cons, forall_eq_or_imp, List.flatMap_cons]
      constructor
      · rintro ⟨_, ⟨ok, rfl⟩, later, rfl⟩
        exact ⟨⟨ok, later⟩, by simp⟩
      · rintro ⟨⟨ok, later⟩, rfl⟩
        exact ⟨_, ⟨ok, rfl⟩, later, by simp⟩

/-- On `Domain` the decoder is the inverse of the encoder, and it accepts no other bytes. -/
structure Inverts (Domain : α → Prop) (encode : α → Except ε β) (decode : β → Except ε α) :
    Prop where
  decode_encode : ∀ {a b}, Domain a → encode a = .ok b → decode b = .ok a
  encode_decode : ∀ {a b}, decode b = .ok a → Domain a ∧ encode a = .ok b

/-- Two functions that agree on the bytes of a value, and on which values have any. -/
theorem Inverts.of_bytes {encode : α → Except ε β} {decode : β → Except ε α}
    {Domain Writes Valid : α → Prop} (bytes : α → β)
    (encoded : ∀ {a b}, encode a = .ok b ↔ Writes a ∧ b = bytes a)
    (decoded : ∀ {b a}, decode b = .ok a ↔ Valid a ∧ b = bytes a)
    (valid : ∀ {a}, Valid a ↔ Domain a ∧ Writes a) : Inverts Domain encode decode where
  decode_encode inside written := by
    obtain ⟨writes, same⟩ := encoded.1 written
    exact decoded.2 ⟨valid.2 ⟨inside, writes⟩, same⟩
  encode_decode read := by
    obtain ⟨ok, same⟩ := decoded.1 read
    exact ⟨(valid.1 ok).1, encoded.2 ⟨(valid.1 ok).2, same⟩⟩

end Immulog.Lib
