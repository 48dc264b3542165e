import Immulog.Lib.Cursor

/-!
Which errors a computation can end with.

`FailsWith P x` says that every error of `x` satisfies `P`.  The rules follow the shape
of the computation: a check names its own error, a bind has the errors of both its parts.
-/

namespace Immulog.Lib

variable {ε α β σ : Type} {P : ε → Prop}

/-- Every error of the computation satisfies `P`. -/
def FailsWith (P : ε → Prop) (x : Except ε α) : Prop :=
  ∀ e, x = .error e → P e

namespace FailsWith

theorem ok (a : α) : FailsWith P (.ok a) := by
  intro e failed
  cases failed

theorem error {e : ε} (holds : P e) : FailsWith P (.error e : Except ε α) := by
  intro e' failed
  cases failed
  exact holds

theorem failIf {bad : Prop} [Decidable bad] {e : ε} (holds : P e) :
    FailsWith P (failIf bad e) := by
  by_cases fails : bad
  · rw [failIf_of fails]
    exact error holds
  · rw [failIf_of_not fails]
    exact ok ()

/-- A chain fails with the errors of its parts. -/
theorem bind {x : Except ε α} {f : α → Except ε β} (first : FailsWith P x)
    (later : ∀ a, FailsWith P (f a)) : FailsWith P (x >>= f) := by
  cases x with
  | error e => exact error (first e rfl)
  | ok a => exact later a

/-- A check in front of a computation. -/
theorem check {bad : Prop} [Decidable bad] {e : ε} {x : Except ε α} (holds : P e)
    (later : FailsWith P x) : FailsWith P (Lib.failIf bad e >>= fun _ => x) :=
  (failIf holds).bind fun _ => later

end FailsWith

namespace Cursor

/-- The same for a reader, on whatever it reads. -/
def FailsWith (P : ε → Prop) (d : Cursor ε α) : Prop :=
  ∀ bs, Lib.FailsWith P (d bs)

namespace FailsWith

theorem pure (a : α) : FailsWith P (Pure.pure a : Cursor ε α) :=
  fun _ => .ok _

/-- As for results, a decoder fails with the errors of its parts. -/
theorem bind {d : Cursor ε α} {f : α → Cursor ε β} (first : FailsWith P d)
    (later : ∀ a, FailsWith P (f a)) : FailsWith P (d >>= f) :=
  fun bs => Lib.FailsWith.bind (first bs) fun found => later found.1 found.2

theorem map {d : Cursor ε α} {f : α → β} (fails : FailsWith P d) : FailsWith P (f <$> d) :=
  bind fails fun a => pure (f a)

theorem take {n : Nat} {e : ε} (holds : P e) : FailsWith P (Cursor.take n e) := by
  intro bs
  unfold Cursor.take
  split
  · exact .error holds
  · exact .ok _

theorem ensure {bad : Prop} [Decidable bad] {e : ε} (holds : P e) :
    FailsWith P (Cursor.ensure bad e) := by
  intro bs
  unfold Cursor.ensure
  split
  · exact .error holds
  · exact .ok _

/-- A loop fails with the errors of its step. -/
theorem loop {step : σ → Cursor ε σ} (each : ∀ s, FailsWith P (step s)) (n : Nat) (s : σ) :
    FailsWith P (Cursor.loop step n s) := by
  induction n generalizing s with
  | zero => exact pure s
  | succ n ih => exact bind (each s) fun next => ih next

end FailsWith

end Cursor

end Immulog.Lib
