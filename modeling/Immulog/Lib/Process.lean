import Immulog.Lib.Device

/-!
Programs that also change a state in memory.

A `Proc` is a program on a device together with a state of its own; an error leaves
both states as they are at that point, nothing is rolled back.  A world is the pair of
the two states.  `Steps` are the runs in which any operation of the device may fail;
they are computed along `bind` by the lemmas below.  `Within` says that every run stays
inside a relation between the worlds before and after it.
-/

namespace Immulog.Lib

/-- A program with operations `O` on states `S`, a state `σ` in memory, errors in `ε`
and a result in `α`. -/
def Proc (O S ε σ α : Type) : Type :=
  σ → Prog O S ε (Except ε α × σ)

namespace Proc

variable {O S ε σ α β : Type}

/-- Go on with the result, or end with the error. -/
def andThen (f : α → Proc O S ε σ β) : Except ε α × σ → Prog O S ε (Except ε β × σ)
  | (.ok a, memory) => f a memory
  | (.error e, memory) => .done (.ok (.error e, memory))

instance : Monad (Proc O S ε σ) where
  pure a := fun memory => .done (.ok (.ok a, memory))
  bind m f := fun memory => (m memory).bind (andThen f)

/-- Return with an error. -/
def fail (e : ε) : Proc O S ε σ α :=
  fun memory => .done (.ok (.error e, memory))

/-- Lift a computation without effects. -/
def check (r : Except ε α) : Proc O S ε σ α :=
  fun memory => .done (.ok (r, memory))

/-- The state in memory. -/
def read : Proc O S ε σ σ :=
  fun memory => .done (.ok (.ok memory, memory))

/-- Change the state in memory. -/
def update (f : σ → σ) : Proc O S ε σ Unit :=
  fun memory => .done (.ok (.ok (), f memory))

/-- A program on the device. -/
def lift (p : Prog O S ε α) : Proc O S ε σ α :=
  fun memory => p.attempt.bind fun r => .done (.ok (r, memory))

/-- Go on with the error of a program as a value. -/
def attempt (m : Proc O S ε σ α) : Proc O S ε σ (Except ε α) :=
  fun memory => (m memory).bind fun r => .done (.ok (.ok r.1, r.2))

/-! ## Runs -/

section Steps

variable (D : Device O S)

/-- From the world `w` the program may end with `r` in the world `w'`. -/
def Steps (m : Proc O S ε σ α) (w : σ × S) (r : Except ε α) (w' : σ × S) : Prop :=
  Prog.Runs D (m w.1) w.2 (.ok (r, w'.1)) w'.2

variable {D} {w w' : σ × S}

variable (D) in
/-- The result and the world of a run without faults that succeeds. -/
def run? (m : Proc O S ε σ α) (w : σ × S) : Option (α × (σ × S)) :=
  match Prog.run? D (m w.1) w.2 with
  | some ((.ok a, memory), s) => some (a, (memory, s))
  | _ => none

/-- An evaluated run is one of the runs. -/
theorem steps_of_run? {m : Proc O S ε σ α} {a : α} (ran : run? D m w = some (a, w')) :
    Steps D m w (.ok a) w' := by
  unfold run? at ran
  split at ran
  · next found =>
    obtain ⟨rfl, rfl⟩ := Prod.mk.inj (Option.some.inj ran)
    exact .of_run (Prog.run?_eq_some.1 found)
  · cases ran

theorem steps_pure {a : α} {r : Except ε α} :
    Steps D (pure a : Proc O S ε σ α) w r w' ↔ .ok a = r ∧ w = w' := by
  refine Prog.runs_done.trans ?_
  simp only [Except.ok.injEq, Prod.ext_iff, and_assoc, @eq_comm _ r,
    @eq_comm _ w'.1, @eq_comm _ w'.2]

theorem steps_check {r r' : Except ε α} :
    Steps D (check r : Proc O S ε σ α) w r' w' ↔ r = r' ∧ w = w' := by
  refine Prog.runs_done.trans ?_
  simp only [Except.ok.injEq, Prod.ext_iff, and_assoc, @eq_comm _ r',
    @eq_comm _ w'.1, @eq_comm _ w'.2]

theorem steps_fail {e : ε} {r : Except ε α} :
    Steps D (fail e : Proc O S ε σ α) w r w' ↔ .error e = r ∧ w = w' :=
  steps_check

theorem steps_read {r : Except ε σ} :
    Steps D (read : Proc O S ε σ σ) w r w' ↔ .ok w.1 = r ∧ w = w' := by
  refine Prog.runs_done.trans ?_
  simp only [Except.ok.injEq, Prod.ext_iff, and_assoc, @eq_comm _ r,
    @eq_comm _ w'.1, @eq_comm _ w'.2]

theorem steps_update {f : σ → σ} {r : Except ε Unit} :
    Steps D (update f : Proc O S ε σ Unit) w r w' ↔ .ok () = r ∧ (f w.1, w.2) = w' := by
  refine Prog.runs_done.trans ?_
  simp only [Except.ok.injEq, Prod.ext_iff, and_assoc, @eq_comm _ r,
    @eq_comm _ w'.1, @eq_comm _ w'.2]

/-- A program in the memory's world changes the device, with any faults. -/
theorem steps_lift {p : Prog O S ε α} {r : Except ε α} :
    Steps D (lift p : Proc O S ε σ α) w r w' ↔ w'.1 = w.1 ∧ Prog.Runs D p w.2 r w'.2 := by
  refine Prog.runs_bind_ok.trans ?_
  constructor
  · intro found
    obtain ⟨a, mid, ran, ended⟩ := found
    obtain ⟨inner, same, ran⟩ := Prog.runs_attempt.1 ran
    obtain ⟨same', rfl⟩ := Prog.runs_done.1 ended
    cases same
    simp only [Except.ok.injEq, Prod.mk.injEq] at same'
    obtain ⟨rfl, memory⟩ := same'
    exact ⟨memory, ran⟩
  · intro both
    obtain ⟨memory, ran⟩ := both
    refine ⟨r, w'.2, Prog.runs_attempt.2 ⟨r, rfl, ran⟩, ?_⟩
    rw [memory]
    exact .done

/-- The first part ends and the second goes on from there, or the first part fails. -/
theorem steps_bind {m : Proc O S ε σ α} {f : α → Proc O S ε σ β} {r : Except ε β} :
    Steps D (m >>= f) w r w' ↔
      (∃ a mid, Steps D m w (.ok a) mid ∧ Steps D (f a) mid r w') ∨
        ∃ e, r = .error e ∧ Steps D m w (.error e) w' := by
  refine Prog.runs_bind_ok.trans ?_
  constructor
  · intro found
    obtain ⟨⟨first, memory⟩, s, ran, later⟩ := found
    cases first with
    | ok a => exact .inl ⟨a, (memory, s), ran, later⟩
    | error e =>
        obtain ⟨same, same'⟩ := Prog.runs_done.1 later
        cases same
        subst same'
        exact .inr ⟨e, rfl, ran⟩
  · intro either
    rcases either with ⟨a, mid, ran, later⟩ | ⟨e, rfl, ran⟩
    · exact ⟨(.ok a, mid.1), mid.2, ran, later⟩
    · exact ⟨(.error e, w'.1), w'.2, ran, .done⟩

/-- A successful run of a sequence, part by part. -/
theorem steps_bind_ok {m : Proc O S ε σ α} {f : α → Proc O S ε σ β} {b : β} :
    Steps D (m >>= f) w (.ok b) w' ↔
      ∃ a mid, Steps D m w (.ok a) mid ∧ Steps D (f a) mid (.ok b) w' := by
  rw [steps_bind]
  constructor
  · intro either
    rcases either with both | ⟨e, same, _⟩
    · exact both
    · cases same
  · exact .inl

theorem steps_read_bind {f : σ → Proc O S ε σ β} {r : Except ε β} :
    Steps D (read >>= f) w r w' ↔ Steps D (f w.1) w r w' := by
  rw [steps_bind]
  constructor
  · intro either
    rcases either with ⟨s, mid, reading, later⟩ | ⟨e, -, failed⟩
    · obtain ⟨same, rfl⟩ := steps_read.1 reading
      obtain rfl := Except.ok.inj same
      exact later
    · cases (steps_read.1 failed).1
  · intro later
    exact .inl ⟨w.1, w, steps_read.2 ⟨rfl, rfl⟩, later⟩

theorem steps_check_bind {checked : Except ε α} {f : α → Proc O S ε σ β} {r : Except ε β} :
    Steps D (check checked >>= f) w r w' ↔
      (∃ a, checked = .ok a ∧ Steps D (f a) w r w') ∨
        ∃ e, checked = .error e ∧ r = .error e ∧ w = w' := by
  rw [steps_bind]
  constructor
  · intro either
    rcases either with ⟨a, mid, checking, later⟩ | ⟨e, rfl, failed⟩
    · obtain ⟨same, rfl⟩ := steps_check.1 checking
      exact .inl ⟨a, same, later⟩
    · obtain ⟨same, rfl⟩ := steps_check.1 failed
      exact .inr ⟨e, same, rfl, rfl⟩
  · intro either
    rcases either with ⟨a, same, later⟩ | ⟨e, same, rfl, rfl⟩
    · exact .inl ⟨a, w, steps_check.2 ⟨same, rfl⟩, later⟩
    · exact .inr ⟨e, rfl, steps_check.2 ⟨same, rfl⟩⟩

theorem steps_update_bind {g : σ → σ} {f : Unit → Proc O S ε σ β} {r : Except ε β} :
    Steps D (update g >>= f) w r w' ↔ Steps D (f ()) (g w.1, w.2) r w' := by
  rw [steps_bind]
  constructor
  · intro either
    rcases either with ⟨_, mid, updating, later⟩ | ⟨e, -, failed⟩
    · obtain ⟨-, rfl⟩ := steps_update.1 updating
      exact later
    · cases (steps_update.1 failed).1
  · intro later
    exact .inl ⟨(), _, steps_update.2 ⟨rfl, rfl⟩, later⟩

/-- A program, and what follows if it succeeds. -/
theorem steps_lift_bind {p : Prog O S ε α} {f : α → Proc O S ε σ β} {r : Except ε β} :
    Steps D (lift p >>= f) w r w' ↔
      (∃ a s, Prog.Runs D p w.2 (.ok a) s ∧ Steps D (f a) (w.1, s) r w') ∨
        ∃ e s, Prog.Runs D p w.2 (.error e) s ∧ r = .error e ∧ w' = (w.1, s) := by
  rw [steps_bind]
  constructor
  · intro either
    rcases either with ⟨a, mid, lifting, later⟩ | ⟨e, rfl, failed⟩
    · obtain ⟨memory, ran⟩ := steps_lift.1 lifting
      obtain ⟨after, s⟩ := mid
      obtain rfl : after = w.1 := memory
      exact .inl ⟨a, s, ran, later⟩
    · obtain ⟨memory, ran⟩ := steps_lift.1 failed
      exact .inr ⟨e, w'.2, ran, rfl, Prod.ext memory rfl⟩
  · intro either
    rcases either with ⟨a, s, ran, later⟩ | ⟨e, s, ran, rfl, rfl⟩
    · exact .inl ⟨a, (w.1, s), steps_lift.2 ⟨rfl, ran⟩, later⟩
    · exact .inr ⟨e, rfl, steps_lift.2 ⟨rfl, ran⟩⟩

/-- An attempt ends in the result of what it attempts. -/
theorem steps_attempt {m : Proc O S ε σ α} {r : Except ε (Except ε α)} :
    Steps D m.attempt w r w' ↔ ∃ inner, r = .ok inner ∧ Steps D m w inner w' := by
  refine Prog.runs_bind_ok.trans ?_
  constructor
  · intro found
    obtain ⟨⟨inner, memory⟩, s, ran, ended⟩ := found
    obtain ⟨same, same'⟩ := Prog.runs_done.1 ended
    cases same
    subst same'
    exact ⟨inner, rfl, ran⟩
  · intro found
    obtain ⟨inner, rfl, ran⟩ := found
    exact ⟨(inner, w'.1), w'.2, ran, .done⟩

/-- The error of the first program becomes a value. -/
theorem steps_attempt_bind {m : Proc O S ε σ α} {f : Except ε α → Proc O S ε σ β}
    {r : Except ε β} :
    Steps D (m.attempt >>= f) w r w' ↔
      ∃ outcome mid, Steps D m w outcome mid ∧ Steps D (f outcome) mid r w' := by
  rw [steps_bind]
  constructor
  · intro either
    rcases either with ⟨outcome, mid, attempting, later⟩ | ⟨e, -, failed⟩
    · obtain ⟨inner, same, ran⟩ := steps_attempt.1 attempting
      obtain rfl := Except.ok.inj same
      exact ⟨outcome, mid, ran, later⟩
    · obtain ⟨_, wrong, -⟩ := steps_attempt.1 failed
      cases wrong
  · intro found
    obtain ⟨outcome, mid, ran, later⟩ := found
    exact .inl ⟨outcome, mid, steps_attempt.2 ⟨outcome, rfl, ran⟩, later⟩

end Steps

/-! ## Relations that every run respects -/

section Within

/-- Every run from a world to another stays inside the relation. -/
def Within (D : Device O S) (R : σ × S → σ × S → Prop) (m : Proc O S ε σ α) : Prop :=
  ∀ w r w', Steps D m w r w' → R w w'

variable {D : Device O S} {R : σ × S → σ × S → Prop}

/-- A change of the memory keeps to a relation when the function does. -/
theorem within_update {f : σ → σ} (respects : ∀ w, R w (f w.1, w.2)) :
    Within D R (update f : Proc O S ε σ Unit) := by
  intro w r w' steps
  obtain ⟨_, rfl⟩ := steps_update.1 steps
  exact respects w

/-- A program keeps to a relation when all its runs do. -/
theorem within_lift {p : Prog O S ε α}
    (respects : ∀ memory s result s', Prog.Runs D p s result s' → R (memory, s) (memory, s')) :
    Within D R (lift p : Proc O S ε σ α) := by
  intro w r w' steps
  obtain ⟨memory, ran⟩ := steps_lift.1 steps
  obtain ⟨before, s⟩ := w
  obtain ⟨after, s'⟩ := w'
  obtain rfl : after = before := memory
  exact respects after s r s' ran

/-- A relation that steps one after the other respect together. -/
structure Composes (R : σ × S → σ × S → Prop) : Prop where
  refl : ∀ w, R w w
  trans : ∀ {a b c}, R a b → R b c → R a c

namespace Composes

theorem pure (rules : Composes R) {a : α} : Within D R (pure a : Proc O S ε σ α) := by
  intro w r w' steps
  obtain ⟨_, rfl⟩ := steps_pure.1 steps
  exact rules.refl w

theorem check (rules : Composes R) {r : Except ε α} :
    Within D R (check r : Proc O S ε σ α) := by
  intro w r' w' steps
  obtain ⟨_, rfl⟩ := steps_check.1 steps
  exact rules.refl w

theorem fail (rules : Composes R) {e : ε} : Within D R (fail e : Proc O S ε σ α) :=
  rules.check

theorem read (rules : Composes R) : Within D R (read : Proc O S ε σ σ) := by
  intro w r w' steps
  obtain ⟨_, rfl⟩ := steps_read.1 steps
  exact rules.refl w

/-- What both parts keep to, the sequence keeps to. -/
theorem bind (rules : Composes R) {m : Proc O S ε σ α} {f : α → Proc O S ε σ β}
    (first : Within D R m) (later : ∀ a, Within D R (f a)) : Within D R (m >>= f) := by
  intro w r w' steps
  rcases steps_bind.1 steps with ⟨a, mid, ran, rest⟩ | ⟨e, _, ran⟩
  · exact rules.trans (first w _ mid ran) (later a mid r w' rest)
  · exact first w _ w' ran

/-- A failure that is looked at is still a run. -/
theorem attempt {m : Proc O S ε σ α} (inner : Within D R m) : Within D R m.attempt := by
  intro w r w' steps
  obtain ⟨r', _, ran⟩ := steps_attempt.1 steps
  exact inner w r' w' ran

end Composes

end Within

end Proc

end Immulog.Lib
