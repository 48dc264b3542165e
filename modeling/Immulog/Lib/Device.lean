import Mathlib.Logic.Basic

/-!
Programs that operate on a device and can be stopped at any instant.

A device has operations that change its state as a whole (`exec`) and states an
operation may leave behind when it does not complete (`cut`).  A `Prog` performs
operations one after the other, looks at the state, and returns a result or an
error.  `run` is the run without faults; `Crash` are the states a stop at any
instant can leave; `Runs` are the results when any operation may fail;
`Performs` are the states right after an operation of a run.  All four are
computed along `bind` by the lemmas below.
-/

namespace Immulog.Lib

/-- Operations `O` on states `S`. -/
structure Device (O S : Type) where
  exec : O → S → Option S
  cut : O → S → S → Prop

/-- A program with operations `O` on states `S`, errors in `ε` and a result in `α`. -/
inductive Prog (O S ε α : Type) where
  | done (result : Except ε α)
  /-- Perform an operation and go on, knowing whether it succeeded. -/
  | op (o : O) (next : Bool → Prog O S ε α)
  | look (next : S → Prog O S ε α)

namespace Prog

variable {O S ε α β : Type}

/-- Sequencing; an error ends the program. -/
protected def bind : Prog O S ε α → (α → Prog O S ε β) → Prog O S ε β
  | .done (.ok a), f => f a
  | .done (.error e), _ => .done (.error e)
  | .op o next, f => .op o fun ok => (next ok).bind f
  | .look next, f => .look fun s => (next s).bind f

instance : Monad (Prog O S ε) where
  pure a := .done (.ok a)
  bind := Prog.bind

/-- Return with an error. -/
def fail (e : ε) : Prog O S ε α :=
  .done (.error e)

/-- Lift a computation without operations. -/
def ofExcept (r : Except ε α) : Prog O S ε α :=
  .done r

/-- Perform `o`; its failure ends the program with `e`. -/
def perform (o : O) (e : ε) : Prog O S ε Unit :=
  .op o fun ok => .done (if ok then .ok () else .error e)

/-- Perform `o` and ignore its failure. -/
def performIgnore (o : O) : Prog O S ε Unit :=
  .op o fun _ => .done (.ok ())

/-- The current state. -/
def get : Prog O S ε S :=
  .look fun s => .done (.ok s)

/-- Go on with the error of a program as a value. -/
def attempt : Prog O S ε α → Prog O S ε (Except ε α)
  | .done result => .done (.ok result)
  | .op o next => .op o fun ok => (next ok).attempt
  | .look next => .look fun s => (next s).attempt

/-! ## Runs without faults -/

section Run

variable (D : Device O S)

def run : Prog O S ε α → S → Except ε α × S
  | .done result, s => (result, s)
  | .op o next, s =>
      match D.exec o s with
      | some s' => (next true).run s'
      | none => (next false).run s
  | .look next, s => (next s).run s

variable {D}

@[simp] theorem run_pure (a : α) (s : S) : run D (pure a : Prog O S ε α) s = (.ok a, s) :=
  rfl

@[simp] theorem run_ofExcept (r : Except ε α) (s : S) :
    run D (ofExcept r : Prog O S ε α) s = (r, s) :=
  rfl

@[simp] theorem run_get (s : S) : run D (get : Prog O S ε S) s = (.ok s, s) :=
  rfl

/-- An operation that the device can perform. -/
theorem run_perform_some {o : O} {e : ε} {s s' : S} (performed : D.exec o s = some s') :
    run D (perform o e) s = (.ok (), s') := by
  simp [perform, run, performed]

/-- The second part starts where the first one ends; an error stops the whole. -/
theorem run_bind (p : Prog O S ε α) (f : α → Prog O S ε β) (s : S) :
    run D (p >>= f) s =
      match run D p s with
      | (.ok a, s') => run D (f a) s'
      | (.error e, s') => (.error e, s') := by
  induction p generalizing s with
  | done result => cases result <;> rfl
  | op o next ih =>
      change run D (.op o fun ok => next ok >>= f) s = _
      cases h : D.exec o s with
      | some s' => simpa [run, h] using ih true s'
      | none => simpa [run, h] using ih false s
  | look next ih => exact ih s s

theorem run_bind_ok {p : Prog O S ε α} {f : α → Prog O S ε β} {s s' : S} {a : α}
    (first : run D p s = (.ok a, s')) : run D (p >>= f) s = run D (f a) s' := by
  rw [run_bind, first]

theorem run_bind_error {p : Prog O S ε α} {f : α → Prog O S ε β} {s s' : S} {e : ε}
    (first : run D p s = (.error e, s')) : run D (p >>= f) s = (.error e, s') := by
  rw [run_bind, first]

/-- A successful run of a sequence, part by part. -/
theorem run_bind_eq_ok {p : Prog O S ε α} {f : α → Prog O S ε β} {s s' : S} {b : β} :
    run D (p >>= f) s = (.ok b, s') ↔
      ∃ a mid, run D p s = (.ok a, mid) ∧ run D (f a) mid = (.ok b, s') := by
  rw [run_bind]
  constructor
  · intro whole
    rcases first : run D p s with ⟨result, mid⟩
    rw [first] at whole
    cases result with
    | ok a => exact ⟨a, mid, rfl, whole⟩
    | error e => simp at whole
  · rintro ⟨a, mid, first, second⟩
    rw [first]
    exact second

/-- An attempt without faults. -/
theorem run_attempt (p : Prog O S ε α) (s : S) :
    run D p.attempt s = (.ok (run D p s).1, (run D p s).2) := by
  induction p generalizing s with
  | done result => rfl
  | op o next ih =>
      cases h : D.exec o s with
      | some s' => simpa [attempt, run, h] using ih true s'
      | none => simpa [attempt, run, h] using ih false s
  | look next ih => exact ih s s

variable (D) in
/-- The result and the state of a run that succeeds. -/
def run? (p : Prog O S ε α) (s : S) : Option (α × S) :=
  match run D p s with
  | (.ok a, s') => some (a, s')
  | (.error _, _) => none

/-- The successful runs, as an option that can be evaluated. -/
theorem run?_eq_some {p : Prog O S ε α} {s s' : S} {a : α} :
    run? D p s = some (a, s') ↔ run D p s = (.ok a, s') := by
  unfold run?
  rcases run D p s with ⟨_ | _, _⟩ <;> simp

end Run

/-! ## States left by a stop at any instant -/

section Crash

variable (D : Device O S)

/-- The program is stopped before an operation, or in the middle of one. -/
inductive Crash : Prog O S ε α → S → S → Prop where
  | now {p : Prog O S ε α} {s : S} : Crash p s s
  | cut {o : O} {next : Bool → Prog O S ε α} {s s' : S} :
      D.cut o s s' → Crash (.op o next) s s'
  | performed {o : O} {next : Bool → Prog O S ε α} {s mid s' : S} :
      D.exec o s = some mid → Crash (next true) mid s' → Crash (.op o next) s s'
  | refused {o : O} {next : Bool → Prog O S ε α} {s s' : S} :
      D.exec o s = none → Crash (next false) s s' → Crash (.op o next) s s'
  | look {next : S → Prog O S ε α} {s s' : S} :
      Crash (next s) s s' → Crash (.look next) s s'

variable {D}

/-- A finished program has nothing left to be stopped in. -/
theorem crash_done {result : Except ε α} {s s' : S} :
    Crash D (.done result : Prog O S ε α) s s' ↔ s' = s := by
  constructor
  · rintro ⟨⟩
    rfl
  · rintro rfl
    exact .now

/-- The end of a run is one of the instants. -/
theorem Crash.atEnd (p : Prog O S ε α) (s : S) : Crash D p s (run D p s).2 := by
  induction p generalizing s with
  | done result => exact .now
  | op o next ih =>
      cases h : D.exec o s with
      | some s' => simpa [run, h] using Crash.performed h (ih true s')
      | none => simpa [run, h] using Crash.refused h (ih false s)
  | look next ih => exact .look (ih s s)

/-- A stop in a sequence is a stop in its first part, or one in its second part
after the first has run. -/
theorem crash_bind {p : Prog O S ε α} {f : α → Prog O S ε β} {s s' : S} :
    Crash D (p >>= f) s s' ↔
      Crash D p s s' ∨ ∃ a mid, run D p s = (.ok a, mid) ∧ Crash D (f a) mid s' := by
  constructor
  · intro crash
    induction p generalizing s with
    | done result =>
        cases result with
        | ok a => exact .inr ⟨a, s, rfl, crash⟩
        | error e => exact .inl (crash_done.2 (crash_done.1 crash))
    | op o next ih =>
        change Crash D (.op o fun ok => next ok >>= f) s s' at crash
        cases crash with
        | now => exact .inl .now
        | cut torn => exact .inl (.cut torn)
        | @performed _ _ _ mid _ done later =>
            rcases ih true later with first | ⟨a, mid', ran, second⟩
            · exact .inl (.performed done first)
            · exact .inr ⟨a, mid', by simpa [run, done] using ran, second⟩
        | refused none later =>
            rcases ih false later with first | ⟨a, mid', ran, second⟩
            · exact .inl (.refused none first)
            · exact .inr ⟨a, mid', by simpa [run, none] using ran, second⟩
    | look next ih =>
        change Crash D (.look fun s => next s >>= f) s s' at crash
        cases crash with
        | now => exact .inl .now
        | look later =>
            rcases ih s later with first | second
            · exact .inl (.look first)
            · exact .inr second
  · intro either
    induction p generalizing s with
    | done result =>
        rcases either with first | ⟨a, mid, ran, second⟩
        · obtain rfl := crash_done.1 first
          exact .now
        · cases ran
          exact second
    | op o next ih =>
        change Crash D (.op o fun ok => next ok >>= f) s s'
        rcases either with first | ⟨a, mid, ran, second⟩
        · cases first with
          | now => exact .now
          | cut torn => exact .cut torn
          | performed done later => exact .performed done (ih true (.inl later))
          | refused none later => exact .refused none (ih false (.inl later))
        · cases h : D.exec o s with
          | some mid' =>
              exact .performed h (ih true (.inr ⟨a, mid, by simpa [run, h] using ran, second⟩))
          | none => exact .refused h (ih false (.inr ⟨a, mid, by simpa [run, h] using ran, second⟩))
    | look next ih =>
        change Crash D (.look fun s => next s >>= f) s s'
        rcases either with first | second
        · cases first with
          | now => exact .now
          | look later => exact .look (ih s (.inl later))
        · exact .look (ih s (.inr second))

/-- A stop in a sequence whose second part changes nothing is a stop in its first part. -/
theorem Crash.first {p : Prog O S ε α} {f : α → Prog O S ε β} {s s' : S}
    (stop : Crash D (p >>= f) s s')
    (quiet : ∀ a mid s', Crash D (f a) mid s' → s' = mid) : Crash D p s s' := by
  rcases crash_bind.1 stop with first | ⟨a, mid, ran, later⟩
  · exact first
  · have ends := Crash.atEnd (D := D) p s
    rw [ran] at ends
    rwa [quiet a mid s' later]

/-- A stop does not ask whether the failure would have been looked at. -/
theorem crash_attempt {p : Prog O S ε α} {s s' : S} :
    Crash D p.attempt s s' ↔ Crash D p s s' := by
  induction p generalizing s with
  | done result => rw [attempt, crash_done, crash_done]
  | op o next ih =>
      constructor <;> intro crash
      · cases crash with
        | now => exact .now
        | cut torn => exact .cut torn
        | performed done later => exact .performed done ((ih true).1 later)
        | refused none later => exact .refused none ((ih false).1 later)
      · cases crash with
        | now => exact .now
        | cut torn => exact .cut torn
        | performed done later => exact .performed done ((ih true).2 later)
        | refused none later => exact .refused none ((ih false).2 later)
  | look next ih =>
      constructor <;> intro crash
      · cases crash with
        | now => exact .now
        | look later => exact .look ((ih s).1 later)
      · cases crash with
        | now => exact .now
        | look later => exact .look ((ih s).2 later)

theorem crash_get {s s' : S} (stop : Crash D (get : Prog O S ε S) s s') : s' = s := by
  cases stop with
  | now => rfl
  | look later => exact crash_done.1 later

/-- A stop is in front of the operation, in the middle of it or behind it. -/
theorem crash_perform {o : O} {e : ε} {s s' : S} :
    Crash D (perform o e) s s' ↔ s' = s ∨ D.cut o s s' ∨ D.exec o s = some s' := by
  constructor
  · intro crash
    cases crash with
    | now => exact .inl rfl
    | cut torn => exact .inr (.inl torn)
    | performed done later => exact .inr (.inr (crash_done.1 later ▸ done))
    | refused none later => exact .inl (crash_done.1 later)
  · rintro (rfl | torn | done)
    · exact .now
    · exact .cut torn
    · exact .performed done .now

end Crash

/-! ## Runs in which operations may fail -/

section Faults

variable (D : Device O S)

/-- Results of runs in which any operation may fail, before or in the middle. -/
inductive Runs : Prog O S ε α → S → Except ε α → S → Prop where
  | done {result : Except ε α} {s : S} : Runs (.done result) s result s
  | fault {o : O} {next : Bool → Prog O S ε α} {s mid s' : S} {result : Except ε α} :
      mid = s ∨ D.cut o s mid → Runs (next false) mid result s' → Runs (.op o next) s result s'
  | performed {o : O} {next : Bool → Prog O S ε α} {s mid s' : S} {result : Except ε α} :
      D.exec o s = some mid → Runs (next true) mid result s' → Runs (.op o next) s result s'
  | look {next : S → Prog O S ε α} {s s' : S} {result : Except ε α} :
      Runs (next s) s result s' → Runs (.look next) s result s'

variable {D}

theorem runs_done {result result' : Except ε α} {s s' : S} :
    Runs D (.done result : Prog O S ε α) s result' s' ↔ result' = result ∧ s' = s := by
  constructor
  · rintro ⟨⟩
    exact ⟨rfl, rfl⟩
  · rintro ⟨rfl, rfl⟩
    exact .done

/-- The run without faults is one of the runs. -/
theorem Runs.faultFree (p : Prog O S ε α) (s : S) : Runs D p s (run D p s).1 (run D p s).2 := by
  induction p generalizing s with
  | done result => exact .done
  | op o next ih =>
      cases h : D.exec o s with
      | some s' => simpa [run, h] using Runs.performed h (ih true s')
      | none => simpa [run, h] using Runs.fault (.inl rfl) (ih false s)
  | look next ih => exact .look (ih s s)

/-- The run without faults is one of the runs. -/
theorem Runs.of_run {p : Prog O S ε α} {s s' : S} {result : Except ε α}
    (ran : run D p s = (result, s')) : Runs D p s result s' := by
  have runs := Runs.faultFree (D := D) p s
  rwa [ran] at runs

/-- Runs of a sequence: both parts end, or the first one fails. -/
theorem runs_bind {p : Prog O S ε α} {f : α → Prog O S ε β} {s s' : S} {result : Except ε β} :
    Runs D (p >>= f) s result s' ↔
      (∃ a mid, Runs D p s (.ok a) mid ∧ Runs D (f a) mid result s') ∨
        ∃ e, result = .error e ∧ Runs D p s (.error e) s' := by
  constructor
  · intro runs
    induction p generalizing s with
    | done first =>
        cases first with
        | ok a => exact .inl ⟨a, s, .done, runs⟩
        | error e =>
            obtain ⟨rfl, rfl⟩ := runs_done.1 runs
            exact .inr ⟨e, rfl, .done⟩
    | op o next ih =>
        change Runs D (.op o fun ok => next ok >>= f) s result s' at runs
        cases runs with
        | fault torn later =>
            rcases ih false later with ⟨a, mid, first, second⟩ | ⟨e, same, first⟩
            · exact .inl ⟨a, mid, .fault torn first, second⟩
            · exact .inr ⟨e, same, .fault torn first⟩
        | performed done later =>
            rcases ih true later with ⟨a, mid, first, second⟩ | ⟨e, same, first⟩
            · exact .inl ⟨a, mid, .performed done first, second⟩
            · exact .inr ⟨e, same, .performed done first⟩
    | look next ih =>
        change Runs D (.look fun s => next s >>= f) s result s' at runs
        cases runs with
        | look later =>
            rcases ih s later with ⟨a, mid, first, second⟩ | ⟨e, same, first⟩
            · exact .inl ⟨a, mid, .look first, second⟩
            · exact .inr ⟨e, same, .look first⟩
  · intro either
    induction p generalizing s with
    | done first =>
        rcases either with ⟨a, mid, ran, second⟩ | ⟨e, rfl, ran⟩
        · obtain ⟨same, rfl⟩ := runs_done.1 ran
          subst same
          exact second
        · obtain ⟨same, rfl⟩ := runs_done.1 ran
          subst same
          exact .done
    | op o next ih =>
        change Runs D (.op o fun ok => next ok >>= f) s result s'
        rcases either with ⟨a, mid, ran, second⟩ | ⟨e, same, ran⟩
        · cases ran with
          | fault torn later => exact .fault torn (ih false (.inl ⟨a, mid, later, second⟩))
          | performed done later => exact .performed done (ih true (.inl ⟨a, mid, later, second⟩))
        · cases ran with
          | fault torn later => exact .fault torn (ih false (.inr ⟨e, same, later⟩))
          | performed done later => exact .performed done (ih true (.inr ⟨e, same, later⟩))
    | look next ih =>
        change Runs D (.look fun s => next s >>= f) s result s'
        rcases either with ⟨a, mid, ran, second⟩ | ⟨e, same, ran⟩
        · cases ran with
          | look later => exact .look (ih s (.inl ⟨a, mid, later, second⟩))
        · cases ran with
          | look later => exact .look (ih s (.inr ⟨e, same, later⟩))

/-- An operation is performed, or it fails with nothing or some of it done. -/
theorem runs_perform {o : O} {e : ε} {s s' : S} {result : Except ε Unit} :
    Runs D (perform o e) s result s' ↔
      (result = .ok () ∧ D.exec o s = some s') ∨
        (result = .error e ∧ (s' = s ∨ D.cut o s s')) := by
  constructor
  · intro runs
    cases runs with
    | fault torn later =>
        obtain ⟨rfl, rfl⟩ := runs_done.1 later
        exact .inr ⟨rfl, torn⟩
    | performed done later =>
        obtain ⟨rfl, rfl⟩ := runs_done.1 later
        exact .inl ⟨rfl, done⟩
  · rintro (⟨rfl, done⟩ | ⟨rfl, torn⟩)
    · exact .performed done .done
    · exact .fault torn .done

theorem runs_ofExcept {r result : Except ε α} {s s' : S} :
    Runs D (ofExcept r : Prog O S ε α) s result s' ↔ r = result ∧ s = s' := by
  rw [eq_comm, @eq_comm _ s]
  exact runs_done

theorem runs_get {s s' : S} {result : Except ε S} :
    Runs D (get : Prog O S ε S) s result s' ↔ .ok s = result ∧ s = s' := by
  rw [@eq_comm _ s, @eq_comm _ (Except.ok s)]
  constructor
  · intro runs
    cases runs with
    | look later => exact runs_done.1 later
  · intro same
    exact .look (runs_done.2 same)

/-- A successful run of a sequence, part by part. -/
theorem runs_bind_ok {p : Prog O S ε α} {f : α → Prog O S ε β} {s s' : S} {b : β} :
    Runs D (p >>= f) s (.ok b) s' ↔
      ∃ a mid, Runs D p s (.ok a) mid ∧ Runs D (f a) mid (.ok b) s' := by
  rw [runs_bind]
  constructor
  · intro either
    rcases either with both | ⟨e, same, _⟩
    · exact both
    · cases same
  · exact .inl

/-- An attempt never fails. -/
theorem runs_attempt {p : Prog O S ε α} {s s' : S} {result : Except ε (Except ε α)} :
    Runs D p.attempt s result s' ↔ ∃ inner, result = .ok inner ∧ Runs D p s inner s' := by
  constructor
  · intro runs
    induction p generalizing s with
    | done inner =>
        obtain ⟨rfl, rfl⟩ := runs_done.1 runs
        exact ⟨inner, rfl, .done⟩
    | op o next ih =>
        cases runs with
        | fault torn later =>
            obtain ⟨inner, same, ran⟩ := ih false later
            exact ⟨inner, same, .fault torn ran⟩
        | performed done later =>
            obtain ⟨inner, same, ran⟩ := ih true later
            exact ⟨inner, same, .performed done ran⟩
    | look next ih =>
        cases runs with
        | look later =>
            obtain ⟨inner, same, ran⟩ := ih s later
            exact ⟨inner, same, .look ran⟩
  · intro found
    obtain ⟨inner, rfl, ran⟩ := found
    induction p generalizing s with
    | done first =>
        obtain ⟨rfl, rfl⟩ := runs_done.1 ran
        exact .done
    | op o next ih =>
        cases ran with
        | fault torn later => exact .fault torn (ih false later)
        | performed done later => exact .performed done (ih true later)
    | look next ih =>
        cases ran with
        | look later => exact .look (ih s later)

end Faults

/-! ## Programs that use some operations only -/

section Only

/-- Every operation the program may perform satisfies `P`. -/
def Only (P : O → Prop) : Prog O S ε α → Prop
  | .done _ => True
  | .op o next => P o ∧ ∀ ok, (next ok).Only P
  | .look next => ∀ s, (next s).Only P

variable {P : O → Prop}

/-- Fewer operations than allowed are allowed. -/
theorem Only.mono {Q : O → Prop} {p : Prog O S ε α} (only : p.Only P) (weaker : ∀ o, P o → Q o) :
    p.Only Q := by
  induction p with
  | done result => trivial
  | op o next ih => exact ⟨weaker o only.1, fun ok => ih ok (only.2 ok)⟩
  | look next ih => exact fun s => ih s (only s)

/-- A sequence performs the operations of its parts. -/
theorem Only.bind {p : Prog O S ε α} {f : α → Prog O S ε β} (first : p.Only P)
    (later : ∀ a, (f a).Only P) : (p >>= f).Only P := by
  induction p with
  | done result =>
      cases result with
      | ok a => exact later a
      | error e => trivial
  | op o next ih => exact ⟨first.1, fun ok => ih ok (first.2 ok)⟩
  | look next ih => exact fun s => ih s (first s)

theorem Only.attempt {p : Prog O S ε α} (only : p.Only P) : p.attempt.Only P := by
  induction p with
  | done result => trivial
  | op o next ih => exact ⟨only.1, fun ok => ih ok (only.2 ok)⟩
  | look next ih => exact fun s => ih s (only s)

theorem only_pure {a : α} : (pure a : Prog O S ε α).Only P :=
  trivial

theorem only_ofExcept {r : Except ε α} : (ofExcept r : Prog O S ε α).Only P :=
  trivial

theorem only_get : (get : Prog O S ε S).Only P :=
  fun _ => trivial

theorem only_perform {o : O} {e : ε} (allowed : P o) : (perform o e : Prog O S ε Unit).Only P :=
  ⟨allowed, fun _ => trivial⟩

theorem only_performIgnore {o : O} (allowed : P o) :
    (performIgnore o : Prog O S ε Unit).Only P :=
  ⟨allowed, fun _ => trivial⟩

variable {D : Device O S} {R : S → S → Prop}

/-- What every allowed operation keeps, a stop at any instant keeps. -/
theorem Only.crash {p : Prog O S ε α} (only : p.Only P)
    (refl : ∀ s, R s s) (trans : ∀ a b c, R a b → R b c → R a c)
    (exec : ∀ o s s', P o → D.exec o s = some s' → R s s')
    (cut : ∀ o s s', P o → D.cut o s s' → R s s') {s s' : S} (stop : Crash D p s s') : R s s' := by
  induction stop with
  | now => exact refl _
  | cut torn => exact cut _ _ _ only.1 torn
  | performed done _ ih => exact trans _ _ _ (exec _ _ _ only.1 done) (ih (only.2 true))
  | refused _ _ ih => exact ih (only.2 false)
  | look _ ih => exact ih (only _)

/-- What every allowed operation keeps, a run with faults keeps. -/
theorem Only.runs {p : Prog O S ε α} (only : p.Only P)
    (refl : ∀ s, R s s) (trans : ∀ a b c, R a b → R b c → R a c)
    (exec : ∀ o s s', P o → D.exec o s = some s' → R s s')
    (cut : ∀ o s s', P o → D.cut o s s' → R s s') {s s' : S} {result : Except ε α}
    (ran : Runs D p s result s') : R s s' := by
  induction ran with
  | done => exact refl _
  | fault torn _ ih =>
      rcases torn with rfl | torn
      · exact ih (only.2 false)
      · exact trans _ _ _ (cut _ _ _ only.1 torn) (ih (only.2 false))
  | performed done _ ih => exact trans _ _ _ (exec _ _ _ only.1 done) (ih (only.2 true))
  | look _ ih => exact ih (only _)

/-- What every allowed operation keeps, the whole run keeps. -/
theorem Only.run {p : Prog O S ε α} (only : p.Only P)
    (refl : ∀ s, R s s) (trans : ∀ a b c, R a b → R b c → R a c)
    (exec : ∀ o s s', P o → D.exec o s = some s' → R s s') (s : S) : R s (run D p s).2 := by
  induction p generalizing s with
  | done result => exact refl s
  | op o next ih =>
      cases h : D.exec o s with
      | some s' =>
          have first := exec o s s' only.1 h
          simpa [Prog.run, h] using trans _ _ _ first (ih true (only.2 true) s')
      | none => simpa [Prog.run, h] using ih false (only.2 false) s
  | look next ih => exact ih s (only s) s

end Only

end Prog

end Immulog.Lib
