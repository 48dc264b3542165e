import Immulog.Lib.Cursor

/-!
Computations that change a state in place.

An `InPlace` computation may stop with an error at any point, and what it has
written by then stays written.  `Applies m s r` says that `m` from `s` does what the
pure computation `r` says: on success it leaves `r`'s state, on an error it leaves
`s` as it was.  The rules follow a body that first checks and then writes: a check
or a read may fail and keeps the state, a block of writes cannot fail.
-/

namespace Immulog.Lib

variable {ε σ α β : Type}

/-- A computation on a state that errors do not restore. -/
def InPlace (ε σ α : Type) := σ → Except ε α × σ

namespace InPlace

def bind (m : InPlace ε σ α) (f : α → InPlace ε σ β) : InPlace ε σ β := fun s =>
  match m s with
  | (.ok a, s') => f a s'
  | (.error e, s') => (.error e, s')

instance : Monad (InPlace ε σ) where
  pure a := fun s => (.ok a, s)
  bind := bind

def state : InPlace ε σ σ := fun s => (.ok s, s)

/-- An assignment. -/
def write (f : σ → σ) : InPlace ε σ Unit := fun s => (.ok (), f s)

/-- A computation that does not touch the state. -/
def check (x : Except ε α) : InPlace ε σ α := fun s => (x, s)

/-- The result of a pure computation, and the state that goes with it. -/
def settled (s : σ) : Except ε σ → Except ε Unit × σ
  | .ok s' => (.ok (), s')
  | .error e => (.error e, s)

def Applies (m : InPlace ε σ Unit) (s : σ) (r : Except ε σ) : Prop :=
  m s = settled s r

/-- What fails leaves the state as it was, as long as writes come last. -/
theorem Applies.unchanged {m : InPlace ε σ Unit} {s s' : σ} {r : Except ε σ} {e : ε}
    (applies : Applies m s r) (failed : m s = (.error e, s')) : s' = s := by
  rw [applies] at failed
  cases r with
  | ok t => simp [settled] at failed
  | error e' =>
      simp only [settled, Prod.mk.injEq] at failed
      exact failed.2.symm

/-- Reading the state is no write. -/
theorem applies_state {f : σ → InPlace ε σ Unit} {s : σ} {r : Except ε σ}
    (rest : Applies (f s) s r) : Applies (state >>= f) s r :=
  rest

/-- A check in front of the rest fails before anything is written. -/
theorem applies_check {x : Except ε α} {f : α → InPlace ε σ Unit} {s : σ} {g : α → Except ε σ}
    (rest : ∀ a, Applies (f a) s (g a)) : Applies (check x >>= f) s (x >>= g) := by
  cases x with
  | error e => rfl
  | ok a => exact rest a

/-- A computation that only writes. -/
def Writes (m : InPlace ε σ Unit) (f : σ → σ) : Prop :=
  ∀ s, m s = (.ok (), f s)

/-- Writes behind the last check are what the pure function returns. -/
theorem Writes.applies {m : InPlace ε σ Unit} {f : σ → σ} (writes : Writes m f) (s : σ) :
    Applies m s (.ok (f s)) :=
  writes s

theorem Writes.of_eq {m : InPlace ε σ Unit} {f g : σ → σ} (writes : Writes m f)
    (same : ∀ s, f s = g s) : Writes m g :=
  fun s => (writes s).trans (by rw [same])

theorem writes_write (f : σ → σ) : Writes (write f : InPlace ε σ Unit) f :=
  fun _ => rfl

/-- Writes one after the other. -/
theorem Writes.bind {m : InPlace ε σ Unit} {k : Unit → InPlace ε σ Unit} {f g : σ → σ}
    (first : Writes m f) (second : Writes (k ()) g) : Writes (m >>= k) (g ∘ f) := by
  intro s
  change InPlace.bind m k s = _
  rw [InPlace.bind, first s]
  exact second (f s)

/-- Writes in a loop, as a fold. -/
theorem writes_forM {ι : Type} {m : ι → InPlace ε σ Unit} {f : ι → σ → σ}
    (each : ∀ x, Writes (m x) (f x)) (items : List ι) :
    Writes (items.forM m) fun s => items.foldl (fun s x => f x s) s := by
  induction items with
  | nil => exact fun _ => rfl
  | cons x items ih => exact Writes.bind (k := fun _ => items.forM m) (each x) ih

end InPlace

/-- A reader that may also change a state in place. -/
abbrev Parsing (ε σ α : Type) := StateT Bytes (InPlace ε σ) α

namespace Parsing

def state : Parsing ε σ σ := StateT.lift InPlace.state

def write (f : σ → σ) : Parsing ε σ Unit := StateT.lift (InPlace.write f)

def read (d : Cursor ε α) : Parsing ε σ α := fun bs => InPlace.check (d bs)

/-- Everything `m` does on reading `data`. -/
def readFrom (data : Bytes) (m : Parsing ε σ Unit) : InPlace ε σ Unit := do
  let _ ← m data
  return ()

def Applies (m : Parsing ε σ Unit) (s : σ) (d : Cursor ε σ) : Prop :=
  ∀ bs, InPlace.Applies (m.readFrom bs) s (d.readFrom bs)

theorem applies_state {f : σ → Parsing ε σ Unit} {s : σ} {d : Cursor ε σ}
    (rest : Applies (f s) s d) : Applies (state >>= f) s d :=
  rest

/-- Reading the input is a check: it fails before anything is written. -/
theorem applies_read {d : Cursor ε α} {f : α → Parsing ε σ Unit} {s : σ} {g : α → Cursor ε σ}
    (rest : ∀ a, Applies (f a) s (g a)) : Applies (read d >>= f) s (d >>= g) := by
  intro bs
  have run : (d >>= g).readFrom bs = d bs >>= fun p => (g p.1).readFrom p.2 := by
    cases read : d bs with
    | error e => simp [Cursor.readFrom, bind, StateT.bind, Except.bind, read, Except.map]
    | ok p => simp [Cursor.readFrom, bind, StateT.bind, Except.bind, read]
  rw [run]
  change InPlace.bind (InPlace.bind (InPlace.check (d bs)) _) _ s = _
  cases d bs with
  | error e => rfl
  | ok p => exact rest p.1 p.2

theorem applies_fail {e : ε} {s : σ} : Applies (read (Cursor.fail e)) s (Cursor.fail e) :=
  fun _ => rfl

/-- A block of writes at the end of a reader. -/
theorem applies_writes {m : Parsing ε σ Unit} {s s' : σ}
    (writes : ∀ bs, m bs s = (.ok ((), bs), s')) : Applies m s (pure s') := by
  intro bs
  change InPlace.bind (m bs) _ s = _
  rw [InPlace.bind, writes bs]
  rfl

end Parsing

end Immulog.Lib
