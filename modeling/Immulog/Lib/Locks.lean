import Mathlib.Logic.Relation
import Mathlib.Data.List.Basic
import Mathlib.Order.Basic

/-!
Reader/writer locks shared by any number of calls.

A call is a structured program of critical sections (`Locks.Prog`); its traces
are the sequences of acquire and release actions it can perform.  A machine
state records, per call, the actions still to be performed, the locks held and
whether an exclusive request has been announced.  An announced request stops new
shared grants, as a writer-preferring reader/writer mutex does.

Two rules are derived for every set of calls.  `Locks.noWaitCycle_of_rank`: if
every nested section goes strictly up in some rank, no reachable state has a
wait cycle.  `Locks.exists_waitCycle_of_inversion`: if one call nests `b` inside
`a` and another `a` inside `b`, a wait cycle is reachable.
-/

namespace Immulog.Lib.Locks

/-! ## Programs of critical sections and their traces -/

/-- How a lock is taken. -/
inductive Mode where
  | shared
  | exclusive
  deriving DecidableEq, Repr

/-- One step of a call on a lock. -/
inductive Action (L : Type*) where
  | acquire (lock : L) (mode : Mode)
  | release (lock : L) (mode : Mode)
  deriving DecidableEq, Repr

/-- Structured locking: every section releases what it acquired, also when the
call leaves it early. -/
inductive Prog (L : Type*) where
  | skip
  /-- Leave the enclosing `scope`, releasing the sections on the way out. -/
  | exit
  | critical (lock : L) (mode : Mode) (body : Prog L)
  | seq (first second : Prog L)
  | choose (left right : Prog L)
  | scope (body : Prog L)
  deriving DecidableEq, Repr

namespace Prog

variable {L : Type*}

/-- A check that may end the call here. -/
def check : Prog L :=
  .choose .skip .exit

/-- A part that is performed or not. -/
def opt (body : Prog L) : Prog L :=
  .choose .skip body

/-- One program after the other for every element of a list. -/
def forEach {α : Type*} (xs : List α) (body : α → Prog L) : Prog L :=
  xs.foldr (fun x rest => .seq (body x) rest) .skip

/-- The traces of a program; the flag says whether it was left early. -/
inductive Trace : Prog L → List (Action L) → Bool → Prop where
  | skip : Trace .skip [] false
  | exit : Trace .exit [] true
  | critical {lock : L} {mode : Mode} {body : Prog L} {t : List (Action L)} {left : Bool} :
      Trace body t left →
        Trace (.critical lock mode body)
          (.acquire lock mode :: (t ++ [.release lock mode])) left
  | seq {p q : Prog L} {t u : List (Action L)} {left : Bool} :
      Trace p t false → Trace q u left → Trace (.seq p q) (t ++ u) left
  | seqExit {p q : Prog L} {t : List (Action L)} :
      Trace p t true → Trace (.seq p q) t true
  | left {p q : Prog L} {t : List (Action L)} {left : Bool} :
      Trace p t left → Trace (.choose p q) t left
  | right {p q : Prog L} {t : List (Action L)} {left : Bool} :
      Trace q t left → Trace (.choose p q) t left
  | scope {p : Prog L} {t : List (Action L)} {left : Bool} :
      Trace p t left → Trace (.scope p) t false

theorem exists_trace (p : Prog L) : ∃ t left, Trace p t left := by
  induction p with
  | skip => exact ⟨_, _, .skip⟩
  | exit => exact ⟨_, _, .exit⟩
  | critical lock mode body ih =>
      obtain ⟨t, left, ht⟩ := ih
      exact ⟨_, _, .critical ht⟩
  | seq p q ihp ihq =>
      obtain ⟨t, left, ht⟩ := ihp
      obtain ⟨u, left', hu⟩ := ihq
      cases left with
      | false => exact ⟨_, _, .seq ht hu⟩
      | true => exact ⟨_, _, .seqExit ht⟩
  | choose p q ihp _ =>
      obtain ⟨t, left, ht⟩ := ihp
      exact ⟨_, _, .left ht⟩
  | scope p ih =>
      obtain ⟨t, left, ht⟩ := ih
      exact ⟨_, _, .scope ht⟩

/-- A section on `lock` occurs in the program. -/
def Uses (lock : L) : Prog L → Prop
  | .skip | .exit => False
  | .critical l _ body => l = lock ∨ body.Uses lock
  | .seq p q | .choose p q => p.Uses lock ∨ q.Uses lock
  | .scope p => p.Uses lock

/-- A section on `inner` occurs inside a section on `outer`. -/
def Nests (outer inner : L) : Prog L → Prop
  | .skip | .exit => False
  | .critical l _ body => l = outer ∧ body.Uses inner ∨ body.Nests outer inner
  | .seq p q | .choose p q => p.Nests outer inner ∨ q.Nests outer inner
  | .scope p => p.Nests outer inner

@[simp] theorem uses_check {lock : L} : ¬ (check : Prog L).Uses lock := by
  simp [check, Uses]

@[simp] theorem nests_check {outer inner : L} : ¬ (check : Prog L).Nests outer inner := by
  simp [check, Nests]

@[simp] theorem uses_opt {lock : L} {p : Prog L} : (opt p).Uses lock ↔ p.Uses lock := by
  simp [opt, Uses]

@[simp] theorem nests_opt {outer inner : L} {p : Prog L} :
    (opt p).Nests outer inner ↔ p.Nests outer inner := by
  simp [opt, Nests]

@[simp] theorem uses_forEach {α : Type*} {lock : L} {xs : List α} {body : α → Prog L} :
    (forEach xs body).Uses lock ↔ ∃ x ∈ xs, (body x).Uses lock := by
  induction xs with
  | nil => simp [forEach, Uses]
  | cons x xs ih => simpa [forEach, Uses] using or_congr_right ih

@[simp] theorem nests_forEach {α : Type*} {outer inner : L} {xs : List α}
    {body : α → Prog L} :
    (forEach xs body).Nests outer inner ↔ ∃ x ∈ xs, (body x).Nests outer inner := by
  induction xs with
  | nil => simp [forEach, Nests]
  | cons x xs ih => simpa [forEach, Nests] using or_congr_right ih

theorem Trace.check_pass : Trace (check : Prog L) [] false :=
  .left .skip

theorem Trace.uses {p : Prog L} {t : List (Action L)} {left : Bool} (run : p.Trace t left)
    {lock : L} {mode : Mode} (acquired : .acquire lock mode ∈ t) : p.Uses lock := by
  induction run with
  | skip | exit => simp at acquired
  | critical _ ih =>
      simp only [List.mem_cons, List.mem_append, Action.acquire.injEq, reduceCtorEq,
        List.not_mem_nil, or_false] at acquired
      rcases acquired with ⟨rfl, _⟩ | acquired
      · exact .inl rfl
      · exact .inr (ih acquired)
  | seq _ _ ihp ihq => exact (List.mem_append.1 acquired).imp ihp ihq
  | seqExit _ ih | left _ ih => exact .inl (ih acquired)
  | right _ ih => exact .inr (ih acquired)
  | scope _ ih => exact ih acquired

/-- `p.Enters pre lock mode body`: after the actions `pre` the program stands
before an outermost section on `lock`. -/
inductive Enters : Prog L → List (Action L) → L → Mode → Prog L → Prop where
  | here {lock : L} {mode : Mode} {body : Prog L} :
      Enters (.critical lock mode body) [] lock mode body
  | first {p q body : Prog L} {lock : L} {mode : Mode} {pre : List (Action L)} :
      Enters p pre lock mode body → Enters (.seq p q) pre lock mode body
  | second {p q body : Prog L} {lock : L} {mode : Mode} {t pre : List (Action L)} :
      Trace p t false → Enters q pre lock mode body →
        Enters (.seq p q) (t ++ pre) lock mode body
  | left {p q body : Prog L} {lock : L} {mode : Mode} {pre : List (Action L)} :
      Enters p pre lock mode body → Enters (.choose p q) pre lock mode body
  | right {p q body : Prog L} {lock : L} {mode : Mode} {pre : List (Action L)} :
      Enters q pre lock mode body → Enters (.choose p q) pre lock mode body
  | scope {p body : Prog L} {lock : L} {mode : Mode} {pre : List (Action L)} :
      Enters p pre lock mode body → Enters (.scope p) pre lock mode body

/-- Past a check that does not end the call. -/
theorem Enters.afterCheck {q body : Prog L} {lock : L} {mode : Mode} {pre : List (Action L)}
    (entered : Enters q pre lock mode body) :
    Enters (.seq check q) pre lock mode body :=
  .second .check_pass entered

/-- A loop whose steps all have a normal trace of acceptable actions has one. -/
theorem exists_trace_forEach {α : Type*} (Good : Action L → Prop) {xs : List α}
    {body : α → Prog L}
    (each : ∀ x ∈ xs, ∃ t, (body x).Trace t false ∧ ∀ a ∈ t, Good a) :
    ∃ t, (forEach xs body).Trace t false ∧ ∀ a ∈ t, Good a := by
  induction xs with
  | nil => exact ⟨[], .skip, by simp⟩
  | cons x xs ih =>
      obtain ⟨t, run, good⟩ := each x (by simp)
      obtain ⟨u, run', good'⟩ := ih fun y hy => each y (by simp [hy])
      refine ⟨t ++ u, .seq run run', fun a ha => ?_⟩
      exact (List.mem_append.1 ha).elim (good a) (good' a)

/-- The loop reaches the section of its element `x` once the earlier elements are
done. -/
theorem Enters.forEach {α : Type*} {done : List α} (rest : List α) {x : α} {step : α → Prog L}
    {body : Prog L} {lock : L} {mode : Mode} {t pre : List (Action L)}
    (run : Trace (forEach done step) t false)
    (entered : Enters (step x) pre lock mode body) :
    Enters (Prog.forEach (done ++ x :: rest) step) (t ++ pre) lock mode body := by
  induction done generalizing t with
  | nil =>
      cases run
      exact .first entered
  | cons y done ih =>
      cases run with
      | seq head tail =>
          rw [List.append_assoc]
          exact .second head (ih tail)

/-- Entering a section and running its body is part of a trace of the program. -/
theorem Enters.exists_trace {p body : Prog L} {lock : L} {mode : Mode}
    {pre t : List (Action L)} {left : Bool}
    (entered : Enters p pre lock mode body) (run : Trace body t left) :
    ∃ post left', Trace p
      (pre ++ .acquire lock mode :: (t ++ .release lock mode :: post)) left' := by
  induction entered with
  | here => exact ⟨[], left, by simpa using Trace.critical run⟩
  | @first p q _ _ _ _ _ ih =>
      obtain ⟨post, left', done⟩ := ih run
      obtain ⟨u, left'', tail⟩ := q.exists_trace
      cases left' with
      | false => exact ⟨post ++ u, left'', by simpa using Trace.seq done tail⟩
      | true => exact ⟨post, true, .seqExit done⟩
  | second head _ ih =>
      obtain ⟨post, left', done⟩ := ih run
      exact ⟨post, left', by simpa using Trace.seq head done⟩
  | left _ ih =>
      obtain ⟨post, left', done⟩ := ih run
      exact ⟨post, left', .left done⟩
  | right _ ih =>
      obtain ⟨post, left', done⟩ := ih run
      exact ⟨post, left', .right done⟩
  | scope _ ih =>
      obtain ⟨post, left', done⟩ := ih run
      exact ⟨post, false, .scope done⟩

theorem Enters.uses_pre {p body : Prog L} {lock : L} {mode : Mode} {pre : List (Action L)}
    (entered : Enters p pre lock mode body) {other : L} {mode' : Mode}
    (acquired : .acquire other mode' ∈ pre) : p.Uses other := by
  induction entered with
  | here => simp at acquired
  | first _ ih | left _ ih => exact .inl (ih acquired)
  | second run _ ih => exact (List.mem_append.1 acquired).imp run.uses ih
  | right _ ih => exact .inr (ih acquired)
  | scope _ ih => exact ih acquired

theorem Enters.nests {p body : Prog L} {lock inner : L} {mode : Mode}
    {pre : List (Action L)} (entered : Enters p pre lock mode body)
    (used : body.Uses inner) : p.Nests lock inner := by
  induction entered with
  | here => exact .inl ⟨rfl, used⟩
  | first _ ih | left _ ih => exact .inl (ih used)
  | second _ _ ih | right _ ih => exact .inr (ih used)
  | scope _ ih => exact ih used

theorem Enters.nests_body {p body : Prog L} {lock outer inner : L} {mode : Mode}
    {pre : List (Action L)} (entered : Enters p pre lock mode body)
    (nested : body.Nests outer inner) : p.Nests outer inner := by
  induction entered with
  | here => exact .inr nested
  | first _ ih | left _ ih => exact .inl (ih nested)
  | second _ _ ih | right _ ih => exact .inr (ih nested)
  | scope _ ih => exact ih nested

end Prog

/-! ## The lock machine -/

/-- Per call: what it still has to do, what it holds, and whether its pending
exclusive request has been announced. -/
structure State (ι L : Type*) where
  rest : ι → List (Action L)
  held : ι → List (L × Mode)
  announced : ι → Bool

namespace State

variable {ι L : Type*}

/-- Call `i` has announced an exclusive request for `lock`. -/
def Announces (s : State ι L) (i : ι) (lock : L) : Prop :=
  s.announced i = true ∧ ∃ rest, s.rest i = .acquire lock .exclusive :: rest

/-- `lock` can be granted in this mode now. -/
def Grantable (s : State ι L) (lock : L) : Mode → Prop
  | .shared => ∀ j, (lock, .exclusive) ∉ s.held j ∧ ¬ s.Announces j lock
  | .exclusive => ∀ j mode, (lock, mode) ∉ s.held j

/-- Call `i` cannot proceed because of a lock that call `j` holds. -/
def WaitsFor (s : State ι L) (i j : ι) : Prop :=
  ∃ lock mode rest, s.rest i = .acquire lock mode :: rest ∧
    ¬ s.Grantable lock mode ∧ ∃ other, (lock, other) ∈ s.held j

/-- A cycle of calls each waiting for a lock held by the next. -/
def WaitCycle (s : State ι L) : Prop :=
  ∃ i, Relation.TransGen s.WaitsFor i i

end State

section Machine

variable {ι L : Type*} [DecidableEq ι] [DecidableEq L]

/-- One step of one call. -/
inductive Step : State ι L → State ι L → Prop where
  | announce {s : State ι L} {i : ι} {lock : L} {rest : List (Action L)} :
      s.rest i = .acquire lock .exclusive :: rest →
      Step s { s with announced := Function.update s.announced i true }
  | shared {s : State ι L} {i : ι} {lock : L} {rest : List (Action L)} :
      s.rest i = .acquire lock .shared :: rest →
      s.Grantable lock .shared →
      Step s { s with
        rest := Function.update s.rest i rest
        held := Function.update s.held i ((lock, .shared) :: s.held i) }
  | exclusive {s : State ι L} {i : ι} {lock : L} {rest : List (Action L)} :
      s.rest i = .acquire lock .exclusive :: rest →
      s.announced i = true →
      s.Grantable lock .exclusive →
      Step s
        { rest := Function.update s.rest i rest
          held := Function.update s.held i ((lock, .exclusive) :: s.held i)
          announced := Function.update s.announced i false }
  | release {s : State ι L} {i : ι} {lock : L} {mode : Mode} {rest : List (Action L)} :
      s.rest i = .release lock mode :: rest →
      Step s { s with
        rest := Function.update s.rest i rest
        held := Function.update s.held i ((s.held i).erase (lock, mode)) }

/-- Every call stands at the start of one of its traces and holds nothing. -/
structure Initial (progs : ι → Prog L) (s : State ι L) : Prop where
  traces : ∀ i, ∃ left, (progs i).Trace (s.rest i) left
  empty : ∀ i, s.held i = []
  quiet : ∀ i, s.announced i = false

/-- Some interleaving of the calls leads to `s`. -/
def Reachable (progs : ι → Prog L) (s : State ι L) : Prop :=
  ∃ start, Initial progs start ∧ Relation.ReflTransGen Step start s

/-! ## Ranked locks exclude wait cycles -/

/-- Every lock still to be acquired ranks above all locks held at that point. -/
def Ordered (rank : L → Nat) : List (L × Mode) → List (Action L) → Prop
  | _, [] => True
  | held, .acquire lock mode :: rest =>
      (∀ x ∈ held, rank x.1 < rank lock) ∧ Ordered rank ((lock, mode) :: held) rest
  | held, .release lock mode :: rest => Ordered rank (held.erase (lock, mode)) rest

theorem Prog.Trace.ordered_append {rank : L → Nat} {p : Prog L} {t : List (Action L)}
    {left : Bool} (run : p.Trace t left) {held : List (L × Mode)} {u : List (Action L)}
    (nested : ∀ outer inner, p.Nests outer inner → rank outer < rank inner)
    (above : ∀ x ∈ held, ∀ lock, p.Uses lock → rank x.1 < rank lock)
    (tail : Ordered rank held u) :
    Ordered rank held (t ++ u) := by
  induction run generalizing held u with
  | skip | exit => exact tail
  | @critical lock mode body t _ _ ih =>
      have shape : .acquire lock mode :: (t ++ [.release lock mode]) ++ u =
          .acquire lock mode :: (t ++ .release lock mode :: u) := by simp
      rw [shape]
      refine ⟨fun x hx => above x hx lock (.inl rfl), ?_⟩
      refine ih (fun a b h => nested a b (.inr h)) ?_ (by simpa [Ordered] using tail)
      intro x hx inner used
      rcases List.mem_cons.1 hx with rfl | hx
      · exact nested _ inner (.inl ⟨rfl, used⟩)
      · exact above x hx inner (.inr used)
  | seq _ _ ihp ihq =>
      rw [List.append_assoc]
      refine ihp (fun a b h => nested a b (.inl h)) (fun x hx l h => above x hx l (.inl h)) ?_
      exact ihq (fun a b h => nested a b (.inr h)) (fun x hx l h => above x hx l (.inr h)) tail
  | scope _ ih => exact ih nested above tail
  | seqExit _ ih | left _ ih =>
      exact ih (fun a b h => nested a b (.inl h)) (fun x hx l h => above x hx l (.inl h)) tail
  | right _ ih =>
      exact ih (fun a b h => nested a b (.inr h)) (fun x hx l h => above x hx l (.inr h)) tail

/-- The order of the pending acquisitions is kept by every step. -/
theorem Step.ordered {rank : L → Nat} {s s' : State ι L} (step : Step s s')
    (ordered : ∀ i, Ordered rank (s.held i) (s.rest i)) (i : ι) :
    Ordered rank (s'.held i) (s'.rest i) := by
  have before := ordered i
  cases step with
  | announce _ => exact before
  | @shared j lock rest atLock _ | @exclusive j lock rest atLock _ _ =>
      by_cases h : i = j
      · subst h
        rw [atLock] at before
        simpa using before.2
      · simpa [h] using before
  | @release j lock mode rest atLock =>
      by_cases h : i = j
      · subst h
        rw [atLock] at before
        simpa [Ordered] using before
      · simpa [h] using before

theorem Reachable.ordered {rank : L → Nat} {progs : ι → Prog L} {s : State ι L}
    (nested : ∀ i outer inner, (progs i).Nests outer inner → rank outer < rank inner)
    (reached : Reachable progs s) (i : ι) :
    Ordered rank (s.held i) (s.rest i) := by
  obtain ⟨start, init, run⟩ := reached
  induction run generalizing i with
  | refl =>
      obtain ⟨left, run⟩ := init.traces i
      have outside : ∀ x ∈ start.held i, ∀ lock, (progs i).Uses lock → rank x.1 < rank lock := by
        simp [init.empty]
      have order := run.ordered_append (u := []) (nested i) outside trivial
      simpa using order
  | tail _ step ih => exact step.ordered ih i

omit [DecidableEq ι] in
/-- Along a chain of waiting calls the ranks of the wanted locks increase. -/
theorem State.rank_lt_of_waitChain {rank : L → Nat} {s : State ι L}
    (ordered : ∀ i, Ordered rank (s.held i) (s.rest i)) {i j : ι}
    (chain : Relation.TransGen s.WaitsFor i j)
    {lock : L} {mode : Mode} {rest : List (Action L)}
    (wanted : s.rest j = .acquire lock mode :: rest) :
    ∃ first mode' rest', s.rest i = .acquire first mode' :: rest' ∧ rank first < rank lock := by
  induction chain generalizing lock mode rest with
  | @single k waits =>
      obtain ⟨first, mode', rest', atFirst, _, other, holds⟩ := waits
      have order := ordered k
      rw [wanted] at order
      exact ⟨first, mode', rest', atFirst, order.1 _ holds⟩
  | @tail j k _ waits ih =>
      obtain ⟨middle, mode', rest', atMiddle, _, other, holds⟩ := waits
      obtain ⟨first, mode'', rest'', atFirst, below⟩ := ih atMiddle
      have order := ordered k
      rw [wanted] at order
      exact ⟨first, mode'', rest'', atFirst, Nat.lt_trans below (order.1 _ holds)⟩

/-- Calls whose nested sections go strictly up in one rank never reach a wait
cycle. -/
theorem noWaitCycle_of_rank {rank : L → Nat} {progs : ι → Prog L}
    (nested : ∀ i outer inner, (progs i).Nests outer inner → rank outer < rank inner)
    {s : State ι L} (reached : Reachable progs s) : ¬ s.WaitCycle := by
  rintro ⟨i, cycle⟩
  have ordered := reached.ordered nested
  obtain ⟨j, waits, _⟩ := Relation.TransGen.head'_iff.1 cycle
  obtain ⟨lock, mode, rest, atLock, _⟩ := waits
  obtain ⟨first, mode', rest', atFirst, below⟩ :=
    State.rank_lt_of_waitChain ordered cycle atLock
  rw [atLock] at atFirst
  cases atFirst
  exact absurd below (Nat.lt_irrefl _)

/-! ## An inversion makes a wait cycle reachable -/

/-- `Solo foreign held t held'`: a call holding `held` can perform the actions
`t` as long as the other calls hold at most the locks in `foreign`, and then
holds `held'`. -/
inductive Solo (foreign : L → Prop) :
    List (L × Mode) → List (Action L) → List (L × Mode) → Prop where
  | nil {held : List (L × Mode)} : Solo foreign held [] held
  | acquire {held held' : List (L × Mode)} {lock : L} {mode : Mode} {t : List (Action L)} :
      ¬ foreign lock → (∀ x ∈ held, x.1 ≠ lock) →
      Solo foreign ((lock, mode) :: held) t held' →
      Solo foreign held (.acquire lock mode :: t) held'
  | release {held held' : List (L × Mode)} {lock : L} {mode : Mode} {t : List (Action L)} :
      Solo foreign (held.erase (lock, mode)) t held' →
      Solo foreign held (.release lock mode :: t) held'

theorem Solo.append {foreign : L → Prop} {held mid last : List (L × Mode)}
    {t u : List (Action L)}
    (first : Solo foreign held t mid) (second : Solo foreign mid u last) :
    Solo foreign held (t ++ u) last := by
  induction first with
  | nil => exact second
  | acquire free new _ ih => exact .acquire free new (ih second)
  | release _ ih => exact .release (ih second)

/-- A trace of a program that never re-enters a lock runs alone from start to end
when it avoids the locks held by the call itself and by the other calls. -/
theorem Prog.Trace.solo {foreign : L → Prop} {p : Prog L} {t : List (Action L)}
    {left : Bool} (run : p.Trace t left) {held : List (L × Mode)}
    (once : ∀ lock, ¬ p.Nests lock lock)
    (free : ∀ lock mode, .acquire lock mode ∈ t → ¬ foreign lock ∧ ∀ x ∈ held, x.1 ≠ lock) :
    Solo foreign held t held := by
  induction run generalizing held with
  | skip | exit => exact .nil
  | @critical lock mode body t _ run ih =>
      have outer := free lock mode (by simp)
      have inner : ∀ l m, .acquire l m ∈ t → ¬ foreign l ∧ ∀ x ∈ held, x.1 ≠ l :=
        fun l m used => free l m (by simp [used])
      have body : Solo foreign ((lock, mode) :: held) t ((lock, mode) :: held) := by
        refine ih (fun l h => once l (.inr h)) (fun l m used => ⟨(inner l m used).1, ?_⟩)
        intro x hx
        rcases List.mem_cons.1 hx with rfl | hx
        · rintro rfl
          exact once _ (.inl ⟨rfl, run.uses used⟩)
        · exact (inner l m used).2 x hx
      exact .acquire outer.1 outer.2 (body.append (.release (by simpa using Solo.nil)))
  | seq _ _ ihp ihq =>
      exact (ihp (fun l h => once l (.inl h))
          (fun l m h => free l m (List.mem_append_left _ h))).append
        (ihq (fun l h => once l (.inr h)) (fun l m h => free l m (List.mem_append_right _ h)))
  | seqExit _ ih | left _ ih => exact ih (fun l h => once l (.inl h)) free
  | right _ ih => exact ih (fun l h => once l (.inr h)) free
  | scope _ ih => exact ih once free

/-- The actions before an outermost section run alone. -/
theorem Prog.Enters.solo {foreign : L → Prop} {p body : Prog L} {lock : L} {mode : Mode}
    {pre : List (Action L)} (entered : p.Enters pre lock mode body)
    {held : List (L × Mode)} (once : ∀ l, ¬ p.Nests l l)
    (free : ∀ l m, .acquire l m ∈ pre → ¬ foreign l ∧ ∀ x ∈ held, x.1 ≠ l) :
    Solo foreign held pre held := by
  induction entered with
  | here => exact .nil
  | first _ ih | left _ ih => exact ih (fun l h => once l (.inl h)) free
  | second run _ ih =>
      exact (run.solo (fun l h => once l (.inl h))
          (fun l m h => free l m (List.mem_append_left _ h))).append
        (ih (fun l h => once l (.inr h)) (fun l m h => free l m (List.mem_append_right _ h)))
  | right _ ih => exact ih (fun l h => once l (.inr h)) free
  | scope _ ih => exact ih once free

/-- The state in which call `i` has `rest` left and holds `held`. -/
def State.moved (s : State ι L) (i : ι) (rest : List (Action L)) (held : List (L × Mode)) :
    State ι L :=
  { s with rest := Function.update s.rest i rest, held := Function.update s.held i held }

/-- With no announced request, a call performs its solo actions step by step. -/
theorem Solo.steps {foreign : L → Prop} {i : ι} {held held' : List (L × Mode)}
    {t : List (Action L)} (solo : Solo foreign held t held')
    {s : State ι L} {u : List (Action L)}
    (quiet : ∀ j, s.announced j = false)
    (others : ∀ j, j ≠ i → ∀ x ∈ s.held j, foreign x.1) :
    Relation.ReflTransGen Step (s.moved i (t ++ u) held) (s.moved i u held') := by
  induction solo with
  | nil => exact .refl
  | @acquire held held' lock mode t free new _ ih =>
      refine Relation.ReflTransGen.trans ?_ ih
      have unheld : ∀ j mode',
          (lock, mode') ∉ (s.moved i (.acquire lock mode :: t ++ u) held).held j := by
        intro j mode' mem
        by_cases h : j = i
        · subst h
          exact new _ (by simpa [State.moved] using mem) rfl
        · exact free (others j h (lock, mode') (by simpa [State.moved, h] using mem))
      cases mode with
      | shared =>
          refine .single ?_
          have next : (s.moved i (.acquire lock .shared :: t ++ u) held).rest i =
              .acquire lock .shared :: (t ++ u) := by simp [State.moved]
          have step := Step.shared next
            (fun j => ⟨unheld j _, fun h => by simp [State.Announces, State.moved, quiet] at h⟩)
          simpa [State.moved] using step
      | exclusive =>
          have next : (s.moved i (.acquire lock .exclusive :: t ++ u) held).rest i =
              .acquire lock .exclusive :: (t ++ u) := by simp [State.moved]
          refine .head (Step.announce next) (.single ?_)
          have step := Step.exclusive
            (s := { s.moved i (.acquire lock .exclusive :: t ++ u) held with
              announced := Function.update s.announced i true })
            next (by simp) unheld
          have settled : Function.update s.announced i false = s.announced := by
            rw [← quiet i, Function.update_eq_self]
          simpa [State.moved, settled] using step
  | @release held held' lock mode t _ ih =>
      refine .head ?_ ih
      have next : (s.moved i (.release lock mode :: t ++ u) held).rest i =
          .release lock mode :: (t ++ u) := by simp [State.moved]
      simpa [State.moved] using Step.release next

/-- `Opens p pre a mid b mode`: after `pre` the program takes `a` exclusively, and
after `mid` inside that section it asks for `b`. -/
def Opens (p : Prog L) (pre : List (Action L)) (a : L) (mid : List (Action L))
    (b : L) (mode : Mode) : Prop :=
  ∃ outer inner, p.Enters pre a .exclusive outer ∧ outer.Enters mid b mode inner

omit [DecidableEq L] in
/-- A trace along which the inner lock is requested. -/
theorem Opens.exists_trace {p : Prog L} {pre mid : List (Action L)} {a b : L} {mode : Mode}
    (opens : Opens p pre a mid b mode) :
    ∃ post left, p.Trace
      (pre ++ (.acquire a .exclusive :: (mid ++ .acquire b mode :: post))) left := by
  obtain ⟨outer, inner, entersOuter, entersInner⟩ := opens
  obtain ⟨t, left, run⟩ := inner.exists_trace
  obtain ⟨post, left', run'⟩ := entersInner.exists_trace run
  obtain ⟨post', left'', run''⟩ := entersOuter.exists_trace run'
  refine ⟨t ++ .release b mode :: (post ++ .release a .exclusive :: post'), left'', ?_⟩
  simpa using run''

/-- Running alone up to the request for the inner lock leaves the outer one held. -/
theorem Opens.solo {p : Prog L} {pre mid : List (Action L)} {a b : L} {mode : Mode}
    (opens : Opens p pre a mid b mode) (foreign : L → Prop)
    (once : ∀ l, ¬ p.Nests l l) (freeOuter : ¬ foreign a)
    (freePre : ∀ l m, .acquire l m ∈ pre → ¬ foreign l)
    (freeMid : ∀ l m, .acquire l m ∈ mid → ¬ foreign l) :
    Solo foreign [] (pre ++ .acquire a .exclusive :: mid) [(a, .exclusive)] := by
  obtain ⟨outer, inner, entersOuter, entersInner⟩ := opens
  refine Solo.append (entersOuter.solo once
    (fun l m h => ⟨freePre l m h, by simp⟩)) (.acquire freeOuter (by simp) ?_)
  refine entersInner.solo (fun l h => once l (entersOuter.nests_body h)) ?_
  intro l m h
  refine ⟨freeMid l m h, ?_⟩
  rintro x hx rfl
  rw [List.mem_singleton.1 hx] at h
  exact once a (entersOuter.nests (entersInner.uses_pre h))

/-- Two calls that take two locks in opposite orders can block each other: the
first holds `a` and asks for `b`, the second holds `b` and asks for `a`. -/
theorem exists_waitCycle_of_inversion {progs : ι → Prog L} {i j : ι} (distinct : i ≠ j)
    {a b : L} {pre mid pre' mid' : List (Action L)} {mode mode' : Mode}
    (once : ∀ k l, ¬ (progs k).Nests l l)
    (first : Opens (progs i) pre a mid b mode)
    (second : Opens (progs j) pre' b mid' a mode')
    (locks : a ≠ b)
    (avoids : ∀ l m, .acquire l m ∈ pre' ++ mid' → l ≠ a) :
    ∃ s, Reachable progs s ∧ s.WaitCycle := by
  obtain ⟨post, left, run⟩ := first.exists_trace
  obtain ⟨post', left', run'⟩ := second.exists_trace
  choose traces allTraces using fun k => (progs k).exists_trace
  let start : State ι L :=
    { rest := Function.update (Function.update traces i
        (pre ++ (.acquire a .exclusive :: (mid ++ .acquire b mode :: post)))) j
        (pre' ++ (.acquire b .exclusive :: (mid' ++ .acquire a mode' :: post')))
      held := fun _ => []
      announced := fun _ => false }
  have init : Initial progs start := by
    refine ⟨fun k => ?_, fun _ => rfl, fun _ => rfl⟩
    by_cases hj : k = j
    · subst hj
      exact ⟨left', by simpa [start] using run'⟩
    · by_cases hi : k = i
      · subst hi
        exact ⟨left, by simpa [start, hj] using run⟩
      · simpa [start, hi, hj] using allTraces k
  have runFirst := (first.solo (fun _ => False) (once i) id (fun _ _ _ => id)
      (fun _ _ _ => id)).steps (i := i) (s := start)
    (u := .acquire b mode :: post) (fun _ => rfl) (by simp [start])
  let middle := start.moved i (.acquire b mode :: post) [(a, .exclusive)]
  have runSecond := (second.solo (fun l => l = a) (once j) locks.symm
      (fun l m h => avoids l m (List.mem_append_left _ h))
      (fun l m h => avoids l m (List.mem_append_right _ h))).steps
    (i := j) (s := middle) (u := .acquire a mode' :: post') (fun _ => rfl) (by
      intro k hk x hx
      by_cases hi : k = i
      · subst hi
        simp only [middle, State.moved, Function.update_self, List.mem_singleton] at hx
        rw [hx]
      · simp [middle, State.moved, start, hi] at hx)
  have startEq : start.moved i (pre ++ .acquire a .exclusive :: mid ++
      .acquire b mode :: post) [] = start := by
    simp [State.moved, start, Function.update_comm distinct]
  have middleEq : middle.moved j (pre' ++ .acquire b .exclusive :: mid' ++
      .acquire a mode' :: post') [] = middle := by
    simp [State.moved, middle, start, Function.update_comm distinct]
  rw [startEq] at runFirst
  rw [middleEq] at runSecond
  refine ⟨_, ⟨start, init, runFirst.trans runSecond⟩, i, ?_⟩
  have waits : State.WaitsFor
      (middle.moved j (.acquire a mode' :: post') [(b, .exclusive)]) i j := by
    refine ⟨b, mode, post, by simp [State.moved, middle, distinct], ?_, .exclusive, by
      simp [State.moved]⟩
    intro grant
    cases mode with
    | shared => exact (grant j).1 (by simp [State.moved])
    | exclusive => exact grant j .exclusive (by simp [State.moved])
  have waits' : State.WaitsFor
      (middle.moved j (.acquire a mode' :: post') [(b, .exclusive)]) j i := by
    refine ⟨a, mode', post', by simp [State.moved], ?_, .exclusive, by
      simp [State.moved, middle, distinct]⟩
    intro grant
    cases mode' with
    | shared => exact (grant i).1 (by simp [State.moved, middle, distinct])
    | exclusive => exact grant i .exclusive (by simp [State.moved, middle, distinct])
  exact .head waits (.single waits')

end Machine

end Immulog.Lib.Locks
