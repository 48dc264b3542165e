import Immulog.Lib.NewFile

/-!
Programs that do the same on related states.

`Mirrors D R Q p p'`: from related states, the runs of `p` and `p'` without faults end in related
states with related results.  The rules follow the shape of programs.

`Dir.Agree P` relates directories that have the same files under the names in `P`.  Programs
that touch none of these names are not seen by it, so they may do different things on the two
sides.
-/

namespace Immulog.Lib

/-- Equal errors, or related results. -/
def ResultsIn {ε α β : Type} (Q : α → β → Prop) : Except ε α → Except ε β → Prop
  | .ok a, .ok b => Q a b
  | .error e, .error e' => e = e'
  | _, _ => False

theorem resultsIn_refl {ε α : Type} (r : Except ε α) : ResultsIn (fun a b => a = b) r r := by
  cases r with
  | error e => rfl
  | ok a => rfl

/-- What is related to a success is a success. -/
theorem ResultsIn.of_ok {ε α β : Type} {Q : α → β → Prop} {a : α} {r : Except ε β}
    (results : ResultsIn Q (.ok a) r) : ∃ b, r = .ok b ∧ Q a b := by
  cases r with
  | error e => exact results.elim
  | ok b => exact ⟨b, rfl, results⟩

namespace Prog

variable {O S ε α β γ δ : Type}

def Mirrors (D : Device O S) (R : S → S → Prop) (Q : α → β → Prop) (p : Prog O S ε α)
    (p' : Prog O S ε β) : Prop :=
  ∀ s s', R s s' → R (run D p s).2 (run D p' s').2 ∧ ResultsIn Q (run D p s).1 (run D p' s').1

/-- The operation does the same on related states. -/
def Respects (D : Device O S) (R : S → S → Prop) (o : O) : Prop :=
  ∀ s s', R s s' → Option.Rel R (D.exec o s) (D.exec o s')

variable {D : Device O S} {R : S → S → Prop} {Q : α → β → Prop}

theorem mirrors_done {r : Except ε α} {r' : Except ε β} (related : ResultsIn Q r r') :
    Mirrors D R Q (.done r) (.done r') :=
  fun _ _ same => ⟨same, related⟩

theorem mirrors_pure {a : α} {b : β} (related : Q a b) :
    Mirrors D R Q (pure a : Prog O S ε α) (pure b) :=
  mirrors_done related

theorem mirrors_ofExcept {r : Except ε α} {r' : Except ε β} (related : ResultsIn Q r r') :
    Mirrors D R Q (ofExcept r) (ofExcept r') :=
  mirrors_done related

/-- Both programs see their own device, and these are related. -/
theorem mirrors_get : Mirrors D R R (get : Prog O S ε S) get :=
  fun _ _ same => ⟨same, same⟩

/-- An operation that respects the relation is performed on both sides or on neither. -/
theorem mirrors_perform {o : O} {e : ε} (respects : Respects D R o) :
    Mirrors D R (fun _ _ => True) (perform o e) (perform o e) := by
  intro s s' same
  have both := respects s s' same
  simp only [perform, run]
  cases done : D.exec o s <;> cases done' : D.exec o s' <;> rw [done, done'] at both <;> cases both
  · exact ⟨same, rfl⟩
  · next related => exact ⟨related, trivial⟩

/-- The rests may depend on results that are related, not equal. -/
theorem Mirrors.bind {Q' : γ → δ → Prop} {p : Prog O S ε α} {p' : Prog O S ε β}
    {f : α → Prog O S ε γ} {f' : β → Prog O S ε δ} (first : Mirrors D R Q p p')
    (later : ∀ a b, Q a b → Mirrors D R Q' (f a) (f' b)) :
    Mirrors D R Q' (p >>= f) (p' >>= f') := by
  intro s s' same
  obtain ⟨related, results⟩ := first s s' same
  rw [run_bind, run_bind]
  rcases ran : run D p s with ⟨r, t⟩
  rcases ran' : run D p' s' with ⟨r', t'⟩
  rw [ran, ran'] at related results
  cases r with
  | ok a =>
      obtain ⟨b, rfl, linked⟩ := results.of_ok
      exact later a b linked t t' related
  | error e =>
      cases r' with
      | ok b => exact results.elim
      | error e' => exact ⟨related, results⟩

/-- Failures are results, too. -/
theorem Mirrors.attempt {p : Prog O S ε α} {p' : Prog O S ε β} (mirrors : Mirrors D R Q p p') :
    Mirrors D R (ResultsIn Q) p.attempt p'.attempt := by
  intro s s' same
  rw [run_attempt, run_attempt]
  exact mirrors s s' same

/-- Go on from the error or from the result. -/
theorem Mirrors.attempt_bind {Q' : γ → δ → Prop} {p : Prog O S ε α} {p' : Prog O S ε β}
    {f : Except ε α → Prog O S ε γ} {f' : Except ε β → Prog O S ε δ}
    (mirrors : Mirrors D R Q p p')
    (failed : ∀ e, Mirrors D R Q' (f (.error e)) (f' (.error e)))
    (succeeded : ∀ a b, Q a b → Mirrors D R Q' (f (.ok a)) (f' (.ok b))) :
    Mirrors D R Q' (p.attempt >>= f) (p'.attempt >>= f') := by
  refine mirrors.attempt.bind fun r r' related => ?_
  cases r with
  | ok a =>
      obtain ⟨b, rfl, linked⟩ := related.of_ok
      exact succeeded a b linked
  | error e =>
      cases r' with
      | ok _ => exact related.elim
      | error e' =>
          obtain rfl : e = e' := related
          exact failed e

end Prog

/-! ## Directories that agree on some names -/

namespace Dir

variable {N : Type} [DecidableEq N] {P : N → Prop} {d d' t : Dir N} {name : N}

/-- The same files under the names in `P`; what is durable does not matter. -/
def Agree (P : N → Prop) (d d' : Dir N) : Prop :=
  ∀ name, P name → (d'.lookup name).map Entry.file = (d.lookup name).map Entry.file

namespace Agree

/-- Agreeing directories have the same contents under a visible name. -/
theorem read (agree : Agree P d d') (visible : P name) : d'.read? name = d.read? name := by
  have bind_file (e : Option Entry) : e.bind Entry.file = (e.map Entry.file).join := by
    cases e <;> rfl
  rw [read?, read?, file?, file?, bind_file, bind_file, agree name visible]

theorem mem (agree : Agree P d d') (visible : P name) : name ∈ d' ↔ name ∈ d := by
  have same := congrArg Option.isSome (agree name visible)
  rw [Option.isSome_map, Option.isSome_map] at same
  rw [← AList.lookup_isSome, ← AList.lookup_isSome, same]

theorem file (agree : Agree P d d') (visible : P name) {f : File} {durable : Bool}
    (found : d.lookup name = some ⟨some f, durable⟩) :
    ∃ durable', d'.lookup name = some ⟨some f, durable'⟩ := by
  have same := agree name visible
  rw [found] at same
  obtain ⟨⟨content, durable'⟩, found', rfl⟩ := Option.map_eq_some_iff.1 same
  exact ⟨durable', found'⟩

/-- Both sides write the same file; its durability may differ. -/
theorem insert (agree : Agree P d d') (name : N) {e e' : Entry} (same : e'.file = e.file) :
    Agree P (d.insert name e) (d'.insert name e') := by
  intro other visible
  by_cases here : other = name
  · subst here
    simp [AList.lookup_insert, same]
  · rw [AList.lookup_insert_ne here, AList.lookup_insert_ne here]
    exact agree other visible

theorem erase (agree : Agree P d d') (name : N) : Agree P (d.erase name) (d'.erase name) := by
  intro other visible
  by_cases here : other = name
  · subst here
    simp
  · rw [AList.lookup_erase_ne here, AList.lookup_erase_ne here]
    exact agree other visible

theorem synced (agree : Agree P d d') : Agree P d.synced d'.synced := by
  have map_file (e : Option Entry) :
      (e.map fun e => { e with durable := true }).map Entry.file = e.map Entry.file := by
    cases e <;> rfl
  intro name visible
  rw [lookup_synced, lookup_synced, map_file, map_file]
  exact agree name visible

/-- A change of a visible file can be made on both sides. -/
theorem modify (agree : Agree P d d') (visible : P name) {f : File → File}
    (done : d.modify name f = some t) : ∃ t', d'.modify name f = some t' ∧ Agree P t t' := by
  obtain ⟨content, durable, found, rfl⟩ := modify_eq_some.1 done
  obtain ⟨durable', found'⟩ := agree.file visible found
  exact ⟨_, modify_eq_some.2 ⟨content, durable', found', rfl⟩, agree.insert name rfl⟩

/-- Operations on visible names can be performed on both sides. -/
theorem exec (agree : Agree P d d') {o : DirOp N} (visible : ∀ name ∈ o.touches, P name)
    (done : exec o d = some t) : ∃ t', Dir.exec o d' = some t' ∧ Agree P t t' := by
  cases o with
  | create name =>
      obtain ⟨fresh, rfl⟩ := exec_create_eq_some.1 done
      have fresh' := mt (agree.mem (visible name List.mem_cons_self)).1 fresh
      exact ⟨_, exec_create_eq_some.2 ⟨fresh', rfl⟩, agree.insert name rfl⟩
  | write name _ | writeAt name _ _ | truncate name _ | sync name =>
      exact agree.modify (visible name List.mem_cons_self) done
  | syncDir =>
      obtain rfl := Option.some.inj done
      exact ⟨_, rfl, agree.synced⟩
  | rename old new =>
      obtain ⟨content, durable, found, rfl⟩ := exec_rename_eq_some.1 done
      obtain ⟨durable', found'⟩ := agree.file (visible old List.mem_cons_self) found
      exact ⟨_, exec_rename_eq_some.2 ⟨content, durable', found', rfl⟩,
        (agree.erase old).insert new rfl⟩
  | remove name =>
      simp only [Dir.exec] at done
      split at done
      · next content durable found =>
        obtain rfl := Option.some.inj done
        obtain ⟨durable', found'⟩ := agree.file (visible name List.mem_cons_self) found
        exact ⟨d'.erase name, by simp only [Dir.exec, found'], agree.erase name⟩
      · cases done

theorem symm (agree : Agree P d d') : Agree P d' d :=
  fun name visible => (agree name visible).symm

/-- Operations on names in `P` do the same on both sides. -/
theorem respects {o : DirOp N} (visible : ∀ name ∈ o.touches, P name) :
    Prog.Respects device (Agree P) o := by
  intro s s' agree
  change Option.Rel _ (Dir.exec o s) (Dir.exec o s')
  cases done : Dir.exec o s with
  | some t =>
      obtain ⟨t', done', related⟩ := agree.exec visible done
      rw [done']
      exact .some related
  | none =>
      cases done' : Dir.exec o s' with
      | none => exact .none
      | some t' =>
          obtain ⟨_, here, -⟩ := agree.symm.exec visible done'
          cases done.symm.trans here

end Agree

end Dir

namespace Prog

variable {N : Type} [DecidableEq N] {ε : Type} {P : N → Prop} {name : N}

/-- Programs that touch no name in `P` go unseen, whatever they do. -/
theorem mirrors_hidden {α β : Type} {p : Prog (DirOp N) (Dir N) ε α}
    {p' : Prog (DirOp N) (Dir N) ε β}
    (only : ∀ name, P name → p.Only fun o => name ∉ o.touches)
    (only' : ∀ name, P name → p'.Only fun o => name ∉ o.touches) :
    Mirrors Dir.device (Dir.Agree P)
      (fun r r' => (∃ d, r = (run Dir.device p d).1) ∧ ∃ d, r' = (run Dir.device p' d).1)
      p.attempt p'.attempt := by
  intro d d' agree
  rw [run_attempt, run_attempt]
  refine ⟨fun name visible => ?_, ⟨d, rfl⟩, d', rfl⟩
  rw [(Dir.run_settles (only' name visible) d').map_file,
    (Dir.run_settles (only name visible) d).map_file]
  exact agree name visible

theorem mirrors_writeAll (visible : P name) (e : ε) (pieces : List Bytes) :
    Mirrors Dir.device (Dir.Agree P) (fun _ _ => True) (writeAll name e pieces)
      (writeAll name e pieces) := by
  induction pieces with
  | nil => exact mirrors_pure trivial
  | cons piece rest ih =>
      refine (mirrors_perform (Dir.Agree.respects ?_)).bind fun _ _ _ => ih
      simpa [DirOp.touches] using visible

theorem mirrors_createSynced (visible : P name) (pieces : List Bytes)
    (onCreate onWrite onSync : ε) :
    Mirrors Dir.device (Dir.Agree P) (fun _ _ => True)
      (createSynced name pieces onCreate onWrite onSync)
      (createSynced name pieces onCreate onWrite onSync) := by
  have touched : ∀ other ∈ [name], P other := by simpa using visible
  refine (mirrors_perform (Dir.Agree.respects touched)).bind fun _ _ _ => ?_
  refine (mirrors_writeAll visible onWrite pieces).bind fun _ _ _ => ?_
  exact mirrors_perform (Dir.Agree.respects touched)

end Prog

end Immulog.Lib
