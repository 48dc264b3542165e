import Immulog.Lib.Files

/-!
Programs that write whole files.

`createSynced` writes a new file and syncs it; `replaceFile` writes a temporary
file, syncs it, renames it over its target and syncs the directory.  For both there
is the run, and what a stop at any instant can leave.
-/

namespace Immulog.Lib

namespace Prog

variable {N : Type} [DecidableEq N] {ε : Type}

/-- Write pieces one behind the other. -/
def writeAll (name : N) (e : ε) : List Bytes → Prog (DirOp N) (Dir N) ε Unit
  | [] => pure ()
  | piece :: rest => do
      perform (.write name piece) e
      writeAll name e rest

/-- Create a file exclusively, write it and sync it. -/
def createSynced (name : N) (pieces : List Bytes) (onCreate onWrite onSync : ε) :
    Prog (DirOp N) (Dir N) ε Unit := do
  perform (.create name) onCreate
  writeAll name onWrite pieces
  perform (.sync name) onSync

omit [DecidableEq N] in
theorem only_writeAll {P : DirOp N → Prop} {name : N} {e : ε} {pieces : List Bytes}
    (allowed : ∀ piece, P (.write name piece)) : (writeAll name e pieces).Only P := by
  induction pieces with
  | nil => exact only_pure
  | cons piece rest ih => exact (only_perform (allowed piece)).bind fun _ => ih

omit [DecidableEq N] in
theorem only_createSynced {P : DirOp N → Prop} {name : N} {pieces : List Bytes}
    {onCreate onWrite onSync : ε} (create : P (.create name))
    (write : ∀ piece, P (.write name piece)) (sync : P (.sync name)) :
    (createSynced name pieces onCreate onWrite onSync).Only P :=
  (only_perform create).bind fun _ => (only_writeAll write).bind fun _ => only_perform sync

theorem exec_write_insert {d : Dir N} {name : N} {f : File} {durable : Bool} {data : Bytes} :
    Dir.exec (.write name data) (d.insert name ⟨some f, durable⟩) =
      some (d.insert name ⟨some { f with data := f.data ++ data }, durable⟩) := by
  rw [Dir.exec, Dir.modify_eq_some]
  exact ⟨f, durable, AList.lookup_insert d, (AList.insert_insert d).symm⟩

/-- All pieces are written, one behind the other. -/
theorem run_writeAll {d : Dir N} {name : N} {f : File} {durable : Bool} {e : ε}
    {pieces : List Bytes} :
    run Dir.device (writeAll name e pieces) (d.insert name ⟨some f, durable⟩) =
      (.ok (), d.insert name ⟨some { f with data := f.data ++ pieces.flatten }, durable⟩) := by
  induction pieces generalizing f with
  | nil => simp [writeAll]
  | cons piece rest ih =>
      rw [writeAll, run_bind_ok (run_perform_some exec_write_insert), ih]
      simp

theorem exec_sync_insert {d : Dir N} {name : N} {f : File} {durable : Bool} :
    Dir.exec (.sync name) (d.insert name ⟨some f, durable⟩) =
      some (d.insert name ⟨some { f with disk := f.data }, durable⟩) := by
  rw [Dir.exec, Dir.modify_eq_some]
  exact ⟨f, durable, AList.lookup_insert d, (AList.insert_insert d).symm⟩

/-- A fresh file holds its pieces, also on disk. -/
theorem run_createSynced {d : Dir N} {name : N} {pieces : List Bytes}
    {onCreate onWrite onSync : ε} (fresh : name ∉ d) :
    run Dir.device (createSynced name pieces onCreate onWrite onSync) d =
      (.ok (), d.insert name ⟨some ⟨pieces.flatten, pieces.flatten⟩, false⟩) := by
  have created : Dir.exec (.create name) d = some (d.insert name ⟨some ⟨[], []⟩, false⟩) :=
    Dir.exec_create_eq_some.2 ⟨fresh, rfl⟩
  rw [createSynced, run_bind_ok (run_perform_some created), run_bind_ok run_writeAll,
    run_perform_some exec_sync_insert]
  rfl

/-- A name in use is not overwritten. -/
theorem run_createSynced_taken {d : Dir N} {name : N} {pieces : List Bytes}
    {onCreate onWrite onSync : ε} (taken : name ∈ d) :
    run Dir.device (createSynced name pieces onCreate onWrite onSync) d =
      (.error onCreate, d) := by
  have refused : Dir.exec (.create name) d = none := by simp [Dir.exec, taken]
  refine run_bind_error ?_
  simp [perform, run, refused]

/-- Pieces that are written with faults leave a beginning of them. -/
theorem runs_writeAll {d d' : Dir N} {name : N} {f : File} {durable : Bool} {e : ε}
    {pieces : List Bytes} {result : Except ε Unit}
    (ran : Runs Dir.device (writeAll name e pieces) (d.insert name ⟨some f, durable⟩) result d') :
    ∃ piece, piece <+: pieces.flatten ∧ (result = .ok () → piece = pieces.flatten) ∧
      d' = d.insert name ⟨some { f with data := f.data ++ piece }, durable⟩ := by
  induction pieces generalizing f with
  | nil =>
      obtain ⟨rfl, rfl⟩ := runs_done.1 ran
      exact ⟨[], List.prefix_refl _, fun _ => rfl, by simp⟩
  | cons piece rest ih =>
      rcases runs_bind.1 ran with ⟨_, mid, wrote, later⟩ | ⟨e', rfl, failed⟩
      · rcases runs_perform.1 wrote with ⟨_, done⟩ | ⟨wrong, _⟩
        · rw [Dir.device_exec, exec_write_insert] at done
          obtain rfl := Option.some.inj done
          obtain ⟨more, front, whole, rfl⟩ := ih later
          refine ⟨piece ++ more, ?_, fun ok => by rw [whole ok, List.flatten_cons], by simp⟩
          rw [List.flatten_cons]
          exact (List.prefix_append_right_inj piece).2 front
        · cases wrong
      · rcases runs_perform.1 failed with ⟨wrong, _⟩ | ⟨_, rfl | torn⟩
        · cases wrong
        · exact ⟨[], List.nil_prefix, (fun ok => by cases ok), by simp⟩
        · cases torn with
          | write count done =>
              rw [exec_write_insert] at done
              refine ⟨piece.take count, ?_, (fun ok => by cases ok), (Option.some.inj done).symm⟩
              rw [List.flatten_cons]
              exact (List.take_prefix count piece).trans (List.prefix_append ..)

/-- A file that is created with faults is there and complete if the program says so. -/
theorem runs_createSynced {d d' : Dir N} {name : N} {pieces : List Bytes}
    {onCreate onWrite onSync : ε} {result : Except ε Unit}
    (ran : Runs Dir.device (createSynced name pieces onCreate onWrite onSync) d result d') :
    (d' = d ∧ ∃ e, result = .error e) ∨
      (name ∉ d ∧ ∃ f : File, d' = d.insert name ⟨some f, false⟩ ∧
        (result = .ok () → f = ⟨pieces.flatten, pieces.flatten⟩)) := by
  rcases runs_bind.1 ran with ⟨_, mid, created, later⟩ | ⟨e, rfl, failed⟩
  · rcases runs_perform.1 created with ⟨_, done⟩ | ⟨wrong, _⟩
    · obtain ⟨fresh, rfl⟩ := Dir.exec_create_eq_some.1 done
      refine .inr ⟨fresh, ?_⟩
      rcases runs_bind.1 later with ⟨_, mid, wrote, syncing⟩ | ⟨e, rfl, failed⟩
      · obtain ⟨piece, _, whole, rfl⟩ := runs_writeAll wrote
        rw [whole rfl] at syncing
        rcases runs_perform.1 syncing with ⟨rfl, done⟩ | ⟨rfl, rfl | torn⟩
        · rw [Dir.device_exec, exec_sync_insert] at done
          exact ⟨_, (Option.some.inj done).symm, fun _ => rfl⟩
        · exact ⟨_, rfl, fun ok => by cases ok⟩
        · cases torn
      · obtain ⟨piece, _, _, rfl⟩ := runs_writeAll failed
        exact ⟨_, rfl, fun ok => by cases ok⟩
    · cases wrong
  · rcases runs_perform.1 failed with ⟨wrong, _⟩ | ⟨_, rfl | torn⟩
    · cases wrong
    · exact .inl ⟨rfl, e, rfl⟩
    · cases torn

/-! ## Replacing a file -/

/-- Write a temporary file and rename it over `name`; the temporary file is removed
when that fails. -/
def replaceFile (tmp name : N) (pieces : List Bytes) (e : ε) :
    Prog (DirOp N) (Dir N) ε Unit := do
  perform (.create tmp) e
  let outcome ← (do
    writeAll tmp e pieces
    perform (.sync tmp) e
    perform (.rename tmp name) e : Prog (DirOp N) (Dir N) ε Unit).attempt
  match outcome with
  | .ok _ => perform .syncDir e
  | .error e => do
      performIgnore (.remove tmp)
      fail e

omit [DecidableEq N] in
theorem only_replaceFile {P : DirOp N → Prop} {tmp name : N} {pieces : List Bytes} {e : ε}
    (create : P (.create tmp)) (write : ∀ piece, P (.write tmp piece)) (sync : P (.sync tmp))
    (rename : P (.rename tmp name)) (remove : P (.remove tmp)) (syncDir : P .syncDir) :
    (replaceFile tmp name pieces e).Only P := by
  refine (only_perform create).bind fun _ => (Only.attempt ?_).bind fun outcome => ?_
  · exact (only_writeAll write).bind fun _ => (only_perform sync).bind fun _ =>
      only_perform rename
  · cases outcome with
    | ok _ => exact only_perform syncDir
    | error e => exact (only_performIgnore remove).bind fun _ => trivial

/-- The directory once the file has been renamed. -/
def renamed (d : Dir N) (tmp name : N) (data : Bytes) : Dir N :=
  ((d.insert tmp ⟨some ⟨data, data⟩, false⟩).erase tmp).insert name ⟨some ⟨data, data⟩, false⟩

theorem exec_rename_insert {d : Dir N} {tmp name : N} {data : Bytes} :
    Dir.exec (.rename tmp name) (d.insert tmp ⟨some ⟨data, data⟩, false⟩) =
      some (renamed d tmp name data) :=
  Dir.exec_rename_eq_some.2 ⟨_, _, AList.lookup_insert d, rfl⟩

/-- The new name has the bytes that were written under the temporary one. -/
theorem lookup_renamed (d : Dir N) (tmp name : N) (data : Bytes) :
    (renamed d tmp name data).lookup name = some ⟨some ⟨data, data⟩, false⟩ :=
  AList.lookup_insert _

theorem lookup_renamed_of_ne {d : Dir N} {tmp name other : N} {data : Bytes}
    (other_tmp : other ≠ tmp) (other_name : other ≠ name) :
    (renamed d tmp name data).lookup other = d.lookup other := by
  rw [renamed, AList.lookup_insert_ne other_name, AList.lookup_erase_ne other_tmp,
    AList.lookup_insert_ne other_tmp]

theorem lookup_renamed_tmp {d : Dir N} {tmp name : N} {data : Bytes} (differ : tmp ≠ name) :
    (renamed d tmp name data).lookup tmp = none := by
  rw [renamed, AList.lookup_insert_ne differ, AList.lookup_erase]

/-- A file that is replaced with faults is complete, or as it was and the program says
so. -/
theorem runs_replaceFile {d d' : Dir N} {tmp name : N} {pieces : List Bytes} {e : ε}
    {result : Except ε Unit} (differ : tmp ≠ name)
    (ran : Runs Dir.device (replaceFile tmp name pieces e) d result d') :
    d'.read? name = some pieces.flatten ∨
      (d'.read? name = d.read? name ∧ ∃ e, result = .error e) := by
  have distinct : name ∉ [tmp] := by simpa using differ.symm
  have frame : ∀ {α : Type} {p : Prog (DirOp N) (Dir N) ε α} {a b : Dir N} {r : Except ε α},
      p.Only (fun o => name ∉ o.touches) → Runs Dir.device p a r b → b.read? name = a.read? name :=
    fun only ran => Dir.read?_of_settles (Dir.runs_settles only ran)
  rcases runs_bind.1 ran with ⟨_, made, created, later⟩ | ⟨e', rfl, failed⟩
  · have kept := frame (only_perform (o := DirOp.create tmp) distinct) created
    have fresh : made = d.insert tmp ⟨some ⟨[], []⟩, false⟩ := by
      rcases runs_perform.1 created with ⟨_, done⟩ | ⟨wrong, _⟩
      · exact (Dir.exec_create_eq_some.1 done).2
      · cases wrong
    subst fresh
    rcases runs_bind.1 later with ⟨outcome, mid, filling, closing⟩ | ⟨e', rfl, failed⟩
    · obtain ⟨inner, same, filled⟩ := runs_attempt.1 filling
      obtain rfl := Except.ok.inj same
      cases outcome with
      | ok u =>
          -- Only the rename touches the target.
          obtain ⟨_, mid₁, wrote, rest⟩ := runs_bind_ok.1 filled
          obtain ⟨piece, _, whole, rfl⟩ := runs_writeAll wrote
          rw [whole rfl] at rest
          obtain ⟨_, mid₂, synced, moved⟩ := runs_bind_ok.1 rest
          rcases runs_perform.1 synced with ⟨_, done⟩ | ⟨wrong, _⟩
          · rw [Dir.device_exec, exec_sync_insert] at done
            obtain rfl := Option.some.inj done
            rcases runs_perform.1 moved with ⟨_, done⟩ | ⟨wrong, _⟩
            · rw [Dir.device_exec, List.nil_append, exec_rename_insert] at done
              obtain rfl := Option.some.inj done
              refine .inl ((frame (only_perform (o := DirOp.syncDir) (by simp [DirOp.touches]))
                closing).trans ?_)
              simp [Dir.read?, Dir.file?, lookup_renamed]
            · cases wrong
          · cases wrong
      | error e' =>
          have cleaned : d'.read? name = mid.read? name ∧ ∃ e, result = .error e := by
            rcases runs_bind.1 closing with ⟨_, _, removed, ended⟩ | ⟨e₂, rfl, removed⟩
            · obtain ⟨rfl, rfl⟩ := runs_done.1 ended
              exact ⟨frame (only_performIgnore (o := DirOp.remove tmp) distinct) removed, _, rfl⟩
            · exact ⟨frame (only_performIgnore (o := DirOp.remove tmp) distinct) removed, e₂, rfl⟩
          refine .inr ⟨cleaned.1.trans (.trans ?_ kept), cleaned.2⟩
          rcases runs_bind.1 filled with ⟨_, mid₁, wrote, rest⟩ | ⟨_, _, failed⟩
          · refine .trans ?_ (frame (only_writeAll fun _ => distinct) wrote)
            rcases runs_bind.1 rest with ⟨_, mid₂, synced, moved⟩ | ⟨_, _, failed⟩
            · refine .trans ?_ (frame (only_perform (o := DirOp.sync tmp) distinct) synced)
              rcases runs_perform.1 moved with ⟨wrong, _⟩ | ⟨_, rfl | torn⟩
              · cases wrong
              · rfl
              · cases torn
            · exact frame (only_perform (o := DirOp.sync tmp) distinct) failed
          · exact frame (only_writeAll fun _ => distinct) failed
    · obtain ⟨_, wrong, _⟩ := runs_attempt.1 failed
      cases wrong
  · exact .inr ⟨frame (only_perform (o := DirOp.create tmp) distinct) failed, e', rfl⟩

end Prog

end Immulog.Lib
