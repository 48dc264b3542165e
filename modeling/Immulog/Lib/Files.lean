import Immulog.Lib.Bytes
import Immulog.Lib.Device
import Mathlib.Data.List.AList

/-!
Directories of files as a device.

A file has the bytes written to it and the bytes that are on the disk for sure;
`sync` makes the two equal.  A directory entry is durable once the directory has
been synced after the entry was made.  `Dir.device` are the operations on the
files of one directory, `FS.device` the operations on a tree of directories; a
program on a directory runs at a path of the tree (`Prog.atPath`).  `Dir.Loses`
is what a machine crash may do to a directory.
-/

namespace Immulog.Lib

structure File where
  /-- What a reader sees. -/
  data : Bytes
  /-- What is on the disk for sure. -/
  disk : Bytes
  deriving DecidableEq, Repr

/-- A directory entry: a file, or a subdirectory (`none`). -/
structure Entry where
  file : Option File
  durable : Bool
  deriving DecidableEq, Repr

/-- The entries of one directory by name. -/
abbrev Dir (N : Type) := AList fun _ : N => Entry

/-! ## Operations on one directory -/

inductive DirOp (N : Type) where
  /-- Open a new file exclusively. -/
  | create (name : N)
  /-- Write behind the end. -/
  | write (name : N) (data : Bytes)
  /-- Write at a position inside or at the end of the file. -/
  | writeAt (name : N) (position : Nat) (data : Bytes)
  | truncate (name : N) (size : Nat)
  | sync (name : N)
  | syncDir
  /-- Rename a file, replacing the target. -/
  | rename (old new : N)
  /-- Remove a file. -/
  | remove (name : N)
  deriving DecidableEq, Repr

namespace Dir

variable {N : Type} [DecidableEq N]

/-- The file of that name. -/
def file? (d : Dir N) (name : N) : Option File :=
  (d.lookup name).bind Entry.file

/-- What a reader of the file sees. -/
def read? (d : Dir N) (name : N) : Option Bytes :=
  (d.file? name).map File.data

/-- Replace the bytes of an existing file. -/
def modify (d : Dir N) (name : N) (f : File → File) : Option (Dir N) :=
  match d.lookup name with
  | some ⟨some file, durable⟩ => some (d.insert name ⟨some (f file), durable⟩)
  | _ => none

/-- Overwrite from a position on. -/
def overwrite (old : Bytes) (position : Nat) (data : Bytes) : Bytes :=
  old.take position ++ data ++ old.drop (position + data.length)

/-- Every entry becomes durable. -/
def synced (d : Dir N) : Dir N :=
  ⟨d.entries.map fun e => ⟨e.1, { e.2 with durable := true }⟩, by
    have keys : (d.entries.map fun e => (⟨e.1, { e.2 with durable := true }⟩ :
        Sigma fun _ : N => Entry)).keys = d.entries.keys := by
      simp [List.keys]
    rw [List.NodupKeys, keys]
    exact d.nodupKeys⟩

def exec : DirOp N → Dir N → Option (Dir N)
  | .create name, d =>
      if name ∈ d then none else some (d.insert name ⟨some ⟨[], []⟩, false⟩)
  | .write name data, d => d.modify name fun f => { f with data := f.data ++ data }
  | .writeAt name position data, d =>
      d.modify name fun f => { f with data := overwrite f.data position data }
  | .truncate name size, d => d.modify name fun f => { f with data := f.data.take size }
  | .sync name, d => d.modify name fun f => { f with disk := f.data }
  | .syncDir, d => some d.synced
  | .rename old new, d =>
      match d.lookup old with
      | some ⟨some file, _⟩ => some ((d.erase old).insert new ⟨some file, false⟩)
      | _ => none
  | .remove name, d =>
      match d.lookup name with
      | some ⟨some _, _⟩ => some (d.erase name)
      | _ => none

/-- A write may leave any number of its bytes; every other operation is atomic. -/
inductive Cut : DirOp N → Dir N → Dir N → Prop where
  | write {name : N} {data : Bytes} {d d' : Dir N} (count : Nat) :
      exec (.write name (data.take count)) d = some d' → Cut (.write name data) d d'
  | writeAt {name : N} {position : Nat} {data : Bytes} {d d' : Dir N} (count : Nat) :
      exec (.writeAt name position (data.take count)) d = some d' →
      Cut (.writeAt name position data) d d'

def device : Device (DirOp N) (Dir N) :=
  ⟨exec, Cut⟩

@[simp] theorem device_exec (o : DirOp N) (d : Dir N) : device.exec o d = exec o d :=
  rfl

/-! ### What the operations do to each entry -/

/-- A file changes in place. -/
theorem modify_eq_some {d d' : Dir N} {name : N} {f : File → File} :
    d.modify name f = some d' ↔
      ∃ file durable, d.lookup name = some ⟨some file, durable⟩ ∧
        d' = d.insert name ⟨some (f file), durable⟩ := by
  unfold modify
  split
  · rename_i file durable found
    constructor
    · rintro ⟨⟩
      exact ⟨file, durable, found, rfl⟩
    · rintro ⟨file', durable', found', rfl⟩
      rw [found] at found'
      cases found'
      rfl
  · rename_i other
    simp only [reduceCtorEq, false_iff]
    rintro ⟨file, durable, found, _⟩
    exact other file durable found

/-- A sync makes all entries durable and changes nothing else. -/
theorem lookup_synced (d : Dir N) (name : N) :
    d.synced.lookup name = (d.lookup name).map fun e => { e with durable := true } := by
  obtain ⟨entries, nodup⟩ := d
  simp only [synced, AList.lookup]
  induction entries with
  | nil => rfl
  | cons e entries ih =>
      obtain ⟨key, entry⟩ := e
      by_cases h : key = name
      · subst h
        simp
      · have rest := ih (List.nodupKeys_cons.1 nodup).2
        have here : ∀ (b : Entry) (l : List (Sigma fun _ : N => Entry)),
            List.dlookup name (⟨key, b⟩ :: l) = List.dlookup name l :=
          fun b l => List.dlookup_cons_ne l ⟨key, b⟩ (Ne.symm h)
        rw [List.map_cons, here, here]
        exact rest

@[simp] theorem mem_synced {d : Dir N} {name : N} : name ∈ d.synced ↔ name ∈ d := by
  rw [← AList.lookup_isSome, ← AList.lookup_isSome, lookup_synced, Option.isSome_map]

/-- A file is created where there is none, and empty. -/
theorem exec_create_eq_some {d d' : Dir N} {name : N} :
    exec (.create name) d = some d' ↔
      name ∉ d ∧ d' = d.insert name ⟨some ⟨[], []⟩, false⟩ := by
  by_cases h : name ∈ d <;> simp [exec, h, eq_comm]

/-- A rename takes the file along; the new name is not durable yet. -/
theorem exec_rename_eq_some {d d' : Dir N} {old new : N} :
    exec (.rename old new) d = some d' ↔
      ∃ file durable, d.lookup old = some ⟨some file, durable⟩ ∧
        d' = (d.erase old).insert new ⟨some file, false⟩ := by
  simp only [exec]
  split
  · rename_i file durable found
    constructor
    · rintro ⟨⟩
      exact ⟨file, durable, found, rfl⟩
    · rintro ⟨file', durable', found', rfl⟩
      rw [found] at found'
      cases found'
      rfl
  · rename_i other
    simp only [reduceCtorEq, false_iff]
    rintro ⟨file, durable, found, _⟩
    exact other file durable found

/-! ### Entries an operation leaves alone -/

end Dir

namespace DirOp

variable {N : Type}

/-- The names whose entry an operation changes. -/
def touches : DirOp N → List N
  | .create name | .write name _ | .writeAt name _ _ | .truncate name _ | .sync name
  | .remove name => [name]
  | .syncDir => []
  | .rename old new => [old, new]

end DirOp

/-- The entry stays as it is, or becomes durable. -/
def Entry.Settles (before after : Option Entry) : Prop :=
  after = before ∨ after = before.map fun e => { e with durable := true }

namespace Entry.Settles

theorem refl (e : Option Entry) : Settles e e :=
  .inl rfl

/-- What settles twice settles. -/
theorem trans {a b c : Option Entry} (first : Settles a b) (second : Settles b c) :
    Settles a c := by
  rcases first with rfl | rfl
  · exact second
  · rcases second with rfl | rfl
    · exact .inr rfl
    · refine .inr ?_
      cases a <;> rfl

/-- The file stays the same while its entry settles. -/
theorem file {a b : Option Entry} (settles : Settles a b) :
    b.bind Entry.file = a.bind Entry.file := by
  rcases settles with rfl | rfl
  · rfl
  · cases a <;> rfl

theorem map_file {a b : Option Entry} (settles : Settles a b) :
    b.map Entry.file = a.map Entry.file := by
  rcases settles with rfl | rfl
  · rfl
  · cases a <;> rfl

end Entry.Settles

namespace Dir

variable {N : Type} [DecidableEq N]

theorem lookup_modify_of_ne {d d' : Dir N} {name other : N} {f : File → File}
    (done : d.modify name f = some d') (ne : other ≠ name) :
    d'.lookup other = d.lookup other := by
  obtain ⟨file, durable, _, rfl⟩ := modify_eq_some.1 done
  exact AList.lookup_insert_ne ne

/-- An operation leaves the names alone that it does not touch, but for durability. -/
theorem exec_settles {o : DirOp N} {d d' : Dir N} {name : N} (done : exec o d = some d')
    (untouched : name ∉ o.touches) : Entry.Settles (d.lookup name) (d'.lookup name) := by
  cases o with
  | create other =>
      obtain ⟨_, rfl⟩ := exec_create_eq_some.1 done
      exact .inl (AList.lookup_insert_ne (by simpa [DirOp.touches] using untouched))
  | write other _ | writeAt other _ _ | truncate other _ | sync other =>
      exact .inl (lookup_modify_of_ne done (by simpa [DirOp.touches] using untouched))
  | syncDir =>
      obtain rfl : d.synced = d' := Option.some.inj done
      exact .inr (lookup_synced d name)
  | rename old new =>
      obtain ⟨file, durable, _, rfl⟩ := exec_rename_eq_some.1 done
      simp only [DirOp.touches, List.mem_cons, List.not_mem_nil, or_false, not_or] at untouched
      refine .inl ?_
      rw [AList.lookup_insert_ne untouched.2, AList.lookup_erase_ne untouched.1]
  | remove other =>
      have ne : name ≠ other := by simpa [DirOp.touches] using untouched
      simp only [exec] at done
      split at done
      · obtain rfl := Option.some.inj done
        exact .inl (AList.lookup_erase_ne ne)
      · simp at done

/-- So does one that is cut short. -/
theorem Cut.settles {o : DirOp N} {d d' : Dir N} {name : N} (torn : Cut o d d')
    (untouched : name ∉ o.touches) : Entry.Settles (d.lookup name) (d'.lookup name) := by
  cases torn with
  | write count done => exact exec_settles done (by simpa [DirOp.touches] using untouched)
  | writeAt count done => exact exec_settles done (by simpa [DirOp.touches] using untouched)

section Frame

variable {ε α : Type} {p : Prog (DirOp N) (Dir N) ε α} {name : N}

/-- A program that does not touch a name leaves its entry alone. -/
theorem run_settles (only : p.Only fun o => name ∉ o.touches) (d : Dir N) :
    Entry.Settles (d.lookup name) ((Prog.run device p d).2.lookup name) :=
  Prog.Only.run (R := fun d d' => Entry.Settles (d.lookup name) (d'.lookup name)) only
    (fun _ => .refl _) (fun _ _ _ => .trans) (fun _ _ _ untouched done =>
      exec_settles done untouched) d

/-- Programs that do not touch a name, stopped anywhere. -/
theorem crash_settles (only : p.Only fun o => name ∉ o.touches) {d d' : Dir N}
    (stop : Prog.Crash device p d d') : Entry.Settles (d.lookup name) (d'.lookup name) :=
  Prog.Only.crash (R := fun d d' => Entry.Settles (d.lookup name) (d'.lookup name)) only
    (fun _ => .refl _) (fun _ _ _ => .trans) (fun _ _ _ untouched done =>
      exec_settles done untouched) (fun _ _ _ untouched torn => Cut.settles torn untouched) stop

/-- The same for programs that end, with any faults. -/
theorem runs_settles (only : p.Only fun o => name ∉ o.touches) {d d' : Dir N}
    {result : Except ε α} (ran : Prog.Runs device p d result d') :
    Entry.Settles (d.lookup name) (d'.lookup name) :=
  Prog.Only.runs (R := fun d d' => Entry.Settles (d.lookup name) (d'.lookup name)) only
    (fun _ => .refl _) (fun _ _ _ => .trans) (fun _ _ _ untouched done =>
      exec_settles done untouched) (fun _ _ _ untouched torn => Cut.settles torn untouched) ran

end Frame

theorem read?_of_settles {d d' : Dir N} {name : N}
    (settles : Entry.Settles (d.lookup name) (d'.lookup name)) :
    d'.read? name = d.read? name := by
  rw [read?, read?, file?, file?, settles.file]

end Dir

/-! ## Machine crashes -/

/-- What is left of a file: it comes from the written or from the synced bytes, and
nothing on which both agree is lost. -/
structure File.Loses (f f' : File) : Prop where
  source : f'.data <+: f.data ∨ f'.data <+: f.disk
  keeps : ∀ bs, bs <+: f.data → bs <+: f.disk → bs <+: f'.data
  settled : f'.disk = f'.data

/-- Only an entry that is not durable can vanish. -/
inductive Entry.Loses : Option Entry → Option Entry → Prop where
  | absent : Loses none none
  | vanished {e : Entry} : e.durable = false → Loses (some e) none
  | directory {durable : Bool} : Loses (some ⟨none, durable⟩) (some ⟨none, true⟩)
  | file {f f' : File} {durable : Bool} : f.Loses f' →
      Loses (some ⟨some f, durable⟩) (some ⟨some f', true⟩)

/-- What a machine crash may leave of a directory. -/
def Dir.Loses {N : Type} [DecidableEq N] (d d' : Dir N) : Prop :=
  ∀ name, Entry.Loses (d.lookup name) (d'.lookup name)

/-! ## Trees of directories -/

abbrev Path (N : Type) := List N

/-- The directories of a tree by their path from the root. -/
abbrev FS (N : Type) := Path N → Option (Dir N)

inductive FsOp (N : Type) where
  | inDir (path : Path N) (op : DirOp N)
  | mkdir (path : Path N) (name : N)
  /-- Remove an empty directory. -/
  | rmdir (path : Path N) (name : N)
  deriving DecidableEq, Repr

namespace FS

variable {N : Type} [DecidableEq N]

/-- The tree with another directory at `path`. -/
def set (fs : FS N) (path : Path N) (d : Option (Dir N)) : FS N :=
  Function.update fs path d

@[simp] theorem set_self (fs : FS N) (path : Path N) (d : Option (Dir N)) :
    fs.set path d path = d :=
  Function.update_self ..

theorem set_of_ne {fs : FS N} {path path' : Path N} {d : Option (Dir N)} (ne : path' ≠ path) :
    fs.set path d path' = fs path' :=
  Function.update_of_ne ne ..

theorem set_set (fs : FS N) (path : Path N) (d d' : Option (Dir N)) :
    (fs.set path d).set path d' = fs.set path d' :=
  Function.update_idem ..

/-- Writing back what is there is no change. -/
theorem set_eq_self {fs : FS N} {path : Path N} {d : Option (Dir N)} (same : fs path = d) :
    fs.set path d = fs := by
  rw [← same]
  exact Function.update_eq_self ..

def exec : FsOp N → FS N → Option (FS N)
  | .inDir path o, fs =>
      match fs path with
      | some d => (Dir.exec o d).map fun d' => fs.set path (some d')
      | none => none
  | .mkdir path name, fs =>
      match fs path with
      | some d =>
          if name ∈ d then none
          else some ((fs.set path (some (d.insert name ⟨none, false⟩))).set (path ++ [name])
            (some ∅))
      | none => none
  | .rmdir path name, fs =>
      match fs path, fs (path ++ [name]) with
      | some d, some sub =>
          if sub.keys = [] then some ((fs.set path (some (d.erase name))).set (path ++ [name]) none)
          else none
      | _, _ => none

inductive Cut : FsOp N → FS N → FS N → Prop where
  | inDir {path : Path N} {o : DirOp N} {fs : FS N} {d d' : Dir N} :
      fs path = some d → Dir.Cut o d d' → Cut (.inDir path o) fs (fs.set path (some d'))

def device : Device (FsOp N) (FS N) :=
  ⟨exec, Cut⟩

end FS

/-! ### Directories an operation leaves alone -/

namespace FsOp

variable {N : Type}

/-- The directories that an operation changes. -/
def dirs : FsOp N → List (Path N)
  | .inDir path _ => [path]
  | .mkdir path name | .rmdir path name => [path, path ++ [name]]

end FsOp

namespace FS

variable {N : Type} [DecidableEq N] {path : Path N}

/-- An operation changes the directories that it names. -/
theorem exec_frame {o : FsOp N} {fs fs' : FS N} (done : exec o fs = some fs')
    (untouched : path ∉ o.dirs) : fs' path = fs path := by
  cases o with
  | inDir other op =>
      have ne : path ≠ other := by simpa [FsOp.dirs] using untouched
      simp only [exec] at done
      split at done
      · obtain ⟨d', _, rfl⟩ := Option.map_eq_some_iff.1 done
        exact set_of_ne ne
      · cases done
  | mkdir other name =>
      simp only [FsOp.dirs, List.mem_cons, List.not_mem_nil, or_false, not_or] at untouched
      simp only [exec] at done
      split at done
      · split at done
        · cases done
        · obtain rfl := Option.some.inj done
          rw [set_of_ne untouched.2, set_of_ne untouched.1]
      · cases done
  | rmdir other name =>
      simp only [FsOp.dirs, List.mem_cons, List.not_mem_nil, or_false, not_or] at untouched
      simp only [exec] at done
      split at done
      · split at done
        · obtain rfl := Option.some.inj done
          rw [set_of_ne untouched.2, set_of_ne untouched.1]
        · cases done
      · cases done

/-- Also an operation that is cut short changes no others. -/
theorem Cut.frame {o : FsOp N} {fs fs' : FS N} (torn : Cut o fs fs') (untouched : path ∉ o.dirs) :
    fs' path = fs path := by
  cases torn with
  | inDir found inner => exact set_of_ne (by simpa [FsOp.dirs] using untouched)

/-- A program that does not touch a directory leaves it alone. -/
theorem runs_frame {ε α : Type} {p : Prog (FsOp N) (FS N) ε α}
    (only : p.Only fun o => path ∉ o.dirs) {fs fs' : FS N} {result : Except ε α}
    (ran : Prog.Runs device p fs result fs') : fs' path = fs path := by
  refine Prog.Only.runs (R := fun before after : FS N => after path = before path) only
    (fun _ => rfl) ?_ ?_ ?_ ran
  · intro a b c first second
    exact second.trans first
  · intro o s s' untouched done
    exact exec_frame done untouched
  · intro o s s' untouched torn
    exact Cut.frame torn untouched

end FS

namespace Prog

variable {N : Type} [DecidableEq N] {ε α : Type}

/-- A program on one directory, run in the directory at `path`. -/
def atPath (path : Path N) : Prog (DirOp N) (Dir N) ε α → Prog (FsOp N) (FS N) ε α
  | .done result => .done result
  | .op o next => .op (.inDir path o) fun ok => (next ok).atPath path
  | .look next => .look fun fs => (next ((fs path).getD ∅)).atPath path

omit [DecidableEq N] in
/-- A program in a directory performs operations there. -/
theorem only_atPath {P : FsOp N → Prop} {path : Path N} {p : Prog (DirOp N) (Dir N) ε α}
    (allowed : ∀ o, P (.inDir path o)) : (p.atPath path).Only P := by
  induction p with
  | done result => trivial
  | op o next ih => exact ⟨allowed o, ih⟩
  | look next ih => exact fun fs => ih _

/-- A run of a program at `path` is a run in that directory. -/
theorem runs_atPath {path : Path N} {p : Prog (DirOp N) (Dir N) ε α} {fs fs' : FS N} {d : Dir N}
    {result : Except ε α} (found : fs path = some d) :
    Runs FS.device (p.atPath path) fs result fs' ↔
      ∃ d', Runs Dir.device p d result d' ∧ fs' = fs.set path (some d') := by
  constructor
  · intro runs
    induction p generalizing fs d with
    | done first =>
        obtain ⟨rfl, rfl⟩ := runs_done.1 runs
        exact ⟨d, .done, (FS.set_eq_self found).symm⟩
    | op o next ih =>
        cases runs with
        | fault torn later =>
            rcases torn with rfl | torn
            · obtain ⟨d', ran, rfl⟩ := ih false found later
              exact ⟨d', .fault (.inl rfl) ran, rfl⟩
            · cases torn with
              | @inDir _ _ _ d₀ d₁ found' torn =>
                  obtain rfl : d = d₀ := Option.some.inj (found.symm.trans found')
                  obtain ⟨d', ran, rfl⟩ := ih false (FS.set_self ..) later
                  exact ⟨d', .fault (.inr torn) ran, FS.set_set ..⟩
        | @performed _ _ _ mid _ _ done later =>
            cases h : Dir.exec o d with
            | none => simp [FS.device, FS.exec, found, h] at done
            | some d₁ =>
                obtain rfl : fs.set path (some d₁) = mid := by
                  simpa [FS.device, FS.exec, found, h] using done
                obtain ⟨d', ran, rfl⟩ := ih true (FS.set_self ..) later
                exact ⟨d', .performed h ran, FS.set_set ..⟩
    | look next ih =>
        cases runs with
        | look later =>
            simp only [found, Option.getD_some] at later
            obtain ⟨d', ran, rfl⟩ := ih d found later
            exact ⟨d', .look ran, rfl⟩
  · intro inside
    obtain ⟨d', ran, rfl⟩ := inside
    induction ran generalizing fs with
    | done =>
        rw [FS.set_eq_self found]
        exact .done
    | fault torn _ ih =>
        rcases torn with rfl | torn
        · exact .fault (.inl rfl) (ih found)
        · have later := ih (FS.set_self fs path _)
          rw [FS.set_set] at later
          exact .fault (.inr (.inDir found torn)) later
    | @performed o next s mid _ _ done _ ih =>
        have inner : Dir.exec o s = some mid := done
        have later := ih (FS.set_self fs path _)
        rw [FS.set_set] at later
        refine .performed ?_ later
        simp [FS.device, FS.exec, found, inner]
    | look _ ih =>
        refine .look ?_
        simp only [found, Option.getD_some]
        exact ih found

end Prog

end Immulog.Lib
