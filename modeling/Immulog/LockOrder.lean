import Immulog.Lib.Locks

/-!
The acquire/release steps of the public calls on `store.mu` and on the `mu` of
the partitions (`src/storage`: `retention.go`, `consumer.go`,
`group_consumer.go`, `fetch.go`, `writer.go`, `catalog.go`, `stats.go`).

Retention takes a partition's `mu` first and `store.mu` inside it; commits and
consumer opens take `store.mu` first and the partition's `mu` inside it.
`no_wait_cycle_iff` states exactly which sets of concurrent calls are free of
wait cycles.
-/

namespace Immulog.LockOrder

open Lib.Locks

/-- The mutexes: `store.mu`, the `mu` of the two system partitions, of the
partition objects registered in `store.partitions`, and of partition objects
that a call has opened itself and not registered. -/
inductive Mutex (ι P : Type*) where
  | store
  | catalog
  | offsets
  | partition (p : P)
  | unpublished (owner : ι) (index : Nat)
  deriving DecidableEq, Repr

/-- The partition object a consumer open works on: one already registered, or one
this call opens and registers while it holds `store.mu`. -/
inductive Target (P : Type*) where
  | registered (p : P)
  | opened (index : Nat)
  deriving DecidableEq, Repr

section Programs

variable {ι P : Type*}

def Target.mutex (i : ι) : Target P → Mutex ι P
  | .registered p => .partition p
  | .opened index => .unpublished i index

/-- `mu.Lock(); …; mu.Unlock()`. -/
def locked (mutex : Mutex ι P) (body : Prog (Mutex ι P)) : Prog (Mutex ι P) :=
  .critical mutex .exclusive body

/-- `mu.RLock(); …; mu.RUnlock()`. -/
def rLocked (mutex : Mutex ι P) (body : Prog (Mutex ι P)) : Prog (Mutex ι P) :=
  .critical mutex .shared body

/-! ## Helpers of the public calls -/

/-- `Partition.EndOffset`, `Partition.validateReadOffset` and
`resolveConsumerStart` read under the shared lock and may fail. -/
def endOffset (mutex : Mutex ι P) : Prog (Mutex ι P) :=
  rLocked mutex .check

def validateReadOffset (mutex : Mutex ι P) : Prog (Mutex ι P) :=
  rLocked mutex .check

def resolveConsumerStart (mutex : Mutex ι P) : Prog (Mutex ι P) :=
  rLocked mutex .check

/-- `Partition.AppendBatch`: admission checks, then the append under `mu`. -/
def appendBatch (mutex : Mutex ι P) : Prog (Mutex ι P) :=
  .seq .check (locked mutex .check)

/-- `Partition.Close` (`closeWriter`): fence, drain, then close the segments. -/
def closePartition (mutex : Mutex ι P) : Prog (Mutex ι P) :=
  .opt (.seq (locked mutex .skip) (locked mutex .skip))

def markIngressUnavailable (mutex : Mutex ι P) : Prog (Mutex ι P) :=
  locked mutex .skip

/-- `writeRequests`, which the partition's writer performs for admitted appends. -/
def writeRequests (mutex : Mutex ι P) : Prog (Mutex ι P) :=
  .seq (locked mutex .skip) (.opt (markIngressUnavailable mutex))

def partitionStats (mutex : Mutex ι P) : Prog (Mutex ι P) :=
  rLocked mutex .skip

/-- `appendOffsetsEventLocked`; the caller holds `store.mu`. -/
def appendOffsetsEventLocked : Prog (Mutex ι P) :=
  .seq .check <| .seq (endOffset .offsets) <|
    .seq (rLocked .offsets .check) (appendBatch .offsets)

/-- `openConsumerPartitionLocked`; a partition opened here whose retained anchor
does not match is closed again. -/
def openConsumerPartitionLocked (i : ι) : Target P → Prog (Mutex ι P)
  | .registered _ => .check
  | .opened index => .seq .check (.opt (.seq (closePartition (.unpublished i index)) .exit))

def openRetentionPartition (i : ι) (index : Nat) : Prog (Mutex ι P) :=
  locked .store (.seq .check (.opt (.seq (closePartition (.unpublished i index)) .exit)))

def releaseRetentionPartition (p : P) : Prog (Mutex ι P) :=
  .seq (locked .store .check) <|
    .seq (closePartition (.partition p)) (locked .store .skip)

/-- `retainPartitionAt` evaluates one partition: `partition.mu`, then `store.mu`
inside it, then the catalog append inside both. -/
def retainPartitionAt (p : P) : Prog (Mutex ι P) :=
  locked (.partition p) <| .seq .check <|
    locked .store (.seq .check (appendBatch .catalog))

def reconcileRetiredCleanup : Prog (Mutex ι P) :=
  locked .store .skip

def closePrepared (i : ι) (partitions : Nat) : Prog (Mutex ι P) :=
  .forEach (List.range partitions) fun index => closePartition (.unpublished i index)

def cleanupStats : Prog (Mutex ι P) :=
  locked .store .skip

/-! ## Public calls -/

/-- The loop body of `runRetentionAt`: an error of one partition does not stop the
loop. -/
def retentionVisit (i : ι) (visit : P × Nat) : Prog (Mutex ι P) :=
  .seq .check <| .scope <|
    .seq (openRetentionPartition i visit.2) <|
      .seq (.scope (retainPartitionAt visit.1)) (.opt (releaseRetentionPartition visit.1))

/-- `RunRetention`. -/
def runRetention (i : ι) (evaluated : List P) : Prog (Mutex ι P) :=
  .seq .check <| .seq (locked .store .check) <|
    .seq reconcileRetiredCleanup <| .seq .check <|
      .forEach evaluated.zipIdx (retentionVisit i)

/-- `Consumer.Commit`. -/
def consumerCommit (p : P) : Prog (Mutex ι P) :=
  .seq .check <| locked .store <| .seq .check <|
    .seq (endOffset (.partition p)) <| .seq .check appendOffsetsEventLocked

/-- `GroupConsumer.cursor`. -/
def groupConsumerCursor : Prog (Mutex ι P) :=
  locked .store .check

/-- `GroupConsumer.Commit`. -/
def groupConsumerCommit (p : P) : Prog (Mutex ι P) :=
  .seq groupConsumerCursor (consumerCommit p)

/-- `OpenConsumer`. -/
def openConsumer (i : ι) (target : Target P) : Prog (Mutex ι P) :=
  .seq .check <| locked .store <| .seq .check <|
    .seq (openConsumerPartitionLocked i target) <| .seq .check <|
      .seq (.opt (.seq (resolveConsumerStart (target.mutex i))
        (.seq .check appendOffsetsEventLocked))) <|
        .seq .check <|
          .seq (.choose (validateReadOffset (target.mutex i))
            (.opt (resolveConsumerStart (target.mutex i)))) <|
            .seq .check appendOffsetsEventLocked

/-- The loop body of `OpenConsumerGroup` that resolves one resume position. -/
def resumeSubscription (i : ι) (target : Target P) : Prog (Mutex ι P) :=
  .seq (openConsumerPartitionLocked i target) <|
    .choose (validateReadOffset (target.mutex i)) (resolveConsumerStart (target.mutex i))

/-- `OpenConsumerGroup`: a new group with explicit starts first validates every
start; then every subscription resolves its resume position. -/
def openConsumerGroup (i : ι) (targets : List (Target P)) : Prog (Mutex ι P) :=
  .seq .check <| locked .store <| .seq .check <|
    .seq (.opt (.forEach targets fun target =>
      .seq (openConsumerPartitionLocked i target) (resolveConsumerStart (target.mutex i)))) <|
      .seq (.opt (.seq .check appendOffsetsEventLocked)) <| .seq .check <|
        .seq (.forEach targets (resumeSubscription i)) <|
          .seq .check appendOffsetsEventLocked

/-- `Partition.Fetch`; the unavailability mark is set after the shared lock is
released. -/
def fetch (p : P) : Prog (Mutex ι P) :=
  .seq .check <| .seq (rLocked (.partition p) .skip)
    (.opt (markIngressUnavailable (.partition p)))

/-- `Partition.Append`. -/
def append (p : P) : Prog (Mutex ι P) :=
  .seq .check (writeRequests (.partition p))

/-- `CreateTopic` (`createTopic`). -/
def createTopic (i : ι) (partitions : Nat) : Prog (Mutex ι P) :=
  .seq .check <| locked .store <| .seq .check <|
    .seq (.opt (.seq (closePrepared i partitions) .exit)) <|
      .seq (.scope (appendBatch .catalog)) (.opt (closePrepared i partitions))

/-- `Store.Stats`. -/
def storeStats : Prog (Mutex ι P) :=
  .seq (locked .store .check) <| .seq cleanupStats <|
    .seq (partitionStats .catalog) (partitionStats .offsets)

end Programs

/-- A public call with the partition objects it works on. -/
inductive Call (P : Type*) where
  | runRetention (evaluated : List P)
  | consumerCommit (p : P)
  | groupConsumerCommit (p : P)
  | openConsumer (target : Target P)
  | openConsumerGroup (targets : List (Target P))
  | fetch (p : P)
  | append (p : P)
  | createTopic (partitions : Nat)
  | stats
  deriving DecidableEq, Repr

namespace Call

variable {ι P : Type*}

/-- The lock program of call number `i`. -/
def prog (i : ι) : Call P → Prog (Mutex ι P)
  | .runRetention evaluated => LockOrder.runRetention i evaluated
  | .consumerCommit p => LockOrder.consumerCommit p
  | .groupConsumerCommit p => LockOrder.groupConsumerCommit p
  | .openConsumer target => LockOrder.openConsumer i target
  | .openConsumerGroup targets => LockOrder.openConsumerGroup i targets
  | .fetch p => LockOrder.fetch p
  | .append p => LockOrder.append p
  | .createTopic partitions => LockOrder.createTopic i partitions
  | .stats => storeStats

/-- The call is a retention pass that evaluates `p`. -/
def Evaluates (p : P) : Call P → Prop
  | .runRetention evaluated => p ∈ evaluated
  | _ => False

/-- The call takes the `mu` of `p` while it holds `store.mu`. -/
def LocksUnderStore (p : P) : Call P → Prop
  | .consumerCommit q | .groupConsumerCommit q => q = p
  | .openConsumer target => target = .registered p
  | .openConsumerGroup targets => .registered p ∈ targets
  | _ => False

end Call

/-! ## The nesting of every call -/

section Nesting

variable {ι P : Type*}

/-- The nestings a call can perform. -/
inductive Nesting (i : ι) (call : Call P) : Mutex ι P → Mutex ι P → Prop where
  | retention {p : P} {inner : Mutex ι P} :
      call.Evaluates p → inner = .store ∨ inner = .catalog → Nesting i call (.partition p) inner
  | catalog : Nesting i call .store .catalog
  | offsets : Nesting i call .store .offsets
  | unpublished {index : Nat} : Nesting i call .store (.unpublished i index)
  | partition {p : P} : call.LocksUnderStore p → Nesting i call .store (.partition p)

attribute [local simp] Prog.Uses Prog.Nests locked rLocked endOffset validateReadOffset
  resolveConsumerStart appendBatch closePartition markIngressUnavailable writeRequests
  partitionStats appendOffsetsEventLocked openRetentionPartition releaseRetentionPartition
  retainPartitionAt reconcileRetiredCleanup closePrepared cleanupStats groupConsumerCursor
  Target.mutex retentionVisit resumeSubscription

/-- A partition that is opened is not yet published. -/
theorem uses_openConsumerPartitionLocked {i : ι} {target : Target P} {mutex : Mutex ι P}
    (used : (openConsumerPartitionLocked i target).Uses mutex) :
    ∃ index, mutex = .unpublished i index := by
  cases target <;> simp [openConsumerPartitionLocked] at used
  exact ⟨_, used.symm⟩

theorem nests_openConsumerPartitionLocked {i : ι} {target : Target P} {outer inner : Mutex ι P} :
    ¬ (openConsumerPartitionLocked i target).Nests outer inner := by
  cases target <;> simp [openConsumerPartitionLocked]

theorem nesting_target {i : ι} {call : Call P} {target : Target P}
    (registered : ∀ p, target = .registered p → call.LocksUnderStore p) :
    Nesting i call .store (target.mutex i) := by
  cases target with
  | registered p => exact .partition (registered p rfl)
  | opened index => exact .unpublished

/-- What retention locks while it holds a lock. -/
theorem nests_runRetention {i : ι} {evaluated : List P} {outer inner : Mutex ι P}
    (nested : (runRetention i evaluated).Nests outer inner) :
    Nesting i (.runRetention evaluated) outer inner := by
  have shape : ∃ p index, (p, index) ∈ evaluated.zipIdx ∧
      (.store = outer ∧ .unpublished i index = inner ∨
        .partition p = outer ∧ (.store = inner ∨ .catalog = inner) ∨
          .store = outer ∧ .catalog = inner) := by
    simpa [runRetention] using nested
  obtain ⟨p, index, visited, ⟨rfl, rfl⟩ | ⟨rfl, either⟩ | ⟨rfl, rfl⟩⟩ := shape
  · exact .unpublished
  · exact .retention (List.fst_mem_of_mem_zipIdx visited) (either.imp Eq.symm Eq.symm)
  · exact .catalog

/-- What a commit locks while it holds a lock. -/
theorem nests_consumerCommit {i : ι} {call : Call P} {p : P} {outer inner : Mutex ι P}
    (under : call.LocksUnderStore p)
    (nested : (consumerCommit p).Nests outer inner) :
    Nesting i call outer inner := by
  have shape : .store = outer ∧ (.partition p = inner ∨ .offsets = inner) := by
    simpa [consumerCommit] using nested
  obtain ⟨rfl, rfl | rfl⟩ := shape
  · exact .partition under
  · exact .offsets

/-- What opening a consumer locks while it holds a lock. -/
theorem nests_openConsumer {i : ι} {target : Target P} {outer inner : Mutex ι P}
    (nested : (openConsumer i target).Nests outer inner) :
    Nesting i (.openConsumer target) outer inner := by
  have shape : .store = outer ∧ ((openConsumerPartitionLocked i target).Uses inner ∨
      target.mutex i = inner ∨ .offsets = inner) := by
    simpa [openConsumer, nests_openConsumerPartitionLocked] using nested
  obtain ⟨rfl, used | rfl | rfl⟩ := shape
  · obtain ⟨index, rfl⟩ := uses_openConsumerPartitionLocked used
    exact .unpublished
  · exact nesting_target fun p registered => registered
  · exact .offsets

/-- What opening a group locks while it holds a lock. -/
theorem nests_openConsumerGroup {i : ι} {targets : List (Target P)} {outer inner : Mutex ι P}
    (nested : (openConsumerGroup i targets).Nests outer inner) :
    Nesting i (.openConsumerGroup targets) outer inner := by
  have shape : .store = outer ∧ ((∃ target ∈ targets,
      (openConsumerPartitionLocked i target).Uses inner ∨ target.mutex i = inner) ∨
        .offsets = inner) := by
    simp [openConsumerGroup, nests_openConsumerPartitionLocked] at nested
    grind [Target.mutex]
  obtain ⟨rfl, ⟨target, subscribed, used | rfl⟩ | rfl⟩ := shape
  · obtain ⟨index, rfl⟩ := uses_openConsumerPartitionLocked used
    exact .unpublished
  · refine nesting_target fun p registered => ?_
    subst registered
    exact subscribed
  · exact .offsets

/-- What creating a topic locks while it holds a lock. -/
theorem nests_createTopic {i : ι} {partitions : Nat} {outer inner : Mutex ι P}
    (nested : (createTopic i partitions).Nests outer inner) :
    Nesting i (.createTopic partitions) outer inner := by
  have shape : .store = outer ∧ ((∃ index < partitions, .unpublished i index = inner) ∨
      .catalog = inner ∨ ∃ index < partitions, .unpublished i index = inner) := by
    simpa [createTopic] using nested
  obtain ⟨rfl, ⟨index, _, rfl⟩ | rfl | ⟨index, _, rfl⟩⟩ := shape
  · exact .unpublished
  · exact .catalog
  · exact .unpublished

/-- Every nested acquisition of every call. -/
theorem Call.nests {i : ι} {call : Call P} {outer inner : Mutex ι P}
    (nested : (call.prog i).Nests outer inner) : Nesting i call outer inner := by
  cases call with
  | runRetention evaluated => exact nests_runRetention nested
  | consumerCommit p => exact nests_consumerCommit rfl nested
  | groupConsumerCommit p =>
      have commit : (LockOrder.consumerCommit p).Nests outer inner := by
        simpa [prog, LockOrder.groupConsumerCommit] using nested
      exact nests_consumerCommit rfl commit
  | openConsumer target => exact nests_openConsumer nested
  | openConsumerGroup targets => exact nests_openConsumerGroup nested
  | fetch p => simp [prog, LockOrder.fetch] at nested
  | append p => simp [prog, LockOrder.append] at nested
  | createTopic partitions => exact nests_createTopic nested
  | stats => simp [prog, storeStats] at nested

/-- No call takes a mutex again that it holds. -/
theorem Call.not_nests_self {i : ι} {call : Call P} {mutex : Mutex ι P} :
    ¬ (call.prog i).Nests mutex mutex := by
  intro nested
  generalize again : mutex = mutex' at nested
  cases Call.nests (again ▸ nested) with
  | retention _ either => rcases either with h | h <;> cases h

end Nesting

/-! ## Reaching the nested request -/

section Reaching

variable {ι P : Type*}

/-- A retention pass that evaluates `p` can come to hold `p.mu` and ask for
`store.mu`. -/
theorem opens_runRetention {i : ι} {evaluated : List P} {p : P} (visited : p ∈ evaluated) :
    ∃ pre, Opens (runRetention i evaluated) pre (.partition p) [] .store .exclusive := by
  obtain ⟨index, at_index⟩ := List.mem_iff_getElem?.1 visited
  have found : (p, index) ∈ evaluated.zipIdx := List.mem_zipIdx_iff_getElem?.2 at_index
  obtain ⟨done, rest, split⟩ := List.append_of_mem found
  have visits : ∀ visit ∈ done, ∃ t, (retentionVisit i visit).Trace t false ∧ ∀ a ∈ t, True := by
    intro visit _
    obtain ⟨u, left, run⟩ := Prog.exists_trace (L := Mutex ι P)
      (.seq (openRetentionPartition i visit.2) <|
        .seq (.scope (retainPartitionAt visit.1)) (.opt (releaseRetentionPartition visit.1)))
    exact ⟨u, .seq .check_pass (.scope run), by simp⟩
  obtain ⟨t, run, _⟩ := Prog.exists_trace_forEach (fun _ => True) visits
  have opened : (openRetentionPartition i index : Prog (Mutex ι P)).Trace _ false :=
    .critical (.seq .check_pass (.left .skip))
  have visit : (retentionVisit i (p, index)).Enters _ (.partition p) .exclusive _ :=
    .afterCheck (.scope (.second opened (.first (.scope .here))))
  unfold runRetention
  rw [split]
  exact ⟨_, _, _, .afterCheck <| .second (.critical .check_pass) <|
    .second (.critical .skip) <| .afterCheck <| .forEach rest run visit, .afterCheck .here⟩

/-- Both commits hold `store.mu` when they ask for the `mu` of their partition. -/
theorem opens_consumerCommit {p : P} :
    Opens (consumerCommit p : Prog (Mutex ι P)) [] .store [] (.partition p) .shared :=
  ⟨_, _, .afterCheck .here, .afterCheck (.first .here)⟩

/-- A group's commit takes the lock of its partition under that of the store. -/
theorem opens_groupConsumerCommit {p : P} :
    Opens (groupConsumerCommit p : Prog (Mutex ι P))
      [.acquire .store .exclusive, .release .store .exclusive]
      .store [] (.partition p) .shared :=
  ⟨_, _, .second (.critical .check_pass) (.afterCheck .here), .afterCheck (.first .here)⟩

/-- A consumer that is opened takes the lock of its partition under that of the store. -/
theorem opens_openConsumer {i : ι} {p : P} :
    Opens (openConsumer i (.registered p)) [] .store [] (.partition p) .shared :=
  ⟨_, _, .afterCheck .here, .afterCheck <| .second .check_pass <| .afterCheck <|
    .first (.right (.first .here))⟩

/-- A subscription other than `p` resolves its resume position without touching
`p.mu`. -/
theorem exists_trace_subscription {i : ι} {p : P} {target : Target P}
    (other : target ≠ .registered p) :
    ∃ t, (resumeSubscription i target).Trace t false ∧
      ∀ a ∈ t, ∀ mode, a ≠ .acquire (.partition p) mode := by
  have opened : (openConsumerPartitionLocked i target).Trace [] false := by
    cases target with
    | registered q => exact .check_pass
    | opened index => exact .seq .check_pass (.left .skip)
  refine ⟨_, .seq opened (.left (.critical .check_pass)), ?_⟩
  cases target with
  | registered q =>
      have different : q ≠ p := fun same => other (same ▸ rfl)
      simp [Target.mutex, different]
  | opened index => simp [Target.mutex]

/-- A group that is opened does so for each partition it subscribes to. -/
theorem opens_openConsumerGroup {i : ι} {targets : List (Target P)} {p : P}
    (subscribed : .registered p ∈ targets) :
    ∃ mid, Opens (openConsumerGroup i targets) [] .store mid (.partition p) .shared ∧
      ∀ a ∈ mid, ∀ mode, a ≠ .acquire (.partition p) mode := by
  classical
  obtain ⟨done, rest, split, fresh⟩ := List.eq_append_cons_of_mem subscribed
  have resumes : ∀ target ∈ done, ∃ t, (resumeSubscription i target).Trace t false ∧
      ∀ a ∈ t, ∀ mode, a ≠ .acquire (.partition p) mode := by
    intro target earlier
    exact exists_trace_subscription fun same => fresh (same ▸ earlier)
  obtain ⟨t, run, avoids⟩ := Prog.exists_trace_forEach _ resumes
  have resumed : (resumeSubscription i (.registered p)).Enters [] (.partition p) .shared .check :=
    .afterCheck (.left .here)
  have entered : (Prog.forEach targets (resumeSubscription i)).Enters
      t (.partition p) .shared .check := by
    rw [split]
    simpa using Prog.Enters.forEach rest run resumed
  exact ⟨t, ⟨_, _, .afterCheck .here, .afterCheck <| .second (.left .skip) <|
    .second (.left .skip) <| .afterCheck <| .first entered⟩, avoids⟩

end Reaching

/-! ## Wait cycles -/

section Cycles

variable {ι P : Type*}

/-- Every call that takes `p.mu` under `store.mu` can come to hold `store.mu` and
ask for `p.mu`, without having touched `p.mu` before. -/
theorem Call.exists_opens {i : ι} {call : Call P} {p : P} (under : call.LocksUnderStore p) :
    ∃ pre mid, Opens (call.prog i) pre .store mid (.partition p) .shared ∧
      ∀ l m, .acquire l m ∈ pre ++ mid → l ≠ .partition p := by
  cases call with
  | consumerCommit q =>
      cases under
      exact ⟨[], [], opens_consumerCommit, by simp⟩
  | groupConsumerCommit q =>
      cases under
      exact ⟨_, [], opens_groupConsumerCommit, by simp⟩
  | openConsumer target =>
      cases under
      exact ⟨[], [], opens_openConsumer, by simp⟩
  | openConsumerGroup targets =>
      obtain ⟨mid, opens, avoids⟩ := opens_openConsumerGroup (i := i) under
      exact ⟨[], mid, opens, fun l m acquired same => avoids _ acquired m (same ▸ rfl)⟩
  | runRetention | fetch | append | createTopic | stats => cases under

variable [DecidableEq ι] [DecidableEq P]

/-- A retention pass over `p` and a call that takes `p.mu` under `store.mu` can
block each other. -/
theorem exists_waitCycle_of_conflict {calls : ι → Call P} {i j : ι} {p : P}
    (evaluates : (calls i).Evaluates p) (under : (calls j).LocksUnderStore p) :
    ∃ s, Reachable (fun k => (calls k).prog k) s ∧ s.WaitCycle := by
  have distinct : i ≠ j := by
    rintro rfl
    cases h : calls i <;> simp_all [Call.Evaluates, Call.LocksUnderStore]
  obtain ⟨pre', mid', second, avoids⟩ := Call.exists_opens (i := j) under
  have first : ∃ pre, Opens ((calls i).prog i) pre (.partition p) [] .store .exclusive := by
    cases h : calls i with
    | runRetention evaluated =>
        rw [h] at evaluates
        exact opens_runRetention evaluates
    | _ => simp [h, Call.Evaluates] at evaluates
  obtain ⟨pre, first⟩ := first
  exact exists_waitCycle_of_inversion distinct (fun k l => Call.not_nests_self) first second
    (by simp) avoids

open Classical in
/-- Partitions under evaluation come first, then `store.mu`, then everything that
is only taken inside it. -/
noncomputable def mutexRank (calls : ι → Call P) : Mutex ι P → Nat
  | .partition p => if ∃ i, (calls i).Evaluates p then 0 else 2
  | .store => 1
  | .catalog | .offsets | .unpublished _ _ => 2

omit [DecidableEq ι] [DecidableEq P] in
/-- Unless retention and another call meet at a partition, locks are taken in the order of a
rank. -/
theorem rank_lt_of_nests {calls : ι → Call P}
    (apart : ¬ ∃ p i j, (calls i).Evaluates p ∧ (calls j).LocksUnderStore p)
    {i : ι} {outer inner : Mutex ι P} (nested : ((calls i).prog i).Nests outer inner) :
    mutexRank calls outer < mutexRank calls inner := by
  cases Call.nests nested with
  | @retention p _ evaluates either =>
      have evaluated : ∃ i, (calls i).Evaluates p := ⟨i, evaluates⟩
      rcases either with rfl | rfl <;> simp [mutexRank, evaluated]
  | catalog | offsets | unpublished => simp [mutexRank]
  | @partition p under =>
      have quiet : ¬ ∃ i, (calls i).Evaluates p := fun ⟨k, evaluates⟩ =>
        apart ⟨p, k, i, evaluates, under⟩
      simp [mutexRank, quiet]

/-- For any set of concurrent calls, every interleaving is free of wait cycles
exactly when no partition is both evaluated by a retention pass and locked under
`store.mu` by another call. -/
theorem no_wait_cycle_iff (calls : ι → Call P) :
    (∀ s, Reachable (fun i => (calls i).prog i) s → ¬ s.WaitCycle) ↔
      ¬ ∃ p i j, (calls i).Evaluates p ∧ (calls j).LocksUnderStore p := by
  constructor
  · rintro free ⟨p, i, j, evaluates, under⟩
    obtain ⟨s, reached, cycle⟩ := exists_waitCycle_of_conflict evaluates under
    exact free s reached cycle
  · intro apart s reached
    exact noWaitCycle_of_rank (fun i outer inner => rank_lt_of_nests apart) reached

end Cycles

/-- One retention pass and one commit on the same partition. -/
def retentionAndCommit : Bool → Call Unit
  | false => .runRetention [()]
  | true => .consumerCommit ()

/-- The two wait for each other, from a state that they can reach. -/
theorem retention_commit_wait_cycle :
    ∃ s, Reachable (fun i => (retentionAndCommit i).prog i) s ∧ s.WaitCycle :=
  exists_waitCycle_of_conflict (i := false) (j := true) (p := ())
    (List.mem_singleton.2 rfl) rfl

end Immulog.LockOrder
