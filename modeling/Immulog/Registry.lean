import Immulog.Store
import Mathlib.Logic.Relation

/-!
The open partitions of a store, by identity (`src/storage/store.go`, `catalog.go`,
`consumer.go`, `retention.go`).

The maps of the store hold pointers.  Retention opens a partition for a pass and closes it
again, with the lock of the store released in between, while callers may ask for the same
partition; which of them owns it is told by comparing pointers.  Here a pointer is the number
of the open that made it.  The files and the other checks of the calls only decide whether
an open succeeds.
-/

namespace Immulog

open Lib Std

/-- A `*Partition`. -/
abbrev Handle := Nat

structure RetentionRegistration where
  partition : Handle
  retiring : Bool
  deriving DecidableEq

/-- The maps of the store, and the partitions that were made so far. -/
structure Registry where
  maxOpenPartitions : Nat
  partitions : ExtTreeMap TopicKey Handle
  retentionPartitions : ExtTreeMap TopicKey RetentionRegistration
  /-- The key of every partition, in the order of the opens. -/
  made : List TopicKey
  closed : List Handle

/-- How the open of a partition directory ends. -/
inductive OpenOutcome where
  | failed (e : GoError)
  /-- The partition is there, but its first segment is not the anchor of the catalog. -/
  | mismatched (e : GoError)
  | opened

namespace Registry

/-! ## The critical sections -/

/-- `openPartition` and the check of the anchor; a partition that fails it is closed. -/
def openUserPartition (r : Registry) (key : TopicKey) :
    OpenOutcome → Except GoError Handle × Registry
  | .failed e => (.error e, r)
  | .mismatched e =>
      (.error e, { r with made := r.made ++ [key], closed := r.made.length :: r.closed })
  | .opened =>
      (.ok r.made.length,
        { r with made := r.made ++ [key], partitions := r.partitions.insert key r.made.length })

def claimPartitionLocked (r : Registry) (key : TopicKey) :
    Except GoError (Option Handle) × Registry :=
  match r.partitions[key]? with
  | none => (.ok none, r)
  | some partition =>
      match r.retentionPartitions[key]? with
      | none => (.ok (some partition), r)
      | some registration =>
          if registration.partition ≠ partition then (.ok (some partition), r)
          else if registration.retiring then (.error retentionTeardown, r)
          else (.ok (some partition),
            { r with retentionPartitions := r.retentionPartitions.erase key })

def partitionRetiringLocked (r : Registry) (key : TopicKey) : Bool :=
  match r.retentionPartitions[key]? with
  | none => false
  | some registration =>
      registration.retiring && r.partitions[key]? = some registration.partition

/-- `OpenPartition` and `openConsumerPartitionLocked`, from the claim on. -/
def openPartition (r : Registry) (key : TopicKey) (outcome : OpenOutcome) :
    Except GoError Handle × Registry :=
  match r.claimPartitionLocked key with
  | (.error e, r) => (.error e, r)
  | (.ok (some existing), r) => (.ok existing, r)
  | (.ok none, r) =>
      match admitOpenPartitions r.partitions.size 1 r.maxOpenPartitions with
      | .error e => (.error e, r)
      | .ok _ => r.openUserPartition key outcome

/-- One round of `OpenTopic`. -/
def openTopicPartition (r : Registry) (key : TopicKey) (outcome : OpenOutcome) :
    Except GoError Handle × Registry :=
  match r.claimPartitionLocked key with
  | (.error e, r) => (.error e, r)
  | (.ok (some existing), r) => (.ok existing, r)
  | (.ok none, r) => r.openUserPartition key outcome

/-- The loop of `OpenTopic`: each partition with the outcome that an open of it has. -/
def openTopicPartitions :
    List (TopicKey × OpenOutcome) → Registry → Except GoError (List Handle) × Registry
  | [], r => (.ok [], r)
  | (key, outcome) :: rest, r =>
      match r.openTopicPartition key outcome with
      | (.error e, r) => (.error e, r)
      | (.ok partition, r) =>
          let (others, r) := openTopicPartitions rest r
          (others.map (partition :: ·), r)

/-- The keys that have no partition. -/
def missing (r : Registry) (keys : List TopicKey) : Nat :=
  (keys.filter fun key => r.partitions[key]?.isNone).length

/-- `OpenTopic` with the partitions of the topic. -/
def openTopic (r : Registry) (attempts : List (TopicKey × OpenOutcome)) :
    Except GoError (List Handle) × Registry :=
  if ∃ key ∈ attempts.map Prod.fst, r.partitionRetiringLocked key = true then
    (.error retentionTeardown, r)
  else
    match admitOpenPartitions r.partitions.size (r.missing (attempts.map Prod.fst))
        r.maxOpenPartitions with
    | .error e => (.error e, r)
    | .ok _ => openTopicPartitions attempts r

/-- The partition, and whether it is temporary. -/
def openRetentionPartition (r : Registry) (key : TopicKey) (outcome : OpenOutcome) :
    Except GoError (Handle × Bool) × Registry :=
  if r.partitionRetiringLocked key = true then (.error retentionTeardown, r)
  else
    match r.partitions[key]? with
    | some existing => (.ok (existing, false), r)
    | none =>
        match admitOpenPartitions r.partitions.size 1 r.maxOpenPartitions with
        | .error e => (.error e, r)
        | .ok _ =>
            match r.openUserPartition key outcome with
            | (.error e, r) => (.error e, r)
            | (.ok opened, r) =>
                (.ok (opened, true),
                  { r with
                    retentionPartitions := r.retentionPartitions.insert key ⟨opened, false⟩ })

/-- Retention opens a partition that nobody has open, and registers it as its own. -/
theorem openRetentionPartition_new {r : Registry} {key : TopicKey} {u : Unit}
    (calm : ¬ r.partitionRetiringLocked key = true) (free : r.partitions[key]? = none)
    (admitted : admitOpenPartitions r.partitions.size 1 r.maxOpenPartitions = .ok u)
    (outcome : OpenOutcome) :
    r.openRetentionPartition key outcome =
      match r.openUserPartition key outcome with
      | (.error e, r) => (.error e, r)
      | (.ok opened, r) =>
          (.ok (opened, true),
            { r with
              retentionPartitions := r.retentionPartitions.insert key ⟨opened, false⟩ }) := by
  simp only [openRetentionPartition, if_neg calm, free, admitted]

/-- Whether the registration under the key is the one of this partition. -/
def ownsRegistration (r : Registry) (key : TopicKey) (partition : Handle) : Bool :=
  match r.retentionPartitions[key]? with
  | none => false
  | some registration =>
      registration.partition = partition && r.partitions[key]? = some partition

/-- The first critical section of `releaseRetentionPartition`, and whether it goes on. -/
def beginRelease (r : Registry) (key : TopicKey) (partition : Handle) : Bool × Registry :=
  if r.ownsRegistration key partition then
    (true, { r with
      retentionPartitions := r.retentionPartitions.insert key ⟨partition, true⟩ })
  else (false, r)

/-- `Close` -/
def close (r : Registry) (partition : Handle) : Registry :=
  { r with closed := partition :: r.closed }

/-- The second critical section of `releaseRetentionPartition`. -/
def finishRelease (r : Registry) (key : TopicKey) (partition : Handle) : Registry :=
  if r.ownsRegistration key partition then
    { r with
      retentionPartitions := r.retentionPartitions.erase key
      partitions := r.partitions.erase key }
  else r

end Registry

/-! ## Interleavings -/

/-- How far the release of a temporary partition is. -/
inductive ReleaseStage where
  /-- The pass works with the partition. -/
  | held
  | retiring
  | closed
  deriving DecidableEq

/-- The registry with what its callers have: the partitions that public calls returned, the
ones that retention closed, and the releases under way. -/
structure HandleState where
  registry : Registry
  returned : List Handle
  retired : List Handle
  stage : Handle → Option ReleaseStage

namespace HandleState

/-- A store without open partitions. -/
def start (limit : Nat) : HandleState where
  registry := ⟨limit, ∅, ∅, [], []⟩
  returned := []
  retired := []
  stage _ := none

/-- What a public call returns. -/
def given : Except GoError Handle → List Handle
  | .ok handle => [handle]
  | .error _ => []

/-- The stage of one release changes. -/
def setStage (stage : Handle → Option ReleaseStage) (handle : Handle)
    (next : Option ReleaseStage) : Handle → Option ReleaseStage :=
  fun other => if other = handle then next else stage other

@[simp] theorem setStage_self (stage : Handle → Option ReleaseStage) (handle : Handle)
    (next : Option ReleaseStage) : setStage stage handle next handle = next :=
  if_pos rfl

theorem setStage_ne {stage : Handle → Option ReleaseStage} {handle other : Handle}
    (differs : other ≠ handle) (next : Option ReleaseStage) :
    setStage stage handle next other = stage other :=
  if_neg differs

/-- The release a pass owes after its open. -/
def owes (s : HandleState) : Except GoError (Handle × Bool) → Handle → Option ReleaseStage
  | .ok (handle, true) => setStage s.stage handle (some .held)
  | _ => s.stage

/-- One critical section, or a close outside of the lock. -/
inductive Step : HandleState → HandleState → Prop where
  /-- `OpenPartition`, `OpenConsumer`, or one partition of `OpenConsumerGroup`. -/
  | openPartition {s : HandleState} (key : TopicKey) (outcome : OpenOutcome) :
      Step s { s with
        registry := (s.registry.openPartition key outcome).2
        returned := given (s.registry.openPartition key outcome).1 ++ s.returned }
  | openTopic {s : HandleState} {attempts : List (TopicKey × OpenOutcome)} :
      (attempts.map Prod.fst).Nodup →
      Step s { s with
        registry := (s.registry.openTopic attempts).2
        returned := ((s.registry.openTopic attempts).1.toOption.getD []) ++ s.returned }
  | openRetention {s : HandleState} (key : TopicKey) (outcome : OpenOutcome) :
      Step s { s with
        registry := (s.registry.openRetentionPartition key outcome).2
        stage := s.owes (s.registry.openRetentionPartition key outcome).1 }
  | beginRelease {s : HandleState} (handle : Handle) (key : TopicKey) :
      s.stage handle = some .held → s.registry.made[handle]? = some key →
      Step s { s with
        registry := (s.registry.beginRelease key handle).2
        stage := setStage s.stage handle
          (if (s.registry.beginRelease key handle).1 then some .retiring else none) }
  | closeRetiring {s : HandleState} (handle : Handle) :
      s.stage handle = some .retiring →
      Step s { s with
        registry := s.registry.close handle
        retired := handle :: s.retired
        stage := setStage s.stage handle (some .closed) }
  | finishRelease {s : HandleState} (handle : Handle) (key : TopicKey) :
      s.stage handle = some .closed → s.registry.made[handle]? = some key →
      Step s { s with
        registry := s.registry.finishRelease key handle
        stage := setStage s.stage handle none }
  /-- A caller closes a partition that it was given. -/
  | closeReturned {s : HandleState} {handle : Handle} :
      handle ∈ s.returned → Step s { s with registry := s.registry.close handle }

abbrev Reachable (limit : Nat) (s : HandleState) : Prop :=
  Relation.ReflTransGen Step (start limit) s

end HandleState

/-! ## What a critical section changes -/

namespace Registry

/-- A partition that was opened and closed at once. -/
def discarded (r : Registry) (key : TopicKey) : Registry :=
  { r with made := r.made ++ [key], closed := r.made.length :: r.closed }

def registered (r : Registry) (key : TopicKey) : Registry :=
  { r with made := r.made ++ [key], partitions := r.partitions.insert key r.made.length }

/-- A temporary partition becomes a public one. -/
def claimed (r : Registry) (key : TopicKey) : Registry :=
  { r with retentionPartitions := r.retentionPartitions.erase key }

/-- An open fails, discards the registration of retention, or registers its partition. -/
theorem openUserPartition_cases (r : Registry) (key : TopicKey) (outcome : OpenOutcome) :
    (∃ e, r.openUserPartition key outcome = (.error e, r)) ∨
      (∃ e, r.openUserPartition key outcome = (.error e, r.discarded key)) ∨
      r.openUserPartition key outcome = (.ok r.made.length, r.registered key) := by
  cases outcome with
  | failed e => exact .inl ⟨e, rfl⟩
  | mismatched e => exact .inr (.inl ⟨e, rfl⟩)
  | opened => exact .inr (.inr rfl)

/-- A key is free, busy, or registered; a caller takes over what retention has opened. -/
theorem claimPartitionLocked_cases (r : Registry) (key : TopicKey) :
    (r.partitions[key]? = none ∧ r.claimPartitionLocked key = (.ok none, r)) ∨
      (∃ e, r.claimPartitionLocked key = (.error e, r)) ∨
      ∃ partition, r.partitions[key]? = some partition ∧
        ((r.claimPartitionLocked key = (.ok (some partition), r) ∧
            ∀ registration, r.retentionPartitions[key]? = some registration →
              registration.partition ≠ partition) ∨
          (r.claimPartitionLocked key = (.ok (some partition), r.claimed key) ∧
            r.retentionPartitions[key]? = some ⟨partition, false⟩)) := by
  unfold claimPartitionLocked
  cases here : r.partitions[key]? with
  | none => exact .inl ⟨rfl, rfl⟩
  | some partition =>
      cases registered : r.retentionPartitions[key]? with
      | none => exact .inr (.inr ⟨partition, rfl, .inl ⟨rfl, fun _ wrong => by cases wrong⟩⟩)
      | some registration =>
          obtain ⟨owner, retiring⟩ := registration
          by_cases other : owner = partition
          · subst other
            cases retiring with
            | true => exact .inr (.inl ⟨retentionTeardown, by simp⟩)
            | false => exact .inr (.inr ⟨owner, rfl, .inr ⟨by simp [claimed], rfl⟩⟩)
          · refine .inr (.inr ⟨partition, rfl, .inl ⟨by simp [other], ?_⟩⟩)
            intro registration same
            obtain rfl := Option.some.inj same
            exact other

section Limit

variable (r : Registry) (key : TopicKey)

/-- No open changes the limit. -/
theorem limit_openUserPartition (outcome : OpenOutcome) :
    (r.openUserPartition key outcome).2.maxOpenPartitions = r.maxOpenPartitions := by
  cases outcome <;> rfl

theorem limit_claimPartitionLocked :
    (r.claimPartitionLocked key).2.maxOpenPartitions = r.maxOpenPartitions := by
  rcases r.claimPartitionLocked_cases key with ⟨-, same⟩ | ⟨e, same⟩ |
    ⟨partition, -, ⟨same, -⟩ | ⟨same, -⟩⟩
  all_goals
    rw [same]
    try rfl

theorem limit_openPartition (outcome : OpenOutcome) :
    (r.openPartition key outcome).2.maxOpenPartitions = r.maxOpenPartitions := by
  have claim := r.limit_claimPartitionLocked key
  unfold openPartition
  split
  · rename_i same
    rw [same] at claim
    exact claim
  · rename_i same
    rw [same] at claim
    exact claim
  · rename_i r' same
    rw [same] at claim
    split
    · exact claim
    · exact (r'.limit_openUserPartition key outcome).trans claim

theorem limit_openTopicPartition (outcome : OpenOutcome) :
    (r.openTopicPartition key outcome).2.maxOpenPartitions = r.maxOpenPartitions := by
  have claim := r.limit_claimPartitionLocked key
  unfold openTopicPartition
  split
  · rename_i same
    rw [same] at claim
    exact claim
  · rename_i same
    rw [same] at claim
    exact claim
  · rename_i r' same
    rw [same] at claim
    exact (r'.limit_openUserPartition key outcome).trans claim

theorem limit_openTopicPartitions (attempts : List (TopicKey × OpenOutcome)) :
    (openTopicPartitions attempts r).2.maxOpenPartitions = r.maxOpenPartitions := by
  induction attempts generalizing r with
  | nil => rfl
  | cons attempt rest ih =>
      obtain ⟨key, outcome⟩ := attempt
      have round := r.limit_openTopicPartition key outcome
      unfold openTopicPartitions
      split
      · rename_i same
        rw [same] at round
        exact round
      · rename_i same
        rw [same] at round
        exact (ih _).trans round

theorem limit_openTopic (attempts : List (TopicKey × OpenOutcome)) :
    (r.openTopic attempts).2.maxOpenPartitions = r.maxOpenPartitions := by
  unfold openTopic
  split
  · rfl
  · split
    · rfl
    · exact r.limit_openTopicPartitions attempts

theorem limit_openRetentionPartition (outcome : OpenOutcome) :
    (r.openRetentionPartition key outcome).2.maxOpenPartitions = r.maxOpenPartitions := by
  have opened := r.limit_openUserPartition key outcome
  unfold openRetentionPartition
  split
  · rfl
  · split
    · rfl
    · split
      · rfl
      · split
        all_goals
          rename_i same
          rw [same] at opened
          exact opened

end Limit

/-- The partition is registered, and retention has no claim on it. -/
def Kept (r : Registry) (handle : Handle) : Prop :=
  ∃ key : TopicKey, r.partitions[key]? = some handle ∧ r.retentionPartitions[key]? = none

/-- The registry against what its callers have. -/
structure Sound (r : Registry) (returned retired : List Handle)
    (stage : Handle → Option ReleaseStage) : Prop where
  keyed : ∀ (key : TopicKey) (handle : Handle), r.partitions[key]? = some handle →
    r.made[handle]? = some key
  live : ∀ (key : TopicKey) (handle : Handle), r.made[handle]? = some key → handle ∉ r.closed →
    r.partitions[key]? = some handle
  bound : r.partitions.size ≤ r.maxOpenPartitions
  /-- A registration names the partition in place, which no caller has and which a pass owes. -/
  owned : ∀ (key : TopicKey) (registration : RetentionRegistration),
    r.retentionPartitions[key]? = some registration →
    r.partitions[key]? = some registration.partition ∧ registration.partition ∉ returned ∧
      ((registration.retiring = false ∧ stage registration.partition = some .held) ∨
        (registration.retiring = true ∧ (stage registration.partition = some .retiring ∨
          stage registration.partition = some .closed)))
  releasing : ∀ handle, stage handle = some .retiring ∨ stage handle = some .closed →
    ∃ key : TopicKey, r.made[handle]? = some key ∧ r.retentionPartitions[key]? = some ⟨handle, true⟩
  staged : ∀ handle, stage handle ≠ none → handle < r.made.length
  shut : ∀ handle, stage handle = some .closed → handle ∈ r.closed
  kept : ∀ handle ∈ returned, ∃ key : TopicKey, r.partitions[key]? = some handle
  expired : ∀ handle ∈ retired, handle < r.made.length ∧
    ∀ key : TopicKey, r.partitions[key]? = some handle →
      r.retentionPartitions[key]? = some ⟨handle, true⟩

variable {r : Registry} {returned retired : List Handle} {stage : Handle → Option ReleaseStage}
  {key : TopicKey} {handle : Handle}

/-- Handles keep their keys while more are made. -/
theorem made_append {made : List TopicKey} {other : TopicKey} (found : made[handle]? = some key) :
    (made ++ [other])[handle]? = some key := by
  rw [List.getElem?_append_left (List.getElem?_eq_some_iff.1 found).1, found]

theorem made_of_append {made : List TopicKey} {other : TopicKey}
    (found : (made ++ [other])[handle]? = some key) (differs : handle ≠ made.length) :
    made[handle]? = some key := by
  have inside := (List.getElem?_eq_some_iff.1 found).1
  rw [List.length_append, List.length_singleton] at inside
  have old : handle < made.length := Nat.lt_of_le_of_ne (Nat.le_of_lt_succ inside) differs
  rwa [List.getElem?_append_left old] at found

/-- A new key takes one more place. -/
theorem size_registered (free : r.partitions[key]? = none) :
    (r.registered key).partitions.size = r.partitions.size + 1 := by
  have absent : ¬ r.partitions.contains key = true := by
    rw [← ExtTreeMap.isSome_getElem?_eq_contains, free]
    simp
  simp only [Registry.registered, ExtTreeMap.size_insert, if_neg absent]

namespace Sound

open HandleState

/-- A partition is registered under one key only. -/
theorem key_unique (sound : r.Sound returned retired stage) {other : TopicKey}
    (here : r.partitions[key]? = some handle) (there : r.partitions[other]? = some handle) :
    key = other :=
  Option.some.inj ((sound.keyed _ _ here).symm.trans (sound.keyed _ _ there))

/-- Registered handles have been made. -/
theorem lt (sound : r.Sound returned retired stage) (here : r.partitions[key]? = some handle) :
    handle < r.made.length :=
  (List.getElem?_eq_some_iff.1 (sound.keyed _ _ here)).1

/-- Dropping a registration keeps the invariant. -/
theorem discarded (sound : r.Sound returned retired stage) (key : TopicKey) :
    (r.discarded key).Sound returned retired stage where
  keyed other handle here := made_append (sound.keyed other handle here)
  live other handle found stillLive := by
    have differs : handle ≠ r.made.length := fun same => stillLive (same ▸ List.mem_cons_self)
    exact sound.live other handle (made_of_append found differs)
      fun wasClosed => stillLive (List.mem_cons_of_mem _ wasClosed)
  bound := sound.bound
  owned := sound.owned
  releasing handle underWay := by
    obtain ⟨other, found, registration⟩ := sound.releasing handle underWay
    exact ⟨other, made_append found, registration⟩
  staged handle underWay := by
    rw [Registry.discarded, List.length_append]
    exact Nat.lt_add_right 1 (sound.staged handle underWay)
  shut handle wasClosed := List.mem_cons_of_mem _ (sound.shut handle wasClosed)
  kept := sound.kept
  expired handle mem := by
    obtain ⟨old, registration⟩ := sound.expired handle mem
    rw [Registry.discarded, List.length_append]
    exact ⟨Nat.lt_add_right 1 old, registration⟩

/-- Registering a new handle under a free key keeps it. -/
theorem registered (sound : r.Sound returned retired stage) (free : r.partitions[key]? = none)
    (room : r.partitions.size < r.maxOpenPartitions) :
    (r.registered key).Sound returned retired stage := by
  have others : ∀ {other : TopicKey} {handle : Handle}, r.partitions[other]? = some handle →
      (r.registered key).partitions[other]? = some handle := by
    intro other handle here
    have differs : key ≠ other := by
      rintro rfl
      rw [free] at here
      cases here
    simpa [Registry.registered, ExtTreeMap.getElem?_insert, differs] using here
  have cases' : ∀ {other : TopicKey} {handle : Handle},
      (r.registered key).partitions[other]? = some handle →
      (other = key ∧ handle = r.made.length) ∨ r.partitions[other]? = some handle := by
    intro other handle here
    simp only [Registry.registered, ExtTreeMap.getElem?_insert] at here
    split at here
    · rename_i same
      exact .inl ⟨(LawfulEqCmp.compare_eq_iff_eq.1 same).symm, (Option.some.inj here).symm⟩
    · exact .inr here
  have grown : r.made.length < (r.registered key).made.length := by
    simp [Registry.registered]
  refine ⟨?_, ?_, ?_, ?_, ?_, ?_, sound.shut, ?_, ?_⟩
  · intro other handle here
    rcases cases' here with ⟨rfl, rfl⟩ | old
    · simp [Registry.registered]
    · exact made_append (sound.keyed other handle old)
  · intro other handle found stillLive
    by_cases new : handle = r.made.length
    · subst new
      have same : key = other := by simpa [Registry.registered] using found
      subst same
      simp [Registry.registered]
    · exact others (sound.live other handle (made_of_append found new) stillLive)
  · rw [size_registered free]
    exact room
  · intro other registration found
    obtain ⟨here, rest⟩ := sound.owned other registration found
    exact ⟨others here, rest⟩
  · intro handle underWay
    obtain ⟨other, found, registration⟩ := sound.releasing handle underWay
    exact ⟨other, made_append found, registration⟩
  · exact fun handle underWay => (sound.staged handle underWay).trans grown
  · intro handle mem
    obtain ⟨other, here⟩ := sound.kept handle mem
    exact ⟨other, others here⟩
  · intro handle mem
    obtain ⟨old, registration⟩ := sound.expired handle mem
    refine ⟨old.trans grown, fun other here => ?_⟩
    rcases cases' here with ⟨-, rfl⟩ | here
    · exact absurd old (Nat.lt_irrefl _)
    · exact registration other here

/-- A caller takes over a temporary registration. -/
theorem claimed (sound : r.Sound returned retired stage)
    (temporary : r.retentionPartitions[key]? = some ⟨handle, false⟩) :
    (r.claimed key).Sound returned retired stage := by
  have fewer : ∀ {other : TopicKey} {registration : RetentionRegistration},
      (r.claimed key).retentionPartitions[other]? = some registration →
      r.retentionPartitions[other]? = some registration := by
    intro other registration found
    simp only [Registry.claimed, ExtTreeMap.getElem?_erase] at found
    split at found
    · cases found
    · exact found
  have others : ∀ {other : TopicKey} {handle : Handle},
      r.retentionPartitions[other]? = some ⟨handle, true⟩ →
      (r.claimed key).retentionPartitions[other]? = some ⟨handle, true⟩ := by
    intro other handle found
    have differs : key ≠ other := by
      rintro rfl
      rw [temporary] at found
      cases found
    simpa [Registry.claimed, ExtTreeMap.getElem?_erase, differs] using found
  refine ⟨sound.keyed, sound.live, sound.bound, ?_, ?_, sound.staged, sound.shut, sound.kept, ?_⟩
  · exact fun other registration found => sound.owned other registration (fewer found)
  · intro handle underWay
    obtain ⟨other, found, registration⟩ := sound.releasing handle underWay
    exact ⟨other, found, others registration⟩
  · intro handle mem
    obtain ⟨old, registration⟩ := sound.expired handle mem
    exact ⟨old, fun other here => others (registration other here)⟩

/-- A partition that retention has no claim on can be returned. -/
theorem returns (sound : r.Sound returned retired stage) {more : List Handle}
    (kept : ∀ handle ∈ more, r.Kept handle) : r.Sound (more ++ returned) retired stage := by
  refine { sound with owned := ?_, kept := ?_ }
  · intro key registration found
    obtain ⟨here, unknown, rest⟩ := sound.owned key registration found
    refine ⟨here, fun mem => ?_, rest⟩
    rcases List.mem_append.1 mem with new | old
    · obtain ⟨other, there, none⟩ := kept _ new
      rw [← sound.key_unique here there, found] at none
      cases none
    · exact unknown old
  · intro handle mem
    rcases List.mem_append.1 mem with new | old
    · obtain ⟨key, here, -⟩ := kept handle new
      exact ⟨key, here⟩
    · exact sound.kept handle old

/-- The owner test of a release asks for the registration of that very handle. -/
theorem owns_iff (sound : r.Sound returned retired stage) (key : TopicKey) (handle : Handle) :
    r.ownsRegistration key handle = true ↔
      ∃ retiring, r.retentionPartitions[key]? = some ⟨handle, retiring⟩ := by
  unfold ownsRegistration
  cases registration : r.retentionPartitions[key]? with
  | none => simp
  | some registration' =>
      obtain ⟨here, -, -⟩ := sound.owned key registration' registration
      simp only [Bool.and_eq_true, decide_eq_true_eq, Option.some.injEq, here]
      constructor
      · rintro ⟨rfl, -⟩
        exact ⟨registration'.retiring, rfl⟩
      · rintro ⟨retiring, rfl⟩
        exact ⟨rfl, rfl⟩

/-- Retention registers its own handle as temporary. -/
theorem opensRetention (sound : r.Sound returned retired stage)
    (free : r.partitions[key]? = none) (room : r.partitions.size < r.maxOpenPartitions) :
    Registry.Sound { r.registered key with
        retentionPartitions := r.retentionPartitions.insert key ⟨r.made.length, false⟩ }
      returned retired (setStage stage r.made.length (some .held)) := by
  have grown := sound.registered free room
  have here : (r.registered key).partitions[key]? = some r.made.length := by
    simp [Registry.registered]
  have unstaged : stage r.made.length = none := by
    by_contra staged
    exact Nat.lt_irrefl _ (sound.staged _ staged)
  have unclaimed : ∀ registration, r.retentionPartitions[key]? ≠ some registration := by
    intro registration found
    have there := (sound.owned key registration found).1
    rw [free] at there
    cases there
  have others : ∀ {other : TopicKey} {registration : RetentionRegistration},
      r.retentionPartitions[other]? = some registration →
      (r.retentionPartitions.insert key ⟨r.made.length, false⟩)[other]? = some registration := by
    intro other registration found
    have differs : key ≠ other := by
      rintro rfl
      exact unclaimed _ found
    simpa [ExtTreeMap.getElem?_insert, differs] using found
  refine ⟨grown.keyed, grown.live, grown.bound, ?_, ?_, ?_, ?_, grown.kept, ?_⟩
  · intro other registration found
    simp only [ExtTreeMap.getElem?_insert] at found
    split at found
    · rename_i same
      obtain rfl := LawfulEqCmp.compare_eq_iff_eq.1 same
      obtain rfl := Option.some.inj found
      refine ⟨here, fun mem => ?_, .inl ⟨rfl, setStage_self ..⟩⟩
      obtain ⟨_, there⟩ := sound.kept _ mem
      exact Nat.lt_irrefl _ (sound.lt there)
    · obtain ⟨there, unknown, rest⟩ := sound.owned other registration found
      refine ⟨(grown.owned other registration found).1, unknown, ?_⟩
      rwa [setStage_ne (Nat.ne_of_lt (sound.lt there))]
  · intro handle underWay
    have old : handle ≠ r.made.length := by
      rintro rfl
      rw [setStage_self] at underWay
      rcases underWay with wrong | wrong <;> cases wrong
    rw [setStage_ne old] at underWay
    obtain ⟨other, found, registration⟩ := grown.releasing handle underWay
    exact ⟨other, found, others registration⟩
  · intro handle underWay
    by_cases new : handle = r.made.length
    · subst new
      simp [Registry.registered]
    · rw [setStage_ne new] at underWay
      exact grown.staged handle underWay
  · intro handle wasClosed
    by_cases new : handle = r.made.length
    · subst new
      rw [setStage_self] at wasClosed
      cases wasClosed
    · rw [setStage_ne new] at wasClosed
      exact grown.shut handle wasClosed
  · intro handle mem
    obtain ⟨old, registration⟩ := grown.expired handle mem
    exact ⟨old, fun other there => others (registration other there)⟩

/-- A release begins: the handle is retiring from now on, or a caller has claimed it. -/
theorem begins (sound : r.Sound returned retired stage) (held : stage handle = some .held)
    (found : r.made[handle]? = some key) :
    (r.beginRelease key handle).2.Sound returned retired
      (setStage stage handle (if (r.beginRelease key handle).1 then some .retiring else none)) := by
  unfold beginRelease
  by_cases owns : r.ownsRegistration key handle = true
  · rw [if_pos owns]
    obtain ⟨retiring, mine⟩ := (sound.owns_iff key handle).1 owns
    obtain ⟨here, unknown, -⟩ := sound.owned key _ mine
    have others : ∀ {other : TopicKey}, other ≠ key →
        (r.retentionPartitions.insert key ⟨handle, true⟩)[other]? =
          r.retentionPartitions[other]? := by
      intro other differs
      simp [ExtTreeMap.getElem?_insert, differs.symm]
    have marked : (r.retentionPartitions.insert key ⟨handle, true⟩)[key]? =
        some ⟨handle, true⟩ := by simp
    refine ⟨sound.keyed, sound.live, sound.bound, ?_, ?_, ?_, ?_, sound.kept, ?_⟩
    · intro other registration there
      by_cases same : other = key
      · subst same
        obtain rfl := Option.some.inj (marked.symm.trans there)
        exact ⟨here, unknown, .inr ⟨rfl, .inl (setStage_self ..)⟩⟩
      · obtain ⟨place, rest⟩ := sound.owned other registration ((others same).symm.trans there)
        have differs : registration.partition ≠ handle := by
          intro wrong
          rw [wrong] at place
          exact same (sound.key_unique place here)
        rw [setStage_ne differs]
        exact ⟨place, rest⟩
    · intro other underWay
      by_cases same : other = handle
      · subst same
        exact ⟨key, found, marked⟩
      · rw [setStage_ne same] at underWay
        obtain ⟨place, foundOther, registration⟩ := sound.releasing other underWay
        have differs : place ≠ key := by
          rintro rfl
          exact same
            (RetentionRegistration.mk.inj (Option.some.inj (registration.symm.trans mine))).1
        exact ⟨place, foundOther, (others differs).trans registration⟩
    · intro other underWay
      by_cases same : other = handle
      · subst same
        exact (List.getElem?_eq_some_iff.1 found).1
      · rw [setStage_ne same] at underWay
        exact sound.staged other underWay
    · intro other wasClosed
      by_cases same : other = handle
      · subst same
        simp at wasClosed
      · rw [setStage_ne same] at wasClosed
        exact sound.shut other wasClosed
    · intro other mem
      obtain ⟨old, registration⟩ := sound.expired other mem
      refine ⟨old, fun place there => ?_⟩
      by_cases same : place = key
      · subst same
        obtain rfl := Option.some.inj (here.symm.trans there)
        exact marked
      · exact (others same).trans (registration place there)
  · rw [if_neg owns]
    have gone : ∀ {other : TopicKey} {registration : RetentionRegistration},
        r.retentionPartitions[other]? = some registration → registration.partition ≠ handle := by
      rintro other ⟨partition, retiring⟩ there rfl
      have place := sound.keyed _ _ (sound.owned other _ there).1
      obtain rfl := Option.some.inj (found.symm.trans place)
      exact owns ((sound.owns_iff key partition).2 ⟨retiring, there⟩)
    refine ⟨sound.keyed, sound.live, sound.bound, ?_, ?_, ?_, ?_, sound.kept, sound.expired⟩
    · intro other registration there
      rw [setStage_ne (gone there)]
      exact sound.owned other registration there
    all_goals
      intro other underWay
      have same : other ≠ handle := by
        rintro rfl
        simp at underWay
      rw [setStage_ne same] at underWay
    · exact sound.releasing other underWay
    · exact sound.staged other underWay
    · exact sound.shut other underWay

theorem closes (sound : r.Sound returned retired stage) (handle : Handle) :
    (r.close handle).Sound returned retired stage :=
  { sound with
    live := fun key other found stillLive => sound.live key other found
      fun wasClosed => stillLive (List.mem_cons_of_mem _ wasClosed)
    shut := fun other wasClosed => List.mem_cons_of_mem _ (sound.shut other wasClosed) }

/-- Retention closes a handle that it retires. -/
theorem closesRetiring (sound : r.Sound returned retired stage)
    (retiring : stage handle = some .retiring) :
    (r.close handle).Sound returned (handle :: retired) (setStage stage handle (some .closed)) := by
  have sound' := sound.closes handle
  obtain ⟨key, found, mine⟩ := sound.releasing handle (.inl retiring)
  have here := (sound.owned key _ mine).1
  refine ⟨sound'.keyed, sound'.live, sound'.bound, ?_, ?_, ?_, ?_, sound'.kept, ?_⟩
  · intro other registration there
    obtain ⟨place, unknown, rest⟩ := sound.owned other registration there
    refine ⟨place, unknown, ?_⟩
    by_cases same : registration.partition = handle
    · rw [same] at rest ⊢
      rw [retiring] at rest
      rw [setStage_self]
      rcases rest with ⟨-, wrong⟩ | ⟨marked, -⟩
      · cases wrong
      · exact .inr ⟨marked, .inr rfl⟩
    · rwa [setStage_ne same]
  · intro other underWay
    by_cases same : other = handle
    · subst same
      exact ⟨key, found, mine⟩
    · rw [setStage_ne same] at underWay
      exact sound.releasing other underWay
  · intro other underWay
    by_cases same : other = handle
    · subst same
      exact sound.lt here
    · rw [setStage_ne same] at underWay
      exact sound.staged other underWay
  · intro other wasClosed
    by_cases same : other = handle
    · subst same
      exact List.mem_cons_self
    · rw [setStage_ne same] at wasClosed
      exact sound'.shut other wasClosed
  · intro other mem
    rcases List.mem_cons.1 mem with rfl | old
    · refine ⟨sound.lt here, fun place there => ?_⟩
      obtain rfl := sound.key_unique here there
      exact mine
    · exact sound.expired other old

/-- A release ends, and the key is free again. -/
theorem finishes (sound : r.Sound returned retired stage)
    (wasClosed : stage handle = some .closed) (found : r.made[handle]? = some key) :
    (r.finishRelease key handle).Sound returned retired (setStage stage handle none) := by
  obtain ⟨key', found', mine⟩ := sound.releasing handle (.inr wasClosed)
  obtain rfl := Option.some.inj (found.symm.trans found')
  obtain ⟨here, unknown, -⟩ := sound.owned key _ mine
  unfold finishRelease
  rw [if_pos ((sound.owns_iff key handle).2 ⟨true, mine⟩)]
  have fewer : ∀ {α : Type} {m : ExtTreeMap TopicKey α} {other : TopicKey} {x : α},
      (m.erase key)[other]? = some x → other ≠ key ∧ m[other]? = some x := by
    intro α m other x there
    simp only [ExtTreeMap.getElem?_erase] at there
    split at there
    · cases there
    · rename_i differs
      exact ⟨fun same => differs (LawfulEqCmp.compare_eq_iff_eq.2 same.symm), there⟩
  have others : ∀ {α : Type} {m : ExtTreeMap TopicKey α} {other : TopicKey}, other ≠ key →
      (m.erase key)[other]? = m[other]? := by
    intro α m other differs
    simp [ExtTreeMap.getElem?_erase, differs.symm]
  refine ⟨?_, ?_, ?_, ?_, ?_, ?_, ?_, ?_, ?_⟩
  · exact fun other x there => sound.keyed other x (fewer there).2
  · intro other x foundOther stillLive
    have there := sound.live other x foundOther stillLive
    have differs : other ≠ key := by
      rintro rfl
      obtain rfl := Option.some.inj (here.symm.trans there)
      exact stillLive (sound.shut _ wasClosed)
    exact (others differs).trans there
  · exact ExtTreeMap.size_erase_le.trans sound.bound
  · intro other registration there
    obtain ⟨differs, there⟩ := fewer there
    obtain ⟨place, rest⟩ := sound.owned other registration there
    have unlike : registration.partition ≠ handle := by
      intro same
      rw [same] at place
      exact differs (sound.key_unique place here)
    rw [setStage_ne unlike]
    exact ⟨(others differs).trans place, rest⟩
  · intro other underWay
    have unlike : other ≠ handle := by
      rintro rfl
      simp at underWay
    rw [setStage_ne unlike] at underWay
    obtain ⟨place, foundOther, registration⟩ := sound.releasing other underWay
    have differs : place ≠ key := by
      rintro rfl
      exact unlike (RetentionRegistration.mk.inj (Option.some.inj (registration.symm.trans mine))).1
    exact ⟨place, foundOther, (others differs).trans registration⟩
  · intro other underWay
    have unlike : other ≠ handle := by
      rintro rfl
      simp at underWay
    rw [setStage_ne unlike] at underWay
    exact sound.staged other underWay
  · intro other otherClosed
    have unlike : other ≠ handle := by
      rintro rfl
      simp at otherClosed
    rw [setStage_ne unlike] at otherClosed
    exact sound.shut other otherClosed
  · intro other mem
    obtain ⟨place, there⟩ := sound.kept other mem
    have differs : place ≠ key := by
      rintro rfl
      obtain rfl := Option.some.inj (here.symm.trans there)
      exact unknown mem
    exact ⟨place, (others differs).trans there⟩
  · intro other mem
    obtain ⟨old, registration⟩ := sound.expired other mem
    refine ⟨old, fun place there => ?_⟩
    obtain ⟨differs, there⟩ := fewer there
    exact (others differs).trans (registration place there)

/-- A claim fails, finds nothing, or makes the partition a public one. -/
theorem claims (sound : r.Sound returned retired stage) (key : TopicKey) :
    (r.partitions[key]? = none ∧ r.claimPartitionLocked key = (.ok none, r)) ∨
      (∃ e, r.claimPartitionLocked key = (.error e, r)) ∨
      ∃ partition r', r.claimPartitionLocked key = (.ok (some partition), r') ∧
        r'.Sound returned retired stage ∧ r'.Kept partition ∧ r'.partitions = r.partitions ∧
        r'.maxOpenPartitions = r.maxOpenPartitions ∧ ∀ handle, r.Kept handle → r'.Kept handle := by
  rcases r.claimPartitionLocked_cases key with nothing | failed | ⟨partition, here, found⟩
  · exact .inl nothing
  · exact .inr (.inl failed)
  · refine .inr (.inr ⟨partition, ?_⟩)
    rcases found with ⟨result, foreign⟩ | ⟨result, temporary⟩
    · refine ⟨r, result, sound, ⟨key, here, ?_⟩, rfl, rfl, fun _ kept => kept⟩
      cases registration : r.retentionPartitions[key]? with
      | none => rfl
      | some registration' =>
          have same := Option.some.inj ((sound.owned key _ registration).1.symm.trans here)
          exact absurd same (foreign registration' registration)
    · refine ⟨r.claimed key, result, sound.claimed temporary, ⟨key, here, ?_⟩, rfl, rfl, ?_⟩
      · simp [Registry.claimed]
      · intro handle kept
        obtain ⟨other, there, none⟩ := kept
        refine ⟨other, there, ?_⟩
        simp only [Registry.claimed, ExtTreeMap.getElem?_erase, none, ite_self]

/-- An open fails, or registers a new partition. -/
theorem opensUser (sound : r.Sound returned retired stage) (free : r.partitions[key]? = none)
    (room : r.partitions.size < r.maxOpenPartitions) (outcome : OpenOutcome) :
    (∃ e r', r.openUserPartition key outcome = (.error e, r') ∧
        r'.Sound returned retired stage ∧ ∀ handle, r.Kept handle → r'.Kept handle) ∨
      (r.openUserPartition key outcome = (.ok r.made.length, r.registered key) ∧
        (r.registered key).Sound returned retired stage ∧
        (r.registered key).Kept r.made.length ∧
        ∀ handle, r.Kept handle → (r.registered key).Kept handle) := by
  rcases r.openUserPartition_cases key outcome with ⟨e, result⟩ | ⟨e, result⟩ | result
  · exact .inl ⟨e, r, result, sound, fun _ kept => kept⟩
  · exact .inl ⟨e, r.discarded key, result, sound.discarded key, fun _ kept => kept⟩
  · have grown := sound.registered free room
    refine .inr ⟨result, grown, ⟨key, by simp [Registry.registered], ?_⟩, ?_⟩
    · cases registration : r.retentionPartitions[key]? with
      | none => exact registration
      | some registration' =>
          have there := (sound.owned key _ registration).1
          rw [free] at there
          cases there
    · intro handle kept
      obtain ⟨other, there, none⟩ := kept
      have differs : key ≠ other := by
        rintro rfl
        rw [free] at there
        cases there
      exact ⟨other, by simpa [Registry.registered, ExtTreeMap.getElem?_insert, differs] using there,
        none⟩

/-- What `OpenPartition` leaves; the partition that it returns is a public one. -/
theorem opensPartition (sound : r.Sound returned retired stage) (key : TopicKey)
    (outcome : OpenOutcome) :
    (r.openPartition key outcome).2.Sound returned retired stage ∧
      ∀ handle, (r.openPartition key outcome).1 = .ok handle →
        (r.openPartition key outcome).2.Kept handle := by
  unfold openPartition
  rcases sound.claims key with ⟨free, result⟩ | ⟨e, result⟩ |
    ⟨partition, r', result, sound', kept, -, -, -⟩
  · rw [result]
    dsimp only
    cases admitted : admitOpenPartitions r.partitions.size 1 r.maxOpenPartitions with
    | error e => exact ⟨sound, fun _ wrong => by cases wrong⟩
    | ok _ =>
        have room : r.partitions.size < r.maxOpenPartitions :=
          Nat.not_lt.1 (failIf_eq_ok.1 admitted)
        rcases sound.opensUser free room outcome with ⟨e, r', opened, sound', -⟩ |
          ⟨opened, sound', kept, -⟩
        · rw [opened]
          exact ⟨sound', fun _ wrong => by cases wrong⟩
        · rw [opened]
          refine ⟨sound', fun handle same => ?_⟩
          obtain rfl := Except.ok.inj same
          exact kept
  · rw [result]
    exact ⟨sound, fun _ wrong => by cases wrong⟩
  · rw [result]
    refine ⟨sound', fun handle same => ?_⟩
    obtain rfl := Except.ok.inj same
    exact kept

/-- One round of `OpenTopic`, with room for the partition if it is missing. -/
theorem opensTopicPartition (sound : r.Sound returned retired stage) {keys : List TopicKey}
    (fresh : key ∉ keys)
    (room : r.partitions.size + r.missing (key :: keys) ≤ r.maxOpenPartitions)
    (outcome : OpenOutcome) :
    (∃ e r', r.openTopicPartition key outcome = (.error e, r') ∧
        r'.Sound returned retired stage ∧ ∀ handle, r.Kept handle → r'.Kept handle) ∨
      ∃ partition r', r.openTopicPartition key outcome = (.ok partition, r') ∧
        r'.Sound returned retired stage ∧ r'.Kept partition ∧
        (∀ handle, r.Kept handle → r'.Kept handle) ∧
        r'.partitions.size + r'.missing keys ≤ r'.maxOpenPartitions := by
  unfold openTopicPartition
  rcases sound.claims key with ⟨free, result⟩ | ⟨e, result⟩ |
    ⟨partition, r', result, sound', kept, same, limit, keeps⟩
  · rw [result]
    dsimp only
    have count : r.missing (key :: keys) = r.missing keys + 1 := by
      simp [missing, free]
    rw [count] at room
    rcases sound.opensUser free (by omega) outcome with
      ⟨e, r', opened, sound', keeps⟩ | ⟨opened, sound', kept, keeps⟩
    · exact .inl ⟨e, r', opened, sound', keeps⟩
    · refine .inr ⟨_, _, opened, sound', kept, keeps, ?_⟩
      have sameKeys : (r.registered key).missing keys = r.missing keys := by
        unfold missing
        congr 1
        refine List.filter_congr fun other mem => ?_
        have differs : key ≠ other := by
          rintro rfl
          exact fresh mem
        simp [Registry.registered, ExtTreeMap.getElem?_insert, differs]
      rw [sameKeys, size_registered free]
      change _ ≤ r.maxOpenPartitions
      omega
  · rw [result]
    exact .inl ⟨e, r, rfl, sound, fun _ kept => kept⟩
  · rw [result]
    refine .inr ⟨partition, r', rfl, sound', kept, keeps, ?_⟩
    have fewer : r.missing keys ≤ r.missing (key :: keys) := by
      unfold missing
      rw [List.filter_cons]
      split <;> simp
    have sameKeys : r'.missing keys = r.missing keys := by
      rw [missing, missing, same]
    rw [same, limit, sameKeys]
    omega

/-- The loop of `OpenTopic`, with room for all that is missing. -/
theorem opensTopicPartitions {attempts : List (TopicKey × OpenOutcome)}
    (distinct : (attempts.map Prod.fst).Nodup) (sound : r.Sound returned retired stage)
    (room : r.partitions.size + r.missing (attempts.map Prod.fst) ≤ r.maxOpenPartitions) :
    (openTopicPartitions attempts r).2.Sound returned retired stage ∧
      (∀ handle, r.Kept handle → (openTopicPartitions attempts r).2.Kept handle) ∧
      ∀ handles, (openTopicPartitions attempts r).1 = .ok handles → ∀ handle ∈ handles,
        (openTopicPartitions attempts r).2.Kept handle := by
  induction attempts generalizing r with
  | nil =>
      refine ⟨sound, fun _ kept => kept, fun handles same => ?_⟩
      obtain rfl := Except.ok.inj same
      simp
  | cons attempt rest ih =>
      obtain ⟨key, outcome⟩ := attempt
      obtain ⟨fresh, distinct⟩ := List.nodup_cons.1 distinct
      unfold openTopicPartitions
      rcases sound.opensTopicPartition fresh room outcome with
        ⟨e, r', result, sound', keeps⟩ | ⟨partition, r', result, sound', kept, keeps, room'⟩
      · rw [result]
        exact ⟨sound', keeps, fun _ wrong => by cases wrong⟩
      · rw [result]
        obtain ⟨later, keeps', all⟩ := ih distinct sound' room'
        refine ⟨later, fun handle old => keeps' handle (keeps handle old), ?_⟩
        intro handles same handle mem
        obtain ⟨others, opened, rfl⟩ := map_eq_ok.1 same
        rcases List.mem_cons.1 mem with rfl | inside
        · exact keeps' _ kept
        · exact all others opened handle inside

/-- A topic opens all its partitions, or none is returned. -/
theorem opensTopic {attempts : List (TopicKey × OpenOutcome)}
    (distinct : (attempts.map Prod.fst).Nodup) (sound : r.Sound returned retired stage) :
    (r.openTopic attempts).2.Sound returned retired stage ∧
      ∀ handles, (r.openTopic attempts).1 = .ok handles → ∀ handle ∈ handles,
        (r.openTopic attempts).2.Kept handle := by
  unfold openTopic
  split
  · exact ⟨sound, fun _ wrong => by cases wrong⟩
  · split
    · exact ⟨sound, fun _ wrong => by cases wrong⟩
    · rename_i admitted
      obtain ⟨sound', -, kept⟩ := sound.opensTopicPartitions distinct
        (Nat.not_lt.1 (failIf_eq_ok.1 admitted))
      exact ⟨sound', kept⟩

end Sound

end Registry

/-! ## Runs -/

namespace HandleState

variable {s s' : HandleState} {limit : Nat}

def Sound (s : HandleState) : Prop :=
  s.registry.Sound s.returned s.retired s.stage

theorem sound_start (limit : Nat) : (start limit).Sound where
  keyed := by simp [start]
  live := by simp [start]
  bound := by simp [start]
  owned := by simp [start]
  releasing := by simp [start]
  staged := by simp [start]
  shut := by simp [start]
  kept := by simp [start]
  expired := by simp [start]

theorem sound_openRetention (sound : s.Sound) (key : TopicKey) (outcome : OpenOutcome) :
    Sound { s with
      registry := (s.registry.openRetentionPartition key outcome).2
      stage := s.owes (s.registry.openRetentionPartition key outcome).1 } := by
  unfold Registry.openRetentionPartition
  split
  · exact sound
  · cases here : s.registry.partitions[key]? with
    | some existing => exact sound
    | none =>
        dsimp only
        cases admitted : admitOpenPartitions s.registry.partitions.size 1
            s.registry.maxOpenPartitions with
        | error e => exact sound
        | ok _ =>
            have room : s.registry.partitions.size < s.registry.maxOpenPartitions :=
              Nat.not_lt.1 (failIf_eq_ok.1 admitted)
            dsimp only
            rcases Registry.Sound.opensUser sound here room outcome with
              ⟨e, r', opened, sound', -⟩ | ⟨opened, -, -, -⟩
            · rw [opened]
              exact sound'
            · rw [opened]
              exact Registry.Sound.opensRetention sound here room

/-- Every critical section keeps the invariant, whatever the opens come to. -/
theorem Step.sound (step : Step s s') (sound : s.Sound) : s'.Sound := by
  cases step with
  | openPartition key outcome =>
      obtain ⟨sound', kept⟩ := Registry.Sound.opensPartition sound key outcome
      refine sound'.returns fun handle mem => ?_
      cases result : (s.registry.openPartition key outcome).1 with
      | error e => simp [result, given] at mem
      | ok returned =>
          rw [result] at mem
          obtain rfl := List.mem_singleton.1 mem
          exact kept handle result
  | @openTopic attempts distinct =>
      obtain ⟨sound', kept⟩ := Registry.Sound.opensTopic distinct sound
      refine sound'.returns fun handle mem => ?_
      cases result : (s.registry.openTopic attempts).1 with
      | error e => simp [result, Except.toOption] at mem
      | ok handles =>
          rw [result] at mem
          exact kept handles result handle mem
  | openRetention key outcome => exact sound_openRetention sound key outcome
  | beginRelease handle key held found => exact Registry.Sound.begins sound held found
  | closeRetiring handle retiring => exact Registry.Sound.closesRetiring sound retiring
  | finishRelease handle key closed found => exact Registry.Sound.finishes sound closed found
  | closeReturned _ => exact Registry.Sound.closes sound _

/-- So it holds in every reachable state. -/
theorem Reachable.sound (reached : Reachable limit s) : s.Sound := by
  induction reached with
  | refl => exact sound_start limit
  | tail _ step ih => exact step.sound ih

theorem Step.limit_eq (step : Step s s') :
    s'.registry.maxOpenPartitions = s.registry.maxOpenPartitions := by
  cases step with
  | openPartition key outcome => exact s.registry.limit_openPartition key outcome
  | openTopic _ => exact s.registry.limit_openTopic _
  | openRetention key outcome => exact s.registry.limit_openRetentionPartition key outcome
  | beginRelease _ _ _ _ =>
      unfold Registry.beginRelease
      split <;> rfl
  | closeRetiring _ _ => rfl
  | finishRelease _ _ _ _ =>
      unfold Registry.finishRelease
      split <;> rfl
  | closeReturned _ => rfl

theorem Reachable.limit_eq (reached : Reachable limit s) :
    s.registry.maxOpenPartitions = limit := by
  induction reached with
  | refl => rfl
  | tail _ step ih => exact step.limit_eq.trans ih

/-- What holds between retention and the callers of a store for `limit` partitions. -/
structure Safe (s : HandleState) (limit : Nat) : Prop where
  /-- A returned partition stays registered, and retention has not closed it. -/
  returned : ∀ handle ∈ s.returned, handle ∉ s.retired ∧
    ∃ key, s.registry.made[handle]? = some key ∧ s.registry.partitions[key]? = some handle
  /-- One partition at most is open for a key. -/
  single : ∀ (key : TopicKey) (first second : Handle), s.registry.made[first]? = some key →
    first ∉ s.registry.closed → s.registry.made[second]? = some key →
    second ∉ s.registry.closed → first = second
  bounded : s.registry.partitions.size ≤ limit
  /-- Without a release under way there is no temporary registration. -/
  drained : (∀ handle, s.stage handle = none) → s.registry.retentionPartitions = ∅

/-- In every interleaving of public opens, retention passes and closes, retention leaves the
partitions that callers have, and nothing temporary remains behind a pass. -/
theorem retention_safe (reached : Reachable limit s) : s.Safe limit := by
  have sound := reached.sound
  refine ⟨?_, ?_, ?_, ?_⟩
  · intro handle mem
    obtain ⟨key, here⟩ := sound.kept handle mem
    refine ⟨fun wasRetired => ?_, key, sound.keyed key handle here, here⟩
    have registration := (sound.expired handle wasRetired).2 key here
    exact (sound.owned key _ registration).2.1 mem
  · intro key first second foundFirst liveFirst foundSecond liveSecond
    have here := sound.live key first foundFirst liveFirst
    exact Option.some.inj (here.symm.trans (sound.live key second foundSecond liveSecond))
  · have bound := sound.bound
    rwa [reached.limit_eq] at bound
  · intro idle
    refine ExtTreeMap.ext_getElem? fun key => ?_
    cases found : s.registry.retentionPartitions[key]? with
    | none => simp
    | some registration =>
        obtain ⟨-, -, staged⟩ := sound.owned key registration found
        rw [idle registration.partition] at staged
        simp at staged

/-- A caller claims the partition of a pass, which then leaves it alone; for another key the
pass closes what it has opened. -/
theorem retention_safe_sample : ∃ s : HandleState, Reachable 2 s ∧ s.returned = [0] ∧
    s.retired = [1] ∧ s.Safe 2 := by
  have start : Reachable 2 (start 2) := .refl
  have passed := start.tail (.openRetention ⟨5, 0⟩ .opened)
  have claimed := passed.tail (.openPartition ⟨5, 0⟩ .opened)
  have left := claimed.tail (.beginRelease 0 ⟨5, 0⟩ rfl rfl)
  have next := left.tail (.openRetention ⟨5, 1⟩ .opened)
  have marked := next.tail (.beginRelease 1 ⟨5, 1⟩ rfl rfl)
  have closed := marked.tail (.closeRetiring 1 rfl)
  exact ⟨_, closed, rfl, rfl, retention_safe closed⟩

end HandleState

end Immulog
