import Immulog.Registry

/-!
The store against the registry of its partitions.

The model of the store keeps the state of each open partition under its key and, for the
temporary ones, whether they are retiring; it has no pointers.  Every procedure that opens
or releases partitions changes the keys as the registry does, whatever the filesystem
does.
-/

namespace Immulog

open Lib Lib.Proc Std

/-- The store has the partitions and the temporary registrations of the registry. -/
structure Store.Follows (s : Store) (r : Registry) : Prop where
  limit : s.options.maxOpenPartitions.toNat = r.maxOpenPartitions
  size : s.partitions.size = r.partitions.size
  partitions : ∀ key : TopicKey, s.partitions[key]?.isSome = r.partitions[key]?.isSome
  retention : ∀ key : TopicKey,
    s.retentionPartitions[key]? = (r.retentionPartitions[key]?).map RetentionRegistration.retiring
  owned : ∀ (key : TopicKey) (registration : RetentionRegistration),
    r.retentionPartitions[key]? = some registration →
      r.partitions[key]? = some registration.partition

/-- Both calls succeed, or both fail with one error. -/
def SameEnd {α β : Type} (result : Except GoError α) (result' : Except GoError β) : Prop :=
  (result.map fun _ => ()) = result'.map fun _ => ()

namespace SameEnd

variable {α β : Type}

theorem of_ok {a : α} {result' : Except GoError β} (ends : SameEnd (.ok a) result') :
    ∃ b, result' = .ok b := by
  cases result' with
  | ok b => exact ⟨b, rfl⟩
  | error e => cases ends

theorem of_error {e : GoError} {result' : Except GoError β}
    (ends : SameEnd (.error e : Except GoError α) result') : result' = .error e := by
  cases result' with
  | ok b => cases ends
  | error e' => exact congrArg _ (Except.error.inj ends).symm

end SameEnd

namespace Store.Follows

variable {s s' : Store} {fs fs' : FS Name} {r : Registry} {key : TopicKey}

theorem isNone (follows : s.Follows r) (key : TopicKey) :
    s.partitions[key]?.isNone = r.partitions[key]?.isNone := by
  rw [← Option.not_isSome, ← Option.not_isSome, follows.partitions]

/-- A key that the store does not hold is free in the registry. -/
theorem free (follows : s.Follows r) (here : s.partitions[key]? = none) :
    r.partitions[key]? = none := by
  rw [← Option.isNone_iff_eq_none, ← follows.isNone, here]
  rfl

/-- A partition that the store holds has a handle in the registry. -/
theorem held (follows : s.Follows r) {partition : Partition}
    (here : s.partitions[key]? = some partition) : ∃ handle, r.partitions[key]? = some handle := by
  rw [← Option.isSome_iff_exists, ← follows.partitions, here]
  rfl

theorem retiring (follows : s.Follows r) (key : TopicKey) :
    s.partitionRetiringLocked key = r.partitionRetiringLocked key := by
  unfold Store.partitionRetiringLocked Registry.partitionRetiringLocked
  rw [follows.retention, follows.partitions]
  cases registration : r.retentionPartitions[key]? with
  | none => simp
  | some registration' =>
      rw [follows.owned key registration' registration]
      simp

theorem claimed (follows : s.Follows r) (key : TopicKey) :
    Store.Follows { s with retentionPartitions := s.retentionPartitions.erase key }
      (r.claimed key) := by
  refine ⟨follows.limit, follows.size, follows.partitions, ?_, ?_⟩
  · intro other
    simp only [Registry.claimed, ExtTreeMap.getElem?_erase]
    split
    · rfl
    · exact follows.retention other
  · intro other registration found
    simp only [Registry.claimed, ExtTreeMap.getElem?_erase] at found
    split at found
    · cases found
    · exact follows.owned other registration found

/-- A registration of the partition in place. -/
theorem marked (follows : s.Follows r) {handle : Handle} (here : r.partitions[key]? = some handle)
    (retiring : Bool) :
    Store.Follows { s with retentionPartitions := s.retentionPartitions.insert key retiring }
      { r with retentionPartitions := r.retentionPartitions.insert key ⟨handle, retiring⟩ } := by
  refine ⟨follows.limit, follows.size, follows.partitions, ?_, ?_⟩
  · intro other
    simp only [ExtTreeMap.getElem?_insert]
    split
    · rfl
    · exact follows.retention other
  · intro other registration found
    simp only [ExtTreeMap.getElem?_insert] at found
    split at found
    · rename_i same
      obtain rfl := LawfulEqCmp.compare_eq_iff_eq.1 same
      obtain rfl := Option.some.inj found
      exact here
    · exact follows.owned other registration found

/-- A key without its partition and without its registration. -/
theorem released (follows : s.Follows r) (key : TopicKey) {closed : List Handle} :
    Store.Follows { s with
        partitions := s.partitions.erase key
        retentionPartitions := s.retentionPartitions.erase key }
      { r with
        retentionPartitions := r.retentionPartitions.erase key
        partitions := r.partitions.erase key
        closed := closed } := by
  have contains : s.partitions.contains key = r.partitions.contains key := by
    rw [← ExtTreeMap.isSome_getElem?_eq_contains, ← ExtTreeMap.isSome_getElem?_eq_contains,
      follows.partitions]
  refine ⟨follows.limit, ?_, ?_, ?_, ?_⟩
  · rw [ExtTreeMap.size_erase, ExtTreeMap.size_erase, follows.size]
    simp only [contains]
  · intro other
    simp only [ExtTreeMap.getElem?_erase]
    split
    · rfl
    · exact follows.partitions other
  · intro other
    simp only [ExtTreeMap.getElem?_erase]
    split
    · rfl
    · exact follows.retention other
  · intro other registration found
    simp only [ExtTreeMap.getElem?_erase] at found ⊢
    split at found
    · cases found
    · rename_i differs
      rw [if_neg differs]
      exact follows.owned other registration found

/-- A claim fails, finds nothing, or finds the partition in both. -/
theorem claim (follows : s.Follows r) {result : Except GoError (Option Partition)}
    (steps : Steps FS.device (claimPartitionLocked key) (s, fs) result (s', fs')) :
    (∃ e, result = .error e ∧ r.claimPartitionLocked key = (.error e, r) ∧ s' = s) ∨
      (result = .ok none ∧ r.partitions[key]? = none ∧
        r.claimPartitionLocked key = (.ok none, r) ∧ s' = s) ∨
      ∃ partition handle r', result = .ok (some partition) ∧
        r.claimPartitionLocked key = (.ok (some handle), r') ∧ s'.Follows r' := by
  have marked := follows.retention key
  unfold Immulog.claimPartitionLocked at steps
  rw [steps_read_bind] at steps
  dsimp only at steps
  cases here : s.partitions[key]? with
  | none =>
      rw [here] at steps
      have free := follows.free here
      obtain ⟨rfl, same⟩ := steps_pure.1 steps
      obtain ⟨rfl, rfl⟩ := Prod.mk.inj same
      exact .inr (.inl ⟨rfl, free, by simp [Registry.claimPartitionLocked, free], rfl⟩)
  | some partition =>
      rw [here] at steps
      obtain ⟨handle, there⟩ := follows.held here
      cases registration : r.retentionPartitions[key]? with
      | none =>
          rw [registration] at marked
          rw [marked] at steps
          obtain ⟨rfl, same⟩ := steps_pure.1 steps
          obtain ⟨rfl, rfl⟩ := Prod.mk.inj same
          exact .inr (.inr ⟨partition, handle, r, rfl,
            by simp [Registry.claimPartitionLocked, there, registration], follows⟩)
      | some registration' =>
          have same := Option.some.inj ((follows.owned key _ registration).symm.trans there)
          obtain ⟨owner, retiring⟩ := registration'
          obtain rfl : owner = handle := same
          rw [registration] at marked
          rw [marked] at steps
          cases retiring with
          | true =>
              obtain ⟨rfl, same⟩ := steps_fail.1 steps
              obtain ⟨rfl, rfl⟩ := Prod.mk.inj same
              exact .inl ⟨_, rfl, by simp [Registry.claimPartitionLocked, there, registration], rfl⟩
          | false =>
              dsimp only [Option.map_some] at steps
              rw [steps_update_bind] at steps
              obtain ⟨rfl, same⟩ := steps_pure.1 steps
              obtain ⟨rfl, rfl⟩ := Prod.mk.inj same
              refine .inr (.inr ⟨partition, owner, r.claimed key, rfl, ?_, follows.claimed key⟩)
              simp [Registry.claimPartitionLocked, Registry.claimed, there, registration]

/-- The partition under a free key. -/
theorem registered (follows : s.Follows r) (free : r.partitions[key]? = none)
    (partition : Partition) :
    Store.Follows { s with partitions := s.partitions.insert key partition }
      (r.registered key) := by
  have absent : ¬ s.partitions.contains key = true := by
    rw [← ExtTreeMap.isSome_getElem?_eq_contains, follows.partitions, free]
    simp
  refine ⟨follows.limit, ?_, ?_, follows.retention, ?_⟩
  · rw [Registry.size_registered free, ExtTreeMap.size_insert, if_neg absent, follows.size]
  · intro other
    simp only [Registry.registered, ExtTreeMap.getElem?_insert]
    split
    · rfl
    · exact follows.partitions other
  · intro other registration found
    have there := follows.owned other registration found
    have differs : key ≠ other := by
      rintro rfl
      rw [free] at there
      cases there
    simpa [Registry.registered, ExtTreeMap.getElem?_insert, differs] using there

theorem congr (follows : s.Follows r) (options : s'.options = s.options)
    (partitions : s'.partitions = s.partitions)
    (retention : s'.retentionPartitions = s.retentionPartitions) : s'.Follows r := by
  refine ⟨?_, ?_, ?_, ?_, follows.owned⟩
  · rw [options, follows.limit]
  · rw [partitions, follows.size]
  · rw [partitions]
    exact follows.partitions
  · rw [retention]
    exact follows.retention

theorem discarded (follows : s.Follows r) (key : TopicKey) : s.Follows (r.discarded key) :=
  ⟨follows.limit, follows.size, follows.partitions, follows.retention, follows.owned⟩

theorem steps_closeQuietly {path : Path Name} {partition : Partition} {w w' : Store × FS Name}
    {result : Except GoError Unit}
    (steps : Steps FS.device (closeQuietly path partition) w result w') :
    result = .ok () ∧ w'.1 = w.1 := by
  unfold closeQuietly at steps
  rw [steps_attempt_bind] at steps
  obtain ⟨closing, after, closed, ending⟩ := steps
  obtain ⟨rfl, rfl⟩ := steps_pure.1 ending
  exact ⟨rfl, (steps_lift.1 closed).1⟩

/-- The open of a directory. -/
theorem openUser (follows : s.Follows r) (free : r.partitions[key]? = none)
    {options : PartitionOptions} {anchor : Option TopicPartition} {drawn : SegmentID}
    {result : Except GoError Partition}
    (steps : Steps FS.device (openUserPartition key options anchor drawn) (s, fs) result
      (s', fs')) :
    ∃ outcome, s'.Follows (r.openUserPartition key outcome).2 ∧
      SameEnd result (r.openUserPartition key outcome).1 := by
  unfold openUserPartition at steps
  rw [steps_read_bind, steps_lift_bind] at steps
  rcases steps with ⟨opened, mid, -, later⟩ | ⟨e, mid, -, rfl, same⟩
  · dsimp only at later
    cases checked : anchor.elim (.ok ()) (validateRetainedAnchor opened) with
    | error e =>
        rw [checked] at later
        dsimp only at later
        refine ⟨.mismatched e, ?_⟩
        rcases steps_bind.1 later with ⟨_, after, closing, failing⟩ | ⟨e', -, closing⟩
        · obtain ⟨rfl, same⟩ := steps_fail.1 failing
          have memory := (steps_closeQuietly closing).2
          rw [same] at memory
          obtain rfl : s' = s := memory
          exact ⟨follows.discarded key, rfl⟩
        · cases (steps_closeQuietly closing).1
    | ok _ =>
        rw [checked] at later
        dsimp only at later
        rw [steps_update_bind] at later
        obtain ⟨rfl, same⟩ := steps_pure.1 later
        obtain ⟨rfl, rfl⟩ := Prod.mk.inj same
        exact ⟨.opened, follows.registered free opened, rfl⟩
  · obtain ⟨rfl, rfl⟩ := Prod.mk.inj same
    exact ⟨.failed e, follows, rfl⟩

/-- The part of `OpenPartition` and of `openConsumerPartitionLocked` from the claim on. -/
theorem openClaimed (follows : s.Follows r) {result : Except GoError Partition}
    {options : PartitionOptions} {anchor : Option TopicPartition} {drawn : SegmentID}
    (steps : Steps FS.device (do
      match ← claimPartitionLocked key with
      | some existing => return existing
      | none => do
          .check (admitOpenPartitions s.partitions.size 1 s.options.maxOpenPartitions.toNat)
          .lift (mkdirAndSyncPartition key)
          openUserPartition key options anchor drawn) (s, fs) result (s', fs')) :
    ∃ outcome, s'.Follows (r.openPartition key outcome).2 ∧
      SameEnd result (r.openPartition key outcome).1 := by
  have sameLimit : admitOpenPartitions s.partitions.size 1 s.options.maxOpenPartitions.toNat =
      admitOpenPartitions r.partitions.size 1 r.maxOpenPartitions := by
    rw [follows.size, follows.limit]
  rcases steps_bind.1 steps with ⟨found, ⟨mid, fsMid⟩, claiming, later⟩ | ⟨e, rfl, failed⟩
  · rcases follows.claim claiming with ⟨e, wrong, -⟩ | ⟨same, free, claim, rfl⟩ |
      ⟨existing, handle, r', same, claim, follows'⟩
    · cases wrong
    · obtain rfl := Except.ok.inj same
      dsimp only at later
      rw [sameLimit, steps_check_bind] at later
      rcases later with ⟨_, admitted, making⟩ | ⟨e, refused, rfl, same⟩
      · rw [steps_lift_bind] at making
        have step (outcome : OpenOutcome) :
            r.openPartition key outcome = r.openUserPartition key outcome := by
          simp only [Registry.openPartition, claim, admitted]
        rcases making with ⟨_, fsMade, -, opening⟩ | ⟨e, fsMade, -, rfl, same⟩
        · obtain ⟨outcome, follows', ends⟩ := follows.openUser free opening
          refine ⟨outcome, ?_, ?_⟩
          · rwa [step]
          · rwa [step]
        · obtain ⟨rfl, rfl⟩ := Prod.mk.inj same
          refine ⟨.failed e, ?_, ?_⟩
          · rw [step]
            exact follows
          · rw [step]
            exact rfl
      · obtain ⟨rfl, rfl⟩ := Prod.mk.inj same
        refine ⟨.opened, ?_⟩
        simp only [Registry.openPartition, claim, refused]
        exact ⟨follows, rfl⟩
    · obtain rfl := Except.ok.inj same
      obtain ⟨rfl, same⟩ := steps_pure.1 later
      obtain ⟨rfl, rfl⟩ := Prod.mk.inj same
      refine ⟨.opened, ?_⟩
      simp only [Registry.openPartition, claim]
      exact ⟨follows', rfl⟩
  · rcases follows.claim failed with ⟨e', same, claim, rfl⟩ | ⟨wrong, -⟩ | ⟨_, _, _, wrong, -⟩
    · obtain rfl := Except.error.inj same
      refine ⟨.opened, ?_⟩
      simp only [Registry.openPartition, claim]
      exact ⟨follows, rfl⟩
    · cases wrong
    · cases wrong

/-! ## The calls -/

/-- `OpenPartition`: refused by an earlier check, or the registry's open. -/
theorem openPartition (follows : s.Follows r) {options : OpenOptions} {drawn : SegmentID}
    {result : Except GoError Partition}
    (steps : Steps FS.device (Store.openPartition key options drawn) (s, fs) result (s', fs')) :
    (∃ e, result = .error e ∧ s' = s) ∨ ∃ outcome, s'.Follows (r.openPartition key outcome).2 ∧
      SameEnd result (r.openPartition key outcome).1 := by
  unfold Store.openPartition at steps
  rcases steps_check_bind.1 steps with ⟨_, -, steps⟩ | ⟨e, -, rfl, same⟩
  · rcases steps_check_bind.1 steps with ⟨_, -, steps⟩ | ⟨e, -, rfl, same⟩
    · rw [steps_read_bind] at steps
      rcases steps_check_bind.1 steps with ⟨_, -, steps⟩ | ⟨e, -, rfl, same⟩
      · rcases steps_check_bind.1 steps with ⟨resolved, -, steps⟩ | ⟨e, -, rfl, same⟩
        · exact .inr (follows.openClaimed steps)
        · exact .inl ⟨e, rfl, (Prod.mk.inj same).1.symm⟩
      · exact .inl ⟨e, rfl, (Prod.mk.inj same).1.symm⟩
    · exact .inl ⟨e, rfl, (Prod.mk.inj same).1.symm⟩
  · exact .inl ⟨e, rfl, (Prod.mk.inj same).1.symm⟩

/-- The open of a partition for a consumer. -/
theorem openConsumerPartition (follows : s.Follows r) {drawn : SegmentID}
    {result : Except GoError Partition}
    (steps : Steps FS.device (openConsumerPartitionLocked key drawn) (s, fs) result (s', fs')) :
    (∃ e, result = .error e ∧ s' = s) ∨ ∃ outcome, s'.Follows (r.openPartition key outcome).2 ∧
      SameEnd result (r.openPartition key outcome).1 := by
  unfold openConsumerPartitionLocked at steps
  rw [steps_read_bind] at steps
  dsimp only at steps
  split at steps
  · split at steps
    · exact .inr (follows.openClaimed steps)
    · obtain ⟨rfl, same⟩ := steps_fail.1 steps
      exact .inl ⟨_, rfl, (Prod.mk.inj same).1.symm⟩
  · obtain ⟨rfl, same⟩ := steps_fail.1 steps
    exact .inl ⟨_, rfl, (Prod.mk.inj same).1.symm⟩

/-- One round of `OpenTopic`. -/
theorem openTopicPartition (follows : s.Follows r) {descriptor : TopicPartition}
    {drawn : SegmentID} {result : Except GoError Partition}
    (steps : Steps FS.device (openTopicPartition key descriptor drawn) (s, fs) result (s', fs')) :
    ∃ outcome, s'.Follows (r.openTopicPartition key outcome).2 ∧
      SameEnd result (r.openTopicPartition key outcome).1 := by
  rcases steps_bind.1 steps with ⟨found, ⟨mid, fsMid⟩, claiming, later⟩ | ⟨e, rfl, failed⟩
  · rcases follows.claim claiming with ⟨e, wrong, -⟩ | ⟨same, free, claim, rfl⟩ |
      ⟨existing, handle, r', same, claim, follows'⟩
    · cases wrong
    · obtain rfl := Except.ok.inj same
      obtain ⟨outcome, follows', ends⟩ := follows.openUser free later
      refine ⟨outcome, ?_⟩
      simp only [Registry.openTopicPartition, claim]
      exact ⟨follows', ends⟩
    · obtain rfl := Except.ok.inj same
      obtain ⟨rfl, same⟩ := steps_pure.1 later
      obtain ⟨rfl, rfl⟩ := Prod.mk.inj same
      refine ⟨.opened, ?_⟩
      simp only [Registry.openTopicPartition, claim]
      exact ⟨follows', rfl⟩
  · rcases follows.claim failed with ⟨e', same, claim, rfl⟩ | ⟨wrong, -⟩ | ⟨_, _, _, wrong, -⟩
    · obtain rfl := Except.error.inj same
      refine ⟨.opened, ?_⟩
      simp only [Registry.openTopicPartition, claim]
      exact ⟨follows, rfl⟩
    · cases wrong
    · cases wrong

/-- The keys of the partitions from an index on. -/
def topicKeys (topic : TopicID) (index count : Nat) : List TopicKey :=
  (List.range' index count).map fun i => ⟨topic, .ofNat i⟩

/-- The loop of `OpenTopic`. -/
theorem openTopicPartitions (follows : s.Follows r) {topic : TopicID} {draw : Nat → SegmentID}
    {index : Nat} {descriptors : List TopicPartition} {result : Except GoError (List Partition)}
    (steps : Steps FS.device (openTopicPartitions topic draw index descriptors) (s, fs) result
      (s', fs')) :
    ∃ attempts, attempts.map Prod.fst = topicKeys topic index descriptors.length ∧
      s'.Follows (Registry.openTopicPartitions attempts r).2 ∧
      SameEnd result (Registry.openTopicPartitions attempts r).1 := by
  induction descriptors generalizing s s' r fs fs' index result with
  | nil =>
      obtain ⟨rfl, same⟩ := steps_pure.1 steps
      obtain ⟨rfl, rfl⟩ := Prod.mk.inj same
      exact ⟨[], rfl, follows, rfl⟩
  | cons descriptor descriptors ih =>
      unfold Immulog.openTopicPartitions at steps
      rcases steps_bind.1 steps with ⟨partition, ⟨mid, fsMid⟩, opening, later⟩ | ⟨e, rfl, failed⟩
      · obtain ⟨outcome, follows', ends⟩ := follows.openTopicPartition opening
        obtain ⟨handle, opened⟩ := ends.of_ok
        have round : r.openTopicPartition ⟨topic, .ofNat index⟩ outcome =
            (.ok handle, (r.openTopicPartition ⟨topic, .ofNat index⟩ outcome).2) := by
          rw [← opened]
        rcases steps_bind.1 later with ⟨others, ⟨mid', fsMid'⟩, going, ending⟩ | ⟨e, rfl, failed⟩
        · obtain ⟨attempts, keys, follows'', ends'⟩ := ih follows' going
          obtain ⟨handles, all⟩ := ends'.of_ok
          obtain ⟨rfl, same⟩ := steps_pure.1 ending
          obtain ⟨rfl, rfl⟩ := Prod.mk.inj same
          refine ⟨(⟨topic, .ofNat index⟩, outcome) :: attempts, ?_, ?_⟩
          · rw [List.map_cons, keys]
            rfl
          · unfold Registry.openTopicPartitions
            rw [round]
            dsimp only
            rw [all]
            exact ⟨follows'', rfl⟩
        · obtain ⟨attempts, keys, follows'', ends'⟩ := ih follows' failed
          refine ⟨(⟨topic, .ofNat index⟩, outcome) :: attempts, ?_, ?_⟩
          · rw [List.map_cons, keys]
            rfl
          · unfold Registry.openTopicPartitions
            rw [round]
            dsimp only
            rw [ends'.of_error]
            exact ⟨follows'', rfl⟩
      · obtain ⟨outcome, follows', ends⟩ := follows.openTopicPartition failed
        have round : r.openTopicPartition ⟨topic, .ofNat index⟩ outcome =
            (.error e, (r.openTopicPartition ⟨topic, .ofNat index⟩ outcome).2) := by
          rw [← ends.of_error]
        refine ⟨(⟨topic, .ofNat index⟩, outcome) ::
          (topicKeys topic (index + 1) descriptors.length).map fun key => (key, .opened), ?_, ?_⟩
        · rw [List.map_cons, List.map_map]
          exact congrArg _ (List.map_id _)
        · unfold Registry.openTopicPartitions
          rw [round]
          exact ⟨follows', rfl⟩

/-- `OpenTopic`: refused by an earlier check, or the registry's. -/
theorem openTopic (follows : s.Follows r) {name : Bytes} {draw : Nat → SegmentID}
    {result : Except GoError (List Partition)}
    (steps : Steps FS.device (Store.openTopic name draw) (s, fs) result (s', fs')) :
    (∃ e, result = .error e ∧ s' = s) ∨ ∃ topic attempts,
      s.catalogState.topicNamed? name = some topic ∧
      attempts.map Prod.fst = topicKeys topic.descriptor.id 0 topic.descriptor.partitions.length ∧
      s'.Follows (r.openTopic attempts).2 ∧ SameEnd result (r.openTopic attempts).1 := by
  unfold Store.openTopic at steps
  rw [steps_read_bind] at steps
  rcases steps_check_bind.1 steps with ⟨_, -, steps⟩ | ⟨e, -, rfl, same⟩
  · dsimp only at steps
    split at steps
    · rename_i topic named
      have keys : ((List.range topic.descriptor.partitions.length).map fun index =>
          (⟨topic.descriptor.id, .ofNat index⟩ : TopicKey)) =
            topicKeys topic.descriptor.id 0 topic.descriptor.partitions.length := by
        rw [topicKeys, List.range_eq_range']
      rw [keys] at steps
      have retiring : (∃ key ∈ topicKeys topic.descriptor.id 0 topic.descriptor.partitions.length,
          s.partitionRetiringLocked key = true) ↔
          ∃ key ∈ topicKeys topic.descriptor.id 0 topic.descriptor.partitions.length,
            r.partitionRetiringLocked key = true := by
        simp only [follows.retiring]
      have missing : ((topicKeys topic.descriptor.id 0 topic.descriptor.partitions.length).filter
          fun key => s.partitions[key]?.isNone).length =
            r.missing (topicKeys topic.descriptor.id 0 topic.descriptor.partitions.length) := by
        simp only [follows.isNone, Registry.missing]
      rcases steps_check_bind.1 steps with ⟨_, settled, steps⟩ | ⟨e, refused, rfl, same⟩
      · have calm := retiring.not.1 (failIf_eq_ok.1 settled)
        rw [missing, follows.size, follows.limit] at steps
        rcases steps_check_bind.1 steps with ⟨_, admitted, steps⟩ | ⟨e, refused, rfl, same⟩
        · obtain ⟨attempts, found, follows', ends⟩ := follows.openTopicPartitions steps
          refine .inr ⟨topic, attempts, named, found, ?_⟩
          unfold Registry.openTopic
          rw [found, if_neg calm, admitted]
          exact ⟨follows', ends⟩
        · obtain ⟨rfl, rfl⟩ := Prod.mk.inj same
          exact .inl ⟨e, rfl, rfl⟩
      · exact .inl ⟨e, rfl, (Prod.mk.inj same).1.symm⟩
    · obtain ⟨rfl, same⟩ := steps_fail.1 steps
      exact .inl ⟨_, rfl, (Prod.mk.inj same).1.symm⟩
  · exact .inl ⟨e, rfl, (Prod.mk.inj same).1.symm⟩

/-- A partition that is opened for a retention pass only, and registered as such. -/
theorem openTemporary (follows : s.Follows r) {u : Unit}
    (calm : ¬ r.partitionRetiringLocked key = true) (free : r.partitions[key]? = none)
    (admitted : admitOpenPartitions r.partitions.size 1 r.maxOpenPartitions = .ok u)
    {options : PartitionOptions} {anchor : Option TopicPartition} {drawn : SegmentID}
    {result : Except GoError (Partition × Bool)}
    (steps : Steps FS.device (do
      let opened ← openUserPartition key options anchor drawn
      .update fun s => { s with retentionPartitions := s.retentionPartitions.insert key false }
      return (opened, true)) (s, fs) result (s', fs')) :
    ∃ outcome, s'.Follows (r.openRetentionPartition key outcome).2 ∧
      result.map Prod.snd = (r.openRetentionPartition key outcome).1.map Prod.snd := by
  have step := Registry.openRetentionPartition_new calm free admitted
  rcases steps_bind.1 steps with ⟨opened, ⟨mid, fsMid⟩, opening, later⟩ | ⟨e, rfl, failed⟩
  · obtain ⟨outcome, follows', ends⟩ := follows.openUser free opening
    rw [steps_update_bind] at later
    obtain ⟨rfl, same⟩ := steps_pure.1 later
    obtain ⟨rfl, rfl⟩ := Prod.mk.inj same
    refine ⟨outcome, ?_⟩
    rw [step]
    rcases r.openUserPartition_cases key outcome with ⟨e, round⟩ | ⟨e, round⟩ | round
    · rw [round] at ends
      cases ends
    · rw [round] at ends
      cases ends
    · rw [round] at follows' ⊢
      exact ⟨follows'.marked (by simp [Registry.registered]) false, rfl⟩
  · obtain ⟨outcome, follows', ends⟩ := follows.openUser free failed
    refine ⟨outcome, ?_⟩
    rw [step]
    have round : r.openUserPartition key outcome =
        (.error e, (r.openUserPartition key outcome).2) := by
      rw [← ends.of_error]
    rw [round]
    exact ⟨follows', rfl⟩

/-- The open for a retention pass. -/
theorem openRetention (follows : s.Follows r) {drawn : SegmentID}
    {result : Except GoError (Partition × Bool)}
    (steps : Steps FS.device (openRetentionPartition key drawn) (s, fs) result (s', fs')) :
    (∃ e, result = .error e ∧ s' = s) ∨ ∃ outcome,
      s'.Follows (r.openRetentionPartition key outcome).2 ∧
        result.map Prod.snd = (r.openRetentionPartition key outcome).1.map Prod.snd := by
  unfold Immulog.openRetentionPartition at steps
  rw [steps_read_bind] at steps
  rcases steps_check_bind.1 steps with ⟨_, -, steps⟩ | ⟨e, -, rfl, same⟩
  swap
  · exact .inl ⟨e, rfl, (Prod.mk.inj same).1.symm⟩
  rcases steps_check_bind.1 steps with ⟨_, settled, steps⟩ | ⟨e, -, rfl, same⟩
  swap
  · exact .inl ⟨e, rfl, (Prod.mk.inj same).1.symm⟩
  have calm := failIf_eq_ok.1 settled
  rw [follows.retiring] at calm
  dsimp only at steps
  cases here : s.partitions[key]? with
  | some existing =>
      rw [here] at steps
      obtain ⟨handle, there⟩ := follows.held here
      obtain ⟨rfl, same⟩ := steps_pure.1 steps
      obtain ⟨rfl, rfl⟩ := Prod.mk.inj same
      refine .inr ⟨.opened, ?_⟩
      simp only [Registry.openRetentionPartition, if_neg calm, there]
      exact ⟨follows, rfl⟩
  | none =>
      rw [here] at steps
      dsimp only at steps
      split at steps
      · rw [follows.size, follows.limit] at steps
        rcases steps_check_bind.1 steps with ⟨_, admitted, steps⟩ | ⟨e, refused, rfl, same⟩
        · exact .inr (follows.openTemporary calm (follows.free here) admitted steps)
        · exact .inl ⟨e, rfl, (Prod.mk.inj same).1.symm⟩
      · obtain ⟨rfl, same⟩ := steps_fail.1 steps
        exact .inl ⟨_, rfl, (Prod.mk.inj same).1.symm⟩

/-- The release of the partition in place, up to the close. -/
theorem beginRelease (follows : s.Follows r) {handle : Handle}
    (here : r.partitions[key]? = some handle) {result : Except GoError Bool}
    (steps : Steps FS.device (beginReleaseRetention key) (s, fs) result (s', fs')) :
    s'.Follows (r.beginRelease key handle).2 ∧ result = .ok (r.beginRelease key handle).1 := by
  obtain ⟨partition, there⟩ := Option.isSome_iff_exists.1
    ((follows.partitions key).trans (Option.isSome_iff_exists.2 ⟨handle, here⟩))
  have marked := follows.retention key
  unfold beginReleaseRetention at steps
  rw [steps_read_bind] at steps
  dsimp only at steps
  rw [there, marked] at steps
  unfold Registry.beginRelease Registry.ownsRegistration
  cases registration : r.retentionPartitions[key]? with
  | none =>
      rw [registration] at steps
      obtain ⟨rfl, same⟩ := steps_pure.1 steps
      obtain ⟨rfl, rfl⟩ := Prod.mk.inj same
      exact ⟨follows, rfl⟩
  | some registration' =>
      have owner := Option.some.inj ((follows.owned key _ registration).symm.trans here)
      rw [registration] at steps
      dsimp only [Option.map_some] at steps
      rw [steps_update_bind] at steps
      obtain ⟨rfl, same⟩ := steps_pure.1 steps
      obtain ⟨rfl, rfl⟩ := Prod.mk.inj same
      simp only [owner, here, decide_true, Bool.and_self, if_true]
      exact ⟨follows.marked here true, trivial⟩

/-- The close of a retiring partition and the end of its release. -/
theorem finishRelease (follows : s.Follows r) {handle : Handle}
    (here : r.partitions[key]? = some handle) {result : Except GoError Unit}
    (steps : Steps FS.device (finishReleaseRetention key) (s, fs) result (s', fs')) :
    s'.Follows ((r.close handle).finishRelease key handle) := by
  obtain ⟨partition, there⟩ := Option.isSome_iff_exists.1
    ((follows.partitions key).trans (Option.isSome_iff_exists.2 ⟨handle, here⟩))
  have marked := follows.retention key
  unfold finishReleaseRetention at steps
  rw [steps_read_bind] at steps
  dsimp only at steps
  rw [there, marked] at steps
  unfold Registry.finishRelease Registry.ownsRegistration Registry.close
  cases registration : r.retentionPartitions[key]? with
  | none =>
      rw [registration] at steps
      obtain ⟨rfl, same⟩ := steps_pure.1 steps
      obtain ⟨rfl, rfl⟩ := Prod.mk.inj same
      exact ⟨follows.limit, follows.size, follows.partitions, follows.retention, follows.owned⟩
  | some registration' =>
      have owner := Option.some.inj ((follows.owned key _ registration).symm.trans here)
      rw [registration] at steps
      dsimp only [Option.map_some] at steps
      rcases steps_bind.1 steps with ⟨_, ⟨mid, fsMid⟩, closing, later⟩ | ⟨e, -, closing⟩
      swap
      · cases (steps_closeQuietly closing).1
      obtain rfl : mid = s := (steps_closeQuietly closing).2
      obtain ⟨rfl, same⟩ := steps_update.1 later
      obtain ⟨rfl, rfl⟩ := Prod.mk.inj same
      simp only [owner, here, decide_true, Bool.and_self, if_true]
      exact follows.released key

/-- A store without open partitions follows the registry that every run starts from. -/
theorem start (none : s.partitions = ∅) (unmarked : s.retentionPartitions = ∅) :
    s.Follows (HandleState.start s.options.maxOpenPartitions.toNat).registry := by
  refine ⟨rfl, ?_, fun other => ?_, fun other => ?_, fun other registration found => ?_⟩
  · rw [none]
    rfl
  · simp [none, HandleState.start]
  · simp [unmarked, HandleState.start]
  · simp [HandleState.start] at found

/-- A store that follows the registry of a run keeps to its limit. -/
theorem within {h : HandleState} {limit : Nat} (follows : s.Follows h.registry)
    (reached : HandleState.Reachable limit h) :
    s.partitions.size ≤ s.options.maxOpenPartitions.toNat := by
  rw [follows.size, follows.limit]
  exact reached.sound.bound

end Store.Follows

end Immulog
