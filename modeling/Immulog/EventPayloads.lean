import Immulog.Events

/-!
The payloads of the catalog log are read back as they were written.

The encoder and the decoder of an event do not make the same checks.  What an encoder
lets through is characterised here on its own (`Writes`); together with the domain in
which events are made it comes to what the decoder checks, so that the two functions are
inverse to each other.  The encoders also bound the size of a payload, which no event
that keeps its list within limits can exceed.
-/

namespace Immulog

open Lib

/-! ## StoreInitialized -/

/-- The configuration of a log that retains everything. -/
def PartitionConfigV1.KeepsAll (config : PartitionConfigV1) : Prop :=
  config.retentionMask = 0

/-- System partitions keep all of their records. -/
theorem PartitionConfigV1.validate_system {config : PartitionConfigV1} :
    config.validate true = .ok () ↔ config.KeepsAll ∧ config.validate false = .ok () := by
  refine ⟨fun valid => ⟨?_, validate_of_system valid⟩, fun keeps => ?_⟩
  · simp only [validate, bind_eq_ok, failIf_eq_ok, exists_const, true_and, not_not] at valid
    exact valid.2.2.2.2.2.1
  · obtain ⟨keeps, valid⟩ := keeps
    simp only [KeepsAll] at keeps
    simpa only [validate, keeps, ne_eq, not_true_eq_false, and_false] using valid

theorem PartitionConfigV1.encodes_system {config : PartitionConfigV1} :
    config.Encodes true ↔ config.KeepsAll ∧ config.Encodes false := by
  rw [Encodes, Encodes, validate_system, and_assoc]

namespace StoreInitializedEvent

structure Writes (event : StoreInitializedEvent) : Prop where
  storeID : event.storeID ≠ 0
  catalogInitial : event.catalogInitial.Complete
  offsetsInitial : event.offsetsInitial.Complete
  catalogConfig : event.catalogConfig.Encodes false
  offsetsConfig : event.offsetsConfig.Encodes false

/-- The writer does not ask what the system partitions keep. -/
theorem encode_eq_ok {event : StoreInitializedEvent} {out : Bytes} :
    encodeStoreInitializedPayload event = .ok out ↔ event.Writes ∧ out = event.bytes := by
  have whole : putID event.storeID ++ event.catalogInitial.bytes ++ event.offsetsInitial.bytes ++
      event.catalogConfig.bytes ++ event.offsetsConfig.bytes = event.bytes := by simp [bytes]
  simp only [encodeStoreInitializedPayload, bind_eq_ok, failIf_eq_ok, exists_const,
    encodePartitionConfig_eq_ok, encodeAnchor_eq_ok, pure_eq_ok, Except.ok.injEq, ne_eq, not_not]
  constructor
  · intro written
    obtain ⟨store, _, ⟨catalogOk, rfl⟩, _, ⟨offsetsOk, rfl⟩, _, ⟨catalogAnchor, rfl⟩, _,
      ⟨offsetsAnchor, rfl⟩, -, rfl⟩ := written
    exact ⟨⟨store, catalogAnchor, offsetsAnchor, catalogOk, offsetsOk⟩, whole⟩
  · intro written
    obtain ⟨writes, rfl⟩ := written
    have full := event.length_bytes
    rw [← whole] at full
    exact ⟨writes.storeID, _, ⟨writes.catalogConfig, rfl⟩, _, ⟨writes.offsetsConfig, rfl⟩, _,
      ⟨writes.catalogInitial, rfl⟩, _, ⟨writes.offsetsInitial, rfl⟩, full, whole⟩

/-- The reader demands that the system partitions keep everything. -/
theorem valid_iff {event : StoreInitializedEvent} :
    event.Valid ↔
      (event.catalogConfig.KeepsAll ∧ event.offsetsConfig.KeepsAll) ∧ event.Writes := by
  constructor
  · intro valid
    obtain ⟨catalogKeeps, catalogOk⟩ := PartitionConfigV1.encodes_system.1 valid.catalogConfig
    obtain ⟨offsetsKeeps, offsetsOk⟩ := PartitionConfigV1.encodes_system.1 valid.offsetsConfig
    exact ⟨⟨catalogKeeps, offsetsKeeps⟩, valid.storeID, valid.catalogInitial, valid.offsetsInitial,
      catalogOk, offsetsOk⟩
  · intro both
    obtain ⟨⟨catalogKeeps, offsetsKeeps⟩, writes⟩ := both
    exact ⟨writes.storeID, writes.catalogInitial, writes.offsetsInitial,
      PartitionConfigV1.encodes_system.2 ⟨catalogKeeps, writes.catalogConfig⟩,
      PartitionConfigV1.encodes_system.2 ⟨offsetsKeeps, writes.offsetsConfig⟩⟩

end StoreInitializedEvent

/-! ## TopicCreated -/

theorem length_putString (value : Bytes) : (putString value).length = 4 + value.length := by
  simp [putString]

/-- The length of a list of entries that all have one size. -/
theorem length_flatMap_const {α : Type} {f : α → Bytes} {k : Nat}
    (sizes : ∀ a, (f a).length = k) (items : List α) :
    (items.flatMap f).length = items.length * k := by
  induction items with
  | nil => simp
  | cons item rest ih =>
      rw [List.flatMap_cons, List.length_append, sizes, ih, List.length_cons]
      ring

namespace TopicCreatedEvent

structure Writes (event : TopicCreatedEvent) : Prop where
  storeID : event.storeID ≠ 0
  topicID : OrdinaryTopicID event.topicID
  name : ValidString maxTopicNameLen event.name
  some_partition : event.partitions.length ≠ 0
  bounded : event.partitions.length ≤ maxTopicPartitions.toNat
  canonical : ∀ p ∈ event.partitions.zipIdx, p.1.ValidAt p.2
  fits : event.bytes.length ≤ maxEventPayload

theorem length_bytes (event : TopicCreatedEvent) :
    event.bytes.length = 48 + event.name.length + event.partitions.length * 116 := by
  have entries := length_flatMap_const (f := TopicCreatedPartition.bytes) (k := 116)
    (fun p => by simp [TopicCreatedPartition.bytes]) event.partitions
  simp only [bytes, List.length_append, length_putString, entries, length_putID, length_putUint64,
    length_putUint32]
  omega

/-- A topic of any size fits a record. -/
theorem Valid.fits {event : TopicCreatedEvent} (valid : event.Valid) :
    event.bytes.length ≤ maxEventPayload := by
  have named := valid.name.2.1
  have bounded := valid.bounded
  have limit : 16000000 ≤ maxEventPayload := by decide
  have most : maxTopicPartitions.toNat = 65536 := rfl
  have longest : maxTopicNameLen = 249 := rfl
  rw [event.length_bytes]
  omega

/-- The writer does not look at the name of the topic. -/
theorem encode_eq_ok {event : TopicCreatedEvent} {out : Bytes} :
    encodeTopicCreatedPayload event = .ok out ↔ event.Writes ∧ out = event.bytes := by
  rw [encodeTopicCreatedPayload_eq_ok]
  constructor
  · intro written
    obtain ⟨-, store, topic, name, positive, bounded, canonical, fits, same⟩ := written
    exact ⟨⟨store, topic, name, positive, bounded, canonical, fits⟩, same⟩
  · intro written
    obtain ⟨writes, same⟩ := written
    exact ⟨fun topicName => ⟨writes.storeID, writes.topicID, writes.name, topicName,
      writes.some_partition, writes.bounded, writes.canonical⟩, writes.storeID, writes.topicID,
      writes.name, writes.some_partition, writes.bounded, writes.canonical, writes.fits, same⟩

/-- The reader does look at the name. -/
theorem valid_iff {event : TopicCreatedEvent} :
    event.Valid ↔ validTopicName event.name = true ∧ event.Writes := by
  constructor
  · intro valid
    exact ⟨valid.topicName, valid.storeID, valid.topicID, valid.name, valid.some_partition,
      valid.bounded, valid.canonical, valid.fits⟩
  · intro both
    obtain ⟨topicName, writes⟩ := both
    exact ⟨writes.storeID, writes.topicID, writes.name, topicName, writes.some_partition,
      writes.bounded, writes.canonical⟩

end TopicCreatedEvent

/-! ## PartitionLogStartAdvanced -/

/-- Items that are checked against the ones before them, by their index in the list. -/
theorem Lib.Cursor.allowed_take_iff {ι : Type} {Ok : List ι → ι → Prop} {items : List ι} :
    Cursor.Allowed Ok items ↔ ∀ entry ∈ items.zipIdx, Ok (items.take entry.2) entry.1 := by
  constructor
  · intro allowed entry mem
    obtain ⟨-, inside, here⟩ := List.mem_zipIdx mem
    refine allowed (items.take entry.2) entry.1 (items.drop (entry.2 + 1)) ?_
    rw [here]
    simp
  · intro each done x left split
    have mem : (x, done.length) ∈ items.zipIdx := by
      rw [List.mk_mem_zipIdx_iff_getElem?, split]
      simp
    simpa [split] using each (x, done.length) mem

namespace PartitionLogStartAdvancedEvent

structure Writes (event : PartitionLogStartAdvancedEvent) : Prop where
  storeID : event.storeID ≠ 0
  topic : event.key.topic ≠ 0
  advances : event.expectedOldL < event.newL
  covered : event.newL ≤ event.evaluatedDurableEnd
  retainedAnchor : event.retainedAnchor.Complete
  reason : event.reasonMask ≠ 0 ∧ event.reasonMask &&& ~~~3 = 0
  some_retired : event.retired.length ≠ 0
  bounded : event.retired.length ≤ maxTopicPartitions.toNat
  canonical : Cursor.Allowed (fun done retired => retired.Follows done ∧ retired.anchor.Complete)
    event.retired
  fits : event.bytes.length ≤ maxEventPayload

theorem length_bytes (event : PartitionLogStartAdvancedEvent) :
    event.bytes.length = 140 + event.retired.length * 72 := by
  have entries := length_flatMap_const (f := RetiredSegmentEvent.encoded) (k := 72)
    (fun retired => by simp [RetiredSegmentEvent.encoded]) event.retired
  simp only [bytes, List.length_append, entries, length_putID, length_putUint64, length_putUint32,
    TopicKey.length_bytes, EventAnchor.length_bytes, List.length_cons, List.length_nil]
  omega

/-- A list of retired segments within its limit fits a record. -/
theorem Valid.fits {event : PartitionLogStartAdvancedEvent} (valid : event.Valid) :
    event.bytes.length ≤ maxEventPayload := by
  have bounded := valid.bounded
  have limit : 16000000 ≤ maxEventPayload := by decide
  have most : maxTopicPartitions.toNat = 65536 := rfl
  rw [event.length_bytes]
  omega

/-- The writer does not look at the range of the partition. -/
theorem encode_eq_ok {event : PartitionLogStartAdvancedEvent} {out : Bytes} :
    encodePartitionLogStartAdvancedPayload event = .ok out ↔ event.Writes ∧ out = event.bytes := by
  have entries : ∀ {data out : Bytes},
      event.retired.zipIdx.foldlM (fun (data : Bytes) entry => do
        failIf (¬ entry.1.Follows (event.retired.take entry.2))
          (⟨[.errInvalidArgument], ["retired segments are not canonical"]⟩ : GoError)
        let data := data ++ putUint64 entry.1.base ++ putUint64 entry.1.stop ++
          putUint64 entry.1.bytes
        encodeAnchor data entry.1.anchor) data = .ok out ↔
      Cursor.Allowed (fun done retired => retired.Follows done ∧ retired.anchor.Complete)
          event.retired ∧
        out = data ++ event.retired.flatMap RetiredSegmentEvent.encoded := by
    intro data out
    rw [Cursor.allowed_take_iff, foldlM_append_eq_ok
      (fun entry => entry.1.Follows (event.retired.take entry.2) ∧ entry.1.anchor.Complete)
      (fun entry : RetiredSegmentEvent × Nat => entry.1.encoded)]
    · have same : event.retired.zipIdx.flatMap (fun entry => entry.1.encoded) =
          event.retired.flatMap RetiredSegmentEvent.encoded := by
        conv_rhs => rw [← List.zipIdx_map_fst 0 event.retired, List.flatMap_map]
      rw [same]
    · intro data entry out
      simp only [bind_eq_ok, failIf_eq_ok, exists_const, not_not, encodeAnchor_eq_ok, and_assoc,
        RetiredSegmentEvent.encoded, List.append_assoc]
  simp only [encodePartitionLogStartAdvancedPayload, bind_eq_ok, failIf_eq_ok, exists_const, not_or,
    not_not, ne_eq, encodeAnchor_eq_ok, entries, pure_eq_ok, Except.ok.injEq, Nat.not_lt,
    UInt64.not_le, UInt64.not_lt, and_assoc, exists_and_left, exists_eq_left]
  have whole : putID event.storeID ++ putUint64 event.expectedCatalogNext ++
      putID event.key.topic ++ putUint32 event.key.partition ++ putUint64 event.expectedOldL ++
      putUint64 event.newL ++ putUint64 event.evaluatedDurableEnd ++ event.retainedAnchor.bytes ++
      [event.reasonMask, 0, 0, 0] ++ putUint64 event.evaluatedUnixMillis.toUInt64 ++
      putUint64 event.evaluatedRetainedBytes ++ putUint32 (.ofNat event.retired.length) ++
      event.retired.flatMap RetiredSegmentEvent.encoded = event.bytes := by
    simp [bytes, TopicKey.bytes]
  constructor
  · intro written
    obtain ⟨store, topic, advances, covered, some_reason, reason, positive, bounded, complete,
      canonical, fits, same⟩ := written
    rw [whole] at fits same
    exact ⟨⟨store, topic, advances, covered, complete, ⟨some_reason, reason⟩, positive, bounded,
      canonical, fits⟩, same.symm⟩
  · intro written
    obtain ⟨writes, same⟩ := written
    rw [whole, same]
    exact ⟨writes.storeID, writes.topic, writes.advances, writes.covered, writes.reason.1,
      writes.reason.2, writes.some_retired, writes.bounded, writes.retainedAnchor, writes.canonical,
      writes.fits, rfl⟩

/-- The reader does look at the range. -/
theorem valid_iff {event : PartitionLogStartAdvancedEvent} :
    event.Valid ↔ event.key.partition ≤ int32Max ∧ event.Writes := by
  constructor
  · intro valid
    exact ⟨valid.key.2, valid.storeID, valid.key.1, valid.advances, valid.covered,
      valid.retainedAnchor, valid.reason, valid.some_retired, valid.bounded, valid.canonical,
      valid.fits⟩
  · intro both
    obtain ⟨partition, writes⟩ := both
    exact ⟨writes.storeID, ⟨writes.topic, partition⟩, writes.advances, writes.covered,
      writes.retainedAnchor, writes.reason, writes.some_retired, writes.bounded, writes.canonical⟩

end PartitionLogStartAdvancedEvent

/-! ## Both directions -/

/-- The payloads of the catalog log and their events correspond one to one. -/
theorem catalogPayloads_invert :
    Inverts (fun event => event.catalogConfig.KeepsAll ∧ event.offsetsConfig.KeepsAll)
        encodeStoreInitializedPayload decodeStoreInitializedPayload ∧
      Inverts (fun event => validTopicName event.name = true)
        encodeTopicCreatedPayload decodeTopicCreatedPayload ∧
      Inverts (fun event => event.key.partition ≤ int32Max)
        encodePartitionLogStartAdvancedPayload decodePartitionLogStartAdvancedPayload :=
  ⟨.of_bytes StoreInitializedEvent.bytes StoreInitializedEvent.encode_eq_ok
      decodeStoreInitializedPayload_eq_ok StoreInitializedEvent.valid_iff,
    .of_bytes TopicCreatedEvent.bytes TopicCreatedEvent.encode_eq_ok
      decodeTopicCreatedPayload_eq_ok TopicCreatedEvent.valid_iff,
    .of_bytes PartitionLogStartAdvancedEvent.bytes PartitionLogStartAdvancedEvent.encode_eq_ok
      decodePartitionLogStartAdvancedPayload_eq_ok PartitionLogStartAdvancedEvent.valid_iff⟩

end Immulog
