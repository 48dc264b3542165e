import Immulog.Config

/-!
System events (`src/storage/events.go`, `src/storage/retention_event.go`): the
envelope, and the payloads of the catalog log.

A payload has one structure, the bytes it is written as, and a predicate `Valid`
with what its decoder checks.  Decoding is characterised from both sides: it
succeeds exactly on the bytes of a valid event.
-/

namespace Immulog

open Lib

/-! ## The envelope -/

def eventMagic : Bytes := ascii ['I', 'E', 'L', 'E']
def eventEnvelopeLen : Nat := 16

abbrev EventType := UInt16

def eventTopicCreated : EventType := 1
def eventPartitionLogStartAdvanced : EventType := 2
def eventGroupCreated : EventType := 3
def eventLocalAssignmentChanged : EventType := 4
def eventOffsetCommitted : EventType := 5
def eventStoreInitialized : EventType := 6

def eventBelongsToTopic (eventType : EventType) (topic : TopicID) : Bool :=
  if topic = clusterMetadataTopicID then
    eventType = eventStoreInitialized ∨ eventType = eventTopicCreated ∨
      eventType = eventPartitionLogStartAdvanced
  else if topic = consumerOffsetsTopicID then
    eventType = eventGroupCreated ∨ eventType = eventLocalAssignmentChanged ∨
      eventType = eventOffsetCommitted
  else false

/-- The value of an event record. -/
def envelope (eventType : EventType) (payload : Bytes) : Bytes :=
  eventMagic ++ putUint16 eventType ++ putUint16 1 ++ putUint32 (.ofNat payload.length) ++
    putUint32 0 ++ payload

def encodeSystemEvent (eventType : EventType) (payload : Bytes) : Except GoError Bytes := do
  failIf (eventType = 0 ∨ 0xFFFFFFFF < payload.length)
    ⟨[.errInvalidArgument], ["invalid system event"]⟩
  return envelope eventType payload

def decodeSystemEvent (record : Record) (expectedTopic : TopicID) :
    Except GoError (EventType × Bytes) := do
  failIf (record.topic ≠ expectedTopic ∨ record.partition ≠ 0 ∨ record.key ≠ none ∨
      record.headers.length ≠ 0 ∨ record.value = none)
    (corrupt .errInvalidRecord "invalid system event record shape")
  let value := record.value.getD []
  failIf (value.length < eventEnvelopeLen ∨ slice value 0 4 ≠ eventMagic)
    (corrupt .errInvalidRecord "invalid system event envelope")
  let eventType := uint16 (slice value 4 6)
  let version := uint16 (slice value 6 8)
  let payloadBytes := uint32 (slice value 8 12)
  let flags := uint32 (slice value 12 16)
  failIf (eventType = 0 ∨ version = 0)
    (corrupt .errInvalidRecord "zero system event type or schema")
  failIf (version ≠ 1 ∨ flags ≠ 0)
    (unsupported "unsupported system event schema or flags")
  failIf (payloadBytes.toNat ≠ value.length - eventEnvelopeLen)
    (corrupt .errInvalidRecord "system event payload length mismatch")
  failIf (eventBelongsToTopic eventType expectedTopic = false)
    (corrupt .errInvalidRecord "system event belongs to another log")
  return (eventType, value.drop eventEnvelopeLen)

/-- The record carries the given event of the given log. -/
structure Record.Carries (record : Record) (topic : TopicID) (eventType : EventType)
    (payload : Bytes) : Prop where
  topic_eq : record.topic = topic
  partition_eq : record.partition = 0
  key_eq : record.key = none
  headers_eq : record.headers = []
  value_eq : record.value = some (envelope eventType payload)
  nonzero : eventType ≠ 0
  short : payload.length < 2 ^ 32
  belongs : eventBelongsToTopic eventType topic = true

/-- An event is encoded unless its type or its length is not representable. -/
theorem encodeSystemEvent_eq_ok {eventType : EventType} {payload out : Bytes} :
    encodeSystemEvent eventType payload = .ok out ↔
      eventType ≠ 0 ∧ payload.length < 2 ^ 32 ∧ out = envelope eventType payload := by
  simp only [encodeSystemEvent, bind_eq_ok, failIf_eq_ok, exists_const, not_or, pure_eq_ok,
    Except.ok.injEq, and_assoc]
  refine and_congr_right fun _ => and_congr ?_ eq_comm
  omega

/-- Reading field `k` of the envelope back. -/
theorem slice_envelope {eventType : EventType} {payload field : Bytes} {k start stop : Nat}
    (found : [eventMagic, putUint16 eventType, putUint16 1, putUint32 (.ofNat payload.length),
      putUint32 0][k]? = some field)
    (starts : ([4, 2, 2, 4, 4].take k).sum = start)
    (stops : ([4, 2, 2, 4, 4].take (k + 1)).sum = stop) :
    slice (envelope eventType payload) start stop = field := by
  have sizes : [eventMagic, putUint16 eventType, putUint16 1, putUint32 (.ofNat payload.length),
      putUint32 0].map List.length = [4, 2, 2, 4, 4] := by simp [eventMagic, ascii]
  have read := slice_layout payload sizes found starts stops
  simpa [envelope] using read

theorem length_envelope (eventType : EventType) (payload : Bytes) :
    (envelope eventType payload).length = 16 + payload.length := by
  simp [envelope, eventMagic, ascii]
  omega

theorem drop_envelope (eventType : EventType) (payload : Bytes) :
    (envelope eventType payload).drop 16 = payload := by
  rw [envelope, List.drop_append]
  simp [eventMagic, ascii, List.drop_eq_nil_of_le]

/-- A record that carries an event decodes to it. -/
theorem Record.Carries.decode {record : Record} {topic : TopicID} {eventType : EventType}
    {payload : Bytes} (carries : record.Carries topic eventType payload) :
    decodeSystemEvent record topic = .ok (eventType, payload) := by
  have magic : slice (envelope eventType payload) 0 4 = _ := slice_envelope (k := 0) rfl rfl rfl
  have kind : slice (envelope eventType payload) 4 6 = _ := slice_envelope (k := 1) rfl rfl rfl
  have version : slice (envelope eventType payload) 6 8 = _ := slice_envelope (k := 2) rfl rfl rfl
  have length : slice (envelope eventType payload) 8 12 = _ := slice_envelope (k := 3) rfl rfl rfl
  have flags : slice (envelope eventType payload) 12 16 = _ := slice_envelope (k := 4) rfl rfl rfl
  have size : (UInt32.ofNat payload.length).toNat = payload.length := toNat_ofNat32 carries.short
  simp [decodeSystemEvent, carries.topic_eq, carries.partition_eq, carries.key_eq,
    carries.headers_eq, carries.value_eq, carries.nonzero, carries.belongs, magic, kind, version,
    length, flags, size, length_envelope, drop_envelope, eventEnvelopeLen, failIf]

/-- Only a record that carries an event decodes. -/
theorem Record.Carries.of_decode {record : Record} {topic : TopicID} {eventType : EventType}
    {payload : Bytes} (decoded : decodeSystemEvent record topic = .ok (eventType, payload)) :
    record.Carries topic eventType payload := by
  simp only [decodeSystemEvent, bind_eq_ok, failIf_eq_ok, exists_const, not_or, ne_eq,
    Decidable.not_not, pure_eq_ok, Except.ok.injEq, Prod.mk.injEq, Nat.not_lt, Bool.not_eq_false]
    at decoded
  obtain ⟨⟨topicOk, partition, key, headers, present⟩, ⟨long, magic⟩, ⟨nonzero, -⟩,
    ⟨version, flags⟩, length, belongs, rfl, rfl⟩ := decoded
  obtain ⟨value, found⟩ := Option.ne_none_iff_exists'.1 present
  simp only [found, Option.getD_some] at long magic nonzero version flags length belongs ⊢
  have cut : ∀ {start stop : Nat}, start ≤ stop → stop ≤ 16 →
      (slice value start stop).length = stop - start := by
    intro start stop _ _
    rw [length_slice]
    simp only [eventEnvelopeLen] at long
    omega
  have whole : value = envelope (uint16 (slice value 4 6)) (value.drop eventEnvelopeLen) := by
    rw [envelope, List.length_drop, ← length, UInt32.ofNat_toNat, ← magic, ← version, ← flags,
      putUint16_uint16 (cut (by decide) (by decide)),
      putUint16_uint16 (cut (by decide) (by decide)),
      putUint32_uint32 (cut (by decide) (by decide)),
      putUint32_uint32 (cut (by decide) (by decide))]
    simp only [slice_append_slice, Nat.reduceLeDiff, Nat.zero_le]
    simp [slice, eventEnvelopeLen]
  have short : (value.drop eventEnvelopeLen).length < 2 ^ 32 := by
    rw [List.length_drop, ← length]
    exact UInt32.toNat_lt _
  exact ⟨topicOk, partition, key, List.length_eq_zero_iff.1 headers, by rw [found, ← whole],
    nonzero, short, belongs⟩

/-- The record of a system event. -/
def systemRecord (topic : TopicID) (offset : UInt64) (value : Bytes) : Record where
  topic := topic
  partition := 0
  offset := offset
  timestamp := 0
  key := none
  value := some value
  headers := []

/-- The records that the store makes for its events carry them. -/
theorem carries_systemRecord {topic : TopicID} {offset : UInt64} {eventType : EventType}
    {payload : Bytes} (nonzero : eventType ≠ 0) (short : payload.length < 2 ^ 32)
    (belongs : eventBelongsToTopic eventType topic = true) :
    (systemRecord topic offset (envelope eventType payload)).Carries topic eventType payload :=
  ⟨rfl, rfl, rfl, rfl, rfl, nonzero, short, belongs⟩

/-! ## StoreInitialized -/

structure StoreInitializedEvent where
  storeID : StoreID
  catalogInitial : EventAnchor
  offsetsInitial : EventAnchor
  catalogConfig : PartitionConfigV1
  offsetsConfig : PartitionConfigV1
  deriving DecidableEq, Repr

def encodeStoreInitializedPayload (event : StoreInitializedEvent) : Except GoError Bytes := do
  failIf (event.storeID = 0) ⟨[.errInvalidArgument], ["store ID is zero"]⟩
  let catalogConfig ← encodePartitionConfig event.catalogConfig
  let offsetsConfig ← encodePartitionConfig event.offsetsConfig
  let data ← encodeAnchor (putID event.storeID) event.catalogInitial
  let data ← encodeAnchor data event.offsetsInitial
  let data := data ++ catalogConfig ++ offsetsConfig
  failIf (data.length ≠ 240) (.new "internal StoreInitialized size mismatch")
  return data

def decodeStoreInitializedPayload (data : Bytes) : Except GoError StoreInitializedEvent := do
  failIf (data.length ≠ 240) (corrupt .errInvalidRecord "StoreInitialized payload size mismatch")
  Cursor.readFrom data do
    let storeID ← EventCursor.id
    Cursor.ensure (storeID = 0) (corrupt .errInvalidRecord "StoreInitialized store ID is zero")
    let catalogInitial ← EventCursor.decodeAnchor
    let offsetsInitial ← EventCursor.decodeAnchor
    let catalogConfig ← decodePartitionConfig true
    let offsetsConfig ← decodePartitionConfig true
    Cursor.finish (corrupt .errInvalidRecord "trailing StoreInitialized payload bytes")
    return { storeID, catalogInitial, offsetsInitial, catalogConfig, offsetsConfig }

namespace StoreInitializedEvent

def bytes (event : StoreInitializedEvent) : Bytes :=
  putID event.storeID ++ (event.catalogInitial.bytes ++ (event.offsetsInitial.bytes ++
    (event.catalogConfig.bytes ++ event.offsetsConfig.bytes)))

structure Valid (event : StoreInitializedEvent) : Prop where
  storeID : event.storeID ≠ 0
  catalogInitial : event.catalogInitial.Complete
  offsetsInitial : event.offsetsInitial.Complete
  catalogConfig : event.catalogConfig.Encodes true
  offsetsConfig : event.offsetsConfig.Encodes true

@[simp] theorem length_bytes (event : StoreInitializedEvent) : event.bytes.length = 240 := by
  simp [bytes]

end StoreInitializedEvent

open Cursor EventCursor in
/-- The payload of a store's first event is decoded from its own bytes only. -/
theorem decodeStoreInitializedPayload_eq_ok {data : Bytes} {event : StoreInitializedEvent} :
    decodeStoreInitializedPayload data = .ok event ↔ event.Valid ∧ data = event.bytes := by
  simp only [decodeStoreInitializedPayload, bind_eq_ok, failIf_eq_ok, exists_const, readFrom_eq_ok,
    run_bind_eq_ok, run_id_eq_ok, ↓run_ensure_bind_eq_ok, run_decodeAnchor_eq_ok,
    run_decodePartitionConfig_eq_ok, run_finish_eq_ok, run_pure_eq_ok, ne_eq, Decidable.not_not]
  constructor
  · rintro ⟨-, _, storeID, _, rfl, nonzero, catalogInitial, _, ⟨catalogAnchor, rfl⟩,
      offsetsInitial, _, ⟨offsetsAnchor, rfl⟩, catalogConfig, _, ⟨catalogOk, rfl⟩, offsetsConfig, _,
      ⟨offsetsOk, rfl⟩, _, ⟨rfl, rfl⟩, rfl, rfl⟩
    exact ⟨⟨nonzero, catalogAnchor, offsetsAnchor, catalogOk, offsetsOk⟩,
      by simp [StoreInitializedEvent.bytes]⟩
  · rintro ⟨valid, rfl⟩
    exact ⟨event.length_bytes, [], event.storeID, _, rfl, valid.storeID, event.catalogInitial, _,
      ⟨valid.catalogInitial, rfl⟩, event.offsetsInitial, _, ⟨valid.offsetsInitial, rfl⟩,
      event.catalogConfig, _, ⟨valid.catalogConfig, rfl⟩, event.offsetsConfig, [],
      ⟨valid.offsetsConfig, by simp⟩, [], ⟨rfl, rfl⟩, rfl, rfl⟩

/-! ## TopicCreated -/

def validTopicName (name : Bytes) : Bool :=
  let plain (c : UInt8) : Bool :=
    (0x61 ≤ c && c ≤ 0x7A) || (0x41 ≤ c && c ≤ 0x5A) || (0x30 ≤ c && c ≤ 0x39) ||
      c == 0x2E || c == 0x5F || c == 0x2D
  !(name.length = 0 ∨ maxTopicNameLen < name.length ∨ [0x5F, 0x5F] <+: name ∨ name = [0x2E] ∨
      name = [0x2E, 0x2E]) && name.all plain

structure TopicCreatedPartition where
  partition : UInt32
  config : PartitionConfigV1
  initial : EventAnchor
  deriving DecidableEq, Repr

structure TopicCreatedEvent where
  storeID : StoreID
  expectedCatalogNext : UInt64
  topicID : TopicID
  name : Bytes
  partitions : List TopicCreatedPartition
  deriving DecidableEq, Repr

/-- Neither zero nor the identity of a system log. -/
def OrdinaryTopicID (id : TopicID) : Prop :=
  id ≠ 0 ∧ id ≠ clusterMetadataTopicID ∧ id ≠ consumerOffsetsTopicID

instance (id : TopicID) : Decidable (OrdinaryTopicID id) :=
  inferInstanceAs (Decidable (_ ∧ _ ∧ _))

/-- The largest payload that still fits a record of a system log. -/
def maxEventPayload : Nat :=
  maxRecordBytes.toNat - recordPrefixBytes.toNat - 8 - eventEnvelopeLen

def encodeTopicCreatedPayload (event : TopicCreatedEvent) : Except GoError Bytes := do
  failIf (event.storeID = 0 ∨ ¬ OrdinaryTopicID event.topicID)
    ⟨[.errInvalidArgument], ["invalid TopicCreated identity"]⟩
  failIf (event.partitions.length = 0 ∨ maxTopicPartitions.toNat < event.partitions.length)
    ⟨[.errInvalidArgument], ["topic partition count is outside limits"]⟩
  let data := putID event.storeID ++ putUint64 event.expectedCatalogNext ++ putID event.topicID
  let data ← appendString data event.name maxTopicNameLen
  let data := data ++ putUint32 (.ofNat event.partitions.length)
  let data ← event.partitions.zipIdx.foldlM (fun data entry => do
    failIf (entry.1.partition ≠ .ofNat entry.2)
      ⟨[.errInvalidArgument], ["topic partitions must be canonical"]⟩
    let data := data ++ putUint32 entry.1.partition
    let config ← encodePartitionConfig entry.1.config
    encodeAnchor (data ++ config) entry.1.initial) data
  failIf (maxEventPayload < data.length)
    ⟨[.errRecordTooLarge], ["TopicCreated payload is too large"]⟩
  return data

def decodeTopicCreatedPayload (data : Bytes) : Except GoError TopicCreatedEvent :=
  Cursor.readFrom data do
    let storeID ← EventCursor.id
    Cursor.ensure (storeID = 0) (corrupt .errInvalidRecord "TopicCreated store ID is zero")
    let expectedCatalogNext ← EventCursor.u64
    let topicID ← EventCursor.id
    Cursor.ensure (¬ OrdinaryTopicID topicID)
      (corrupt .errInvalidRecord "TopicCreated topic ID is reserved or zero")
    let name ← EventCursor.stringValue maxTopicNameLen
    Cursor.ensure (validTopicName name = false)
      (corrupt .errInvalidRecord "TopicCreated name is invalid")
    let count ← EventCursor.u32
    Cursor.ensure (count = 0 ∨ maxTopicPartitions < count)
      (corrupt .errInvalidRecord "TopicCreated partition count is outside limits")
    let partitions ← Cursor.loop (fun done => do
      let partition ← EventCursor.u32
      Cursor.ensure (partition ≠ .ofNat done.length)
        (corrupt .errInvalidRecord "TopicCreated partitions are not canonical")
      let config ← decodePartitionConfig false
      let initial ← EventCursor.decodeAnchor
      return done ++ [({ partition, config, initial } : TopicCreatedPartition)]) count.toNat []
    Cursor.finish (corrupt .errInvalidRecord "trailing TopicCreated payload bytes")
    return { storeID, expectedCatalogNext, topicID, name, partitions }

namespace TopicCreatedPartition

def bytes (p : TopicCreatedPartition) : Bytes :=
  putUint32 p.partition ++ (p.config.bytes ++ p.initial.bytes)

/-- The entry for partition `index`. -/
def ValidAt (index : Nat) (p : TopicCreatedPartition) : Prop :=
  p.partition = .ofNat index ∧ p.config.Encodes false ∧ p.initial.Complete

end TopicCreatedPartition

namespace TopicCreatedEvent

def bytes (event : TopicCreatedEvent) : Bytes :=
  putID event.storeID ++ (putUint64 event.expectedCatalogNext ++ (putID event.topicID ++
    (putString event.name ++ (putUint32 (.ofNat event.partitions.length) ++
      event.partitions.flatMap TopicCreatedPartition.bytes))))

structure Valid (event : TopicCreatedEvent) : Prop where
  storeID : event.storeID ≠ 0
  topicID : OrdinaryTopicID event.topicID
  name : ValidString maxTopicNameLen event.name
  topicName : validTopicName event.name = true
  some_partition : event.partitions.length ≠ 0
  bounded : event.partitions.length ≤ maxTopicPartitions.toNat
  canonical : ∀ p ∈ event.partitions.zipIdx, p.1.ValidAt p.2

end TopicCreatedEvent

/-- A list length in a 32-bit count field. -/
theorem toNat_count {n : Nat} {limit : UInt32} (bounded : n ≤ limit.toNat) :
    (UInt32.ofNat n).toNat = n :=
  toNat_ofNat32 (Nat.lt_of_le_of_lt bounded limit.toNat_lt)

open Cursor EventCursor in
/-- The creation of a topic is decoded from its own bytes only. -/
theorem decodeTopicCreatedPayload_eq_ok {data : Bytes} {event : TopicCreatedEvent} :
    decodeTopicCreatedPayload data = .ok event ↔ event.Valid ∧ data = event.bytes := by
  have partitions : ∀ {n : Nat} {found : List TopicCreatedPartition} {bs rest : Bytes},
      Cursor.loop (fun done : List TopicCreatedPartition => do
        let partition ← EventCursor.u32
        Cursor.ensure (partition ≠ .ofNat done.length)
          (corrupt .errInvalidRecord "TopicCreated partitions are not canonical")
        let config ← decodePartitionConfig false
        let initial ← EventCursor.decodeAnchor
        return done ++ [({ partition, config, initial } : TopicCreatedPartition)]) n [] bs =
          .ok (found, rest) ↔
      found.length = n ∧ (∀ p ∈ found.zipIdx, p.1.ValidAt p.2) ∧
        bs = found.flatMap TopicCreatedPartition.bytes ++ rest := by
    intro n found bs rest
    rw [run_loop_eq_ok TopicCreatedPartition.bytes (fun done => done)
      (fun done p => p.ValidAt done.length)]
    · rw [← allowed_length_iff]
      constructor
      · rintro ⟨items, size, allowed, rfl, rfl⟩
        exact ⟨size, allowed, rfl⟩
      · rintro ⟨size, allowed, rfl⟩
        exact ⟨found, size, allowed, rfl, rfl⟩
    · intro done s' bs rest _
      simp only [run_bind_eq_ok, run_u32_eq_ok, ↓run_ensure_bind_eq_ok, run_decodeAnchor_eq_ok,
        run_decodePartitionConfig_eq_ok, run_pure_eq_ok, ne_eq, Decidable.not_not]
      constructor
      · rintro ⟨partition, _, rfl, rfl, config, _, ⟨encodes, rfl⟩, initial, _, ⟨complete, rfl⟩,
          rfl, rfl⟩
        exact ⟨_, ⟨rfl, encodes, complete⟩, rfl, by simp [TopicCreatedPartition.bytes]⟩
      · rintro ⟨p, ⟨index, encodes, complete⟩, rfl, rfl⟩
        exact ⟨p.partition, _, by simp [TopicCreatedPartition.bytes], index, p.config, _,
          ⟨encodes, rfl⟩, p.initial, rest, ⟨complete, rfl⟩, rfl, rfl⟩
  simp only [decodeTopicCreatedPayload, readFrom_eq_ok, run_bind_eq_ok, run_id_eq_ok, run_u32_eq_ok,
    run_u64_eq_ok, run_stringValue_eq_ok (show maxTopicNameLen < 2 ^ 32 by decide),
    ↓run_ensure_bind_eq_ok, partitions, run_finish_eq_ok, run_pure_eq_ok, not_or,
    Decidable.not_not, Bool.not_eq_false, UInt32.not_lt]
  constructor
  · rintro ⟨_, storeID, _, rfl, nonzero, next, _, rfl, topicID, _, rfl, ordinary, name, _,
      ⟨validName, rfl⟩, topicName, count, _, rfl, ⟨positive, bounded⟩, partitions, _,
      ⟨size, canonical, rfl⟩, _, _, ⟨rfl, rfl⟩, rfl, rfl⟩
    have full : UInt32.ofNat partitions.length = count := by rw [size, UInt32.ofNat_toNat]
    refine ⟨⟨nonzero, ordinary, validName, topicName, ?_, ?_, canonical⟩,
      by simp [TopicCreatedEvent.bytes, full]⟩
    · simp only [size]
      exact fun zero => positive (UInt32.toNat_inj.1 (by simpa using zero))
    · simpa [size] using UInt32.le_iff_toNat_le.1 bounded
  · rintro ⟨valid, rfl⟩
    have full := toNat_count valid.bounded
    refine ⟨[], event.storeID, _, rfl, valid.storeID, event.expectedCatalogNext, _, rfl,
      event.topicID, _, rfl, valid.topicID, event.name, _, ⟨valid.name, rfl⟩, valid.topicName,
      .ofNat event.partitions.length, _, rfl, ⟨?_, ?_⟩, event.partitions, [],
      ⟨full.symm, valid.canonical, by simp⟩, (), [], ⟨rfl, rfl⟩, rfl, rfl⟩
    · intro zero
      rw [zero] at full
      exact valid.some_partition full.symm
    · rw [UInt32.le_iff_toNat_le, full]
      exact valid.bounded

/-- What the encoder writes is a valid event as soon as the name is a topic name. -/
theorem encodeTopicCreatedPayload_eq_ok {event : TopicCreatedEvent} {out : Bytes} :
    encodeTopicCreatedPayload event = .ok out ↔
      (validTopicName event.name = true → event.Valid) ∧ event.storeID ≠ 0 ∧
        OrdinaryTopicID event.topicID ∧ ValidString maxTopicNameLen event.name ∧
        event.partitions.length ≠ 0 ∧ event.partitions.length ≤ maxTopicPartitions.toNat ∧
        (∀ p ∈ event.partitions.zipIdx, p.1.ValidAt p.2) ∧
        event.bytes.length ≤ maxEventPayload ∧ out = event.bytes := by
  have entries : ∀ {data out : Bytes},
      event.partitions.zipIdx.foldlM (fun (data : Bytes) entry => do
        failIf (entry.1.partition ≠ UInt32.ofNat entry.2)
          (⟨[.errInvalidArgument], ["topic partitions must be canonical"]⟩ : GoError)
        let data := data ++ putUint32 entry.1.partition
        let config ← encodePartitionConfig entry.1.config
        encodeAnchor (data ++ config) entry.1.initial) data = .ok out ↔
      (∀ p ∈ event.partitions.zipIdx, p.1.ValidAt p.2) ∧
        out = data ++ event.partitions.flatMap TopicCreatedPartition.bytes := by
    intro data out
    rw [foldlM_append_eq_ok (fun p => p.1.ValidAt p.2)
      (fun p : TopicCreatedPartition × Nat => p.1.bytes)]
    · have same : event.partitions.zipIdx.flatMap (fun p => p.1.bytes) =
          event.partitions.flatMap TopicCreatedPartition.bytes := by
        conv_rhs => rw [← List.zipIdx_map_fst 0 event.partitions, List.flatMap_map]
      rw [same]
    · intro data p out
      simp only [bind_eq_ok, failIf_eq_ok, exists_const, encodePartitionConfig_eq_ok,
        encodeAnchor_eq_ok, ne_eq, Decidable.not_not, TopicCreatedPartition.ValidAt]
      constructor
      · rintro ⟨index, _, ⟨encodes, rfl⟩, complete, rfl⟩
        exact ⟨⟨index, encodes, complete⟩, by simp [TopicCreatedPartition.bytes]⟩
      · rintro ⟨⟨index, encodes, complete⟩, rfl⟩
        exact ⟨index, _, ⟨encodes, rfl⟩, complete, by simp [TopicCreatedPartition.bytes]⟩
  simp only [encodeTopicCreatedPayload, bind_eq_ok, failIf_eq_ok, exists_const, not_or,
    Decidable.not_not, appendString_eq_ok, entries, pure_eq_ok, Except.ok.injEq, Nat.not_lt]
  constructor
  · rintro ⟨⟨store, topic⟩, ⟨positive, bounded⟩, _, ⟨name, rfl⟩, _, ⟨canonical, rfl⟩, fits, rfl⟩
    have whole : putID event.storeID ++ putUint64 event.expectedCatalogNext ++
        putID event.topicID ++ putString event.name ++ putUint32 (.ofNat event.partitions.length) ++
        event.partitions.flatMap TopicCreatedPartition.bytes = event.bytes := by
      simp [TopicCreatedEvent.bytes]
    rw [whole] at fits ⊢
    exact ⟨fun topicName => ⟨store, topic, name, topicName, positive, bounded, canonical⟩, store,
      topic, name, positive, bounded, canonical, fits, rfl⟩
  · rintro ⟨-, store, topic, name, positive, bounded, canonical, fits, rfl⟩
    refine ⟨⟨store, topic⟩, ⟨positive, bounded⟩, _, ⟨name, rfl⟩, _, ⟨canonical, rfl⟩, ?_⟩
    simpa [TopicCreatedEvent.bytes] using fits

/-! ## PartitionLogStartAdvanced -/

structure RetiredSegmentEvent where
  base : UInt64
  stop : UInt64
  bytes : UInt64
  anchor : EventAnchor
  deriving DecidableEq, Repr

structure PartitionLogStartAdvancedEvent where
  storeID : StoreID
  expectedCatalogNext : UInt64
  key : TopicKey
  expectedOldL : UInt64
  newL : UInt64
  evaluatedDurableEnd : UInt64
  retainedAnchor : EventAnchor
  reasonMask : UInt8
  evaluatedUnixMillis : Int64
  evaluatedRetainedBytes : UInt64
  retired : List RetiredSegmentEvent
  deriving DecidableEq, Repr

/-- A retired segment that may follow the ones already listed. -/
def RetiredSegmentEvent.Follows (done : List RetiredSegmentEvent) (retired : RetiredSegmentEvent) :
    Prop :=
  retired.base < retired.stop ∧ ∀ previous ∈ done.getLast?, previous.base < retired.base

instance (done : List RetiredSegmentEvent) (retired : RetiredSegmentEvent) :
    Decidable (retired.Follows done) :=
  inferInstanceAs (Decidable (_ ∧ _))

def encodePartitionLogStartAdvancedPayload (event : PartitionLogStartAdvancedEvent) :
    Except GoError Bytes := do
  failIf (event.storeID = 0 ∨ event.key.topic = 0 ∨ event.newL ≤ event.expectedOldL ∨
      event.evaluatedDurableEnd < event.newL)
    ⟨[.errInvalidArgument], ["invalid retention boundary transition"]⟩
  failIf (event.reasonMask = 0 ∨ event.reasonMask &&& ~~~3 ≠ 0 ∨ event.retired.length = 0 ∨
      maxTopicPartitions.toNat < event.retired.length)
    ⟨[.errInvalidArgument], ["invalid retention boundary reason or retirement list"]⟩
  let data := putID event.storeID ++ putUint64 event.expectedCatalogNext ++
    putID event.key.topic ++ putUint32 event.key.partition ++ putUint64 event.expectedOldL ++
    putUint64 event.newL ++ putUint64 event.evaluatedDurableEnd
  let data ← encodeAnchor data event.retainedAnchor
  let data := data ++ [event.reasonMask, 0, 0, 0] ++
    putUint64 event.evaluatedUnixMillis.toUInt64 ++ putUint64 event.evaluatedRetainedBytes ++
    putUint32 (.ofNat event.retired.length)
  let data ← event.retired.zipIdx.foldlM (fun data entry => do
    failIf (¬ entry.1.Follows (event.retired.take entry.2))
      ⟨[.errInvalidArgument], ["retired segments are not canonical"]⟩
    let data := data ++ putUint64 entry.1.base ++ putUint64 entry.1.stop ++ putUint64 entry.1.bytes
    encodeAnchor data entry.1.anchor) data
  failIf (maxEventPayload < data.length)
    ⟨[.errRecordTooLarge], ["retention event is too large"]⟩
  return data

def decodePartitionLogStartAdvancedPayload (data : Bytes) :
    Except GoError PartitionLogStartAdvancedEvent :=
  Cursor.readFrom data do
    let storeID ← EventCursor.id
    Cursor.ensure (storeID = 0) (corrupt .errInvalidRecord "retention event StoreID is zero")
    let expectedCatalogNext ← EventCursor.u64
    let key ← EventCursor.decodeTopicKey
    let expectedOldL ← EventCursor.u64
    let newL ← EventCursor.u64
    let evaluatedDurableEnd ← EventCursor.u64
    let retainedAnchor ← EventCursor.decodeAnchor
    let reasonMask ← EventCursor.u8
    Cursor.ensure (reasonMask = 0 ∨ reasonMask &&& ~~~3 ≠ 0)
      (unsupported "unsupported retention event reason")
    EventCursor.expectReserved
    let timestamp ← EventCursor.u64
    let evaluatedRetainedBytes ← EventCursor.u64
    let count ← EventCursor.u32
    Cursor.ensure (count = 0 ∨ maxTopicPartitions < count)
      (corrupt .errInvalidRecord "retention retirement count is outside limits")
    let retired ← Cursor.loop (fun done => do
      let base ← EventCursor.u64
      let stop ← EventCursor.u64
      let bytes ← EventCursor.u64
      let anchor ← EventCursor.decodeAnchor
      let item : RetiredSegmentEvent := { base, stop, bytes, anchor }
      Cursor.ensure (¬ item.Follows done)
        (corrupt .errInvalidRecord "retention retirement list is not canonical")
      return done ++ [item]) count.toNat []
    let remaining ← Cursor.remaining
    Cursor.ensure (newL ≤ expectedOldL ∨ evaluatedDurableEnd < newL ∨ remaining ≠ 0)
      (corrupt .errInvalidRecord "invalid retention boundary transition")
    return { storeID, expectedCatalogNext, key, expectedOldL, newL, evaluatedDurableEnd,
             retainedAnchor, reasonMask, evaluatedUnixMillis := timestamp.toInt64,
             evaluatedRetainedBytes, retired }

namespace RetiredSegmentEvent

def encoded (retired : RetiredSegmentEvent) : Bytes :=
  putUint64 retired.base ++ (putUint64 retired.stop ++ (putUint64 retired.bytes ++
    retired.anchor.bytes))

end RetiredSegmentEvent

namespace PartitionLogStartAdvancedEvent

def bytes (event : PartitionLogStartAdvancedEvent) : Bytes :=
  putID event.storeID ++ (putUint64 event.expectedCatalogNext ++ (event.key.bytes ++
    (putUint64 event.expectedOldL ++ (putUint64 event.newL ++
    (putUint64 event.evaluatedDurableEnd ++ (event.retainedAnchor.bytes ++ ([event.reasonMask] ++
    ([0, 0, 0] ++ (putUint64 event.evaluatedUnixMillis.toUInt64 ++
    (putUint64 event.evaluatedRetainedBytes ++ (putUint32 (.ofNat event.retired.length) ++
      event.retired.flatMap RetiredSegmentEvent.encoded)))))))))))

structure Valid (event : PartitionLogStartAdvancedEvent) : Prop where
  storeID : event.storeID ≠ 0
  key : event.key.Valid
  advances : event.expectedOldL < event.newL
  covered : event.newL ≤ event.evaluatedDurableEnd
  retainedAnchor : event.retainedAnchor.Complete
  reason : event.reasonMask ≠ 0 ∧ event.reasonMask &&& ~~~3 = 0
  some_retired : event.retired.length ≠ 0
  bounded : event.retired.length ≤ maxTopicPartitions.toNat
  canonical : Cursor.Allowed (fun done retired => retired.Follows done ∧ retired.anchor.Complete)
    event.retired

end PartitionLogStartAdvancedEvent

open Cursor EventCursor in
/-- The retirement of segments is decoded from its own bytes only. -/
theorem decodePartitionLogStartAdvancedPayload_eq_ok {data : Bytes}
    {event : PartitionLogStartAdvancedEvent} :
    decodePartitionLogStartAdvancedPayload data = .ok event ↔ event.Valid ∧ data = event.bytes := by
  have entries : ∀ {n : Nat} {found : List RetiredSegmentEvent} {bs rest : Bytes},
      Cursor.loop (fun done => do
        let base ← EventCursor.u64
        let stop ← EventCursor.u64
        let bytes ← EventCursor.u64
        let anchor ← EventCursor.decodeAnchor
        let item : RetiredSegmentEvent := { base, stop, bytes, anchor }
        Cursor.ensure (¬ item.Follows done)
          (corrupt .errInvalidRecord "retention retirement list is not canonical")
        return done ++ [item]) n [] bs = .ok (found, rest) ↔
      found.length = n ∧
        Allowed (fun done retired => retired.Follows done ∧ retired.anchor.Complete) found ∧
        bs = found.flatMap RetiredSegmentEvent.encoded ++ rest := by
    intro n found bs rest
    rw [run_loop_eq_ok RetiredSegmentEvent.encoded (fun done => done)
      (fun done retired => retired.Follows done ∧ retired.anchor.Complete)]
    · constructor
      · rintro ⟨items, size, allowed, rfl, rfl⟩
        exact ⟨size, allowed, rfl⟩
      · rintro ⟨size, allowed, rfl⟩
        exact ⟨found, size, allowed, rfl, rfl⟩
    · intro done s' bs rest _
      simp only [run_bind_eq_ok, run_u64_eq_ok, ↓run_ensure_bind_eq_ok, run_decodeAnchor_eq_ok,
        run_pure_eq_ok, Decidable.not_not]
      constructor
      · rintro ⟨base, _, rfl, stop, _, rfl, bytes, _, rfl, anchor, _, ⟨complete, rfl⟩, follows,
          rfl, rfl⟩
        exact ⟨_, ⟨follows, complete⟩, rfl, by simp [RetiredSegmentEvent.encoded]⟩
      · rintro ⟨item, ⟨follows, complete⟩, rfl, rfl⟩
        exact ⟨item.base, _, by simp [RetiredSegmentEvent.encoded], item.stop, _, rfl,
          item.bytes, _, rfl, item.anchor, rest, ⟨complete, rfl⟩, follows, rfl, rfl⟩
  simp only [decodePartitionLogStartAdvancedPayload, readFrom_eq_ok, run_bind_eq_ok, run_id_eq_ok,
    run_u8_eq_ok, run_u32_eq_ok, run_u64_eq_ok, run_decodeTopicKey_eq_ok, run_decodeAnchor_eq_ok,
    run_expectReserved_eq_ok, ↓run_ensure_bind_eq_ok, entries, run_remaining_eq_ok, run_pure_eq_ok,
    not_or, ne_eq, Decidable.not_not, UInt32.not_lt, UInt64.not_le, UInt64.not_lt]
  constructor
  · rintro ⟨_, storeID, _, rfl, nonzero, next, _, rfl, key, _, ⟨validKey, rfl⟩, oldL, _, rfl,
      newL, _, rfl, durable, _, rfl, anchor, _, ⟨complete, rfl⟩, mask, _, rfl, reason, _, _, rfl,
      timestamp, _, rfl, retained, _, rfl, count, _, rfl, ⟨positive, bounded⟩, retired, _,
      ⟨size, canonical, rfl⟩, _, _, ⟨rfl, rfl⟩, ⟨advances, covered, done⟩, rfl, rfl⟩
    obtain rfl := List.length_eq_zero_iff.1 done
    have full : UInt32.ofNat retired.length = count := by rw [size, UInt32.ofNat_toNat]
    refine ⟨⟨nonzero, validKey, advances, covered, complete, reason, ?_, ?_, canonical⟩,
      by simp [PartitionLogStartAdvancedEvent.bytes, full]⟩
    · simp only [size]
      exact fun zero => positive (UInt32.toNat_inj.1 (by simpa using zero))
    · simpa [size] using UInt32.le_iff_toNat_le.1 bounded
  · rintro ⟨valid, rfl⟩
    have full := toNat_count valid.bounded
    refine ⟨[], event.storeID, _, rfl, valid.storeID, event.expectedCatalogNext, _, rfl, event.key,
      _, ⟨valid.key, rfl⟩, event.expectedOldL, _, rfl, event.newL, _, rfl,
      event.evaluatedDurableEnd, _, rfl, event.retainedAnchor, _, ⟨valid.retainedAnchor, rfl⟩,
      event.reasonMask, _, rfl, valid.reason, (), _, rfl,
      event.evaluatedUnixMillis.toUInt64, _, rfl, event.evaluatedRetainedBytes, _, rfl,
      .ofNat event.retired.length, _, rfl, ⟨?_, ?_⟩, event.retired, [],
      ⟨full.symm, valid.canonical, by simp⟩, 0, [], ⟨rfl, rfl⟩,
      ⟨valid.advances, valid.covered, rfl⟩, by simp, rfl⟩
    · intro zero
      rw [zero] at full
      exact valid.some_retired full.symm
    · rw [UInt32.le_iff_toNat_le, full]
      exact valid.bounded

end Immulog
