import Immulog.Events
import Immulog.Lib.Maps

/-!
The catalog projection (`src/storage/catalog.go`): what replaying the
cluster-metadata log yields.

Go's maps are extensional tree maps; their `toList` is in key order.  The two maps
of topics share their entries in the source: here `topicsByName` leads to the
identity under which `topicsByID` holds the topic.
-/

namespace Immulog

open Lib Std

instance instTransOrdIdentity : TransOrd (BitVec 128) := inferInstance

instance instLawfulEqOrdIdentity : LawfulEqOrd (BitVec 128) := inferInstance

instance instTransOrdBytes : TransOrd (List UInt8) := inferInstance

instance instLawfulEqOrdBytes : LawfulEqOrd (List UInt8) := inferInstance

/-- `map[K]struct{}` -/
abbrev GoSet (α : Type) [Ord α] := ExtTreeMap α Unit

/-- The loop of every replay: one record after the other, each at the offset after
the one before. -/
def replayRecords {σ : Type} (apply : σ → Record → Except GoError σ) (gap : GoError) :
    σ → UInt64 → List Record → Except GoError σ
  | projection, _, [] => .ok projection
  | projection, offset, record :: records => do
      failIf (record.offset ≠ offset) gap
      let next ← apply projection record
      replayRecords apply gap next (offset + 1) records

theorem replayRecords_append {σ : Type} (apply : σ → Record → Except GoError σ) (gap : GoError)
    (state : σ) (offset : UInt64) (first second : List Record) :
    replayRecords apply gap state offset (first ++ second) =
      replayRecords apply gap state offset first >>= fun state =>
        replayRecords apply gap state (offset + .ofNat first.length) second := by
  induction first generalizing state offset with
  | nil => simp [replayRecords]
  | cons r first ih =>
      have next : offset + 1 + .ofNat first.length = offset + .ofNat (r :: first).length := by
        rw [List.length_cons, UInt64.ofNat_add, UInt64.add_assoc]
        congr 1
        exact UInt64.add_comm ..
      simp only [List.cons_append, replayRecords]
      cases failIf (r.offset ≠ offset) gap with
      | error e => rfl
      | ok _ =>
          cases applied : apply state r with
          | error e => rfl
          | ok state' =>
              simp only [ok_bind]
              rw [ih, next]

/-- One more record at the end of a replay. -/
theorem replayRecords_snoc {σ : Type} {apply : σ → Record → Except GoError σ} {gap : GoError}
    {start state' : σ} {offset : UInt64} {records : List Record} {r : Record} :
    replayRecords apply gap start offset (records ++ [r]) = .ok state' ↔
      ∃ state, replayRecords apply gap start offset records = .ok state ∧
        r.offset = offset + .ofNat records.length ∧ apply state r = .ok state' := by
  rw [replayRecords_append, bind_eq_ok]
  simp only [replayRecords, bind_eq_ok, failIf_eq_ok, exists_const, not_not, ne_eq,
    Except.ok.injEq, exists_eq_right]

structure TopicPartition where
  partition : UInt32
  config : PartitionConfigV1
  initialSegment : SegmentID
  initialHeaderHash : Hash
  retainedL : UInt64
  currentRetainedSegment : SegmentID
  currentRetainedHeaderHash : Hash
  boundaryCatalogNext : UInt64
  maximumRecordedRetirementH : UInt64
  deriving DecidableEq, Repr

structure TopicDescriptor where
  id : TopicID
  name : Bytes
  partitions : List TopicPartition
  deriving DecidableEq, Repr

/-- The retired segments of a topic, by partition and base offset. -/
abbrev RetiredInventory := ExtTreeMap UInt32 (ExtTreeMap UInt64 RetiredSegmentEvent)

structure CatalogTopic where
  descriptor : TopicDescriptor
  retired : RetiredInventory
  creationOffset : UInt64
  deriving DecidableEq

structure CatalogProjection where
  storeID : StoreID
  initialized : StoreInitializedEvent
  config : PartitionConfigV1
  offsetsConfig : PartitionConfigV1
  revision : UInt64
  topicsByName : ExtTreeMap Bytes TopicID
  topicsByID : ExtTreeMap TopicID CatalogTopic
  deriving DecidableEq

/-- Go's zero values. -/
def PartitionConfigV1.zero : PartitionConfigV1 := ⟨0, 0, 0, 0, 0, 0, 0, 0, 0, 0⟩

def StoreInitializedEvent.zero : StoreInitializedEvent := ⟨0, ⟨0, 0⟩, ⟨0, 0⟩, .zero, .zero⟩

def newCatalogProjection : CatalogProjection where
  storeID := 0
  initialized := .zero
  config := .zero
  offsetsConfig := .zero
  revision := 0
  topicsByName := ∅
  topicsByID := ∅

/-! ## Applying an event -/

def TopicPartition.ofCreated (offset : UInt64) (created : TopicCreatedPartition) :
    TopicPartition where
  partition := created.partition
  config := created.config
  initialSegment := created.initial.id
  initialHeaderHash := created.initial.headerHash
  retainedL := 0
  currentRetainedSegment := created.initial.id
  currentRetainedHeaderHash := created.initial.headerHash
  boundaryCatalogNext := offset + 1
  maximumRecordedRetirementH := 0

def CatalogTopic.ofCreated (offset : UInt64) (event : TopicCreatedEvent) : CatalogTopic where
  descriptor :=
    { id := event.topicID
      name := event.name
      partitions := event.partitions.map (TopicPartition.ofCreated offset) }
  retired := ∅
  creationOffset := offset

/-- One step of the loop over the retirement list: the next base expected, and the
segment identities seen. -/
def retirementStep (event : PartitionLogStartAdvancedEvent)
    (state : UInt64 × GoSet SegmentID) (retired : RetiredSegmentEvent) :
    Except GoError (UInt64 × GoSet SegmentID) := do
  failIf (retired.base ≠ state.1 ∨ retired.stop ≤ retired.base ∨ event.newL < retired.stop ∨
      retired.bytes = 0)
    (corrupt .errInvalidRecord "retention retirement list has a gap or invalid extent")
  failIf (retired.anchor.id ∈ state.2)
    (corrupt .errInvalidRecord "retention retirement list repeats a segment identity")
  failIf (retired.anchor.id = event.retainedAnchor.id)
    (corrupt .errInvalidRecord "retention successor anchor is retired")
  return (retired.stop, state.2.insert retired.anchor.id ())

/-- The checks of a retention event against its partition. -/
def TopicPartition.checkRetention (partition : TopicPartition)
    (event : PartitionLogStartAdvancedEvent) : Except GoError Unit := do
  failIf (partition.retainedL ≠ event.expectedOldL ∨ event.newL ≤ event.expectedOldL ∨
      event.evaluatedDurableEnd < event.newL)
    (corrupt .errInvalidRecord "retention event retained-start transition is invalid")
  failIf (event.reasonMask &&& ~~~partition.config.retentionMask ≠ 0 ∨ event.reasonMask = 0)
    (corrupt .errInvalidRecord "retention event reason is not enabled by partition policy")
  failIf (event.evaluatedDurableEnd < partition.maximumRecordedRetirementH)
    (corrupt .errInvalidRecord "retention event durable end regresses")
  failIf (event.retired.head?.map RetiredSegmentEvent.base ≠ some event.expectedOldL)
    (corrupt .errInvalidRecord "retention retirement list does not start at the retained boundary")
  failIf (event.retired.head?.map RetiredSegmentEvent.anchor ≠
      some ⟨partition.currentRetainedSegment, partition.currentRetainedHeaderHash⟩)
    (corrupt .errInvalidRecord "retention retirement list has the wrong retained anchor")
  let (cursor, _) ← event.retired.foldlM (retirementStep event) (event.expectedOldL, ∅)
  failIf (cursor ≠ event.newL)
    (corrupt .errInvalidRecord "retention retirement list does not cover the boundary")

/-- The partition after its retained start has moved. -/
def TopicPartition.advanced (partition : TopicPartition) (offset : UInt64)
    (event : PartitionLogStartAdvancedEvent) : TopicPartition :=
  { partition with
    retainedL := event.newL
    currentRetainedSegment := event.retainedAnchor.id
    currentRetainedHeaderHash := event.retainedAnchor.headerHash
    boundaryCatalogNext := offset + 1
    maximumRecordedRetirementH :=
      if partition.maximumRecordedRetirementH < event.evaluatedDurableEnd then
        event.evaluatedDurableEnd
      else partition.maximumRecordedRetirementH }

def RetiredInventory.addAll (inventory : RetiredInventory) (partition : UInt32)
    (retired : List RetiredSegmentEvent) : RetiredInventory :=
  inventory.insert partition
    (retired.foldl (fun byBase item => byBase.insert item.base item) (inventory.getD partition ∅))

def CatalogTopic.advanced (topic : CatalogTopic) (offset : UInt64)
    (event : PartitionLogStartAdvancedEvent) : CatalogTopic :=
  { topic with
    descriptor :=
      { topic.descriptor with
        partitions := topic.descriptor.partitions.modify event.key.partition.toNat
          (TopicPartition.advanced · offset event) }
    retired := topic.retired.addAll event.key.partition event.retired }

namespace CatalogProjection

def applyStoreInitialized (projection : CatalogProjection) (offset : UInt64) (payload : Bytes) :
    Except GoError CatalogProjection := do
  failIf (offset ≠ 0 ∨ projection.revision ≠ 0)
    (corrupt .errInvalidRecord "duplicate or misplaced StoreInitialized")
  let event ← decodeStoreInitializedPayload payload
  return { projection with
    storeID := event.storeID
    initialized := event
    config := event.catalogConfig
    offsetsConfig := event.offsetsConfig
    revision := 1 }

def applyTopicCreated (projection : CatalogProjection) (offset : UInt64) (payload : Bytes) :
    Except GoError CatalogProjection := do
  failIf (projection.revision = 0)
    (corrupt .errInvalidRecord "TopicCreated precedes StoreInitialized")
  let event ← decodeTopicCreatedPayload payload
  failIf (event.storeID ≠ projection.storeID ∨ event.expectedCatalogNext ≠ offset)
    (corrupt .errInvalidRecord "TopicCreated store or catalog revision mismatch")
  failIf (event.name ∈ projection.topicsByName)
    (corrupt .errInvalidRecord "duplicate topic name in catalog")
  failIf (event.topicID ∈ projection.topicsByID)
    (corrupt .errInvalidRecord "duplicate topic ID in catalog")
  return { projection with
    topicsByName := projection.topicsByName.insert event.name event.topicID
    topicsByID := projection.topicsByID.insert event.topicID (.ofCreated offset event)
    revision := offset + 1 }

def applyLogStartAdvanced (projection : CatalogProjection) (offset : UInt64) (payload : Bytes) :
    Except GoError CatalogProjection := do
  let event ← decodePartitionLogStartAdvancedPayload payload
  failIf (event.storeID ≠ projection.storeID ∨ event.expectedCatalogNext ≠ offset)
    (corrupt .errInvalidRecord "retention event store or catalog revision mismatch")
  let unknown := corrupt .errInvalidRecord "retention event references an unknown partition"
  let some topic := projection.topicsByID[event.key.topic]? | throw unknown
  let some partition := topic.descriptor.partitions[event.key.partition.toNat]? | throw unknown
  partition.checkRetention event
  return { projection with
    topicsByID := projection.topicsByID.insert event.key.topic (topic.advanced offset event)
    revision := offset + 1 }

def apply (projection : CatalogProjection) (record : Record) :
    Except GoError CatalogProjection := do
  let (eventType, payload) ← decodeSystemEvent record clusterMetadataTopicID
  if eventType = eventStoreInitialized then
    projection.applyStoreInitialized record.offset payload
  else if eventType = eventTopicCreated then
    projection.applyTopicCreated record.offset payload
  else if eventType = eventPartitionLogStartAdvanced then
    projection.applyLogStartAdvanced record.offset payload
  else throw (⟨[.errUnsupportedFormat], ["unsupported catalog event"]⟩)

end CatalogProjection

/-! ## What an accepted record does -/

inductive CatalogEvent where
  | storeInitialized (event : StoreInitializedEvent)
  | topicCreated (event : TopicCreatedEvent)
  | logStartAdvanced (event : PartitionLogStartAdvancedEvent)

namespace CatalogEvent

def eventType : CatalogEvent → EventType
  | storeInitialized _ => eventStoreInitialized
  | topicCreated _ => eventTopicCreated
  | logStartAdvanced _ => eventPartitionLogStartAdvanced

def bytes : CatalogEvent → Bytes
  | storeInitialized event => event.bytes
  | topicCreated event => event.bytes
  | logStartAdvanced event => event.bytes

/-- The projection takes the event at this offset. -/
def Accepted (projection : CatalogProjection) (offset : UInt64) : CatalogEvent → Prop
  | storeInitialized event => offset = 0 ∧ projection.revision = 0 ∧ event.Valid
  | topicCreated event =>
      projection.revision ≠ 0 ∧ event.Valid ∧ event.storeID = projection.storeID ∧
        event.expectedCatalogNext = offset ∧ event.name ∉ projection.topicsByName ∧
        event.topicID ∉ projection.topicsByID
  | logStartAdvanced event =>
      event.Valid ∧ event.storeID = projection.storeID ∧ event.expectedCatalogNext = offset ∧
        ∃ topic partition, projection.topicsByID[event.key.topic]? = some topic ∧
          topic.descriptor.partitions[event.key.partition.toNat]? = some partition ∧
          partition.checkRetention event = .ok ()

end CatalogEvent

namespace CatalogProjection

/-- The projection after an accepted event. -/
def after (projection : CatalogProjection) (offset : UInt64) : CatalogEvent → CatalogProjection
  | .storeInitialized event =>
      { projection with
        storeID := event.storeID
        initialized := event
        config := event.catalogConfig
        offsetsConfig := event.offsetsConfig
        revision := 1 }
  | .topicCreated event =>
      { projection with
        topicsByName := projection.topicsByName.insert event.name event.topicID
        topicsByID := projection.topicsByID.insert event.topicID (.ofCreated offset event)
        revision := offset + 1 }
  | .logStartAdvanced event =>
      { projection with
        topicsByID := projection.topicsByID.modify event.key.topic (·.advanced offset event)
        revision := offset + 1 }

theorem applyStoreInitialized_eq_ok {p p' : CatalogProjection} {offset : UInt64} {payload : Bytes} :
    p.applyStoreInitialized offset payload = .ok p' ↔
      ∃ event, payload = event.bytes ∧ (CatalogEvent.storeInitialized event).Accepted p offset ∧
        p' = p.after offset (.storeInitialized event) := by
  simp only [applyStoreInitialized, bind_eq_ok, failIf_eq_ok, exists_const, not_or, ne_eq,
    Decidable.not_not, decodeStoreInitializedPayload_eq_ok, pure_eq_ok, Except.ok.injEq]
  constructor
  · rintro ⟨⟨first, fresh⟩, event, ⟨valid, rfl⟩, rfl⟩
    exact ⟨event, rfl, ⟨first, fresh, valid⟩, rfl⟩
  · rintro ⟨event, rfl, ⟨first, fresh, valid⟩, rfl⟩
    exact ⟨⟨first, fresh⟩, event, ⟨valid, rfl⟩, rfl⟩

theorem applyTopicCreated_eq_ok {p p' : CatalogProjection} {offset : UInt64} {payload : Bytes} :
    p.applyTopicCreated offset payload = .ok p' ↔
      ∃ event, payload = event.bytes ∧ (CatalogEvent.topicCreated event).Accepted p offset ∧
        p' = p.after offset (.topicCreated event) := by
  simp only [applyTopicCreated, bind_eq_ok, failIf_eq_ok, exists_const, not_or, ne_eq,
    Decidable.not_not, decodeTopicCreatedPayload_eq_ok, pure_eq_ok, Except.ok.injEq]
  constructor
  · rintro ⟨started, event, ⟨valid, rfl⟩, ⟨store, next⟩, name, id, rfl⟩
    exact ⟨event, rfl, ⟨started, valid, store, next, name, id⟩, rfl⟩
  · rintro ⟨event, rfl, ⟨started, valid, store, next, name, id⟩, rfl⟩
    exact ⟨started, event, ⟨valid, rfl⟩, ⟨store, next⟩, name, id, rfl⟩

theorem applyLogStartAdvanced_eq_ok {p p' : CatalogProjection} {offset : UInt64} {payload : Bytes} :
    p.applyLogStartAdvanced offset payload = .ok p' ↔
      ∃ event, payload = event.bytes ∧ (CatalogEvent.logStartAdvanced event).Accepted p offset ∧
        p' = p.after offset (.logStartAdvanced event) := by
  simp only [applyLogStartAdvanced, bind_eq_ok, failIf_eq_ok, exists_const, not_or, ne_eq,
    Decidable.not_not, decodePartitionLogStartAdvancedPayload_eq_ok]
  constructor
  · rintro ⟨event, ⟨valid, rfl⟩, ⟨store, next⟩, later⟩
    cases found : p.topicsByID[event.key.topic]? with
    | none => simp [found] at later
    | some topic =>
        cases part : topic.descriptor.partitions[event.key.partition.toNat]? with
        | none => simp [found, part] at later
        | some partition =>
            simp only [found, part, bind_eq_ok, pure_eq_ok, Except.ok.injEq] at later
            obtain ⟨_, checked, rfl⟩ := later
            refine ⟨event, rfl, ⟨valid, store, next, topic, partition, found, part, checked⟩, ?_⟩
            rw [after, insert_eq_modify (f := (CatalogTopic.advanced · offset event)) found]
  · rintro ⟨event, rfl, ⟨valid, store, next, topic, partition, found, part, checked⟩, rfl⟩
    refine ⟨event, ⟨valid, rfl⟩, ⟨store, next⟩, ?_⟩
    simp only [found, part, checked, ok_bind, pure_eq_ok, Except.ok.injEq]
    rw [after, insert_eq_modify (f := (CatalogTopic.advanced · offset event)) found]

theorem apply_eq_ok {p p' : CatalogProjection} {record : Record} :
    p.apply record = .ok p' ↔
      ∃ event : CatalogEvent,
        record.Carries clusterMetadataTopicID event.eventType event.bytes ∧
        event.Accepted p record.offset ∧ p' = p.after record.offset event := by
  constructor
  · intro applied
    obtain ⟨⟨eventType, payload⟩, decoded, applied⟩ := bind_eq_ok.1 applied
    have carries := Record.Carries.of_decode decoded
    simp only at applied
    split at applied
    · rename_i kind
      subst kind
      obtain ⟨event, rfl, accepted, rfl⟩ := applyStoreInitialized_eq_ok.1 applied
      exact ⟨.storeInitialized event, carries, accepted, rfl⟩
    split at applied
    · rename_i kind
      subst kind
      obtain ⟨event, rfl, accepted, rfl⟩ := applyTopicCreated_eq_ok.1 applied
      exact ⟨.topicCreated event, carries, accepted, rfl⟩
    split at applied
    · rename_i kind
      subst kind
      obtain ⟨event, rfl, accepted, rfl⟩ := applyLogStartAdvanced_eq_ok.1 applied
      exact ⟨.logStartAdvanced event, carries, accepted, rfl⟩
    · simp at applied
  · rintro ⟨event, carries, accepted, rfl⟩
    rw [apply, carries.decode, ok_bind]
    cases event with
    | storeInitialized event => exact applyStoreInitialized_eq_ok.2 ⟨event, rfl, accepted, rfl⟩
    | topicCreated event => exact applyTopicCreated_eq_ok.2 ⟨event, rfl, accepted, rfl⟩
    | logStartAdvanced event => exact applyLogStartAdvanced_eq_ok.2 ⟨event, rfl, accepted, rfl⟩

end CatalogProjection

/-! ## The invariant of a replayed catalog -/

namespace CatalogProjection

/-- The names keep leading to the topics that bear them. -/
theorem names_after {p : CatalogProjection} {event : CatalogEvent} {offset : UInt64}
    (names : ∀ (name : Bytes) (id : TopicID), p.topicsByName[name]? = some id ↔
      ∃ t, p.topicsByID[id]? = some t ∧ t.descriptor.name = name)
    (accepted : event.Accepted p offset) (name : Bytes) (id : TopicID) :
    (p.after offset event).topicsByName[name]? = some id ↔
      ∃ t, (p.after offset event).topicsByID[id]? = some t ∧ t.descriptor.name = name := by
  have byName := names name id
  cases event with
  | storeInitialized event => exact byName
  | topicCreated event =>
      obtain ⟨started, valid, store, expected, newName, newID⟩ := accepted
      simp only [CatalogProjection.after, ExtTreeMap.getElem?_insert]
      by_cases sameID : event.topicID = id
      · subst sameID
        have unknown : p.topicsByID[event.topicID]? = Option.none := by simpa using newID
        rw [unknown] at byName
        by_cases sameName : event.name = name <;> simp_all [CatalogTopic.ofCreated]
      · by_cases sameName : event.name = name
        · subst sameName
          have unknown : p.topicsByName[event.name]? = Option.none := by simpa using newName
          rw [unknown] at byName
          simp_all
        · simp_all
  | logStartAdvanced event =>
      obtain ⟨valid, store, expected, topic, partition, found, part, checked⟩ := accepted
      refine byName.trans ?_
      simp only [CatalogProjection.after, ExtTreeMap.getElem?_modify]
      split
      · rename_i same
        obtain rfl : event.key.topic = id := LawfulEqOrd.eq_of_compare same
        simp [found, CatalogTopic.advanced]
      · rfl

theorem revision_apply {p p' : CatalogProjection} {record : Record}
    (applied : p.apply record = .ok p') : p'.revision = record.offset + 1 := by
  obtain ⟨event, -, accepted, rfl⟩ := apply_eq_ok.1 applied
  cases event with
  | storeInitialized event =>
      rw [accepted.1]
      rfl
  | topicCreated event => rfl
  | logStartAdvanced event => rfl

end CatalogProjection

end Immulog
