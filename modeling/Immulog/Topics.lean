import Immulog.Store

/-!
The system logs' capacity and the creation of topics (`src/storage/capacity.go` and
`catalog.go`).
-/

namespace Immulog

open Lib Std

/-! ## Capacity of a system log -/

private def capacityError (detail : String) : GoError :=
  .join [.ofKind .errSystemLogCapacity, .new detail]

/-- The bytes of the segments. -/
def usedBytes : List Segment → Nat → Except GoError Nat
  | [], used => return used
  | segment :: rest, used => do
      failIf (maxUint64 < used + segment.size)
        (capacityError "system-log size arithmetic overflow")
      usedBytes rest (used + segment.size)

/-- What a batch of so many bytes adds to the log: a batch that makes it roll also brings a
segment header.  The sum of the test is one of 64-bit words. -/
def systemLogGrowth (p : Partition) (incoming : Nat) : Except GoError Nat := do
  let rolls : Bool := 0 < p.active.records ∧
    p.options.segmentBytes.toNat < (p.active.size + incoming) % 2 ^ 64
  failIf (rolls = true ∧ maxUint64 - segmentHeaderBytes.toNat < incoming)
    (capacityError "system-log growth arithmetic overflow")
  return if rolls then incoming + segmentHeaderBytes.toNat else incoming

/-- Room for so many more bytes. -/
def systemLogAdmission (p : Partition) (incoming limit : Nat) : Except GoError Unit := do
  failIf (limit = 0) (capacityError "system-log history limit is unavailable")
  let incoming ← systemLogGrowth p incoming
  let used ← usedBytes p.segments 0
  failIf (incoming ≠ 0 ∧ limit < used + incoming)
    (capacityError "system-log history capacity exhausted")

/-- The batch of one system event. -/
def systemBatch (topic : TopicID) (base : UInt64) (value : Bytes) : RecordBatch where
  topic := topic
  partition := 0
  baseOffset := base
  records := [systemRecord topic base value]

def systemEventAdmission (p : Partition) (topic : TopicID) (base : UInt64) (value : Bytes)
    (limit : UInt64) : Except GoError Unit := do
  let encoded ← encodeBatch (systemBatch topic base value)
  systemLogAdmission p encoded.length limit.toNat

/-! ## Appending to the catalog -/

/-- `AppendBatch` of one event on the catalog log. -/
def appendCatalog (value : Bytes) (drawn : SegmentID) : StoreM UInt64 := do
  let s ← .read
  let (catalog, outcome) ← .lift ((appendBatch s.catalog
    (systemBatch clusterMetadataTopicID s.catalog.logEnd value) drawn true).atPath s.catalogPath)
  .update fun s => { s with catalog }
  .check outcome

/-- Apply an event that was appended at the given offset. -/
def applyCatalog (offset : UInt64) (value : Bytes) : StoreM Unit := do
  let s ← .read
  let catalogState ← .check
    (s.catalogState.apply (systemRecord clusterMetadataTopicID offset value))
  .update fun s => { s with catalogState }

def Store.fenceMetadata (s : Store) : Store :=
  { s with metadataUnavailable := true }

/-! ## Preparing the storage of a topic -/

def hexDigit (n : Nat) : UInt8 :=
  if n < 10 then 0x30 + .ofNat n else 0x57 + .ofNat n

/-- `TopicID.String` -/
def topicString (id : TopicID) : Bytes :=
  (putID id).flatMap fun b => [hexDigit (b.toNat / 16), hexDigit (b.toNat % 16)]

def topicPreparationMarkerBytes (topic : TopicID) : Bytes :=
  ascii "IEL-TOPIC-PREPARATION-V1\n".toList ++ topicString topic ++ ascii ['\n']

/-- Record a durable marker, which does not make the topic part of the catalog. -/
def prepareTopicStorage (topic : TopicID) : FsM Unit := do
  mkdirAll (topicPath topic)
  syncDir [] "sync topic root"
  syncDir topicsPath "sync topics directory"
  syncDir (topicPath topic) "sync topic preparation directory"
  (Prog.createSynced Name.topicPreparationMarker [topicPreparationMarkerBytes topic]
    (ioError "create topic preparation marker") (ioError "short write")
    (ioError "sync topic preparation marker")).atPath (topicPath topic)
  syncDir (topicPath topic) "sync topic preparation marker directory"

/-- A drawn identity; a reserved one is changed in its last bit. -/
def newTopicID (drawn : TopicID) : TopicID :=
  if OrdinaryTopicID drawn then drawn else drawn ^^^ 1

/-! ## Creating a topic -/

/-- Make the directory of one partition of a new topic and open it. -/
def preparePartition (topic : TopicID) (options : PartitionOptions) (storeID : StoreID)
    (index : Nat) (drawn : SegmentID) : FsM Partition := do
  mkdirAll (partitionPath topic index)
  openPartitionAt (partitionPath topic index) drawn ⟨topic, .ofNat index⟩ options storeID

/-- Prepare the partitions of a new topic in the order of their numbers, up to the first
one that fails. -/
def preparePartitions (topic : TopicID) (options : PartitionOptions) (storeID : StoreID)
    (draw : Nat → SegmentID) :
    Nat → Nat → List Partition → FsM (List Partition × Except GoError Unit)
  | 0, _, prepared => return (prepared, .ok ())
  | count + 1, index, prepared => do
      match ← (preparePartition topic options storeID index (draw index)).attempt with
      | .error e => return (prepared, .error e)
      | .ok opened =>
          preparePartitions topic options storeID draw count (index + 1) (prepared ++ [opened])

/-- The event's entry for a prepared partition. -/
def TopicCreatedPartition.ofPrepared (config : PartitionConfigV1) (opened : Partition) :
    TopicCreatedPartition where
  partition := opened.partition
  config := config
  initial :=
    let first := opened.segments.head?.getD opened.active
    ⟨first.header.id, first.headerHash⟩

def closePrepared : List Partition → StoreM Unit
  | [] => return ()
  | opened :: rest => do
      closeQuietly (partitionPath opened.topic opened.partition.toNat) opened
      closePrepared rest

/-- The checks of `createTopic` on its arguments, and the configuration they give. -/
def checkTopicArguments (name : Bytes) (partitions : UInt32) (options : OpenOptions) :
    Except GoError PartitionConfigV1 := do
  failIf (validTopicName name = false)
    (.join [.ofKind .errInvalidArgument, .new "topic name is invalid"])
  failIf (partitions = 0 ∨ maxTopicPartitions < partitions)
    (.join [.ofKind .errInvalidArgument, .new "topic partition count is outside limits"])
  failIf (options.initialOffset ≠ 0)
    (.join [.ofKind .errInvalidArgument, .new "catalog topics must start at offset zero"])
  options.normalize.validateWriter
  configFromOptions options.normalize

/-- The checks of `createTopic` on the store. -/
def Store.admitTopic (s : Store) (name : Bytes) (partitions : UInt32) : Except GoError Unit := do
  s.checkMetadata
  failIf (name ∈ s.catalogState.topicsByName) (.ofKind .errTopicExists)
  failIf (s.options.maxTopics.toNat ≤ s.catalogState.topicsByID.size)
    (resourceLimit s!"topic limit {s.options.maxTopics} is exhausted")
  validateCatalogOperatingLimits s.catalogState s.options
  failIf (s.options.maxUserPartitions.toNat - s.catalogState.userPartitions < partitions.toNat)
    (resourceLimit (s!"topic needs {partitions} user partitions, " ++
      s!"operating limit is {s.options.maxUserPartitions}"))
  admitOpenPartitions s.partitions.size partitions.toNat s.options.maxOpenPartitions.toNat

/-- The `TopicCreated` event of a call, if there is room for it. -/
def Store.topicEvent (s : Store) (topic : TopicID) (name : Bytes) (config : PartitionConfigV1)
    (prepared : List Partition) : Except GoError Bytes := do
  let payload ← encodeTopicCreatedPayload
    { storeID := s.storeID
      expectedCatalogNext := s.catalog.logEnd
      topicID := topic
      name
      partitions := prepared.map (TopicCreatedPartition.ofPrepared config) }
  let value ← encodeSystemEvent eventTopicCreated payload
  systemEventAdmission s.catalog clusterMetadataTopicID s.catalog.logEnd value
    s.options.maxCatalogHistoryBytes
  return value

/-- The random identities that a call draws. -/
structure TopicDraws where
  topic : TopicID
  segments : Nat → SegmentID
  catalog : SegmentID

/-- Keep the partitions of a new topic open. -/
def installPrepared (s : Store) (prepared : List Partition) : Store :=
  { s with partitions := prepared.foldl (fun open' opened =>
      open'.insert ⟨opened.topic, opened.partition⟩ opened) s.partitions }

/-- Append and apply the event of a new topic, and keep its partitions open. -/
def registerTopic (name : Bytes) (value : Bytes) (prepared : List Partition) (drawn : SegmentID) :
    StoreM TopicDescriptor := do
  match ← (appendCatalog value drawn).attempt with
  | .error e => do
      closePrepared prepared
      if e.is .errAppendOutcomeUnknown then .update Store.fenceMetadata
      .fail e
  | .ok _ => do
      let s ← .read
      match ← (applyCatalog (s.catalog.logEnd - 1) value).attempt with
      | .error e => do
          .update Store.fenceMetadata
          closePrepared prepared
          .fail (.join [.ofKind .errMetadataUnavailable, e])
      | .ok _ => do
          .update (installPrepared · prepared)
          let s ← .read
          match s.catalogState.topicNamed? name with
          | none => .fail (.ofKind .errUnknownTopic) -- the event has just been applied
          | some created => return created.descriptor

/-- `createTopic`: the topic exists once its event is in the catalog log. -/
def Store.createTopic (name : Bytes) (partitions : UInt32) (options : OpenOptions)
    (draws : TopicDraws) : StoreM TopicDescriptor := do
  let config ← .check (checkTopicArguments name partitions options)
  let s ← .read
  .check (s.admitTopic name partitions)
  let topic := newTopicID draws.topic
  .lift (prepareTopicStorage topic)
  let (prepared, outcome) ← .lift (preparePartitions topic options.normalize.toPartitionOptions
    s.storeID draws.segments partitions.toNat 0 [])
  match outcome.bind fun _ => s.topicEvent topic name config prepared with
  | .error e => do
      closePrepared prepared
      .fail e
  | .ok value => registerTopic name value prepared draws.catalog

end Immulog
