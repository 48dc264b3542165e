import Immulog.Lib.Process
import Immulog.Offsets
import Immulog.Options

/-!
A store and the partitions it holds open (`src/storage/store.go`, and the opening paths
of `catalog.go`, `consumer.go` and `retention.go`).

A store is its state in memory; its procedures run on the tree of the data directory,
whose root is the empty path.  The store's lock makes each procedure below one step.
Disk-pressure reservations, statistics, contexts and open file handles are left out.
-/

namespace Immulog

open Lib Std

/-! ## Options -/

def defaultSystemLogCapacityBytes : UInt64 := 1024 * 1024 * 1024

structure StoreOptions where
  tailBytes : UInt64
  maxTopics : UInt32
  maxUserPartitions : UInt32
  maxOpenPartitions : UInt32
  maxOpenSegmentFiles : UInt32
  maxCatalogHistoryBytes : UInt64
  maxOffsetsHistoryBytes : UInt64
  maxConsumerGroups : UInt32
  maxConsumerProgressKeys : UInt32
  diskSafetyBytes : UInt64
  diskUserStopBytes : UInt64
  diskResumeBytes : UInt64
  diskSafetyInodes : UInt64
  diskUserStopInodes : UInt64
  diskResumeInodes : UInt64
  deriving DecidableEq, Repr

def resourceLimit (detail : String) : GoError :=
  .join [.ofKind .errResourceLimit, .new detail]

namespace StoreOptions

def normalize (options : StoreOptions) : StoreOptions where
  tailBytes := orDefault options.tailBytes Immulog.maxTailBytes
  maxTopics := orDefault options.maxTopics 4096
  maxUserPartitions := orDefault options.maxUserPartitions maxTopicPartitions
  maxOpenPartitions := orDefault options.maxOpenPartitions 1024
  maxOpenSegmentFiles := orDefault options.maxOpenSegmentFiles 512
  maxCatalogHistoryBytes := orDefault options.maxCatalogHistoryBytes defaultSystemLogCapacityBytes
  maxOffsetsHistoryBytes := orDefault options.maxOffsetsHistoryBytes defaultSystemLogCapacityBytes
  maxConsumerGroups := orDefault options.maxConsumerGroups 4096
  maxConsumerProgressKeys := orDefault options.maxConsumerProgressKeys maxTopicPartitions
  diskSafetyBytes := orDefault options.diskSafetyBytes (32 * 1024 * 1024)
  diskUserStopBytes := orDefault options.diskUserStopBytes (64 * 1024 * 1024)
  diskResumeBytes := orDefault options.diskResumeBytes (96 * 1024 * 1024)
  diskSafetyInodes := orDefault options.diskSafetyInodes 16
  diskUserStopInodes := orDefault options.diskUserStopInodes 32
  diskResumeInodes := orDefault options.diskResumeInodes 64

/-- The options of a store that is opened with none. -/
def defaults : StoreOptions :=
  normalize ⟨0, 0, 0, 0, 0, 0, 0, 0, 0, 0, 0, 0, 0, 0, 0⟩

/-- A limit of at least one and at most the format's own. -/
def OutsideLimits (limit : UInt32) : Prop :=
  limit = 0 ∨ maxTopicPartitions < limit

instance (limit : UInt32) : Decidable (OutsideLimits limit) :=
  inferInstanceAs (Decidable (_ ∨ _))

def validate (options : StoreOptions) : Except GoError Unit := do
  failIf (Immulog.maxTailBytes < options.tailBytes)
    (resourceLimit "store tail byte limit exceeds runtime limit")
  failIf (OutsideLimits options.maxTopics)
    (resourceLimit "store topic limit is outside the supported range")
  failIf (OutsideLimits options.maxUserPartitions)
    (resourceLimit "store user-partition limit is outside the supported range")
  failIf (options.maxCatalogHistoryBytes = 0 ∨ options.maxOffsetsHistoryBytes = 0)
    (resourceLimit "system-log history limit must be positive")
  failIf (OutsideLimits options.maxConsumerGroups)
    (resourceLimit "consumer-group limit is outside the supported range")
  failIf (OutsideLimits options.maxConsumerProgressKeys)
    (resourceLimit "consumer progress-key limit is outside the supported range")
  failIf (options.diskUserStopBytes ≤ options.diskSafetyBytes ∨
      options.diskResumeBytes ≤ options.diskUserStopBytes)
    (.join [.ofKind .errInvalidArgument,
      .new "disk byte floors must satisfy safety < user-stop < resume"])
  failIf (options.diskUserStopInodes ≤ options.diskSafetyInodes ∨
      options.diskResumeInodes ≤ options.diskUserStopInodes)
    (.join [.ofKind .errInvalidArgument,
      .new "disk inode floors must satisfy safety < user-stop < resume"])
  failIf (OutsideLimits options.maxOpenPartitions)
    (resourceLimit "store active-partition limit is outside the supported range")
  failIf (OutsideLimits options.maxOpenSegmentFiles)
    (resourceLimit "store open segment-file limit is outside the supported range")

end StoreOptions

/-! ## Operating limits -/

/-- The partitions of all topics. -/
def CatalogProjection.userPartitions (projection : CatalogProjection) : Nat :=
  (projection.topicsByID.toList.map fun topic => topic.2.descriptor.partitions.length).sum

def validateCatalogOperatingLimits (projection : CatalogProjection) (options : StoreOptions) :
    Except GoError Unit := do
  let topics := projection.topicsByID.size
  let partitions := projection.userPartitions
  failIf (options.maxTopics.toNat < topics)
    (resourceLimit s!"catalog has {topics} topics, operating limit is {options.maxTopics}")
  failIf (options.maxUserPartitions.toNat < partitions)
    (resourceLimit (s!"catalog has {partitions} user partitions, " ++
      s!"operating limit is {options.maxUserPartitions}"))

/-- The baselines of a group, and its explicit starts that are not baselines yet. -/
def OffsetGroup.progressKeys (group : OffsetGroup) : Nat :=
  group.progress.size +
    (group.explicitStarts.toList.filter fun start => start.1 ∉ group.progress).length

/-- The groups and the progress keys in use. -/
def offsetsProjectionUsage (projection : OffsetsProjection) : Nat × Nat :=
  (projection.groups.size,
    (projection.groups.toList.map fun group => group.2.progressKeys).sum)

/-- Room for that many more groups and progress keys. -/
def admitOffsetsProjectionGrowth (projection : OffsetsProjection) (options : StoreOptions)
    (addGroups addProgressKeys : Nat) : Except GoError Unit := do
  let (groups, progressKeys) := offsetsProjectionUsage projection
  failIf (options.maxConsumerGroups.toNat < groups + addGroups)
    (resourceLimit s!"consumer-group limit {options.maxConsumerGroups} is exhausted")
  failIf (options.maxConsumerProgressKeys.toNat < progressKeys + addProgressKeys)
    (resourceLimit s!"consumer progress-key limit {options.maxConsumerProgressKeys} is exhausted")

def admitOpenPartitions (current needed limit : Nat) : Except GoError Unit :=
  failIf (limit < current + needed)
    (resourceLimit s!"opening {needed} partitions exceeds active-partition limit {limit}")

/-! ## The state of a store -/

/-- `api.FetchOptions` with the time to wait for records. -/
structure PollOptions extends FetchOptions where
  maxWait : Int
  deriving DecidableEq, Repr

/-- A handle of `OpenConsumer`.  Times are nanoseconds. -/
structure Consumer where
  groupID : Bytes
  key : TopicKey
  session : Session
  generation : UInt64
  fetch : PollOptions
  progressTimeout : Int
  next : UInt64
  delivered : UInt64
  deadline : Int
  operationActive : Bool
  expired : Bool
  closed : Bool

structure GroupMember where
  session : Session
  subscriptions : List TopicKey
  deadline : Int
  inFlight : UInt32

/-- `busy` is the lock that an operation on the cursor holds. -/
structure GroupCursor where
  owner : Session
  next : UInt64
  delivered : UInt64
  busy : Bool

/-- A handle of `OpenConsumerGroup`. -/
structure GroupConsumer where
  groupID : Bytes
  generation : UInt64
  fetch : PollOptions
  progressTimeout : Int
  membership : List (List TopicKey)
  members : ExtTreeMap Session GroupMember
  cursors : ExtTreeMap TopicKey GroupCursor
  closed : Bool

/-- The handles given out so far are kept by number; the maps of live consumers lead to
them.  `retentionPartitions` holds the temporary partitions of retention, and whether
each of them is being retired: it changes together with `partitions`, so that the
instance it names is the one there. -/
structure Store where
  storeID : StoreID
  options : StoreOptions
  metadataGeneration : UInt64
  catalog : Partition
  offsets : Partition
  catalogState : CatalogProjection
  offsetsState : OffsetsProjection
  partitions : ExtTreeMap TopicKey Partition
  retentionPartitions : ExtTreeMap TopicKey Bool
  consumerHandles : List Consumer
  consumers : Bytes → TopicKey → Option Nat
  groupHandles : List GroupConsumer
  groupConsumers : Bytes → Option Nat
  expiredGroups : Bytes → Bool
  metadataUnavailable : Bool
  offsetsUnavailable : Bool
  closed : Bool
  closing : Bool

/-- A procedure of the store. -/
abbrev StoreM := Proc (FsOp Name) (FS Name) GoError Store

namespace Store

/-- The directories of the system logs, which belong to the selected generation. -/
def catalogPath (s : Store) : Path Name :=
  if s.metadataGeneration = 0 then clusterMetadataDir
  else generationPartitionDir s.metadataGeneration true

def offsetsPath (s : Store) : Path Name :=
  if s.metadataGeneration = 0 then consumerOffsetsDir
  else generationPartitionDir s.metadataGeneration false

def checkOpen (s : Store) : Except GoError Unit := do
  failIf (s.closed = true) (.ofKind .errClosed)
  failIf (s.closing = true) (.ofKind .errClosing)

def checkMetadata (s : Store) : Except GoError Unit := do
  s.checkOpen
  failIf (s.metadataUnavailable = true) (.ofKind .errMetadataUnavailable)

def checkOffsets (s : Store) : Except GoError Unit := do
  s.checkOpen
  failIf (s.offsetsUnavailable = true) (.ofKind .errGroupUnavailable)

end Store

/-- Change the open partition under a key. -/
def setPartition (key : TopicKey) (p : Partition) : StoreM Unit :=
  .update fun s => { s with partitions := s.partitions.insert key p }

/-! ## Directories -/

/-- Make the missing directories behind `front`. -/
def mkdirAllFrom (front : Path Name) : Path Name → FsM Unit
  | [] => return ()
  | name :: rest => do
      let fs ← .get
      if (fs (front ++ [name])).isNone then
        .perform (.mkdir front name) (ioError "create directory")
      mkdirAllFrom (front ++ [name]) rest

/-- `fsMkdirAll` -/
def mkdirAll (path : Path Name) : FsM Unit :=
  mkdirAllFrom [] path

def syncDir (path : Path Name) (detail : String) : FsM Unit :=
  .perform (.inDir path .syncDir) (ioError detail)

def userPath (key : TopicKey) : Path Name :=
  partitionPath key.topic key.partition.toNat

/-- `osMkdirAndSyncPartition`, which `OpenPartition` spells out. -/
def mkdirAndSyncPartition (key : TopicKey) : FsM Unit := do
  mkdirAll (userPath key)
  syncDir (topicPath key.topic) "sync topic directory"
  syncDir (userPath key) "sync partition directory"

/-- `openPartition` in the directory at `path`; a missing directory cannot be listed. -/
def openPartitionAt (path : Path Name) (drawn : SegmentID) (key : TopicKey)
    (options : PartitionOptions) (storeID : StoreID) : FsM Partition := do
  let fs ← .get
  match fs path with
  | none => .fail (ioError "read partition directory")
  | some _ => (openPartition drawn key.topic key.partition options storeID).atPath path

/-! ## Opening a user partition -/

/-- The options under which a catalog-owned partition opens. -/
def TopicPartition.openOptions (descriptor : TopicPartition) : OpenOptions :=
  { descriptor.config.options with initialOffset := descriptor.retainedL }

/-- The partition of the catalog under a key. -/
def CatalogProjection.partition? (projection : CatalogProjection) (key : TopicKey) :
    Option TopicPartition :=
  (projection.topicsByID[key.topic]?).bind fun topic =>
    topic.descriptor.partitions[key.partition.toNat]?

def CatalogProjection.topicNamed? (projection : CatalogProjection) (name : Bytes) :
    Option CatalogTopic :=
  (projection.topicsByName[name]?).bind fun id => projection.topicsByID[id]?

def validateRetainedAnchor (partition : Partition) (descriptor : TopicPartition) :
    Except GoError Unit :=
  failIf (partition.logStart ≠ descriptor.retainedL ∨
      (partition.segments.head?.map fun s => s.header.id) ≠ some descriptor.currentRetainedSegment ∨
      (partition.segments.head?.map Segment.headerHash) ≠ some descriptor.currentRetainedHeaderHash)
    (corrupt .errInvalidSegment "topic partition retained anchor mismatch")

/-- Close a partition that is not kept; what goes wrong is ignored. -/
def closeQuietly (path : Path Name) (partition : Partition) : StoreM Unit := do
  let _ ← (Proc.lift ((closePartition partition).atPath path)).attempt

/-- Open the directory of a partition, check its first segment against the catalog's
anchor if it has one, and keep it open. -/
def openUserPartition (key : TopicKey) (options : PartitionOptions) (anchor : Option TopicPartition)
    (drawn : SegmentID) : StoreM Partition := do
  let s ← .read
  let opened ← .lift (openPartitionAt (userPath key) drawn key options s.storeID)
  match anchor.elim (.ok ()) (validateRetainedAnchor opened) with
  | .error e => do
      closeQuietly (userPath key) opened
      .fail e
  | .ok _ => do
      .update fun s => { s with partitions := s.partitions.insert key opened }
      return opened

def retentionTeardown : GoError :=
  .join [.ofKind .errConcurrentOperation, .new "partition retention teardown is in progress"]

/-- The open partition under a key; a temporary one is kept from now on. -/
def claimPartitionLocked (key : TopicKey) : StoreM (Option Partition) := do
  let s ← .read
  match s.partitions[key]?, s.retentionPartitions[key]? with
  | none, _ => return none
  | some partition, none => return some partition
  | some _, some true => .fail retentionTeardown
  | some partition, some false => do
      .update fun s => { s with retentionPartitions := s.retentionPartitions.erase key }
      return some partition

def Store.partitionRetiringLocked (s : Store) (key : TopicKey) : Bool :=
  s.partitions[key]?.isSome && s.retentionPartitions[key]? = some true

/-! ## The opening paths -/

/-- The arguments of `OpenPartition` in front of the writer limits. -/
def checkOpenArguments (key : TopicKey) (options : OpenOptions) : Except GoError Unit := do
  failIf (key.topic = 0) (.join [.ofKind .errInvalidArgument, .new "topic ID must be nonzero"])
  failIf (key.topic = clusterMetadataTopicID ∨ key.topic = consumerOffsetsTopicID)
    (.join [.ofKind .errInvalidArgument, .new "reserved system logs are not public partitions"])
  failIf (int32Max < key.partition)
    (.join [.ofKind .errInvalidArgument, .new "partition ID is outside v1 range"])
  failIf (options.segmentBytes ≠ 0 ∧
      options.segmentBytes < segmentHeaderBytes.toUInt64 + minimumBatchBytes.toUInt64)
    (.join [.ofKind .errInvalidArgument, .new "segment size cannot fit the minimum batch"])
  failIf (maxOffset < options.initialOffset)
    (.join [.ofKind .errInvalidArgument, .new "initial offset is outside v1 range"])

/-- A catalog-owned partition takes its options from the catalog, but for the tail. -/
def CatalogProjection.resolveOptions (projection : CatalogProjection) (key : TopicKey)
    (options : OpenOptions) : Except GoError (OpenOptions × Option TopicPartition) :=
  match projection.topicsByID[key.topic]? with
  | none => return (options, none)
  | some topic =>
      match topic.descriptor.partitions[key.partition.toNat]? with
      | none => throw (.join [.ofKind .errInvalidArgument,
          .new "partition is not part of the catalog topic"])
      | some descriptor =>
          return ({ descriptor.openOptions with
            tailSlots := options.tailSlots, tailBytes := options.tailBytes }, some descriptor)

/-- `OpenPartition` -/
def Store.openPartition (key : TopicKey) (options : OpenOptions) (drawn : SegmentID) :
    StoreM Partition := do
  .check (checkOpenArguments key options)
  let options := options.normalize
  .check options.validateWriter
  let s ← .read
  .check s.checkMetadata
  let (options, anchor) ← .check (s.catalogState.resolveOptions key options)
  match ← claimPartitionLocked key with
  | some existing => return existing
  | none => do
      .check (admitOpenPartitions s.partitions.size 1 s.options.maxOpenPartitions.toNat)
      .lift (mkdirAndSyncPartition key)
      openUserPartition key options.toPartitionOptions anchor drawn

/-- One round of `OpenTopic`. -/
def openTopicPartition (key : TopicKey) (descriptor : TopicPartition) (drawn : SegmentID) :
    StoreM Partition := do
  match ← claimPartitionLocked key with
  | some existing => return existing
  | none => openUserPartition key descriptor.openOptions.toPartitionOptions descriptor drawn

/-- The loop of `OpenTopic`; `draw` are the identities of the segments that may have to
be created. -/
def openTopicPartitions (topic : TopicID) (draw : Nat → SegmentID) :
    Nat → List TopicPartition → StoreM (List Partition)
  | _, [] => return []
  | index, descriptor :: rest => do
      let partition ← openTopicPartition ⟨topic, .ofNat index⟩ descriptor (draw index)
      let others ← openTopicPartitions topic draw (index + 1) rest
      return partition :: others

/-- `OpenTopic` -/
def Store.openTopic (name : Bytes) (draw : Nat → SegmentID) : StoreM (List Partition) := do
  let s ← .read
  .check s.checkMetadata
  let some topic := s.catalogState.topicNamed? name | .fail (.ofKind .errUnknownTopic)
  let descriptor := topic.descriptor
  let keys : List TopicKey := (List.range descriptor.partitions.length).map fun index =>
    ⟨descriptor.id, .ofNat index⟩
  .check (failIf (∃ key ∈ keys, s.partitionRetiringLocked key = true) retentionTeardown)
  let missing := (keys.filter fun key => s.partitions[key]?.isNone).length
  .check (admitOpenPartitions s.partitions.size missing s.options.maxOpenPartitions.toNat)
  openTopicPartitions descriptor.id draw 0 descriptor.partitions

/-- The opening of a partition for a consumer. -/
def openConsumerPartitionLocked (key : TopicKey) (drawn : SegmentID) : StoreM Partition := do
  let s ← .read
  let some topic := s.catalogState.topicsByID[key.topic]? | .fail (.ofKind .errUnknownTopic)
  let some descriptor := topic.descriptor.partitions[key.partition.toNat]?
    | .fail (.join [.ofKind .errInvalidArgument,
        .new "consumer partition is not in the catalog topic"])
  match ← claimPartitionLocked key with
  | some existing => return existing
  | none => do
      .check (admitOpenPartitions s.partitions.size 1 s.options.maxOpenPartitions.toNat)
      .lift (mkdirAndSyncPartition key)
      openUserPartition key descriptor.openOptions.toPartitionOptions descriptor drawn

/-- The opening of a partition for retention, and whether it is temporary. -/
def openRetentionPartition (key : TopicKey) (drawn : SegmentID) : StoreM (Partition × Bool) := do
  let s ← .read
  .check s.checkMetadata
  .check (failIf (s.partitionRetiringLocked key = true) retentionTeardown)
  match s.partitions[key]? with
  | some existing => return (existing, false)
  | none => do
      let some descriptor := s.catalogState.partition? key | .fail (.ofKind .errUnknownTopic)
      .check (admitOpenPartitions s.partitions.size 1 s.options.maxOpenPartitions.toNat)
      let opened ← openUserPartition key descriptor.openOptions.toPartitionOptions descriptor drawn
      .update fun s => { s with retentionPartitions := s.retentionPartitions.insert key false }
      return (opened, true)

/-- A temporary partition that nobody claimed is closed and forgotten.  The source marks
it as retiring while it closes it outside of the lock. -/
def beginReleaseRetention (key : TopicKey) : StoreM Bool := do
  let s ← .read
  match s.partitions[key]?, s.retentionPartitions[key]? with
  | some _, some _ => do
      .update fun s => { s with retentionPartitions := s.retentionPartitions.insert key true }
      return true
  | _, _ => return false

def finishReleaseRetention (key : TopicKey) : StoreM Unit := do
  let s ← .read
  match s.partitions[key]?, s.retentionPartitions[key]? with
  | some partition, some _ => do
      closeQuietly (userPath key) partition
      .update fun s => { s with
        partitions := s.partitions.erase key
        retentionPartitions := s.retentionPartitions.erase key }
  | _, _ => return ()

end Immulog
