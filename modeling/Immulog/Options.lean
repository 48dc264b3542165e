import Immulog.Catalog
import Immulog.Partition

/-!
The options of partitions and of a store (`src/storage/partition.go`, `writer.go`,
`config.go` and `store.go`).

`OpenOptions` is the `PartitionOptions` of the source in full: the options that the
partition engine reads, and those that admission in front of the writer and the catalog
read.
-/

namespace Immulog

open Lib

/-! ## Partitions -/

structure OpenOptions extends PartitionOptions where
  inFlightBytes : UInt64
  inFlightRecords : UInt32
  admissionWaiters : UInt32
  /-- `time.Duration`, in nanoseconds, as the three durations below. -/
  batchLinger : Int
  retentionTimeEnabled : Bool
  retentionSizeEnabled : Bool
  retentionDuration : Int
  retentionBytes : UInt64
  maxSegmentAge : Int
  retentionCheck : Int
  deriving DecidableEq, Repr

def minimumBatchBytes : UInt32 := batchHeaderBytes.toUInt32 + 4 + recordPrefixBytes

def defaultSegmentBytes : UInt64 := segmentHeaderBytes.toUInt64 + maxBatchBytes.toUInt64

def defaultInFlightRecords : UInt32 := 1024

def defaultAdmissionWaiters : UInt32 := 64

def maxInFlightRecords : UInt32 := 65536

/-- Zero selects the default. -/
def orDefault {α : Type} [OfNat α 0] [DecidableEq α] (value byDefault : α) : α :=
  if value = 0 then byDefault else value

theorem orDefault_ne_zero {α : Type} [OfNat α 0] [DecidableEq α] {value byDefault : α}
    (positive : byDefault ≠ 0) : orDefault value byDefault ≠ 0 := by
  unfold orDefault
  split
  · exact positive
  · assumption

namespace OpenOptions

private def invalidOption (detail : String) : GoError :=
  .join [.ofKind .errInvalidArgument, .new detail]

/-- The record limit that a batch limit leaves room for. -/
def defaultRecordBytes (batchBytes : UInt32) : UInt32 :=
  if minimumBatchBytes < batchBytes ∧ batchBytes - minimumBatchBytes < maxRecordBytes then
    batchBytes - minimumBatchBytes
  else maxRecordBytes

def normalizeWriter (options : OpenOptions) : OpenOptions :=
  let batchBytes := orDefault options.batchBytes maxBatchBytes
  { options with
    batchBytes
    batchRecords := orDefault options.batchRecords maxBatchRecords
    recordBytes := orDefault options.recordBytes (defaultRecordBytes batchBytes)
    inFlightBytes := orDefault options.inFlightBytes (batchBytes.toUInt64 * 2)
    inFlightRecords := orDefault options.inFlightRecords defaultInFlightRecords
    admissionWaiters := orDefault options.admissionWaiters defaultAdmissionWaiters }

def normalize (options : OpenOptions) : OpenOptions :=
  normalizeWriter { options with
    segmentBytes := orDefault options.segmentBytes defaultSegmentBytes
    indexStride := orDefault options.indexStride defaultIndexStride }

def validateWriter (options : OpenOptions) : Except GoError Unit := do
  failIf (options.batchBytes < minimumBatchBytes ∨ maxBatchBytes < options.batchBytes)
    (invalidOption "batch byte limit is outside v1 limits")
  failIf (options.batchRecords = 0 ∨ maxBatchRecords < options.batchRecords)
    (invalidOption "batch record limit is outside v1 limits")
  failIf (options.recordBytes < recordPrefixBytes ∨ maxRecordBytes < options.recordBytes)
    (invalidOption "record byte limit is outside v1 limits")
  failIf (options.inFlightBytes = 0 ∨ options.inFlightRecords = 0 ∨ options.admissionWaiters = 0)
    (invalidOption "writer admission limits must be positive")
  failIf (maxInFlightRecords < options.inFlightRecords)
    (.join [.ofKind .errResourceLimit, .new "in-flight record limit exceeds ingress capacity"])
  failIf (options.batchLinger < 0) (invalidOption "batch linger cannot be negative")

end OpenOptions

def durationMillis64 (value : Int) (name : String) : Except GoError UInt64 := do
  failIf (value < 0 ∨ value % millisecond ≠ 0)
    (.join [.ofKind .errInvalidArgument, .new (name ++ " must be a nonnegative whole millisecond")])
  return .ofNat (value / millisecond).toNat

def retentionReasonTime : UInt8 := 1

def retentionReasonSize : UInt8 := 2

/-- The configuration that the catalog records for a topic. -/
def configFromOptions (options : OpenOptions) : Except GoError PartitionConfigV1 := do
  let options := options.normalize
  let linger ← durationMillis options.batchLinger
  let retentionMillis ← durationMillis64 options.retentionDuration "retention duration"
  let maxSegmentAgeMillis ← durationMillis64 options.maxSegmentAge "maximum segment age"
  let retentionCheckMillis ← durationMillis64 options.retentionCheck "retention check interval"
  let retentionMask : UInt8 := (if options.retentionTimeEnabled then retentionReasonTime else 0) |||
    (if options.retentionSizeEnabled then retentionReasonSize else 0)
  failIf (retentionMask ≠ 0 ∧ retentionCheckMillis = 0)
    (.join [.ofKind .errInvalidArgument, .new "retention requires a positive check interval"])
  let config : PartitionConfigV1 :=
    { maxRecordBytes := options.recordBytes
      maxBatchBytes := options.batchBytes
      maxBatchRecords := options.batchRecords
      segmentMaxBytes := options.segmentBytes
      batchLinger := linger.toNat * millisecond
      retentionMask
      retentionMillis := if retentionMask &&& 1 = 0 then 0 else retentionMillis
      retentionBytes := if retentionMask &&& 2 = 0 then 0 else options.retentionBytes
      maxSegmentAgeMillis
      retentionCheckMillis := if retentionMask = 0 then 0 else retentionCheckMillis }
  config.validate false
  return config

/-- The options under which a recorded configuration is opened. -/
def PartitionConfigV1.options (config : PartitionConfigV1) : OpenOptions :=
  OpenOptions.normalize
    { segmentBytes := config.segmentMaxBytes
      initialOffset := 0
      indexStride := 0
      batchBytes := config.maxBatchBytes
      batchRecords := config.maxBatchRecords
      recordBytes := config.maxRecordBytes
      tailSlots := 0
      tailBytes := 0
      inFlightBytes := 0
      inFlightRecords := 0
      admissionWaiters := 0
      batchLinger := config.batchLinger
      retentionTimeEnabled := config.retentionMask &&& 1 ≠ 0
      retentionSizeEnabled := config.retentionMask &&& 2 ≠ 0
      retentionDuration := config.retentionMillis.toNat * millisecond
      retentionBytes := config.retentionBytes
      maxSegmentAge := config.maxSegmentAgeMillis.toNat * millisecond
      retentionCheck := config.retentionCheckMillis.toNat * millisecond }

def systemPartitionConfig : PartitionConfigV1 :=
  { PartitionConfigV1.zero with
    maxRecordBytes := maxRecordBytes
    maxBatchBytes := maxBatchBytes
    maxBatchRecords := maxBatchRecords
    segmentMaxBytes := defaultSegmentBytes }

end Immulog
