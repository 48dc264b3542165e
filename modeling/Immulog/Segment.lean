import Immulog.Codec
import Immulog.Layout
import Immulog.Lib.NewFile
import Mathlib.Data.List.Sort

/-!
Segments of a partition directory (`createSegment`, `discoverSegments`,
`recoverSegment` and `canTruncateTail` of `src/storage/partition.go`).

Sizes, positions and record counts are natural numbers; the file behind a segment is
the entry `log header.baseOffset` of its directory.
-/

namespace Immulog

open Lib

/-! ## Segments in memory -/

structure BatchInfo where
  base : UInt64
  position : Nat
  bytes : UInt32
  records : UInt32
  maxTime : Int64
  deriving DecidableEq, Repr

structure OffsetIndexEntry where
  base : UInt64
  position : Nat
  bytes : UInt32
  records : UInt32
  deriving DecidableEq, Repr

structure TimeIndexEntry where
  prefixMax : Int64
  base : UInt64
  position : Nat
  bytes : UInt32
  records : UInt32
  deriving DecidableEq, Repr

/-- The open file of a segment is the entry `log header.baseOffset` of its directory. -/
structure Segment where
  header : SegmentHeader
  endOffset : UInt64
  size : Nat
  records : Nat
  maxTime : Int64
  headerHash : Hash
  batches : List BatchInfo
  offsetIndex : List OffsetIndexEntry
  timeIndex : List TimeIndexEntry
  /-- The sidecar files do not reflect the indexes in memory. -/
  indexDirty : Bool
  deriving DecidableEq, Repr

/-- The name of the segment file. -/
def Segment.name (s : Segment) : Name :=
  .log s.header.baseOffset

/-! ## Creation -/

/-- The random identity of a new segment; zero is not drawn. -/
def segmentID (drawn : SegmentID) : SegmentID :=
  if drawn = 0 then 1 else drawn

def newSegment (header : SegmentHeader) : Segment :=
  { header
    endOffset := header.baseOffset
    size := segmentHeaderBytes.toNat
    records := 0
    maxTime := Int64.minValue
    headerHash := segmentHeaderHash header.bytes
    batches := []
    offsetIndex := []
    timeIndex := []
    indexDirty := true }

/-- The header of a segment about to be created. -/
def drawnHeader (drawn : SegmentID) (topic : TopicID) (partition : UInt32) (base : UInt64) :
    SegmentHeader :=
  { topic, partition, baseOffset := base, id := segmentID drawn }

def createSegment (drawn : SegmentID) (topic : TopicID) (partition : UInt32) (base : UInt64) :
    DirM Segment := do
  let header := drawnHeader drawn topic partition base
  let temporary := Name.segmentTmp (segmentID drawn)
  let encoded ← .ofExcept (encodeSegmentHeader header)
  .createSynced temporary [encoded] (ioError "create temporary segment")
    (ioError "short write") (ioError "sync segment header")
  let dir ← .get
  .ofExcept (failIf (.log base ∈ dir) (corrupt .errInvalidSegment "segment path already exists"))
  .perform (.rename temporary (.log base)) (ioError "publish segment header")
  .perform .syncDir (ioError "sync segment directory")
  return newSegment header

/-! ## Discovery -/

/-- The segment files among the entries; any other name that ends in `.log` is refused. -/
def discoverEntries : List (Sigma fun _ : Name => Entry) → Except GoError (List UInt64)
  | [] => return []
  | ⟨name, entry⟩ :: rest =>
      match name, entry.file with
      | .log base, some _ => do
          failIf (maxOffset < base)
            (corrupt .errInvalidSegment "segment filename offset outside v1 range")
          let later ← discoverEntries rest
          return base :: later
      | .strayLog text, some _ =>
          throw (corrupt .errInvalidSegment s!"noncanonical segment filename {text}")
      | _, _ => discoverEntries rest

/-- The bases of the segment files in increasing order. -/
def discoverSegments (dir : Dir Name) : Except GoError (List UInt64) := do
  let bases ← discoverEntries dir.entries
  return bases.insertionSort fun a b => a.toNat ≤ b.toNat

/-! ## Recovery -/

def canTruncateTail (data : Bytes) (expectedOffset : UInt64) : Prop :=
  let total := uint32 (slice data 8 12)
  let count := uint32 (slice data 12 16)
  let base := uint64 (slice data 16 24)
  batchHeaderBytes.toNat ≤ data.length ∧ slice data 0 4 = batchMagic ∧
    uint16 (slice data 6 8) = batchHeaderBytes ∧
    uint32 (slice data 44 48) = crc32c (slice data 0 44) ∧
    uint16 (slice data 4 6) = formatVersion ∧ uint16 (slice data 36 38) = formatVersion ∧
    uint32 (slice data 32 36) = 0 ∧ uint16 (slice data 38 40) = 0 ∧
    uint32 (slice data 40 44) = 0 ∧
    batchHeaderBytes.toUInt32 + 4 + recordPrefixBytes ≤ total ∧ total ≤ maxBatchBytes ∧
    0 < count ∧ count ≤ maxBatchRecords ∧ validOffsetRange base count ∧
    base = expectedOffset ∧ data.length < total.toNat

instance (data : Bytes) (expectedOffset : UInt64) :
    Decidable (canTruncateTail data expectedOffset) :=
  inferInstanceAs (Decidable (_ ∧ _))

/-- The variables of the recovery loop. -/
structure Recovered where
  current : UInt64
  position : Nat
  records : Nat
  maxTime : Int64
  batches : List BatchInfo
  deriving DecidableEq, Repr

/-- The largest timestamp so far, with the given records. -/
def raiseMaxTime (maxTime : Int64) (records : List Record) : Int64 :=
  records.foldl (fun m r => if m < r.timestamp then r.timestamp else m) maxTime

/-- The entry of a batch of the given encoding in the batch map. -/
def batchInfo (batch : RecordBatch) (position : Nat) (encoded : Bytes) : BatchInfo :=
  { base := batch.baseOffset
    position
    bytes := .ofNat encoded.length
    records := .ofNat batch.records.length
    maxTime := (uint64 (slice encoded 24 32)).toInt64 }

def Recovered.push (r : Recovered) (batch : RecordBatch) (encoded : Bytes) : Recovered :=
  { current := r.current + .ofNat batch.records.length
    position := r.position + encoded.length
    records := r.records + batch.records.length
    maxTime := raiseMaxTime r.maxTime batch.records
    batches := r.batches ++ [batchInfo batch r.position encoded] }

/-- The recovery loop over the bytes at the current position.  The flag tells that
an incomplete final batch is to be cut off.  Every round consumes a batch, so that
the length of the file is enough fuel. -/
def recoverBatches (topic : TopicID) (partition : UInt32) (final : Bool) :
    Nat → Bytes → Recovered → Except GoError (Recovered × Bool)
  | 0, _, r => return (r, false)
  | fuel + 1, rest, r =>
      if rest = [] then return (r, false)
      else if rest.length < batchHeaderBytes.toNat then
        throw (corrupt .errInvalidBatch "partial batch header")
      else
        let batchLength := uint32 (slice rest 8 12)
        if rest.length < batchLength.toNat then
          if final = true ∧ canTruncateTail rest r.current then return (r, true)
          else throw (corrupt .errInvalidBatch "incomplete batch body")
        else do
          failIf (batchLength < batchHeaderBytes.toUInt32 + 4)
            (corrupt .errInvalidBatch "invalid batch length")
          let encoded := slice rest 0 batchLength.toNat
          let batch ← decodeBatch encoded topic partition
          failIf (batch.baseOffset ≠ r.current)
            (corrupt .errInvalidBatch "batch base offset is not the expected next offset")
          recoverBatches topic partition final fuel (rest.drop batchLength.toNat)
            (r.push batch encoded)

/-- The segment as recovery leaves it, before its indexes are loaded. -/
def Recovered.segment (r : Recovered) (header : SegmentHeader) (data : Bytes) : Segment :=
  { header
    endOffset := r.current
    size := r.position
    records := r.records
    maxTime := r.maxTime
    headerHash := segmentHeaderHash (slice data 0 segmentHeaderBytes.toNat)
    batches := r.batches
    offsetIndex := []
    timeIndex := []
    indexDirty := false }

/-- The loop's variables behind the header. -/
def recoveryStart (header : SegmentHeader) : Recovered :=
  { current := header.baseOffset
    position := segmentHeaderBytes.toNat
    records := 0
    maxTime := Int64.minValue
    batches := [] }

/-- What recovery reads off the bytes of a segment file; `log base` is the name of the segment at
`base`, and any other name is refused. -/
def readSegmentAt (name : Name) (topic : TopicID) (partition : UInt32) (final : Bool)
    (expected : UInt64) (data : Bytes) : Except GoError (SegmentHeader × Recovered × Bool) := do
  failIf (data.length < segmentHeaderBytes.toNat)
    (corrupt .errInvalidSegment "segment is shorter than its header")
  let header ← decodeSegmentHeader (slice data 0 segmentHeaderBytes.toNat) topic partition
  failIf (name ≠ .log header.baseOffset ∨ header.baseOffset ≠ expected)
    (corrupt .errInvalidSegment "segment header/path/order mismatch")
  let (recovered, cut) ← recoverBatches topic partition final data.length
    (data.drop segmentHeaderBytes.toNat) (recoveryStart header)
  return (header, recovered, cut)

def readSegment (base : UInt64) : TopicID → UInt32 → Bool → UInt64 → Bytes →
    Except GoError (SegmentHeader × Recovered × Bool) :=
  readSegmentAt (.log base)

theorem readSegmentAt_log (base : UInt64) : readSegmentAt (.log base) = readSegment base :=
  rfl

/-- Cut an incomplete final batch off. -/
def truncateTail (name : Name) (size : Nat) : DirM Unit := do
  .perform (.truncate name size) (ioError "truncate incomplete final batch")
  .perform (.sync name) (ioError "sync recovered segment")

/-- Cut off what the loop found incomplete. -/
def truncateIf (cut : Bool) (name : Name) (size : Nat) : DirM Unit :=
  if cut then truncateTail name size else pure ()

def recoverSegmentAt (name : Name) (topic : TopicID) (partition : UInt32) (final : Bool)
    (expected : UInt64) : DirM Segment := do
  let dir ← .get
  let data ← .ofExcept ((dir.read? name).elim (throw (ioError "open segment")) pure)
  let (header, recovered, cut) ← .ofExcept (readSegmentAt name topic partition final expected data)
  truncateIf cut name recovered.position
  .ofExcept (failIf (final = false ∧ recovered.records = 0)
    (corrupt .errInvalidSegment "non-final segment is empty"))
  return recovered.segment header data

def recoverSegment (base : UInt64) : TopicID → UInt32 → Bool → UInt64 → DirM Segment :=
  recoverSegmentAt (.log base)

end Immulog
