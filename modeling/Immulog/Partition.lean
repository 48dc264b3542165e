import Immulog.Index
import Immulog.Tail

/-!
The partition engine (`src/storage/partition.go`, `append_encoded.go`, the writer of
`writer.go` and `ingress.go`, and the reads of `fetch.go`).

A partition is its state in memory; the programs run in its directory.  There is at
least one segment, so the active one is a field of its own.  The locks make appends
exclusive, and the admission of requests in front of the writer is not part of this
module: `writeRequests` is what the terminal writer does with admitted requests.
-/

namespace Immulog

open Lib

/-! ## Options and state -/

/-- The options that the functions below read. -/
structure PartitionOptions where
  segmentBytes : UInt64
  initialOffset : UInt64
  indexStride : UInt64
  batchBytes : UInt32
  batchRecords : UInt32
  recordBytes : UInt32
  tailSlots : UInt32
  tailBytes : UInt64
  deriving DecidableEq, Repr

structure Partition where
  topic : TopicID
  partition : UInt32
  options : PartitionOptions
  storeID : StoreID
  tail : Option PartitionTail
  /-- The closed segments, oldest first. -/
  closedSegments : List Segment
  active : Segment
  logEnd : UInt64
  closed : Bool
  closing : Bool
  unavailable : Bool

/-- All segments, oldest first. -/
def Partition.segments (p : Partition) : List Segment :=
  p.closedSegments ++ [p.active]

/-- `L`, the first retained offset. -/
def Partition.logStart (p : Partition) : UInt64 :=
  (p.segments.head?.getD p.active).header.baseOffset

/-! ## Opening -/

/-- Recover the discovered segments one after the other. -/
def recoverSegments (topic : TopicID) (partition : UInt32) (options : PartitionOptions)
    (storeID : StoreID) : List UInt64 → UInt64 → List Segment → DirM (List Segment × UInt64)
  | [], expected, segments => return (segments, expected)
  | base :: rest, expected, segments => do
      .ofExcept (failIf (base ≠ expected)
        (corrupt .errInvalidSegment s!"segment base {base} does not follow offset {expected}"))
      let opened ← recoverSegment base topic partition rest.isEmpty expected
      let dir ← .get
      recoverSegments topic partition options storeID rest opened.endOffset
        (segments ++ [loadOrBuildIndexes dir opened storeID options.indexStride])

/-- The partition over recovered segments. -/
def openedPartition (topic : TopicID) (partition : UInt32) (options : PartitionOptions)
    (storeID : StoreID) (tail : Option PartitionTail) (closedSegments : List Segment)
    (active : Segment) (logEnd : UInt64) : Partition :=
  { topic, partition, options, storeID, tail, closedSegments, active, logEnd
    closed := false, closing := false, unavailable := false }

/-- The partition over the segments of the recovery loop. -/
def assemblePartition (topic : TopicID) (partition : UInt32) (options : PartitionOptions)
    (storeID : StoreID) (tail : Option PartitionTail) (found : List Segment × UInt64) :
    DirM Partition :=
  match found.1.getLast? with
  | none => .fail (corrupt .errInvalidSegment "no segment recovered")
  | some active =>
      return openedPartition topic partition options storeID tail found.1.dropLast active found.2

/-- An empty directory gets its first segment; otherwise every segment file is
recovered in offset order. -/
def openPartition (drawn : SegmentID) (topic : TopicID) (partition : UInt32)
    (options : PartitionOptions) (storeID : StoreID) : DirM Partition := do
  let tail ← .ofExcept (newPartitionTail options.tailSlots options.tailBytes)
  let dir ← .get
  let bases ← .ofExcept (discoverSegments dir)
  match bases with
  | [] => do
      let created ← createSegment drawn topic partition options.initialOffset
      let dir ← .get
      let active := loadOrBuildIndexes dir created storeID options.indexStride
      return openedPartition topic partition options storeID tail [] active options.initialOffset
  | first :: _ => do
      let initial := options.initialOffset
      .ofExcept (failIf (first ≠ initial) (corrupt .errInvalidSegment
        s!"first segment base {first} does not match initial offset {initial}"))
      let found ← recoverSegments topic partition options storeID bases first []
      assemblePartition topic partition options storeID tail found

/-! ## Appending -/

/-- The checks of `appendEncodedLocked` on the records of a batch. -/
def checkRecordLimits (limit : UInt32) : List Record → Except GoError Unit
  | [] => return ()
  | record :: rest => do
      let recordBytes ← recordEncodedBytes record
      failIf (limit.toUInt64 < recordBytes)
        (.join [.ofKind .errRecordTooLarge, .new "record exceeds configured writer limit"])
      checkRecordLimits limit rest

/-- The checks in front of an append, up to the segment limit. -/
def checkAppend (p : Partition) (batch : RecordBatch) (encoded : Bytes) : Except GoError Unit := do
  failIf (p.closed = true) (.ofKind .errClosed)
  failIf (p.unavailable = true) (.ofKind .errPartitionUnavailable)
  failIf (batch.topic ≠ p.topic ∨ batch.partition ≠ p.partition ∨ batch.baseOffset ≠ p.logEnd)
    (.join [.ofKind .errInvalidArgument, .new "batch does not match partition next offset"])
  failIf (batch.records.length = 0 ∨ p.options.batchRecords.toNat < batch.records.length ∨
      p.options.batchBytes.toNat < encoded.length)
    (.join [.ofKind .errRecordTooLarge, .new "batch exceeds configured writer limits"])
  checkRecordLimits p.options.recordBytes batch.records
  failIf (p.options.segmentBytes.toNat < encoded.length + p.active.size ∧ p.active.records = 0)
    (.join [.ofKind .errRecordTooLarge, .new "batch cannot fit in configured segment"])

/-- The partition after an operation whose outcome fences it. -/
def Partition.fenced (p : Partition) : Partition :=
  { p with unavailable := true }

/-- Close the active segment and open a new one; publishing its indexes may fail. -/
def rollSegment (p : Partition) (drawn : SegmentID) : DirM (Partition × Except GoError Unit) := do
  match ← (createSegment drawn p.topic p.partition p.logEnd).attempt with
  | .error e => return (p.fenced, .error (.join [.ofKind .errPartitionUnavailable, e]))
  | .ok rolled => do
      let installed ← (installSegmentIndexes p.active p.storeID p.options.indexStride).attempt
      let sealed := match installed with
        | .ok segment => segment
        | .error _ => p.active
      return ({ p with closedSegments := p.closedSegments ++ [sealed], active := rolled }, .ok ())

/-- The partition rolls when the batch does not fit into the active segment. -/
def rollIfFull (p : Partition) (encoded : Bytes) (drawn : SegmentID) :
    DirM (Partition × Except GoError Unit) :=
  if p.options.segmentBytes.toNat < encoded.length + p.active.size then rollSegment p drawn
  else return (p, .ok ())

/-- The active segment with a written and synced batch. -/
def Segment.extended (s : Segment) (batch : RecordBatch) (encoded : Bytes) : Segment :=
  { s with
    size := s.size + encoded.length
    endOffset := s.endOffset + .ofNat batch.records.length
    records := s.records + batch.records.length
    batches := s.batches ++ [batchInfo batch s.size encoded]
    maxTime := raiseMaxTime s.maxTime batch.records }

def Partition.extended (p : Partition) (batch : RecordBatch) (encoded : Bytes) : Partition :=
  let active := refreshSegmentIndexes (p.active.extended batch encoded) p.options.indexStride
  { p with active, logEnd := active.endOffset }

/-- Write and sync a batch behind the active segment; a failure leaves the outcome
unknown. -/
def writeBatch (p : Partition) (batch : RecordBatch) (encoded : Bytes) :
    DirM (Partition × Except GoError UInt64) := do
  let unknown (e : GoError) : GoError :=
    .join [.ofKind .errAppendOutcomeUnknown, .ofKind .errPartitionUnavailable, e]
  match ← (Prog.perform (.writeAt p.active.name p.active.size encoded)
      (ioError "short write")).attempt with
  | .error e => return (p.fenced, .error (unknown e))
  | .ok _ => do
      match ← (Prog.perform (.sync p.active.name) (ioError "sync batch")).attempt with
      | .error e => return (p.fenced, .error (unknown e))
      | .ok _ => return (p.extended batch encoded, .ok batch.baseOffset)

/-- The caller holds the partition exclusively and has encoded the batch. -/
def appendEncodedLocked (p : Partition) (batch : RecordBatch) (encoded : Bytes)
    (drawn : SegmentID) : DirM (Partition × Except GoError UInt64) := do
  match checkAppend p batch encoded with
  | .error e => return (p, .error e)
  | .ok _ => do
      match ← rollIfFull p encoded drawn with
      | (p, .error e) => return (p, .error e)
      | (p, .ok _) => writeBatch p batch encoded

/-- Offer acknowledged records to the tail. -/
def Partition.publishTail (p : Partition) (free : Bool) (records : List Record)
    (durableEnd : UInt64) : Partition :=
  { p with tail := p.tail.map fun tail =>
      tail.offer free p.topic p.partition records durableEnd }

/-- Append an encoded batch and publish it to the tail. -/
def appendAndPublish (p : Partition) (batch : RecordBatch) (encoded : Bytes) (drawn : SegmentID)
    (free : Bool) : DirM (Partition × Except GoError UInt64) := do
  let (p, outcome) ← appendEncodedLocked p batch encoded drawn
  match outcome with
  | .error e => return (p, .error e)
  | .ok offset => return (p.publishTail free batch.records p.logEnd, .ok offset)

/-- The admission checks of `AppendBatch`; `closing` also stands for its queue flags. -/
def admitBatch (p : Partition) (batch : RecordBatch) : Except GoError Bytes := do
  failIf (p.closed = true) (.ofKind .errClosed)
  failIf (p.closing = true) (.ofKind .errClosing)
  let estimated ← batchEncodedBytes batch.records
  failIf (p.options.batchBytes.toUInt64 < estimated)
    (.join [.ofKind .errRecordTooLarge, .new "batch exceeds configured writer limit"])
  encodeBatch batch

def appendBatch (p : Partition) (batch : RecordBatch) (drawn : SegmentID) (free : Bool) :
    DirM (Partition × Except GoError UInt64) :=
  match admitBatch p batch with
  | .error e => return (p, .error e)
  | .ok encoded => appendAndPublish p batch encoded drawn free

/-- The batch the writer forms from admitted requests at the end of the log. -/
def formBatch (p : Partition) (records : List Record) : RecordBatch :=
  { topic := p.topic
    partition := p.partition
    baseOffset := p.logEnd
    records := records.mapIdx fun index record =>
      { record with
        topic := p.topic, partition := p.partition, offset := p.logEnd + .ofNat index } }

/-- The writer's checks on a formed batch. -/
def encodeFormed (p : Partition) (batch : RecordBatch) : Except GoError Bytes := do
  failIf (p.unavailable = true) (.ofKind .errPartitionUnavailable)
  let encoded ← encodeBatch batch
  failIf (p.options.batchBytes.toNat < encoded.length)
    (.join [.ofKind .errRecordTooLarge, .new "formed batch exceeds configured byte limit"])
  return encoded

/-- What the requests of a group are told: an unavailable partition is told as such. -/
def requestError (e : GoError) : GoError :=
  if e.is .errPartitionUnavailable ∧ ¬ e.is .errAppendOutcomeUnknown then
    .ofKind .errPartitionUnavailable
  else e

/-- The terminal writer appends a group of admitted records; every request of the group
completes with its record of the batch, or with the same error. -/
def writeRequests (p : Partition) (records : List Record) (drawn : SegmentID) (free : Bool) :
    DirM (Partition × Except GoError (List Record)) :=
  let batch := formBatch p records
  match encodeFormed p batch with
  | .error e => return (p, .error (requestError e))
  | .ok encoded => do
      let (p, outcome) ← appendAndPublish p batch encoded drawn free
      return (p, (outcome.map fun _ => batch.records).mapError requestError)

/-! ## Reading -/

def Partition.checkOpen (p : Partition) : Except GoError Unit := do
  failIf (p.closed = true) (.ofKind .errClosed)
  failIf (p.closing = true) (.ofKind .errClosing)
  failIf (p.unavailable = true) (.ofKind .errPartitionUnavailable)

/-- `H`, the offset behind the durable records. -/
def Partition.endOffset (p : Partition) : Except GoError UInt64 := do
  p.checkOpen
  return p.logEnd

/-- The position of the last hint in front of the first one behind the offset. -/
def hintPosition (offset : UInt64) : List OffsetIndexEntry → Nat → Nat
  | [], position => position
  | hint :: rest, position =>
      if offset < hint.base then position else hintPosition offset rest hint.position

/-- Scan batches while `left` bytes of the segment remain.  `next` decodes the batch at
the front and tells its length; `consume` takes its records and tells whether to stop.
Every batch has a positive length, so that `left` is enough fuel. -/
def scanBatches {σ : Type} (next : Nat → Bytes → Except GoError (RecordBatch × Nat))
    (consume : List Record → σ → Except GoError (σ × Bool)) :
    Nat → Nat → Bytes → σ → Except GoError (σ × Bool)
  | 0, _, _, acc => return (acc, false)
  | fuel + 1, left, rest, acc =>
      if left = 0 then return (acc, false)
      else do
        let (batch, length) ← next left rest
        let (acc, done) ← consume batch.records acc
        if done then return (acc, true)
        else scanBatches next consume fuel (left - length) (rest.drop length) acc

/-- `Read`'s decoding of the batch at the front. -/
def readBatch (topic : TopicID) (partition : UInt32) (left : Nat) (rest : Bytes) :
    Except GoError (RecordBatch × Nat) := do
  failIf (left < batchHeaderBytes.toNat)
    (corrupt .errInvalidBatch "partial batch header during read")
  let length := uint32 (slice rest 8 12)
  failIf (length < batchHeaderBytes.toUInt32 + 4 ∨ left < length.toNat)
    (corrupt .errInvalidBatch "invalid batch length during read")
  let batch ← decodeBatch (slice rest 0 length.toNat) topic partition
  return (batch, length.toNat)

/-- `Read`'s loop over the records of a batch. -/
def readRecords (offset : UInt64) (maxRecords : UInt32) :
    List Record → List Record → Except GoError (List Record × Bool)
  | [], result => return (result, false)
  | record :: rest, result =>
      if record.offset < offset then readRecords offset maxRecords rest result
      else if maxRecords ≤ .ofNat result.length then return (result, true)
      else readRecords offset maxRecords rest (result ++ [record])

/-- The bytes of a segment that belong to the log. -/
def readSegmentFile (dir : Dir Name) (segment : Segment) : Except GoError Bytes :=
  match dir.read? segment.name with
  | none => throw (ioError "open segment")
  | some data => do
      failIf (data.length < segment.size) (ioError "unexpected end of segment file")
      return data.take segment.size

/-- `Read`'s loop over the segments. -/
def readSegments (dir : Dir Name) (p : Partition) (offset : UInt64) (maxRecords : UInt32) :
    List Segment → List Record → Except GoError (List Record)
  | [], result => return result
  | segment :: rest, result =>
      if segment.endOffset ≤ offset then readSegments dir p offset maxRecords rest result
      else do
        let data ← readSegmentFile dir segment
        let position := hintPosition offset segment.offsetIndex segmentHeaderBytes.toNat
        let (result, done) ← scanBatches (readBatch p.topic p.partition)
          (readRecords offset maxRecords) data.length (data.length - position)
          (data.drop position) result
        if done then return result
        else readSegments dir p offset maxRecords rest result

def read (dir : Dir Name) (p : Partition) (offset : UInt64) (maxRecords : UInt32) :
    Except GoError (List Record) := do
  p.checkOpen
  failIf (offset < p.logStart) (.ofKind .errOffsetOutOfRange)
  failIf (p.logEnd < offset) (.ofKind .errOffsetOutOfRange)
  if offset = p.logEnd then return []
  else
    readSegments dir p offset (if maxRecords = 0 then maxBatchRecords else maxRecords)
      p.segments []

/-! ## Fetching -/

/-- `Fetch`'s decoding of the batch at the front. -/
def fetchBatch (topic : TopicID) (partition : UInt32) (left : Nat) (rest : Bytes) :
    Except GoError (RecordBatch × Nat) := do
  failIf (rest.length < batchHeaderBytes.toNat) (ioError "read batch header")
  let length := uint32 (slice rest 8 12)
  failIf (length < batchHeaderBytes.toUInt32 + 4 ∨ maxBatchBytes < length ∨ left < length.toNat)
    (corrupt .errInvalidBatch "batch length exceeds segment during fetch")
  failIf (rest.length < length.toNat) (ioError "read batch body")
  let batch ← decodeBatch (slice rest 0 length.toNat) topic partition
  return (batch, length.toNat)

/-- `Fetch`'s loop over the records of a batch. -/
def fetchRecords (offset : UInt64) (options : FetchOptions) :
    List Record → FetchState → Except GoError (FetchState × Bool)
  | [], s => return (s, false)
  | record :: rest, s =>
      if record.offset < offset then fetchRecords offset options rest s
      else if options.maxRecords ≤ .ofNat s.result.records.length then return (s, true)
      else do
        let recordBytes ← recordEncodedBytes record
        if options.maxBytes - s.bytes < recordBytes then
          if s.result.records = [] then
            throw (fetchLimitTooSmall record.offset recordBytes options.maxBytes)
          else return (s, true)
        else fetchRecords offset options rest (s.push record recordBytes)

/-- The hint for a fetch must lie inside the segment. -/
def fetchPosition (offset : UInt64) (size : Nat) :
    List OffsetIndexEntry → Nat → Except GoError Nat
  | [], position => return position
  | hint :: rest, position =>
      if offset < hint.base then return position
      else do
        failIf (size < hint.position)
          (corrupt .errInvalidBatch "offset index position exceeds segment size")
        fetchPosition offset size rest hint.position

def scanSegmentForFetch (dir : Dir Name) (p : Partition) (segment : Segment) (offset : UInt64)
    (options : FetchOptions) (s : FetchState) : Except GoError (FetchState × Bool) :=
  match dir.read? segment.name with
  | none => throw (ioError "open segment")
  | some data => do
      let position ← fetchPosition offset segment.size segment.offsetIndex segmentHeaderBytes.toNat
      scanBatches (fetchBatch p.topic p.partition) (fetchRecords offset options) segment.size
        (segment.size - position) (data.drop position) s

/-- `Fetch`'s loop over the segments. -/
def fetchSegments (dir : Dir Name) (p : Partition) (offset : UInt64) (options : FetchOptions) :
    List Segment → FetchState → Except GoError FetchResult
  | [], s => return s.result
  | segment :: rest, s =>
      if segment.endOffset ≤ offset then fetchSegments dir p offset options rest s
      else do
        let (s, done) ← scanSegmentForFetch dir p segment offset options s
        if done then return s.result
        else fetchSegments dir p offset options rest s

/-- `free` tells that the tail's lock is not taken. -/
def fetch (dir : Dir Name) (p : Partition) (free : Bool) (offset : UInt64)
    (options : FetchOptions) : Except GoError FetchResult := do
  let options ← normalizeFetchOptions options
  p.checkOpen
  failIf (offset < p.logStart ∨ p.logEnd < offset) (.ofKind .errOffsetOutOfRange)
  match p.tail.bind fun tail =>
      tail.fetch free p.topic p.partition offset p.logEnd options with
  | some answer => answer
  | none => fetchSegments dir p offset options p.segments (.start offset)

/-- A failed fetch fences the partition unless the caller is at fault. -/
def shouldFenceFetchError (e : GoError) : Prop :=
  ¬ e.is .errInvalidArgument ∧ ¬ e.is .errOffsetOutOfRange ∧ ¬ e.is .errFetchLimitTooSmall ∧
    ¬ e.is .errClosed ∧ ¬ e.is .errClosing ∧ ¬ e.is .errPartitionUnavailable

instance (e : GoError) : Decidable (shouldFenceFetchError e) :=
  inferInstanceAs (Decidable (_ ∧ _))

/-! ## Closing -/

/-- Publish the indexes of the segments whose sidecars lag behind. -/
def installDirty (storeID : StoreID) (stride : UInt64) : List Segment → DirM Unit
  | [] => return ()
  | segment :: rest => do
      if segment.indexDirty then
        let _ ← (installSegmentIndexes segment storeID stride).attempt
      installDirty storeID stride rest

def closePartition (p : Partition) : DirM Unit :=
  installDirty p.storeID p.options.indexStride p.segments

end Immulog
