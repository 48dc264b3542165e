import Immulog.Lib.Bytes
import Immulog.Lib.Result

/-!
The v1 on-disk format shared by all logs (`src/storage/format.go`,
`src/api/types.go`, `src/api/errors.go`): identities, limits, errors, CRC32C and
the 72-byte segment header.
-/

namespace Immulog

open Lib

/-! ## Identities -/

/-- `[16]byte` identities, as the big-endian number of their bytes. -/
abbrev TopicID := BitVec 128
abbrev SegmentID := BitVec 128
abbrev StoreID := BitVec 128
abbrev Session := BitVec 128

/-- `[32]byte` SHA-256 digests. -/
abbrev Hash := BitVec 256

def clusterMetadataTopicID : TopicID := 1
def consumerOffsetsTopicID : TopicID := 2

/-! ## Limits -/

/-- A Go string constant of ASCII characters. -/
def ascii (chars : List Char) : Bytes :=
  chars.map fun c => UInt8.ofNat c.toNat

def segmentMagic : Bytes := ascii ['I', 'E', 'L', 'S', 'E', 'G', '0', '0']
def batchMagic : Bytes := ascii ['I', 'E', 'L', 'B']
def formatVersion : UInt16 := 1
def segmentHeaderBytes : UInt16 := 72
def batchHeaderBytes : UInt16 := 48
def batchTrailerBytes : Nat := 4
def recordPrefixBytes : UInt32 := 28
def maxBatchBytes : UInt32 := 64 * 1024 * 1024
def maxRecordBytes : UInt32 := 16 * 1024 * 1024
def maxBatchRecords : UInt32 := 65536
def maxRecordHeaders : UInt32 := 1024
def maxHeaderNameBytes : UInt32 := 65535
def nullBytesLength : UInt32 := 0xFFFFFFFF
def maxOffset : UInt64 := 0x7FFFFFFFFFFFFFFF
def int32Max : UInt32 := 0x7FFFFFFF
def maxUint64 : Nat := 2 ^ 64 - 1

/-! ## Errors -/

/-- The error values that callers test with `errors.Is`. -/
inductive Sentinel where
  | errUnknownTopic
  | errOffsetOutOfRange
  | errPartitionUnavailable
  | errAppendOutcomeUnknown
  | errTopicExists
  | errMetadataUnavailable
  | errMetadataOutcomeUnknown
  | errAssignmentLost
  | errGroupUnavailable
  | errCommitOutcomeUnknown
  | errCommitRegression
  | errInvalidCommit
  | errRecordTooLarge
  | errFetchLimitTooSmall
  | errResourceLimit
  | errSystemLogCapacity
  | errDiskPressure
  | errClosing
  | errClosed
  | errConcurrentOperation
  | errCorruptLog
  | errUnsupportedFormat
  | errInvalidArgument
  | errInvalidBatch
  | errInvalidRecord
  | errInvalidSegment
  /-- A failed filesystem operation. -/
  | errDevice
  deriving DecidableEq, Repr

/-- A joined error: the sentinels it matches and the texts it carries. -/
structure GoError where
  kinds : List Sentinel
  details : List String
  deriving DecidableEq, Repr

namespace GoError

/-- `errors.Is`. -/
def is (e : GoError) (kind : Sentinel) : Prop :=
  kind ∈ e.kinds

instance (e : GoError) (kind : Sentinel) : Decidable (e.is kind) :=
  inferInstanceAs (Decidable (kind ∈ e.kinds))

/-- `errors.New` of a text that no caller tests for. -/
def new (detail : String) : GoError :=
  ⟨[], [detail]⟩

/-- A sentinel returned as it is. -/
def ofKind (kind : Sentinel) : GoError :=
  ⟨[kind], []⟩

/-- `errors.Join`. -/
def join (es : List GoError) : GoError :=
  ⟨es.flatMap kinds, es.flatMap details⟩

end GoError

def corrupt (kind : Sentinel) (detail : String) : GoError :=
  ⟨[.errCorruptLog, kind], [detail]⟩

def invalidArgument (kind : Sentinel) (detail : String) : GoError :=
  ⟨[.errInvalidArgument, kind], [detail]⟩

def unsupported (detail : String) : GoError :=
  ⟨[.errUnsupportedFormat], [detail]⟩

/-! ## Fixed-width fields -/

def putUint16 (v : UInt16) : Bytes := leBytes 2 v.toNat
def putUint32 (v : UInt32) : Bytes := leBytes 4 v.toNat
def putUint64 (v : UInt64) : Bytes := leBytes 8 v.toNat
def putID (v : BitVec 128) : Bytes := beBytes 16 v.toNat
def putHash (v : Hash) : Bytes := beBytes 32 v.toNat

def uint16 (bs : Bytes) : UInt16 := .ofNat (leNat bs)
def uint32 (bs : Bytes) : UInt32 := .ofNat (leNat bs)
def uint64 (bs : Bytes) : UInt64 := .ofNat (leNat bs)
def idOf (bs : Bytes) : BitVec 128 := .ofNat 128 (beNat bs)
def hashOf (bs : Bytes) : Hash := .ofNat 256 (beNat bs)

@[simp] theorem length_putUint16 (v : UInt16) : (putUint16 v).length = 2 := length_leBytes ..
@[simp] theorem length_putUint32 (v : UInt32) : (putUint32 v).length = 4 := length_leBytes ..
@[simp] theorem length_putUint64 (v : UInt64) : (putUint64 v).length = 8 := length_leBytes ..
@[simp] theorem length_putID (v : BitVec 128) : (putID v).length = 16 := length_beBytes ..
@[simp] theorem length_putHash (v : Hash) : (putHash v).length = 32 := length_beBytes ..

/-- Lengths within 32 bits are kept by their field. -/
theorem toNat_ofNat32 {n : Nat} (small : n < 2 ^ 32) : (UInt32.ofNat n).toNat = n :=
  UInt32.toNat_ofNat_of_lt' small

theorem toNat_ofNat64 {n : Nat} (small : n < 2 ^ 64) : (UInt64.ofNat n).toNat = n :=
  UInt64.toNat_ofNat_of_lt' small

@[simp] theorem uint16_putUint16 (v : UInt16) : uint16 (putUint16 v) = v := by
  rw [uint16, putUint16, leNat_leBytes (by simpa using v.toNat_lt), UInt16.ofNat_toNat]

@[simp] theorem uint32_putUint32 (v : UInt32) : uint32 (putUint32 v) = v := by
  rw [uint32, putUint32, leNat_leBytes (by simpa using v.toNat_lt), UInt32.ofNat_toNat]

@[simp] theorem uint64_putUint64 (v : UInt64) : uint64 (putUint64 v) = v := by
  rw [uint64, putUint64, leNat_leBytes (by simpa using v.toNat_lt), UInt64.ofNat_toNat]

@[simp] theorem idOf_putID (v : BitVec 128) : idOf (putID v) = v := by
  rw [idOf, putID, beNat_beBytes (by simpa using v.isLt), BitVec.ofNat_toNat, BitVec.setWidth_eq]

@[simp] theorem hashOf_putHash (v : Hash) : hashOf (putHash v) = v := by
  rw [hashOf, putHash, beNat_beBytes (by simpa using v.isLt), BitVec.ofNat_toNat,
    BitVec.setWidth_eq]

/-- Two bytes are the encoding of what they decode to. -/
theorem putUint16_uint16 {bs : Bytes} (size : bs.length = 2) : putUint16 (uint16 bs) = bs := by
  have small : leNat bs < 2 ^ 16 := by simpa [size] using leNat_lt bs
  rw [putUint16, uint16, UInt16.toNat_ofNat_of_lt' small, ← size, leBytes_leNat]

theorem putUint32_uint32 {bs : Bytes} (size : bs.length = 4) : putUint32 (uint32 bs) = bs := by
  have small : leNat bs < 2 ^ 32 := by simpa [size] using leNat_lt bs
  rw [putUint32, uint32, toNat_ofNat32 small, ← size, leBytes_leNat]

theorem putUint64_uint64 {bs : Bytes} (size : bs.length = 8) : putUint64 (uint64 bs) = bs := by
  have small : leNat bs < 2 ^ 64 := by simpa [size] using leNat_lt bs
  rw [putUint64, uint64, toNat_ofNat64 small, ← size, leBytes_leNat]

theorem putID_idOf {bs : Bytes} (size : bs.length = 16) : putID (idOf bs) = bs := by
  have small : beNat bs < 2 ^ 128 := by simpa [size] using beNat_lt bs
  rw [putID, idOf, BitVec.toNat_ofNat, Nat.mod_eq_of_lt small, ← size, beBytes_beNat]

theorem putHash_hashOf {bs : Bytes} (size : bs.length = 32) : putHash (hashOf bs) = bs := by
  have small : beNat bs < 2 ^ 256 := by simpa [size] using beNat_lt bs
  rw [putHash, hashOf, BitVec.toNat_ofNat, Nat.mod_eq_of_lt small, ← size, beBytes_beNat]

/-! ## CRC32C -/

/-- One bit of the reflected Castagnoli polynomial division. -/
def crcBit (crc : UInt32) : UInt32 :=
  if crc &&& 1 = 1 then (crc >>> 1) ^^^ 0x82F63B78 else crc >>> 1

def crcByte (crc : UInt32) (b : UInt8) : UInt32 :=
  let start := crc ^^^ b.toUInt32
  crcBit (crcBit (crcBit (crcBit (crcBit (crcBit (crcBit (crcBit start)))))))

/-- `crc32.Checksum(data, crc32.MakeTable(crc32.Castagnoli))`. -/
def crc32c (data : Bytes) : UInt32 :=
  data.foldl crcByte 0xFFFFFFFF ^^^ 0xFFFFFFFF

example : crc32c (ascii ['1', '2', '3', '4', '5', '6', '7', '8', '9']) = 0xE3069283 := by
  decide +kernel

/-- A body followed by its checksum. -/
def withCRC32C (body : Bytes) : Bytes :=
  body ++ putUint32 (crc32c body)

/-! ## Offsets -/

def validOffsetRange (base : UInt64) (count : UInt32) : Prop :=
  base ≤ maxOffset ∧ 0 < count.toUInt64 ∧ base + count.toUInt64 ≤ maxOffset

instance (base : UInt64) (count : UInt32) : Decidable (validOffsetRange base count) :=
  inferInstanceAs (Decidable (_ ∧ _ ∧ _))

theorem maxOffset_toNat : maxOffset.toNat = 2 ^ 63 - 1 := by
  decide

/-- A range of offsets is valid when its end is an offset too. -/
theorem validOffsetRange_iff {base : UInt64} {n : Nat} (positive : 0 < n) (small : n < 2 ^ 32) :
    validOffsetRange base (.ofNat n) ↔ base.toNat + n ≤ maxOffset.toNat := by
  have count : (UInt32.ofNat n).toUInt64.toNat = n := by
    rw [UInt32.toNat_toUInt64, toNat_ofNat32 small]
  have bound := base.toNat_lt
  simp only [validOffsetRange, UInt64.le_iff_toNat_le, UInt64.lt_iff_toNat_lt, UInt64.toNat_add,
    count, maxOffset_toNat, UInt64.toNat_zero]
  omega

/-! ## Segment header -/

/-- The identity header of a segment; record count and end are not stored. -/
structure SegmentHeader where
  topic : TopicID
  partition : UInt32
  baseOffset : UInt64
  id : SegmentID
  deriving DecidableEq, Repr

namespace SegmentHeader

/-- The fields of the header in front of its checksum. -/
def fields (h : SegmentHeader) : List Bytes :=
  [segmentMagic, putUint16 formatVersion, putUint16 segmentHeaderBytes, putUint32 0,
    putID h.topic, putUint32 h.partition, putUint16 formatVersion, putUint16 0,
    putUint64 h.baseOffset, putID h.id, putUint32 0]

/-- The 72 bytes of the header. -/
def bytes (h : SegmentHeader) : Bytes :=
  withCRC32C h.fields.flatten

/-- What the encoder checks. -/
structure Valid (h : SegmentHeader) : Prop where
  topic : h.topic ≠ 0
  id : h.id ≠ 0
  partition : h.partition ≤ int32Max
  baseOffset : h.baseOffset ≤ maxOffset

end SegmentHeader

def encodeSegmentHeader (header : SegmentHeader) : Except GoError Bytes := do
  failIf (header.topic = 0 ∨ header.id = 0)
    (invalidArgument .errInvalidSegment "segment and topic IDs must be nonzero")
  failIf (int32Max < header.partition ∨ maxOffset < header.baseOffset)
    (invalidArgument .errInvalidSegment "partition or base offset is outside v1 range")
  return header.bytes

def decodeSegmentHeader (data : Bytes) (expectedTopic : TopicID) (expectedPartition : UInt32) :
    Except GoError SegmentHeader := do
  failIf (data.length < segmentHeaderBytes.toNat)
    (corrupt .errInvalidSegment "incomplete segment header")
  failIf (slice data 0 8 ≠ segmentMagic)
    (corrupt .errInvalidSegment "segment magic mismatch")
  failIf (uint16 (slice data 10 12) ≠ segmentHeaderBytes)
    (corrupt .errInvalidSegment "segment header size mismatch")
  failIf (uint32 (slice data 68 72) ≠ crc32c (slice data 0 68))
    (corrupt .errInvalidSegment "segment header checksum mismatch")
  failIf (uint16 (slice data 8 10) ≠ formatVersion ∨ uint16 (slice data 36 38) ≠ formatVersion)
    (unsupported "unsupported segment or batch version")
  failIf (uint32 (slice data 12 16) ≠ 0 ∨ uint16 (slice data 38 40) ≠ 0 ∨
      uint32 (slice data 64 68) ≠ 0)
    (corrupt .errInvalidSegment "nonzero reserved segment fields")
  let header : SegmentHeader :=
    { topic := idOf (slice data 16 32)
      partition := uint32 (slice data 32 36)
      baseOffset := uint64 (slice data 40 48)
      id := idOf (slice data 48 64) }
  failIf (header.topic = 0 ∨ header.id = 0 ∨ int32Max < header.partition ∨
      maxOffset < header.baseOffset)
    (corrupt .errInvalidSegment "invalid segment identity or range")
  failIf (expectedTopic ≠ 0 ∧ header.topic ≠ expectedTopic)
    (corrupt .errInvalidSegment "segment topic identity mismatch")
  failIf (header.partition ≠ expectedPartition)
    (corrupt .errInvalidSegment "segment partition identity mismatch")
  return header

namespace SegmentHeader

@[simp] theorem length_bytes (h : SegmentHeader) : h.bytes.length = 72 := by
  simp [bytes, withCRC32C, fields, segmentMagic, ascii]

/-- The encoder of segment headers writes the fields of valid ones, and no others. -/
theorem encode_eq_ok {h : SegmentHeader} {data : Bytes} :
    encodeSegmentHeader h = .ok data ↔ h.Valid ∧ h.bytes = data := by
  simp only [encodeSegmentHeader, bind_eq_ok, failIf_eq_ok, exists_const, not_or, UInt32.not_lt,
    UInt64.not_lt, pure_eq_ok, Except.ok.injEq]
  constructor
  · rintro ⟨⟨topic, id⟩, ⟨partition, base⟩, same⟩
    exact ⟨⟨topic, id, partition, base⟩, same⟩
  · rintro ⟨valid, same⟩
    exact ⟨⟨valid.topic, valid.id⟩, ⟨valid.partition, valid.baseOffset⟩, same⟩

/-- Reading field `k` back, whatever follows the header. -/
theorem slice_bytes {h : SegmentHeader} {rest field : Bytes} {k start stop : Nat}
    (found : (h.fields ++ [putUint32 (crc32c h.fields.flatten)])[k]? = some field)
    (starts : ([8, 2, 2, 4, 16, 4, 2, 2, 8, 16, 4, 4].take k).sum = start)
    (stops : ([8, 2, 2, 4, 16, 4, 2, 2, 8, 16, 4, 4].take (k + 1)).sum = stop) :
    slice (h.bytes ++ rest) start stop = field := by
  have layout : h.bytes = (h.fields ++ [putUint32 (crc32c h.fields.flatten)]).flatten := by
    simp [bytes, withCRC32C]
  rw [layout]
  exact slice_layout _ (by simp [fields, segmentMagic, ascii]) found starts stops

/-- The decoder reads every valid header back. -/
theorem decode_bytes {h : SegmentHeader} (valid : h.Valid) (rest : Bytes)
    {expectedTopic : TopicID} (topic : expectedTopic ≠ 0 → h.topic = expectedTopic) :
    decodeSegmentHeader (h.bytes ++ rest) expectedTopic h.partition = .ok h := by
  have size : ¬ (h.bytes ++ rest).length < segmentHeaderBytes.toNat := by
    simp [segmentHeaderBytes]
  have body : slice (h.bytes ++ rest) 0 68 = h.fields.flatten := by
    rw [bytes, withCRC32C, List.append_assoc]
    exact slice_zero_append (by simp [fields, segmentMagic, ascii])
  have magic : slice (h.bytes ++ rest) 0 8 = _ := slice_bytes (k := 0) rfl rfl rfl
  have version : slice (h.bytes ++ rest) 8 10 = _ := slice_bytes (k := 1) rfl rfl rfl
  have headerSize : slice (h.bytes ++ rest) 10 12 = _ := slice_bytes (k := 2) rfl rfl rfl
  have reserved : slice (h.bytes ++ rest) 12 16 = _ := slice_bytes (k := 3) rfl rfl rfl
  have topicField : slice (h.bytes ++ rest) 16 32 = _ := slice_bytes (k := 4) rfl rfl rfl
  have partition : slice (h.bytes ++ rest) 32 36 = _ := slice_bytes (k := 5) rfl rfl rfl
  have batchVersion : slice (h.bytes ++ rest) 36 38 = _ := slice_bytes (k := 6) rfl rfl rfl
  have reserved' : slice (h.bytes ++ rest) 38 40 = _ := slice_bytes (k := 7) rfl rfl rfl
  have base : slice (h.bytes ++ rest) 40 48 = _ := slice_bytes (k := 8) rfl rfl rfl
  have idField : slice (h.bytes ++ rest) 48 64 = _ := slice_bytes (k := 9) rfl rfl rfl
  have reserved'' : slice (h.bytes ++ rest) 64 68 = _ := slice_bytes (k := 10) rfl rfl rfl
  have checksum : slice (h.bytes ++ rest) 68 72 = _ := slice_bytes (k := 11) rfl rfl rfl
  have identity : ¬ (h.topic = 0 ∨ h.id = 0 ∨ int32Max < h.partition ∨
      maxOffset < h.baseOffset) := by
    simp only [not_or, UInt32.not_lt, UInt64.not_lt]
    exact ⟨valid.topic, valid.id, valid.partition, valid.baseOffset⟩
  have expected : ¬ (expectedTopic ≠ 0 ∧ h.topic ≠ expectedTopic) := by
    rintro ⟨nonzero, differs⟩
    exact differs (topic nonzero)
  simp only [decodeSegmentHeader, body, magic, version, headerSize, reserved, topicField,
    partition, batchVersion, reserved', base, idField, reserved'', checksum, uint16_putUint16,
    uint32_putUint32, uint64_putUint64, idOf_putID, failIf_of_not size, failIf_of_not identity,
    failIf_of_not expected, ne_eq, not_true_eq_false, or_self, failIf_of_not not_false, ok_bind,
    pure_eq_ok]

end SegmentHeader

end Immulog
