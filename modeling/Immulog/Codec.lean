import Immulog.Format
import Immulog.Lib.Cursor

/-!
The v1 record and batch codec (`src/storage/codec.go`, with the header-name and
offset-range checks of `src/storage/format.go`).

A batch is a 48-byte header with its own checksum, the encoded records and a
checksum over everything before it.  `encodeBatch` and `decodeBatch` follow the
source check by check; `RecordBatch.decode_bytes` reads every accepted batch back.
-/

namespace Immulog

open Lib

/-! ## Records -/

/-- An ordered header of a record; a `nil` value is kept apart from an empty one. -/
structure Header where
  name : Bytes
  value : Option Bytes
  deriving DecidableEq, Repr

structure Record where
  topic : TopicID
  partition : UInt32
  offset : UInt64
  timestamp : Int64
  key : Option Bytes
  value : Option Bytes
  headers : List Header
  deriving DecidableEq

structure RecordBatch where
  topic : TopicID
  partition : UInt32
  baseOffset : UInt64
  records : List Record
  deriving DecidableEq

/-- A UTF-8 continuation byte. -/
def isContinuation (b : UInt8) : Bool :=
  0x80 ≤ b && b ≤ 0xBF

/-- `utf8.ValidString`: no overlong form, no surrogate, nothing above U+10FFFF. -/
def utf8Valid : Bytes → Bool
  | [] => true
  | b :: rest =>
      if b < 0x80 then utf8Valid rest
      else match rest with
        | [] => false
        | c :: rest =>
            if 0xC2 ≤ b ∧ b ≤ 0xDF then isContinuation c && utf8Valid rest
            else match rest with
              | [] => false
              | d :: rest =>
                  if b = 0xE0 then
                    (0xA0 ≤ c && c ≤ 0xBF) && isContinuation d && utf8Valid rest
                  else if b = 0xED then
                    (0x80 ≤ c && c ≤ 0x9F) && isContinuation d && utf8Valid rest
                  else if 0xE1 ≤ b ∧ b ≤ 0xEF then
                    isContinuation c && isContinuation d && utf8Valid rest
                  else match rest with
                    | [] => false
                    | e :: rest =>
                        if b = 0xF0 then
                          (0x90 ≤ c && c ≤ 0xBF) && isContinuation d && isContinuation e &&
                            utf8Valid rest
                        else if 0xF1 ≤ b ∧ b ≤ 0xF3 then
                          isContinuation c && isContinuation d && isContinuation e &&
                            utf8Valid rest
                        else if b = 0xF4 then
                          (0x80 ≤ c && c ≤ 0x8F) && isContinuation d && isContinuation e &&
                            utf8Valid rest
                        else false

def validHeaderName (name : Bytes) : Prop :=
  utf8Valid name = true ∧ name.length ≤ maxHeaderNameBytes.toNat

instance (name : Bytes) : Decidable (validHeaderName name) :=
  inferInstanceAs (Decidable (_ ∧ _))

/-- The length field of a nullable value. -/
def nullableLength : Option Bytes → UInt32
  | none => nullBytesLength
  | some v => .ofNat v.length

def appendNullable (value : Option Bytes) : Except GoError Bytes := do
  failIf (0xFFFFFFFF < (value.getD []).length)
    (.join [.ofKind .errRecordTooLarge, .ofKind .errInvalidRecord])
  return putUint32 (nullableLength value) ++ value.getD []

def encodeHeader (header : Header) : Except GoError Bytes := do
  failIf (¬ validHeaderName header.name)
    (invalidArgument .errInvalidRecord "header name is not valid UTF-8 or is too large")
  failIf (0xFFFFFFFF < (header.value.getD []).length)
    (.join [.ofKind .errRecordTooLarge, .ofKind .errInvalidRecord])
  return putUint32 (.ofNat header.name.length) ++ putUint32 (nullableLength header.value) ++
    header.name ++ header.value.getD []

def encodeHeaders : List Header → Except GoError Bytes
  | [] => return []
  | header :: rest => do
      let first ← encodeHeader header
      let later ← encodeHeaders rest
      return first ++ later

def encodeRecord (record : Record) (baseOffset : UInt64) : Except GoError Bytes := do
  failIf (record.offset < baseOffset ∨ 0xFFFFFFFF < record.offset - baseOffset)
    (invalidArgument .errInvalidRecord "offset delta is outside uint32 range")
  failIf (maxOffset < baseOffset ∨ maxOffset < record.offset)
    (invalidArgument .errInvalidRecord "offset is outside v1 range")
  failIf (maxRecordHeaders.toNat < record.headers.length)
    (invalidArgument .errInvalidRecord "header count exceeds v1 limit")
  let key ← appendNullable record.key
  let value ← appendNullable record.value
  let headers ← encodeHeaders record.headers
  let tail := putUint32 (record.offset - baseOffset).toUInt32 ++
    putUint64 record.timestamp.toUInt64 ++ List.replicate 8 0 ++
    putUint32 (.ofNat record.headers.length) ++ key ++ value ++ headers
  failIf (maxRecordBytes.toNat < 4 + tail.length)
    (.join [.ofKind .errRecordTooLarge, .ofKind .errInvalidRecord])
  return putUint32 (.ofNat (4 + tail.length)) ++ tail

/-! ## Reading records -/

namespace RecordCursor

def u32 : Cursor GoError UInt32 :=
  uint32 <$> Cursor.take 4 (corrupt .errInvalidRecord "truncated uint32")

def bytes (length : UInt32) : Cursor GoError Bytes :=
  Cursor.take length.toNat (corrupt .errInvalidRecord "declared field exceeds record")

/-- The bytes behind the length field of a nullable value. -/
def bytesUnlessNull (length : UInt32) : Cursor GoError (Option Bytes) :=
  if length = nullBytesLength then pure none else some <$> bytes length

def nullableBytes : Cursor GoError (Option Bytes) := do
  let length ← u32
  bytesUnlessNull length

/-- The loop body of `decodeRecord` that reads one header. -/
def header : Cursor GoError Header := do
  let nameLength ← u32
  Cursor.ensure (maxHeaderNameBytes < nameLength)
    (corrupt .errInvalidRecord "header name exceeds v1 limit")
  let valueLength ← u32
  let name ← bytes nameLength
  Cursor.ensure (¬ validHeaderName name)
    (corrupt .errInvalidRecord "header name is not valid UTF-8")
  let value ← bytesUnlessNull valueLength
  return { name, value }

def headers (count : Nat) : Cursor GoError (List Header) :=
  Cursor.loop (fun done => do return done ++ [← header]) count []

/-- Key, value and headers behind the fixed prefix. -/
def payload (headerCount : UInt32) :
    Cursor GoError (Option Bytes × Option Bytes × List Header) := do
  let key ← nullableBytes
  let value ← nullableBytes
  let hs ← headers headerCount.toNat
  return (key, value, hs)

end RecordCursor

/-- Decodes the record at the front of `data`; returns it with the bytes consumed. -/
def decodeRecord (data : Bytes) (baseOffset : UInt64) (topic : TopicID) (partition : UInt32)
    (expectedDelta : Option UInt32) : Except GoError (Record × Nat) := do
  failIf (data.length < recordPrefixBytes.toNat)
    (corrupt .errInvalidRecord "record is shorter than fixed prefix")
  let recordBytes := uint32 (slice data 0 4)
  failIf (recordBytes < recordPrefixBytes ∨ maxRecordBytes < recordBytes)
    (corrupt .errInvalidRecord "record length outside v1 limits")
  failIf (data.length < recordBytes.toNat)
    (corrupt .errInvalidRecord "record body is incomplete")
  let body := slice data 0 recordBytes.toNat
  let delta := uint32 (slice body 4 8)
  failIf (∃ expected ∈ expectedDelta, delta ≠ expected)
    (corrupt .errInvalidRecord "record offset delta is not contiguous")
  failIf (maxOffset < baseOffset ∨ maxOffset - baseOffset < delta.toUInt64)
    (corrupt .errInvalidRecord "record offset is outside v1 range")
  let headerCount := uint32 (slice body 24 28)
  failIf (maxRecordHeaders < headerCount)
    (corrupt .errInvalidRecord "record header count outside v1 limits")
  let ((key, value, headers), rest) ← RecordCursor.payload headerCount (body.drop 28)
  failIf (rest ≠ []) (corrupt .errInvalidRecord "trailing bytes in record")
  return ({ topic, partition, offset := baseOffset + delta.toUInt64,
            timestamp := (uint64 (slice body 8 16)).toInt64, key, value, headers },
          recordBytes.toNat)

/-! ## Batches -/

/-- The largest record timestamp, or the smallest one there is. -/
def maxTimestamp (records : List Record) : Int64 :=
  records.foldl (fun m r => if m < r.timestamp then r.timestamp else m) Int64.minValue

/-- The encoded records of a batch from position `index` on. -/
def encodeRecords (batch : RecordBatch) : Nat → List Record → Except GoError Bytes
  | _, [] => return []
  | index, record :: rest => do
      let expectedOffset := batch.baseOffset + .ofNat index
      failIf (record.topic ≠ batch.topic ∨ record.partition ≠ batch.partition ∨
          record.offset ≠ expectedOffset)
        (invalidArgument .errInvalidBatch "records do not match batch identity or order")
      let encoded ← encodeRecord record batch.baseOffset
      let later ← encodeRecords batch (index + 1) rest
      return encoded ++ later

/-- The batch header in front of its checksum. -/
def batchHeaderFields (total count : UInt32) (base : UInt64) (maxTime : Int64) : List Bytes :=
  [batchMagic, putUint16 formatVersion, putUint16 batchHeaderBytes, putUint32 total,
    putUint32 count, putUint64 base, putUint64 maxTime.toUInt64, putUint32 0,
    putUint16 formatVersion, putUint16 0, putUint32 0]

def encodeBatch (batch : RecordBatch) : Except GoError Bytes := do
  failIf (batch.topic = 0 ∨ batch.records.length = 0 ∨
      maxBatchRecords.toNat < batch.records.length)
    (invalidArgument .errInvalidBatch "invalid topic or record count")
  failIf (¬ validOffsetRange batch.baseOffset (.ofNat batch.records.length))
    (invalidArgument .errInvalidBatch "batch offset range is outside v1 limits")
  let recordBytes ← encodeRecords batch 0 batch.records
  let total := batchHeaderBytes.toNat + recordBytes.length + batchTrailerBytes
  failIf (maxBatchBytes.toNat < total ∨ 0xFFFFFFFF < total)
    (.join [.ofKind .errRecordTooLarge, .ofKind .errInvalidBatch])
  let header := withCRC32C (batchHeaderFields (.ofNat total) (.ofNat batch.records.length)
    batch.baseOffset (maxTimestamp batch.records)).flatten
  return withCRC32C (header ++ recordBytes)

/-- Decodes `count` records from the bytes between header and trailer. -/
def decodeRecords (baseOffset : UInt64) (topic : TopicID) (partition : UInt32) :
    Nat → UInt32 → Bytes → Except GoError (List Record × Bytes)
  | 0, _, body => return ([], body)
  | count + 1, index, body => do
      failIf (body.length < recordPrefixBytes.toNat)
        (corrupt .errInvalidBatch "record prefix exceeds batch body")
      let recordLength := uint32 (slice body 0 4)
      failIf (recordLength < recordPrefixBytes ∨ body.length < recordLength.toNat)
        (corrupt .errInvalidBatch "record length exceeds batch body")
      let (record, consumed) ← decodeRecord (slice body 0 recordLength.toNat) baseOffset topic
        partition (some index)
      failIf (consumed ≠ recordLength.toNat)
        (corrupt .errInvalidBatch "record decoder consumed unexpected bytes")
      let (records, rest) ← decodeRecords baseOffset topic partition count (index + 1)
        (body.drop recordLength.toNat)
      return (record :: records, rest)

def decodeBatch (data : Bytes) (topic : TopicID) (partition : UInt32) :
    Except GoError RecordBatch := do
  failIf (data.length < batchHeaderBytes.toNat)
    (corrupt .errInvalidBatch "incomplete batch header")
  failIf (slice data 0 4 ≠ batchMagic)
    (corrupt .errInvalidBatch "batch magic mismatch")
  failIf (uint16 (slice data 6 8) ≠ batchHeaderBytes)
    (corrupt .errInvalidBatch "batch header size mismatch")
  failIf (uint32 (slice data 44 48) ≠ crc32c (slice data 0 44))
    (corrupt .errInvalidBatch "batch header checksum mismatch")
  failIf (uint16 (slice data 4 6) ≠ formatVersion ∨ uint16 (slice data 36 38) ≠ formatVersion)
    (unsupported "unsupported batch or record encoding version")
  failIf (uint32 (slice data 32 36) ≠ 0 ∨ uint16 (slice data 38 40) ≠ 0 ∨
      uint32 (slice data 40 44) ≠ 0)
    (corrupt .errInvalidBatch "nonzero reserved or required batch attributes")
  failIf (topic = 0) (corrupt .errInvalidBatch "batch topic identity is zero")
  let total := uint32 (slice data 8 12)
  let count := uint32 (slice data 12 16)
  let baseOffset := uint64 (slice data 16 24)
  failIf (count = 0 ∨ maxBatchRecords < count ∨
      total < batchHeaderBytes.toUInt32 + 4 + recordPrefixBytes ∨ maxBatchBytes < total)
    (corrupt .errInvalidBatch "batch length or record count outside v1 limits")
  failIf (¬ validOffsetRange baseOffset count)
    (corrupt .errInvalidBatch "batch offset range is outside v1 limits")
  failIf (total.toUInt64 - batchHeaderBytes.toUInt64 - 4 <
      count.toUInt64 * recordPrefixBytes.toUInt64)
    (corrupt .errInvalidBatch "batch cannot contain its declared records")
  failIf (total.toNat ≠ data.length)
    (corrupt .errInvalidBatch "batch has incomplete or trailing bytes")
  let trailerPosition := data.length - batchTrailerBytes
  failIf (uint32 (data.drop trailerPosition) ≠ crc32c (slice data 0 trailerPosition))
    (corrupt .errInvalidBatch "batch checksum mismatch")
  let (records, rest) ← decodeRecords baseOffset topic partition count.toNat 0
    (slice data batchHeaderBytes.toNat trailerPosition)
  failIf (rest ≠ [])
    (corrupt .errInvalidBatch "trailing bytes after declared records")
  failIf ((uint64 (slice data 24 32)).toInt64 ≠ maxTimestamp records)
    (corrupt .errInvalidBatch "batch maximum timestamp mismatch")
  return { topic, partition, baseOffset, records }

/-! ## Encodings of accepted records -/

/-- A nullable value behind its length field. -/
def nullable (value : Option Bytes) : Bytes :=
  putUint32 (nullableLength value) ++ value.getD []

namespace Header

def bytes (h : Header) : Bytes :=
  putUint32 (.ofNat h.name.length) ++ putUint32 (nullableLength h.value) ++
    h.name ++ h.value.getD []

/-- What the encoder checks of one header. -/
structure Valid (h : Header) : Prop where
  name : validHeaderName h.name
  value : (h.value.getD []).length ≤ 0xFFFFFFFF

end Header

theorem appendNullable_eq_ok {value : Option Bytes} {bs : Bytes} :
    appendNullable value = .ok bs ↔ (value.getD []).length ≤ 0xFFFFFFFF ∧ nullable value = bs := by
  simp [appendNullable, nullable, bind_eq_ok, failIf_eq_ok]

theorem encodeHeader_eq_ok {h : Header} {bs : Bytes} :
    encodeHeader h = .ok bs ↔ h.Valid ∧ h.bytes = bs := by
  simp only [encodeHeader, bind_eq_ok, failIf_eq_ok, exists_const, not_not, not_lt, pure_eq_ok,
    Except.ok.injEq]
  constructor
  · intro checks
    rcases checks with ⟨name, value, same⟩
    exact ⟨⟨name, value⟩, same⟩
  · intro accepted
    rcases accepted with ⟨valid, same⟩
    exact ⟨valid.name, valid.value, same⟩

theorem encodeHeaders_eq_ok {hs : List Header} {bs : Bytes} :
    encodeHeaders hs = .ok bs ↔ (∀ h ∈ hs, h.Valid) ∧ hs.flatMap Header.bytes = bs := by
  induction hs generalizing bs with
  | nil => simp [encodeHeaders]
  | cons h hs ih =>
      simp only [encodeHeaders, bind_eq_ok, encodeHeader_eq_ok, ih, pure_eq_ok, Except.ok.injEq,
        List.forall_mem_cons, List.flatMap_cons]
      constructor
      · rintro ⟨_, ⟨valid, rfl⟩, _, ⟨rest, rfl⟩, rfl⟩
        exact ⟨⟨valid, rest⟩, rfl⟩
      · rintro ⟨⟨valid, rest⟩, rfl⟩
        exact ⟨_, ⟨valid, rfl⟩, _, ⟨rest, rfl⟩, rfl⟩

namespace Record

/-- The record behind its length field. -/
def tail (r : Record) (base : UInt64) : Bytes :=
  putUint32 (r.offset - base).toUInt32 ++ putUint64 r.timestamp.toUInt64 ++
    List.replicate 8 0 ++ putUint32 (.ofNat r.headers.length) ++ nullable r.key ++
    nullable r.value ++ r.headers.flatMap Header.bytes

def bytes (r : Record) (base : UInt64) : Bytes :=
  putUint32 (.ofNat (4 + (r.tail base).length)) ++ r.tail base

/-- What the encoder checks of one record. -/
structure Valid (r : Record) (base : UInt64) : Prop where
  above : base ≤ r.offset
  delta : r.offset - base ≤ 0xFFFFFFFF
  baseRange : base ≤ maxOffset
  offsetRange : r.offset ≤ maxOffset
  headerCount : r.headers.length ≤ maxRecordHeaders.toNat
  key : (r.key.getD []).length ≤ 0xFFFFFFFF
  value : (r.value.getD []).length ≤ 0xFFFFFFFF
  headers : ∀ h ∈ r.headers, h.Valid
  size : 4 + (r.tail base).length ≤ maxRecordBytes.toNat

/-- The encoder accepts valid records only. -/
theorem encode_eq_ok {r : Record} {base : UInt64} {bs : Bytes} :
    encodeRecord r base = .ok bs ↔ r.Valid base ∧ r.bytes base = bs := by
  simp only [encodeRecord, bind_eq_ok, failIf_eq_ok, exists_const, appendNullable_eq_ok,
    encodeHeaders_eq_ok, not_or, UInt64.not_lt, not_lt, pure_eq_ok, Except.ok.injEq]
  constructor
  · rintro ⟨⟨above, delta⟩, ⟨baseOk, offset⟩, count, _, ⟨key, rfl⟩, _, ⟨value, rfl⟩, _,
      ⟨headers, rfl⟩, size, rfl⟩
    exact ⟨⟨above, delta, baseOk, offset, count, key, value, headers, size⟩, rfl⟩
  · rintro ⟨v, rfl⟩
    exact ⟨⟨v.above, v.delta⟩, ⟨v.baseRange, v.offsetRange⟩, v.headerCount, _, ⟨v.key, rfl⟩, _,
      ⟨v.value, rfl⟩, _, ⟨v.headers, rfl⟩, v.size, rfl⟩

end Record

/-! ## Reading accepted records back -/

namespace RecordCursor

open Cursor (Parses)

theorem parses_u32 (v : UInt32) : Parses u32 (putUint32 v) v := by
  have read := (Parses.take (length_putUint32 v)
    (corrupt .errInvalidRecord "truncated uint32")).map uint32
  rwa [uint32_putUint32] at read

theorem parses_bytes {v : Bytes} (size : v.length < 2 ^ 32) :
    Parses (bytes (.ofNat v.length)) v v :=
  Parses.take (toNat_ofNat32 size).symm _

theorem nullableLength_some_ne {v : Bytes} (size : v.length < 0xFFFFFFFF) :
    nullableLength (some v) ≠ nullBytesLength := by
  intro same
  have := congrArg UInt32.toNat same
  simp only [nullableLength, UInt32.toNat_ofNat', nullBytesLength, UInt32.reduceToNat] at this
  omega

theorem parses_bytesUnlessNull {v : Option Bytes} (size : (v.getD []).length < 0xFFFFFFFF) :
    Parses (bytesUnlessNull (nullableLength v)) (v.getD []) v := by
  cases v with
  | none => exact Parses.pure _
  | some v =>
      have short : v.length < 0xFFFFFFFF := size
      rw [bytesUnlessNull, if_neg (nullableLength_some_ne short)]
      exact (parses_bytes (by omega)).map some

theorem parses_nullableBytes {v : Option Bytes} (size : (v.getD []).length < 0xFFFFFFFF) :
    Parses nullableBytes (nullable v) v :=
  (parses_u32 _).bind (parses_bytesUnlessNull size)

theorem parses_header {h : Header} (valid : h.Valid)
    (size : (h.value.getD []).length < 0xFFFFFFFF) : Parses header h.bytes h := by
  have nameSize : h.name.length ≤ 65535 := valid.name.2
  have nameBound : h.name.length < 2 ^ 32 := by omega
  have nameLength : ¬ maxHeaderNameBytes < UInt32.ofNat h.name.length := by
    rw [UInt32.not_lt, UInt32.le_iff_toNat_le, toNat_ofNat32 nameBound]
    exact nameSize
  have shape : h.bytes = putUint32 (.ofNat h.name.length) ++
      (putUint32 (nullableLength h.value) ++ (h.name ++ (h.value.getD [] ++ []))) := by
    simp [Header.bytes]
  rw [shape]
  exact (parses_u32 _).bind <| .ensure nameLength <| (parses_u32 _).bind <|
    (parses_bytes nameBound).bind <| .ensure (not_not.2 valid.name) <|
      (parses_bytesUnlessNull size).bind (.pure _)

theorem parses_headers {hs : List Header}
    (valid : ∀ h ∈ hs, h.Valid ∧ (h.value.getD []).length < 0xFFFFFFFF) :
    Parses (headers hs.length) (hs.flatMap Header.bytes) hs := by
  refine Parses.loop Header.bytes (fun done : List Header => done) ?_
  rintro done h rest rfl
  have one := valid h (by simp)
  have read := (parses_header one.1 one.2).bind
    (f := fun h => (pure (done ++ [h]) : Cursor GoError (List Header))) (Parses.pure _)
  simpa using read

end RecordCursor

namespace Record

variable {r : Record} {base : UInt64}

@[simp] theorem length_bytes (r : Record) (base : UInt64) :
    (r.bytes base).length = 4 + (r.tail base).length := by
  simp [bytes]

/-- An accepted record is far below the range of its length fields. -/
theorem Valid.payload_small (valid : r.Valid base) :
    (r.key.getD []).length < 0xFFFFFFFF ∧ (r.value.getD []).length < 0xFFFFFFFF ∧
      ∀ h ∈ r.headers, h.Valid ∧ (h.value.getD []).length < 0xFFFFFFFF := by
  have size : 4 + (r.tail base).length ≤ 16777216 := valid.size
  simp only [tail, nullable, List.length_append, length_putUint32, length_putUint64,
    List.length_replicate] at size
  refine ⟨by omega, by omega, fun h mem => ⟨valid.headers h mem, ?_⟩⟩
  have part : h.bytes.length ≤ (r.headers.flatMap Header.bytes).length :=
    (List.sublist_flatten_of_mem (List.mem_map_of_mem mem)).length_le
  simp only [Header.bytes, List.length_append, length_putUint32] at part
  omega

theorem Valid.toNat_headerCount (valid : r.Valid base) :
    (UInt32.ofNat r.headers.length).toNat = r.headers.length := by
  have count : r.headers.length ≤ 1024 := valid.headerCount
  exact toNat_ofNat32 (by omega)

theorem Valid.toNat_size (valid : r.Valid base) :
    (UInt32.ofNat (4 + (r.tail base).length)).toNat = (r.bytes base).length := by
  have size : 4 + (r.tail base).length ≤ 16777216 := valid.size
  rw [toNat_ofNat32 (by omega), length_bytes]

theorem Valid.size_bounds (valid : r.Valid base) :
    28 ≤ (r.bytes base).length ∧ (r.bytes base).length ≤ 16777216 := by
  have upper : 4 + (r.tail base).length ≤ 16777216 := valid.size
  rw [length_bytes]
  refine ⟨?_, upper⟩
  simp only [tail, List.length_append, length_putUint32, length_putUint64, List.length_replicate]
  omega

/-- The 32-bit delta gives the offset back. -/
theorem Valid.offset_eq (valid : r.Valid base) :
    base + (r.offset - base).toUInt32.toUInt64 = r.offset := by
  have small := valid.delta
  have wide : (r.offset - base).toUInt32.toUInt64 = r.offset - base := by
    apply UInt64.toNat_inj.1
    rw [UInt32.toNat_toUInt64, UInt64.toNat_toUInt32]
    have := UInt64.le_iff_toNat_le.1 small
    exact Nat.mod_eq_of_lt (by simpa using Nat.lt_succ_of_le this)
  rw [wide]
  grind

theorem parses_payload (valid : r.Valid base) :
    Cursor.Parses (RecordCursor.payload (.ofNat r.headers.length))
      (nullable r.key ++ (nullable r.value ++ (r.headers.flatMap Header.bytes ++ [])))
      (r.key, r.value, r.headers) := by
  obtain ⟨key, value, headers⟩ := valid.payload_small
  have read := RecordCursor.parses_headers headers
  rw [← valid.toNat_headerCount] at read
  exact (RecordCursor.parses_nullableBytes key).bind <|
    (RecordCursor.parses_nullableBytes value).bind <| read.bind (.pure _)

/-- The fixed prefix of a record. -/
theorem slice_bytes {rest field : Bytes} {k start stop : Nat}
    (found : [putUint32 (.ofNat (4 + (r.tail base).length)),
      putUint32 (r.offset - base).toUInt32, putUint64 r.timestamp.toUInt64,
      List.replicate 8 0, putUint32 (.ofNat r.headers.length)][k]? = some field)
    (starts : ([4, 4, 8, 8, 4].take k).sum = start)
    (stops : ([4, 4, 8, 8, 4].take (k + 1)).sum = stop) :
    slice (r.bytes base ++ rest) start stop = field := by
  have read := slice_layout (nullable r.key ++ nullable r.value ++
    r.headers.flatMap Header.bytes ++ rest) (by simp) found starts stops
  simpa [bytes, tail] using read

/-- A decoded record is the one that was encoded. -/
theorem decode_bytes (valid : r.Valid base) (rest : Bytes) {expectedDelta : Option UInt32}
    (expected : ∀ e ∈ expectedDelta, (r.offset - base).toUInt32 = e) :
    decodeRecord (r.bytes base ++ rest) base r.topic r.partition expectedDelta =
      .ok (r, (r.bytes base).length) := by
  have total : slice (r.bytes base ++ rest) 0 4 = _ := slice_bytes (k := 0) rfl rfl rfl
  have body : slice (r.bytes base ++ rest) 0 (r.bytes base).length = r.bytes base :=
    slice_zero_append rfl
  have slices := fun {k start stop field} => @slice_bytes r base [] field k start stop
  simp only [List.append_nil] at slices
  have delta : slice (r.bytes base) 4 8 = _ := slices (k := 1) rfl rfl rfl
  have time : slice (r.bytes base) 8 16 = _ := slices (k := 2) rfl rfl rfl
  have count : slice (r.bytes base) 24 28 = _ := slices (k := 4) rfl rfl rfl
  have front : (r.bytes base).drop 28 =
      nullable r.key ++ (nullable r.value ++ (r.headers.flatMap Header.bytes ++ [])) ++ [] := by
    simp only [bytes, tail, List.append_nil, ← List.append_assoc]
    rw [List.append_assoc, List.append_assoc, List.drop_left' (by simp), List.append_assoc]
  have payload := parses_payload valid []
  have size := valid.size_bounds
  have limits : ¬ (UInt32.ofNat (4 + (r.tail base).length) < recordPrefixBytes ∨
      maxRecordBytes < UInt32.ofNat (4 + (r.tail base).length)) := by
    rw [UInt32.lt_iff_toNat_lt, UInt32.lt_iff_toNat_lt, valid.toNat_size]
    simp only [recordPrefixBytes, maxRecordBytes, UInt32.reduceToNat, UInt32.reduceMul]
    omega
  have long : ¬ (r.bytes base ++ rest).length < recordPrefixBytes.toNat := by
    simp only [List.length_append, recordPrefixBytes, UInt32.reduceToNat]
    omega
  have complete : ¬ (r.bytes base ++ rest).length < (r.bytes base).length := by simp
  have contiguous : ¬ ∃ e ∈ expectedDelta, (r.offset - base).toUInt32 ≠ e := by
    rintro ⟨e, mem, differs⟩
    exact differs (expected e mem)
  have range : ¬ (maxOffset < base ∨
      maxOffset - base < (r.offset - base).toUInt32.toUInt64) := by
    have offset := valid.offset_eq
    have baseRange := valid.baseRange
    have offsetRange := valid.offsetRange
    have above := valid.above
    grind
  have headerCount : ¬ maxRecordHeaders < UInt32.ofNat r.headers.length := by
    rw [UInt32.not_lt, UInt32.le_iff_toNat_le, valid.toNat_headerCount]
    exact valid.headerCount
  simp only [decodeRecord, total, uint32_putUint32, valid.toNat_size, body, delta, time, count,
    front, payload, uint64_putUint64, valid.offset_eq, failIf_of_not long, failIf_of_not limits,
    failIf_of_not complete, failIf_of_not contiguous, failIf_of_not range,
    failIf_of_not headerCount, ok_bind, pure_eq_ok, ne_eq, not_true_eq_false,
    failIf_of_not not_false]
  simp

end Record

/-! ## Accepted batches -/

namespace RecordBatch

/-- The record at position `index` of the batch. -/
structure Places (b : RecordBatch) (index : Nat) (r : Record) : Prop where
  topic : r.topic = b.topic
  partition : r.partition = b.partition
  offset : r.offset = b.baseOffset + .ofNat index
  valid : r.Valid b.baseOffset

def recordBytes (b : RecordBatch) : Bytes :=
  b.records.flatMap fun r => r.bytes b.baseOffset

/-- The size of the encoded batch. -/
def total (b : RecordBatch) : Nat :=
  batchHeaderBytes.toNat + b.recordBytes.length + batchTrailerBytes

def headerFields (b : RecordBatch) : List Bytes :=
  batchHeaderFields (.ofNat b.total) (.ofNat b.records.length) b.baseOffset
    (maxTimestamp b.records)

/-- The 48-byte batch header. -/
def header (b : RecordBatch) : Bytes :=
  withCRC32C b.headerFields.flatten

def bytes (b : RecordBatch) : Bytes :=
  withCRC32C (b.header ++ b.recordBytes)

/-- What the encoder checks of a batch. -/
structure Valid (b : RecordBatch) : Prop where
  topic : b.topic ≠ 0
  nonempty : 0 < b.records.length
  count : b.records.length ≤ maxBatchRecords.toNat
  range : validOffsetRange b.baseOffset (.ofNat b.records.length)
  places : ∀ index r, b.records[index]? = some r → b.Places index r
  size : b.total ≤ maxBatchBytes.toNat

variable {b : RecordBatch}

theorem encodeRecords_eq_ok {start : Nat} {rs : List Record} {bs : Bytes} :
    encodeRecords b start rs = .ok bs ↔
      (∀ index r, rs[index]? = some r → b.Places (start + index) r) ∧
        rs.flatMap (fun r => r.bytes b.baseOffset) = bs := by
  induction rs generalizing start bs with
  | nil => simp [encodeRecords]
  | cons r rs ih =>
      simp only [encodeRecords, bind_eq_ok, failIf_eq_ok, exists_const, Record.encode_eq_ok, ih,
        not_or, not_not, pure_eq_ok, Except.ok.injEq, List.flatMap_cons]
      constructor
      · rintro ⟨⟨topic, partition, offset⟩, _, ⟨valid, rfl⟩, _, ⟨rest, rfl⟩, rfl⟩
        refine ⟨fun index x found => ?_, rfl⟩
        cases index with
        | zero =>
            obtain rfl : r = x := by simpa using found
            exact ⟨topic, partition, offset, valid⟩
        | succ index =>
            have place := rest index x (by simpa using found)
            rwa [Nat.add_right_comm] at place
      · rintro ⟨places, rfl⟩
        have first := places 0 r (by simp)
        refine ⟨⟨first.topic, first.partition, first.offset⟩, _, ⟨first.valid, rfl⟩, _,
          ⟨fun index x found => ?_, rfl⟩, rfl⟩
        have place := places (index + 1) x (by simpa using found)
        rwa [Nat.add_right_comm]

/-- The encoder accepts valid batches only. -/
theorem encode_eq_ok {bs : Bytes} :
    encodeBatch b = .ok bs ↔ b.Valid ∧ b.bytes = bs := by
  simp only [encodeBatch, bind_eq_ok, failIf_eq_ok, exists_const, encodeRecords_eq_ok, not_or,
    not_not, not_lt, pure_eq_ok, Except.ok.injEq, Nat.zero_add]
  constructor
  · rintro ⟨⟨topic, nonempty, count⟩, range, _, ⟨places, rfl⟩, ⟨size, _⟩, rfl⟩
    exact ⟨⟨topic, Nat.pos_of_ne_zero nonempty, count, range, places, size⟩, rfl⟩
  · rintro ⟨v, rfl⟩
    refine ⟨⟨v.topic, v.nonempty.ne', v.count⟩, v.range, _, ⟨v.places, rfl⟩, ⟨v.size, ?_⟩, rfl⟩
    exact v.size.trans (by decide)

/-- The record decoder's delta is the position in the batch. -/
theorem Places.delta {index : Nat} {r : Record} (place : b.Places index r) :
    (r.offset - b.baseOffset).toUInt32 = .ofNat index := by
  have sub : r.offset - b.baseOffset = .ofNat index := by
    rw [place.offset]
    grind
  rw [sub]
  apply UInt32.toNat_inj.1
  simp

/-- The loop of the batch decoder reads encoded records back, one per step. -/
theorem decodeRecords_bytes {start : Nat} {rs : List Record} (rest : Bytes)
    (places : ∀ index r, rs[index]? = some r → b.Places (start + index) r) :
    decodeRecords b.baseOffset b.topic b.partition rs.length (.ofNat start)
      (rs.flatMap (fun r => r.bytes b.baseOffset) ++ rest) = .ok (rs, rest) := by
  induction rs generalizing start with
  | nil => rfl
  | cons r rs ih =>
      have place : b.Places start r := places 0 r rfl
      have next : ∀ index x, rs[index]? = some x → b.Places (start + 1 + index) x := by
        intro index x found
        have place := places (index + 1) x (by simpa using found)
        rwa [Nat.add_right_comm]
      have later := ih next
      have expected : ∀ e ∈ some (UInt32.ofNat start),
          (r.offset - b.baseOffset).toUInt32 = e := by
        rintro e ⟨⟩
        exact place.delta
      have decoded := Record.decode_bytes place.valid [] expected
      rw [List.append_nil, place.topic, place.partition] at decoded
      have size := place.valid.toNat_size
      set body := rs.flatMap (fun r => r.bytes b.baseOffset) ++ rest with bodyEq
      have total : slice (r.bytes b.baseOffset ++ body) 0 4 = _ :=
        Record.slice_bytes (k := 0) rfl rfl rfl
      have front : slice (r.bytes b.baseOffset ++ body) 0 (r.bytes b.baseOffset).length = _ :=
        slice_zero_append rfl
      have lower := place.valid.size_bounds.1
      have long : ¬ (r.bytes b.baseOffset ++ body).length < recordPrefixBytes.toNat := by
        simp only [List.length_append, recordPrefixBytes, UInt32.reduceToNat]
        omega
      have fits : ¬ (UInt32.ofNat (4 + (r.tail b.baseOffset).length) < recordPrefixBytes ∨
          (r.bytes b.baseOffset ++ body).length < (r.bytes b.baseOffset).length) := by
        rw [UInt32.lt_iff_toNat_lt, size]
        simp only [recordPrefixBytes, UInt32.reduceToNat, List.length_append]
        omega
      have next : UInt32.ofNat start + 1 = UInt32.ofNat (start + 1) := by
        rw [UInt32.ofNat_add]
        rfl
      rw [List.flatMap_cons, List.append_assoc, ← bodyEq, List.length_cons]
      simp only [decodeRecords, total, uint32_putUint32, size, front, decoded, next,
        List.drop_left, later, failIf_of_not long, failIf_of_not fits, ok_bind, ne_eq,
        not_true_eq_false, failIf_of_not not_false, pure_eq_ok]

@[simp] theorem length_header (b : RecordBatch) : b.header.length = 48 := by
  simp [header, withCRC32C, headerFields, batchHeaderFields, batchMagic, ascii]

@[simp] theorem length_bytes (b : RecordBatch) : b.bytes.length = b.total := by
  simp [bytes, withCRC32C, total, batchHeaderBytes, batchTrailerBytes, Nat.add_assoc]

/-- Reading field `k` of the batch header back, whatever follows. -/
theorem slice_bytes {rest field : Bytes} {k start stop : Nat}
    (found : (b.headerFields ++ [putUint32 (crc32c b.headerFields.flatten)])[k]? = some field)
    (starts : ([4, 2, 2, 4, 4, 8, 8, 4, 2, 2, 4, 4].take k).sum = start)
    (stops : ([4, 2, 2, 4, 4, 8, 8, 4, 2, 2, 4, 4].take (k + 1)).sum = stop) :
    slice (b.bytes ++ rest) start stop = field := by
  have read := slice_layout
    (b.recordBytes ++ putUint32 (crc32c (b.header ++ b.recordBytes)) ++ rest)
    (by simp [headerFields, batchHeaderFields, batchMagic, ascii]) found starts stops
  simpa [bytes, header, withCRC32C] using read

theorem Valid.toNat_total (valid : b.Valid) : (UInt32.ofNat b.total).toNat = b.total := by
  have size : b.total ≤ 67108864 := valid.size
  exact toNat_ofNat32 (by omega)

theorem Valid.toNat_count (valid : b.Valid) :
    (UInt32.ofNat b.records.length).toNat = b.records.length := by
  have count : b.records.length ≤ 65536 := valid.count
  exact toNat_ofNat32 (by omega)

/-- Every record takes at least its prefix. -/
theorem Valid.length_recordBytes (valid : b.Valid) :
    b.records.length * 28 ≤ b.recordBytes.length := by
  have general : ∀ rs : List Record, (∀ r ∈ rs, r.Valid b.baseOffset) →
      rs.length * 28 ≤ (rs.flatMap fun r => r.bytes b.baseOffset).length := by
    intro rs
    induction rs with
    | nil => simp
    | cons r rs ih =>
        intro all
        have first := (all r (by simp)).size_bounds.1
        have later := ih fun x mem => all x (by simp [mem])
        simp only [List.length_cons, List.flatMap_cons, List.length_append]
        omega
  refine general b.records fun r mem => ?_
  obtain ⟨index, found⟩ := List.mem_iff_getElem?.1 mem
  exact (valid.places index r found).valid

/-- The decoder reads every accepted batch back. -/
theorem decode_bytes (valid : b.Valid) : decodeBatch b.bytes b.topic b.partition = .ok b := by
  have slices := fun {k start stop field} => @slice_bytes b [] field k start stop
  simp only [List.append_nil] at slices
  have magic : slice b.bytes 0 4 = _ := slices (k := 0) rfl rfl rfl
  have version : slice b.bytes 4 6 = _ := slices (k := 1) rfl rfl rfl
  have headerSize : slice b.bytes 6 8 = _ := slices (k := 2) rfl rfl rfl
  have totalField : slice b.bytes 8 12 = _ := slices (k := 3) rfl rfl rfl
  have countField : slice b.bytes 12 16 = _ := slices (k := 4) rfl rfl rfl
  have base : slice b.bytes 16 24 = _ := slices (k := 5) rfl rfl rfl
  have time : slice b.bytes 24 32 = _ := slices (k := 6) rfl rfl rfl
  have reserved : slice b.bytes 32 36 = _ := slices (k := 7) rfl rfl rfl
  have encoding : slice b.bytes 36 38 = _ := slices (k := 8) rfl rfl rfl
  have reserved' : slice b.bytes 38 40 = _ := slices (k := 9) rfl rfl rfl
  have reserved'' : slice b.bytes 40 44 = _ := slices (k := 10) rfl rfl rfl
  have headerCRC : slice b.bytes 44 48 = _ := slices (k := 11) rfl rfl rfl
  have headerBody : slice b.bytes 0 44 = b.headerFields.flatten := by
    rw [bytes, withCRC32C, header, withCRC32C, List.append_assoc, List.append_assoc]
    exact slice_zero_append (by simp [headerFields, batchHeaderFields, batchMagic, ascii])
  have position : b.bytes.length - batchTrailerBytes = (b.header ++ b.recordBytes).length := by
    simp [total, batchHeaderBytes, batchTrailerBytes]
  have trailer : b.bytes.drop (b.header ++ b.recordBytes).length =
      putUint32 (crc32c (b.header ++ b.recordBytes)) := List.drop_left
  have covered : slice b.bytes 0 (b.header ++ b.recordBytes).length = b.header ++ b.recordBytes :=
    slice_zero_append rfl
  have body : slice b.bytes batchHeaderBytes.toNat (b.header ++ b.recordBytes).length =
      b.recordBytes := by
    rw [bytes, withCRC32C, slice, List.append_assoc, List.drop_left' (by simp [batchHeaderBytes])]
    simp [batchHeaderBytes]
  have places : ∀ index r, b.records[index]? = some r → b.Places (0 + index) r := by
    intro index r found
    simpa using valid.places index r found
  have records := decodeRecords_bytes [] places
  rw [List.append_nil, show UInt32.ofNat 0 = 0 from rfl] at records
  have lower : b.records.length * 28 ≤ b.recordBytes.length := valid.length_recordBytes
  have nonempty := valid.nonempty
  have count : b.records.length ≤ 65536 := valid.count
  have size : b.total ≤ 67108864 := valid.size
  have totalEq : b.total = 48 + b.recordBytes.length + 4 := rfl
  have long : ¬ b.bytes.length < batchHeaderBytes.toNat := by
    simp only [length_bytes, batchHeaderBytes, UInt16.reduceToNat]
    omega
  have limits : ¬ (UInt32.ofNat b.records.length = 0 ∨
      maxBatchRecords < UInt32.ofNat b.records.length ∨
      UInt32.ofNat b.total < batchHeaderBytes.toUInt32 + 4 + recordPrefixBytes ∨
      maxBatchBytes < UInt32.ofNat b.total) := by
    have minimum : (batchHeaderBytes.toUInt32 + 4 + recordPrefixBytes).toNat = 80 := by decide
    have recordLimit : maxBatchRecords.toNat = 65536 := by decide
    have byteLimit : maxBatchBytes.toNat = 67108864 := by decide
    simp only [← UInt32.toNat_inj, UInt32.lt_iff_toNat_lt, valid.toNat_count, valid.toNat_total,
      minimum, recordLimit, byteLimit, UInt32.toNat_zero]
    omega
  have holds : ¬ (UInt32.ofNat b.total).toUInt64 - batchHeaderBytes.toUInt64 - 4 <
      (UInt32.ofNat b.records.length).toUInt64 * recordPrefixBytes.toUInt64 := by
    have headerWide : batchHeaderBytes.toUInt64.toNat = 48 := by decide
    have prefixWide : recordPrefixBytes.toUInt64.toNat = 28 := by decide
    simp only [UInt64.lt_iff_toNat_lt, UInt64.toNat_mul, UInt64.toNat_sub, UInt32.toNat_toUInt64,
      valid.toNat_count, valid.toNat_total, headerWide, prefixWide, UInt64.reduceToNat]
    omega
  have whole : ¬ (UInt32.ofNat b.total).toNat ≠ b.bytes.length := by
    rw [valid.toNat_total, length_bytes, not_not]
  simp only [decodeBatch, magic, version, headerSize, totalField, countField, base, time, reserved,
    encoding, reserved', reserved'', headerCRC, headerBody, position, trailer, covered, body,
    uint16_putUint16, uint32_putUint32, uint64_putUint64, valid.toNat_count, failIf_of_not long,
    failIf_of_not limits, failIf_of_not holds, failIf_of_not whole, failIf_of_not valid.topic,
    failIf_of_not (not_not.2 valid.range), ok_bind, ne_eq, not_true_eq_false, or_self,
    failIf_of_not not_false, pure_eq_ok]
  rw [recordBytes, records]
  simp [failIf]

end RecordBatch

end Immulog
