import Immulog.CodecExact
import Immulog.EventCursor
import Immulog.Index
import Immulog.Layout

/-!
The fixed layouts that are not record batches: index headers
(`src/storage/index.go`), snapshot headers (`src/storage/snapshot.go`), the system
manifest and the checkpoint file (`src/storage/system_compaction.go`).

Each layout is the list of its fields, reserved gaps included, and a checksum behind
them.  `slice_checked` reads a field back at the range the source numbers, and
`checked_of_slices` puts the fields of accepted data together again; the two
directions of every codec are instances.
-/

namespace Immulog

open Lib

/-! ## Checked layouts -/

/-- Field `k` of a layout with a checksum behind it, whatever follows. -/
theorem slice_checked {fields : List Bytes} {sizes : List Nat} {field : Bytes} (rest : Bytes)
    (layout : fields.map List.length = sizes) {k start stop : Nat}
    (found : (fields ++ [putUint32 (crc32c fields.flatten)])[k]? = some field)
    (starts : ((sizes ++ [4]).take k).sum = start)
    (stops : ((sizes ++ [4]).take (k + 1)).sum = stop) :
    slice (withCRC32C fields.flatten ++ rest) start stop = field := by
  have whole : withCRC32C fields.flatten =
      (fields ++ [putUint32 (crc32c fields.flatten)]).flatten := by
    simp [withCRC32C]
  rw [whole]
  exact slice_layout rest (by simp [layout]) found starts stops

/-- The body in front of the checksum. -/
theorem slice_body {fields : List Bytes} {sizes : List Nat} (rest : Bytes)
    (layout : fields.map List.length = sizes) {stop : Nat} (stops : sizes.sum = stop) :
    slice (withCRC32C fields.flatten ++ rest) 0 stop = fields.flatten := by
  rw [withCRC32C, List.append_assoc]
  refine slice_zero_append ?_
  rw [List.length_flatten, layout, stops]

/-- Data whose body is the given fields and whose checksum is right. -/
theorem checked_of_slices (data : Bytes) (stop : Nat) {fields : List Bytes}
    (long : stop + 4 ≤ data.length) (body : fields.flatten = slice data 0 stop)
    (checksum : uint32 (slice data stop (stop + 4)) = crc32c (slice data 0 stop)) :
    withCRC32C fields.flatten = slice data 0 (stop + 4) := by
  have last : (slice data stop (stop + 4)).length = 4 := by
    rw [length_slice]
    omega
  rw [withCRC32C, body, ← checksum, putUint32_uint32 last,
    slice_append_slice data (Nat.zero_le _) (Nat.le_add_right _ _)]

theorem slice_whole {data : Bytes} {n : Nat} (size : data.length = n) : slice data 0 n = data := by
  rw [slice, List.drop_zero, List.take_of_length_le (by omega)]

section Fields

variable {data : Bytes} {start stop : Nat}

/-! A field that was read as `v` is the encoding of `v`. -/

/-- A field that is read as `v` is the encoding of `v`. -/
theorem putUint16_of_read {v : UInt16} (size : (slice data start stop).length = 2)
    (read : uint16 (slice data start stop) = v) : putUint16 v = slice data start stop := by
  rw [← read, putUint16_uint16 size]

theorem putUint32_of_read {v : UInt32} (size : (slice data start stop).length = 4)
    (read : uint32 (slice data start stop) = v) : putUint32 v = slice data start stop := by
  rw [← read, putUint32_uint32 size]

end Fields

/-! ## Index headers -/

namespace IndexHeader

/-- A kind with the entry size that goes with it, and a stride. -/
structure Valid (h : IndexHeader) : Prop where
  kind : h.kind = 1 ∧ h.entryBytes = offsetIndexEntryBytes ∨
    h.kind = 2 ∧ h.entryBytes = timeIndexEntryBytes
  stride : h.stride ≠ 0

/-- The widths of the fields of an index header. -/
theorem fields_length (h : IndexHeader) :
    h.fields.map List.length = [8, 2, 2, 2, 2, 4, 4, 16, 16, 4, 4, 16, 8, 32, 4] := by
  simp [fields, indexMagic, ascii]

@[simp] theorem length_encode (h : IndexHeader) : (encodeIndexHeader h).length = 128 := by
  simp [encodeIndexHeader, withCRC32C, fields, indexMagic, ascii]

/-- Field `k` of an encoded header, read back from its place. -/
theorem slice_encode (h : IndexHeader) (k : Nat) (rest : Bytes) {field : Bytes}
    {start stop : Nat}
    (found : (h.fields ++ [putUint32 (crc32c h.fields.flatten)])[k]? = some field)
    (starts : ([8, 2, 2, 2, 2, 4, 4, 16, 16, 4, 4, 16, 8, 32, 4, 4].take k).sum = start)
    (stops : ([8, 2, 2, 2, 2, 4, 4, 16, 16, 4, 4, 16, 8, 32, 4, 4].take (k + 1)).sum = stop) :
    slice (encodeIndexHeader h ++ rest) start stop = field :=
  slice_checked rest h.fields_length found starts stops

/-- A valid index header is read back from its bytes. -/
theorem decode_encode {h : IndexHeader} (valid : h.Valid) (rest : Bytes) :
    decodeIndexHeader (encodeIndexHeader h ++ rest) = .ok h := by
  have long : ¬ (encodeIndexHeader h ++ rest).length < indexHeaderBytes.toNat := by
    simp [indexHeaderBytes]
  have kind : ¬ (h.kind ≠ 1 ∧ h.kind ≠ 2) := by
    rcases valid.kind with ⟨kind, _⟩ | ⟨kind, _⟩ <;> simp [kind]
  have entry : ¬ (h.entryBytes ≠ (if h.kind = 2 then timeIndexEntryBytes
      else offsetIndexEntryBytes) ∨ h.stride = 0) := by
    rcases valid.kind with ⟨kind, bytes⟩ | ⟨kind, bytes⟩ <;> simp [kind, bytes, valid.stride]
  have body : slice (encodeIndexHeader h ++ rest) 0 124 = _ :=
    slice_body rest h.fields_length rfl
  have magic : slice (encodeIndexHeader h ++ rest) 0 8 = _ := h.slice_encode 0 rest rfl rfl rfl
  have version : slice (encodeIndexHeader h ++ rest) 8 10 = _ := h.slice_encode 1 rest rfl rfl rfl
  have bytes : slice (encodeIndexHeader h ++ rest) 10 12 = _ := h.slice_encode 2 rest rfl rfl rfl
  have kindField : slice (encodeIndexHeader h ++ rest) 12 14 = _ :=
    h.slice_encode 3 rest rfl rfl rfl
  have entryField : slice (encodeIndexHeader h ++ rest) 14 16 = _ :=
    h.slice_encode 4 rest rfl rfl rfl
  have gap : slice (encodeIndexHeader h ++ rest) 16 20 = _ := h.slice_encode 5 rest rfl rfl rfl
  have gap' : slice (encodeIndexHeader h ++ rest) 20 24 = _ := h.slice_encode 6 rest rfl rfl rfl
  have store : slice (encodeIndexHeader h ++ rest) 24 40 = _ := h.slice_encode 7 rest rfl rfl rfl
  have topic : slice (encodeIndexHeader h ++ rest) 40 56 = _ := h.slice_encode 8 rest rfl rfl rfl
  have partition : slice (encodeIndexHeader h ++ rest) 56 60 = _ :=
    h.slice_encode 9 rest rfl rfl rfl
  have gap'' : slice (encodeIndexHeader h ++ rest) 60 64 = _ := h.slice_encode 10 rest rfl rfl rfl
  have segment : slice (encodeIndexHeader h ++ rest) 64 80 = _ :=
    h.slice_encode 11 rest rfl rfl rfl
  have base : slice (encodeIndexHeader h ++ rest) 80 88 = _ := h.slice_encode 12 rest rfl rfl rfl
  have hash : slice (encodeIndexHeader h ++ rest) 88 120 = _ := h.slice_encode 13 rest rfl rfl rfl
  have stride : slice (encodeIndexHeader h ++ rest) 120 124 = _ :=
    h.slice_encode 14 rest rfl rfl rfl
  have checksum : slice (encodeIndexHeader h ++ rest) 124 128 = _ :=
    h.slice_encode 15 rest rfl rfl rfl
  simp only [decodeIndexHeader, body, magic, version, bytes, kindField, entryField, gap, gap',
    store, topic, partition, gap'', segment, base, hash, stride, checksum, uint16_putUint16,
    uint32_putUint32, uint64_putUint64, idOf_putID, hashOf_putHash, failIf_of_not long,
    failIf_of_not kind, failIf_of_not entry, ne_eq, not_true_eq_false, or_self,
    failIf_of_not not_false, ok_bind, pure_eq_ok]

/-- A header that is accepted has been written by the encoder. -/
theorem of_decode {data : Bytes} {h : IndexHeader} (size : data.length = 128)
    (decoded : decodeIndexHeader data = .ok h) : encodeIndexHeader h = data := by
  simp only [decodeIndexHeader, bind_eq_ok, failIf_eq_ok, exists_const, not_or, Nat.not_lt,
    not_and, not_not, ne_eq, pure_eq_ok, Except.ok.injEq] at decoded
  obtain ⟨-, magic, bytes, checksum, version, ⟨gap, gap', gap''⟩, -, -, rfl⟩ := decoded
  have cut {start stop : Nat} (inside : stop ≤ 128) :
      (slice data start stop).length = stop - start := by
    rw [length_slice, size]
    omega
  refine (checked_of_slices data 124 (by omega) ?_ checksum).trans (slice_whole size)
  have joined : [slice data 0 8, slice data 8 10, slice data 10 12, slice data 12 14,
      slice data 14 16, slice data 16 20, slice data 20 24, slice data 24 40, slice data 40 56,
      slice data 56 60, slice data 60 64, slice data 64 80, slice data 80 88,
      slice data 88 120, slice data 120 124].flatten = slice data 0 124 := by
    simp only [List.flatten_cons, List.flatten_nil, List.append_nil, slice_append_slice,
      Nat.reduceLeDiff, Nat.zero_le]
  refine (congrArg List.flatten ?_).trans joined
  simp only [fields, List.cons.injEq, and_true]
  exact ⟨magic.symm, putUint16_of_read (cut (by decide)) version,
    putUint16_of_read (cut (by decide)) bytes, putUint16_uint16 (cut (by decide)),
    putUint16_uint16 (cut (by decide)), putUint32_of_read (cut (by decide)) gap,
    putUint32_of_read (cut (by decide)) gap', putID_idOf (cut (by decide)),
    putID_idOf (cut (by decide)), putUint32_uint32 (cut (by decide)),
    putUint32_of_read (cut (by decide)) gap'', putID_idOf (cut (by decide)),
    putUint64_uint64 (cut (by decide)), putHash_hashOf (cut (by decide)),
    putUint32_uint32 (cut (by decide))⟩

end IndexHeader

/-! ## Snapshot headers -/

/-- `IELSNP00` -/
def snapshotMagic : Bytes := ascii ['I', 'E', 'L', 'S', 'N', 'P', '0', '0']
def snapshotHeaderBytes : UInt16 := 128
def snapshotKindCatalog : UInt16 := 1
def snapshotKindOffsets : UInt16 := 2
def snapshotSchemaVersion : UInt16 := 1
def maxSnapshotPayload : Nat := 256 * 1024 * 1024 - 128 - 32
def maxSnapshotEntries : Nat := 1048576

structure SnapshotHeader where
  kind : UInt16
  storeID : StoreID
  topic : TopicID
  partition : UInt32
  nextOffset : UInt64
  payloadBytes : UInt64
  prefixDigest : Hash
  entryCount : UInt64
  deriving DecidableEq, Repr

def SnapshotHeader.fields (h : SnapshotHeader) : List Bytes :=
  [snapshotMagic, putUint16 formatVersion, putUint16 snapshotHeaderBytes, putUint16 h.kind,
    putUint16 snapshotSchemaVersion, putUint32 0, putUint32 0, putID h.storeID, putID h.topic,
    putUint32 h.partition, putUint32 0, putUint64 h.nextOffset, putUint64 h.payloadBytes,
    putHash h.prefixDigest, putUint64 h.entryCount, putUint32 0]

def encodeSnapshotHeader (h : SnapshotHeader) : Bytes :=
  withCRC32C h.fields.flatten

def decodeSnapshotHeader (data : Bytes) : Except GoError SnapshotHeader := do
  failIf (data.length < snapshotHeaderBytes.toNat ∨ slice data 0 8 ≠ snapshotMagic ∨
      uint16 (slice data 10 12) ≠ snapshotHeaderBytes)
    (.new "snapshot header is invalid")
  failIf (uint32 (slice data 124 128) ≠ crc32c (slice data 0 124))
    (.new "snapshot header checksum mismatch")
  failIf (uint16 (slice data 8 10) ≠ formatVersion ∨
      uint16 (slice data 14 16) ≠ snapshotSchemaVersion)
    (.new "unsupported snapshot version")
  failIf (uint32 (slice data 16 20) ≠ 0 ∨ uint32 (slice data 20 24) ≠ 0 ∨
      uint32 (slice data 60 64) ≠ 0 ∨ uint32 (slice data 120 124) ≠ 0)
    (.new "snapshot reserved fields are nonzero")
  let header : SnapshotHeader :=
    { kind := uint16 (slice data 12 14)
      storeID := idOf (slice data 24 40)
      topic := idOf (slice data 40 56)
      partition := uint32 (slice data 56 60)
      nextOffset := uint64 (slice data 64 72)
      payloadBytes := uint64 (slice data 72 80)
      prefixDigest := hashOf (slice data 80 112)
      entryCount := uint64 (slice data 112 120) }
  failIf (header.kind ≠ snapshotKindCatalog ∧ header.kind ≠ snapshotKindOffsets ∨
      header.storeID = 0 ∨ header.topic = 0 ∨ maxSnapshotPayload < header.payloadBytes.toNat ∨
      maxSnapshotEntries < header.entryCount.toNat)
    (.new "snapshot identity or bounds are invalid")
  return header

namespace SnapshotHeader

/-- A known kind, identities and counts within their bounds. -/
structure Valid (h : SnapshotHeader) : Prop where
  kind : h.kind = snapshotKindCatalog ∨ h.kind = snapshotKindOffsets
  storeID : h.storeID ≠ 0
  topic : h.topic ≠ 0
  payload : h.payloadBytes.toNat ≤ maxSnapshotPayload
  entries : h.entryCount.toNat ≤ maxSnapshotEntries

theorem fields_length (h : SnapshotHeader) :
    h.fields.map List.length = [8, 2, 2, 2, 2, 4, 4, 16, 16, 4, 4, 8, 8, 32, 8, 4] := by
  simp [fields, snapshotMagic, ascii]

@[simp] theorem length_encode (h : SnapshotHeader) : (encodeSnapshotHeader h).length = 128 := by
  simp [encodeSnapshotHeader, withCRC32C, fields, snapshotMagic, ascii]

theorem slice_encode (h : SnapshotHeader) (k : Nat) {field : Bytes} {start stop : Nat}
    (found : (h.fields ++ [putUint32 (crc32c h.fields.flatten)])[k]? = some field)
    (starts : ([8, 2, 2, 2, 2, 4, 4, 16, 16, 4, 4, 8, 8, 32, 8, 4, 4].take k).sum = start)
    (stops : ([8, 2, 2, 2, 2, 4, 4, 16, 16, 4, 4, 8, 8, 32, 8, 4, 4].take (k + 1)).sum = stop) :
    slice (encodeSnapshotHeader h) start stop = field := by
  have read := slice_checked [] h.fields_length found starts stops
  rwa [List.append_nil] at read

/-- A valid snapshot header is read back from its bytes. -/
theorem decode_encode {h : SnapshotHeader} (valid : h.Valid) :
    decodeSnapshotHeader (encodeSnapshotHeader h) = .ok h := by
  have long : ¬ (encodeSnapshotHeader h).length < snapshotHeaderBytes.toNat := by
    simp [snapshotHeaderBytes]
  have identity : ¬ (h.kind ≠ snapshotKindCatalog ∧ h.kind ≠ snapshotKindOffsets ∨
      h.storeID = 0 ∨ h.topic = 0 ∨ maxSnapshotPayload < h.payloadBytes.toNat ∨
      maxSnapshotEntries < h.entryCount.toNat) := by
    simp only [not_or, not_and, not_not, Nat.not_lt]
    exact ⟨valid.kind.resolve_left, valid.storeID, valid.topic, valid.payload, valid.entries⟩
  have body : slice (encodeSnapshotHeader h) 0 124 = h.fields.flatten := by
    have read := slice_body [] h.fields_length rfl
    rwa [List.append_nil] at read
  have magic : slice (encodeSnapshotHeader h) 0 8 = _ := h.slice_encode 0 rfl rfl rfl
  have version : slice (encodeSnapshotHeader h) 8 10 = _ := h.slice_encode 1 rfl rfl rfl
  have bytes : slice (encodeSnapshotHeader h) 10 12 = _ := h.slice_encode 2 rfl rfl rfl
  have kind : slice (encodeSnapshotHeader h) 12 14 = _ := h.slice_encode 3 rfl rfl rfl
  have schema : slice (encodeSnapshotHeader h) 14 16 = _ := h.slice_encode 4 rfl rfl rfl
  have gap : slice (encodeSnapshotHeader h) 16 20 = _ := h.slice_encode 5 rfl rfl rfl
  have gap' : slice (encodeSnapshotHeader h) 20 24 = _ := h.slice_encode 6 rfl rfl rfl
  have store : slice (encodeSnapshotHeader h) 24 40 = _ := h.slice_encode 7 rfl rfl rfl
  have topic : slice (encodeSnapshotHeader h) 40 56 = _ := h.slice_encode 8 rfl rfl rfl
  have partition : slice (encodeSnapshotHeader h) 56 60 = _ := h.slice_encode 9 rfl rfl rfl
  have gap'' : slice (encodeSnapshotHeader h) 60 64 = _ := h.slice_encode 10 rfl rfl rfl
  have next : slice (encodeSnapshotHeader h) 64 72 = _ := h.slice_encode 11 rfl rfl rfl
  have payload : slice (encodeSnapshotHeader h) 72 80 = _ := h.slice_encode 12 rfl rfl rfl
  have digest : slice (encodeSnapshotHeader h) 80 112 = _ := h.slice_encode 13 rfl rfl rfl
  have entries : slice (encodeSnapshotHeader h) 112 120 = _ := h.slice_encode 14 rfl rfl rfl
  have last : slice (encodeSnapshotHeader h) 120 124 = _ := h.slice_encode 15 rfl rfl rfl
  have checksum : slice (encodeSnapshotHeader h) 124 128 = _ := h.slice_encode 16 rfl rfl rfl
  simp only [decodeSnapshotHeader, long, body, magic, version, bytes, kind, schema, gap, gap',
    store, topic, partition, gap'', next, payload, digest, entries, last, checksum,
    uint16_putUint16, uint32_putUint32, uint64_putUint64, idOf_putID, hashOf_putHash,
    failIf_of_not identity, ne_eq, not_true_eq_false, or_self, failIf_of_not not_false, ok_bind,
    pure_eq_ok]

/-- Every accepted snapshot header is the encoding of what it decodes to. -/
theorem of_decode {data : Bytes} {h : SnapshotHeader} (size : data.length = 128)
    (decoded : decodeSnapshotHeader data = .ok h) : encodeSnapshotHeader h = data := by
  simp only [decodeSnapshotHeader, bind_eq_ok, failIf_eq_ok, exists_const, not_or, Nat.not_lt,
    not_and, not_not, ne_eq, pure_eq_ok, Except.ok.injEq] at decoded
  obtain ⟨⟨-, magic, bytes⟩, checksum, ⟨version, schema⟩, ⟨gap, gap', gap'', last⟩, -, rfl⟩ :=
    decoded
  have cut {start stop : Nat} (inside : stop ≤ 128) :
      (slice data start stop).length = stop - start := by
    rw [length_slice, size]
    omega
  refine (checked_of_slices data 124 (by omega) ?_ checksum).trans (slice_whole size)
  have joined : [slice data 0 8, slice data 8 10, slice data 10 12, slice data 12 14,
      slice data 14 16, slice data 16 20, slice data 20 24, slice data 24 40, slice data 40 56,
      slice data 56 60, slice data 60 64, slice data 64 72, slice data 72 80, slice data 80 112,
      slice data 112 120, slice data 120 124].flatten = slice data 0 124 := by
    simp only [List.flatten_cons, List.flatten_nil, List.append_nil, slice_append_slice,
      Nat.reduceLeDiff, Nat.zero_le]
  refine (congrArg List.flatten ?_).trans joined
  simp only [fields, List.cons.injEq, and_true]
  exact ⟨magic.symm, putUint16_of_read (cut (by decide)) version,
    putUint16_of_read (cut (by decide)) bytes, putUint16_uint16 (cut (by decide)),
    putUint16_of_read (cut (by decide)) schema, putUint32_of_read (cut (by decide)) gap,
    putUint32_of_read (cut (by decide)) gap', putID_idOf (cut (by decide)),
    putID_idOf (cut (by decide)), putUint32_uint32 (cut (by decide)),
    putUint32_of_read (cut (by decide)) gap'', putUint64_uint64 (cut (by decide)),
    putUint64_uint64 (cut (by decide)), putHash_hashOf (cut (by decide)),
    putUint64_uint64 (cut (by decide)), putUint32_of_read (cut (by decide)) last⟩

end SnapshotHeader

/-! ## The system manifest -/

/-- `IELMNF00` -/
def manifestMagic : Bytes := ascii ['I', 'E', 'L', 'M', 'N', 'F', '0', '0']
def manifestBytes : UInt16 := 256
def manifestSchemaVersion : UInt16 := 1

structure SystemManifest where
  generation : UInt64
  storeID : StoreID
  catalogNext : UInt64
  offsetsNext : UInt64
  catalogCheckpoint : Hash
  offsetsCheckpoint : Hash
  catalogAnchor : EventAnchor
  offsetsAnchor : EventAnchor
  deriving DecidableEq, Repr

namespace SystemManifest

def fields (m : SystemManifest) : List Bytes :=
  [manifestMagic, putUint16 manifestSchemaVersion, putUint16 manifestBytes, putUint32 0,
    putUint64 m.generation, putID m.storeID, putUint64 m.catalogNext, putUint64 m.offsetsNext,
    putHash m.catalogCheckpoint, putHash m.offsetsCheckpoint, putID m.catalogAnchor.id,
    putHash m.catalogAnchor.headerHash, putID m.offsetsAnchor.id,
    putHash m.offsetsAnchor.headerHash, List.replicate 36 0]

def bytes (m : SystemManifest) : Bytes :=
  withCRC32C m.fields.flatten

end SystemManifest

def encodeManifest (m : SystemManifest) : Except GoError Bytes := do
  failIf (m.generation = 0 ∨ m.storeID = 0 ∨ m.catalogNext = 0 ∨ maxOffset < m.catalogNext ∨
      maxOffset < m.offsetsNext ∨ m.catalogCheckpoint = 0 ∨ m.offsetsCheckpoint = 0)
    ⟨[.errInvalidArgument], ["system manifest identity is invalid"]⟩
  failIf (m.catalogAnchor.id = 0 ∨ m.catalogAnchor.headerHash = 0 ∨ m.offsetsAnchor.id = 0 ∨
      m.offsetsAnchor.headerHash = 0)
    ⟨[.errInvalidArgument], ["system manifest anchor is invalid"]⟩
  return m.bytes

def decodeManifest (data : Bytes) : Except GoError SystemManifest := do
  failIf (data.length ≠ manifestBytes.toNat ∨ slice data 0 8 ≠ manifestMagic ∨
      uint16 (slice data 10 12) ≠ manifestBytes)
    (corrupt .errInvalidRecord "system manifest header is invalid")
  failIf (uint32 (slice data 252 256) ≠ crc32c (slice data 0 252))
    (corrupt .errInvalidRecord "system manifest checksum mismatch")
  failIf (uint16 (slice data 8 10) ≠ manifestSchemaVersion)
    (unsupported "unsupported system manifest version")
  failIf (uint32 (slice data 12 16) ≠ 0)
    (corrupt .errInvalidRecord "system manifest reserved fields are nonzero")
  failIf (∃ value ∈ slice data 216 252, value ≠ 0)
    (corrupt .errInvalidRecord "system manifest reserved fields are nonzero")
  let manifest : SystemManifest :=
    { generation := uint64 (slice data 16 24)
      storeID := idOf (slice data 24 40)
      catalogNext := uint64 (slice data 40 48)
      offsetsNext := uint64 (slice data 48 56)
      catalogCheckpoint := hashOf (slice data 56 88)
      offsetsCheckpoint := hashOf (slice data 88 120)
      catalogAnchor := ⟨idOf (slice data 120 136), hashOf (slice data 136 168)⟩
      offsetsAnchor := ⟨idOf (slice data 168 184), hashOf (slice data 184 216)⟩ }
  failIf (manifest.generation = 0 ∨ manifest.storeID = 0 ∨ manifest.catalogNext = 0 ∨
      maxOffset < manifest.catalogNext ∨ maxOffset < manifest.offsetsNext ∨
      manifest.catalogCheckpoint = 0 ∨ manifest.offsetsCheckpoint = 0 ∨
      manifest.catalogAnchor.id = 0 ∨ manifest.catalogAnchor.headerHash = 0 ∨
      manifest.offsetsAnchor.id = 0 ∨ manifest.offsetsAnchor.headerHash = 0)
    (corrupt .errInvalidRecord "system manifest identity is invalid")
  return manifest

namespace SystemManifest

/-- What encoder and decoder both ask for. -/
structure Valid (m : SystemManifest) : Prop where
  generation : m.generation ≠ 0
  storeID : m.storeID ≠ 0
  catalogNext : m.catalogNext ≠ 0
  catalogRange : m.catalogNext ≤ maxOffset
  offsetsRange : m.offsetsNext ≤ maxOffset
  catalogCheckpoint : m.catalogCheckpoint ≠ 0
  offsetsCheckpoint : m.offsetsCheckpoint ≠ 0
  catalogID : m.catalogAnchor.id ≠ 0
  catalogHash : m.catalogAnchor.headerHash ≠ 0
  offsetsID : m.offsetsAnchor.id ≠ 0
  offsetsHash : m.offsetsAnchor.headerHash ≠ 0

/-- The encoder writes valid manifests, and no others. -/
theorem encode_eq_ok {m : SystemManifest} {data : Bytes} :
    encodeManifest m = .ok data ↔ m.Valid ∧ m.bytes = data := by
  simp only [encodeManifest, bind_eq_ok, failIf_eq_ok, exists_const, not_or, UInt64.not_lt,
    pure_eq_ok, Except.ok.injEq]
  constructor
  · intro encoded
    obtain ⟨⟨generation, store, next, range, range', catalog, offsets⟩,
      ⟨id, hash, id', hash'⟩, same⟩ := encoded
    exact ⟨⟨generation, store, next, range, range', catalog, offsets, id, hash, id', hash'⟩, same⟩
  · intro encoded
    obtain ⟨valid, same⟩ := encoded
    exact ⟨⟨valid.generation, valid.storeID, valid.catalogNext, valid.catalogRange,
      valid.offsetsRange, valid.catalogCheckpoint, valid.offsetsCheckpoint⟩,
      ⟨valid.catalogID, valid.catalogHash, valid.offsetsID, valid.offsetsHash⟩, same⟩

theorem fields_length (m : SystemManifest) :
    m.fields.map List.length = [8, 2, 2, 4, 8, 16, 8, 8, 32, 32, 16, 32, 16, 32, 36] := by
  simp [fields, manifestMagic, ascii]

@[simp] theorem length_bytes (m : SystemManifest) : m.bytes.length = 256 := by
  simp [bytes, withCRC32C, fields, manifestMagic, ascii]

theorem slice_bytes (m : SystemManifest) (k : Nat) {field : Bytes} {start stop : Nat}
    (found : (m.fields ++ [putUint32 (crc32c m.fields.flatten)])[k]? = some field)
    (starts : ([8, 2, 2, 4, 8, 16, 8, 8, 32, 32, 16, 32, 16, 32, 36, 4].take k).sum = start)
    (stops : ([8, 2, 2, 4, 8, 16, 8, 8, 32, 32, 16, 32, 16, 32, 36, 4].take (k + 1)).sum = stop) :
    slice m.bytes start stop = field := by
  have read := slice_checked [] m.fields_length found starts stops
  rwa [List.append_nil] at read

/-- A valid manifest is read back from its bytes. -/
theorem decode_bytes {m : SystemManifest} (valid : m.Valid) : decodeManifest m.bytes = .ok m := by
  have size : ¬ m.bytes.length ≠ manifestBytes.toNat := by simp [manifestBytes]
  have reserved : ¬ ∃ value ∈ List.replicate 36 (0 : UInt8), value ≠ 0 := by simp
  have identity : ¬ (m.generation = 0 ∨ m.storeID = 0 ∨ m.catalogNext = 0 ∨
      maxOffset < m.catalogNext ∨ maxOffset < m.offsetsNext ∨ m.catalogCheckpoint = 0 ∨
      m.offsetsCheckpoint = 0 ∨ m.catalogAnchor.id = 0 ∨ m.catalogAnchor.headerHash = 0 ∨
      m.offsetsAnchor.id = 0 ∨ m.offsetsAnchor.headerHash = 0) := by
    simp only [not_or, UInt64.not_lt]
    exact ⟨valid.generation, valid.storeID, valid.catalogNext, valid.catalogRange,
      valid.offsetsRange, valid.catalogCheckpoint, valid.offsetsCheckpoint, valid.catalogID,
      valid.catalogHash, valid.offsetsID, valid.offsetsHash⟩
  have body : slice m.bytes 0 252 = m.fields.flatten := by
    have read := slice_body [] m.fields_length rfl
    rwa [List.append_nil] at read
  have magic : slice m.bytes 0 8 = _ := m.slice_bytes 0 rfl rfl rfl
  have version : slice m.bytes 8 10 = _ := m.slice_bytes 1 rfl rfl rfl
  have headerSize : slice m.bytes 10 12 = _ := m.slice_bytes 2 rfl rfl rfl
  have gap : slice m.bytes 12 16 = _ := m.slice_bytes 3 rfl rfl rfl
  have generation : slice m.bytes 16 24 = _ := m.slice_bytes 4 rfl rfl rfl
  have store : slice m.bytes 24 40 = _ := m.slice_bytes 5 rfl rfl rfl
  have catalogNext : slice m.bytes 40 48 = _ := m.slice_bytes 6 rfl rfl rfl
  have offsetsNext : slice m.bytes 48 56 = _ := m.slice_bytes 7 rfl rfl rfl
  have catalog : slice m.bytes 56 88 = _ := m.slice_bytes 8 rfl rfl rfl
  have offsets : slice m.bytes 88 120 = _ := m.slice_bytes 9 rfl rfl rfl
  have catalogID : slice m.bytes 120 136 = _ := m.slice_bytes 10 rfl rfl rfl
  have catalogHash : slice m.bytes 136 168 = _ := m.slice_bytes 11 rfl rfl rfl
  have offsetsID : slice m.bytes 168 184 = _ := m.slice_bytes 12 rfl rfl rfl
  have offsetsHash : slice m.bytes 184 216 = _ := m.slice_bytes 13 rfl rfl rfl
  have zeros : slice m.bytes 216 252 = _ := m.slice_bytes 14 rfl rfl rfl
  have checksum : slice m.bytes 252 256 = _ := m.slice_bytes 15 rfl rfl rfl
  simp only [decodeManifest, size, body, magic, version, headerSize, gap, generation, store,
    catalogNext, offsetsNext, catalog, offsets, catalogID, catalogHash, offsetsID, offsetsHash,
    zeros, checksum, uint16_putUint16, uint32_putUint32, uint64_putUint64, idOf_putID,
    hashOf_putHash, failIf_of_not reserved, failIf_of_not identity, ne_eq, not_true_eq_false,
    or_self, failIf_of_not not_false, ok_bind, pure_eq_ok]

/-- Every accepted manifest is valid and the encoding of what it decodes to. -/
theorem of_decode {data : Bytes} {m : SystemManifest} (decoded : decodeManifest data = .ok m) :
    m.Valid ∧ m.bytes = data := by
  simp only [decodeManifest, bind_eq_ok, failIf_eq_ok, exists_const, not_or, not_exists, not_and,
    not_not, ne_eq, pure_eq_ok, Except.ok.injEq, UInt64.not_lt] at decoded
  obtain ⟨⟨length, magic, headerSize⟩, checksum, version, gap, zeros,
    ⟨generation, store, next, range, range', catalog, offsets, id, hash, id', hash'⟩, rfl⟩ :=
    decoded
  have size : data.length = 256 := length
  have cut {start stop : Nat} (inside : stop ≤ 256) :
      (slice data start stop).length = stop - start := by
    rw [length_slice, size]
    omega
  have reserved : List.replicate 36 0 = slice data 216 252 := by
    refine (List.eq_replicate_iff.2 ⟨?_, zeros⟩).symm
    rw [cut (by decide)]
  refine ⟨⟨generation, store, next, range, range', catalog, offsets, id, hash, id', hash'⟩, ?_⟩
  refine (checked_of_slices data 252 (by omega) ?_ checksum).trans (slice_whole size)
  have joined : [slice data 0 8, slice data 8 10, slice data 10 12, slice data 12 16,
      slice data 16 24, slice data 24 40, slice data 40 48, slice data 48 56, slice data 56 88,
      slice data 88 120, slice data 120 136, slice data 136 168, slice data 168 184,
      slice data 184 216, slice data 216 252].flatten = slice data 0 252 := by
    simp only [List.flatten_cons, List.flatten_nil, List.append_nil, slice_append_slice,
      Nat.reduceLeDiff, Nat.zero_le]
  refine (congrArg List.flatten ?_).trans joined
  simp only [fields, List.cons.injEq, and_true]
  exact ⟨magic.symm, putUint16_of_read (cut (by decide)) version,
    putUint16_of_read (cut (by decide)) headerSize, putUint32_of_read (cut (by decide)) gap,
    putUint64_uint64 (cut (by decide)), putID_idOf (cut (by decide)),
    putUint64_uint64 (cut (by decide)), putUint64_uint64 (cut (by decide)),
    putHash_hashOf (cut (by decide)), putHash_hashOf (cut (by decide)),
    putID_idOf (cut (by decide)), putHash_hashOf (cut (by decide)), putID_idOf (cut (by decide)),
    putHash_hashOf (cut (by decide)), reserved⟩

end SystemManifest

/-! ## Checkpoint files -/

/-- `IELCKP00` -/
def checkpointMagic : Bytes := ascii ['I', 'E', 'L', 'C', 'K', 'P', '0', '0']
def checkpointHeaderBytes : UInt16 := 104
def checkpointSchemaVersion : UInt16 := 1

structure SystemCheckpoint where
  kind : UInt16
  generation : UInt64
  storeID : StoreID
  next : UInt64
  entries : UInt64
  payload : Bytes
  deriving DecidableEq, Repr

namespace SystemCheckpoint

def fields (c : SystemCheckpoint) : List Bytes :=
  [checkpointMagic, putUint16 checkpointSchemaVersion, putUint16 checkpointHeaderBytes,
    putUint16 c.kind, putUint16 0, putUint64 c.generation, putID c.storeID, putUint64 c.next,
    putUint64 (.ofNat c.payload.length), putUint64 c.entries, putHash (sha256 c.payload),
    putUint32 0]

def bytes (c : SystemCheckpoint) : Bytes :=
  withCRC32C c.fields.flatten ++ c.payload

end SystemCheckpoint

def encodeCheckpoint (c : SystemCheckpoint) : Except GoError Bytes := do
  failIf (c.kind ≠ snapshotKindCatalog ∧ c.kind ≠ snapshotKindOffsets ∨ c.generation = 0 ∨
      c.storeID = 0 ∨ maxOffset < c.next ∨ maxSnapshotPayload < c.payload.length ∨
      maxSnapshotEntries < c.entries.toNat)
    ⟨[.errInvalidArgument], ["system checkpoint identity or bounds are invalid"]⟩
  return c.bytes

def decodeCheckpoint (data : Bytes) (kind : UInt16) (manifest : SystemManifest) :
    Except GoError SystemCheckpoint := do
  failIf (data.length < checkpointHeaderBytes.toNat ∨ slice data 0 8 ≠ checkpointMagic ∨
      uint16 (slice data 10 12) ≠ checkpointHeaderBytes)
    (corrupt .errInvalidRecord "system checkpoint header is invalid")
  failIf (uint32 (slice data 100 104) ≠ crc32c (slice data 0 100))
    (corrupt .errInvalidRecord "system checkpoint header checksum mismatch")
  failIf (uint16 (slice data 8 10) ≠ checkpointSchemaVersion)
    (unsupported "unsupported system checkpoint version")
  failIf (uint16 (slice data 14 16) ≠ 0 ∨ uint32 (slice data 96 100) ≠ 0)
    (corrupt .errInvalidRecord "system checkpoint reserved fields are nonzero")
  let checkpoint : SystemCheckpoint :=
    { kind := uint16 (slice data 12 14)
      generation := uint64 (slice data 16 24)
      storeID := idOf (slice data 24 40)
      next := uint64 (slice data 40 48)
      entries := uint64 (slice data 56 64)
      payload := data.drop checkpointHeaderBytes.toNat }
  let payloadBytes := uint64 (slice data 48 56)
  failIf (checkpoint.kind ≠ kind ∨ checkpoint.generation ≠ manifest.generation ∨
      checkpoint.storeID ≠ manifest.storeID ∨ maxOffset < checkpoint.next ∨
      maxSnapshotPayload < payloadBytes.toNat ∨ maxSnapshotEntries < checkpoint.entries.toNat ∨
      payloadBytes.toNat ≠ data.length - checkpointHeaderBytes.toNat)
    (corrupt .errInvalidRecord "system checkpoint identity or length mismatch")
  failIf (putHash (sha256 checkpoint.payload) ≠ slice data 64 96)
    (corrupt .errInvalidRecord "system checkpoint payload digest mismatch")
  return checkpoint

namespace SystemCheckpoint

/-- What the encoder checks. -/
structure Valid (c : SystemCheckpoint) : Prop where
  kind : c.kind = snapshotKindCatalog ∨ c.kind = snapshotKindOffsets
  generation : c.generation ≠ 0
  storeID : c.storeID ≠ 0
  next : c.next ≤ maxOffset
  payload : c.payload.length ≤ maxSnapshotPayload
  entries : c.entries.toNat ≤ maxSnapshotEntries

/-- The encoder writes valid checkpoints, and no others. -/
theorem encode_eq_ok {c : SystemCheckpoint} {data : Bytes} :
    encodeCheckpoint c = .ok data ↔ c.Valid ∧ c.bytes = data := by
  simp only [encodeCheckpoint, bind_eq_ok, failIf_eq_ok, exists_const, not_or, not_and, not_not,
    ne_eq, Nat.not_lt, UInt64.not_lt, pure_eq_ok, Except.ok.injEq]
  constructor
  · intro encoded
    obtain ⟨⟨kind, generation, store, next, payload, entries⟩, same⟩ := encoded
    exact ⟨⟨or_iff_not_imp_left.2 kind, generation, store, next, payload, entries⟩, same⟩
  · intro encoded
    obtain ⟨valid, same⟩ := encoded
    exact ⟨⟨valid.kind.resolve_left, valid.generation, valid.storeID, valid.next, valid.payload,
      valid.entries⟩, same⟩

theorem fields_length (c : SystemCheckpoint) :
    c.fields.map List.length = [8, 2, 2, 2, 2, 8, 16, 8, 8, 8, 32, 4] := by
  simp [fields, checkpointMagic, ascii]

/-- The header of a checkpoint, without its payload. -/
theorem length_header (c : SystemCheckpoint) : (withCRC32C c.fields.flatten).length = 104 := by
  simp [withCRC32C, fields, checkpointMagic, ascii]

theorem slice_bytes (c : SystemCheckpoint) (k : Nat) {field : Bytes} {start stop : Nat}
    (found : (c.fields ++ [putUint32 (crc32c c.fields.flatten)])[k]? = some field)
    (starts : ([8, 2, 2, 2, 2, 8, 16, 8, 8, 8, 32, 4, 4].take k).sum = start)
    (stops : ([8, 2, 2, 2, 2, 8, 16, 8, 8, 8, 32, 4, 4].take (k + 1)).sum = stop) :
    slice c.bytes start stop = field :=
  slice_checked c.payload c.fields_length found starts stops

/-- A checkpoint is read back with its own kind, under the manifest of its generation
and store. -/
theorem decode_bytes {c : SystemCheckpoint} (valid : c.Valid) {m : SystemManifest}
    (generation : c.generation = m.generation) (store : c.storeID = m.storeID) :
    decodeCheckpoint c.bytes c.kind m = .ok c := by
  have length : c.bytes.length = 104 + c.payload.length := by
    rw [bytes, List.length_append, length_header]
  have long : ¬ c.bytes.length < checkpointHeaderBytes.toNat := by
    rw [length]
    simp [checkpointHeaderBytes]
  have payload : c.bytes.drop checkpointHeaderBytes.toNat = c.payload :=
    List.drop_left' c.length_header
  have declared : (UInt64.ofNat c.payload.length).toNat = c.payload.length := by
    have bound := valid.payload
    have limit : maxSnapshotPayload < 2 ^ 64 := by decide
    exact toNat_ofNat64 (by omega)
  have identity : ¬ (¬ c.generation = m.generation ∨ ¬ c.storeID = m.storeID ∨
      maxOffset < c.next ∨ maxSnapshotPayload < c.payload.length ∨
      maxSnapshotEntries < c.entries.toNat ∨
      ¬ c.payload.length = c.bytes.length - checkpointHeaderBytes.toNat) := by
    simp only [not_or, not_not, Nat.not_lt, UInt64.not_lt]
    refine ⟨generation, store, valid.next, valid.payload, valid.entries, ?_⟩
    rw [length]
    exact (Nat.add_sub_cancel_left ..).symm
  have body : slice c.bytes 0 100 = _ := slice_body c.payload c.fields_length rfl
  have magic : slice c.bytes 0 8 = _ := c.slice_bytes 0 rfl rfl rfl
  have version : slice c.bytes 8 10 = _ := c.slice_bytes 1 rfl rfl rfl
  have headerSize : slice c.bytes 10 12 = _ := c.slice_bytes 2 rfl rfl rfl
  have kind : slice c.bytes 12 14 = _ := c.slice_bytes 3 rfl rfl rfl
  have gap : slice c.bytes 14 16 = _ := c.slice_bytes 4 rfl rfl rfl
  have generationField : slice c.bytes 16 24 = _ := c.slice_bytes 5 rfl rfl rfl
  have storeField : slice c.bytes 24 40 = _ := c.slice_bytes 6 rfl rfl rfl
  have next : slice c.bytes 40 48 = _ := c.slice_bytes 7 rfl rfl rfl
  have payloadSize : slice c.bytes 48 56 = _ := c.slice_bytes 8 rfl rfl rfl
  have entries : slice c.bytes 56 64 = _ := c.slice_bytes 9 rfl rfl rfl
  have digest : slice c.bytes 64 96 = _ := c.slice_bytes 10 rfl rfl rfl
  have gap' : slice c.bytes 96 100 = _ := c.slice_bytes 11 rfl rfl rfl
  have checksum : slice c.bytes 100 104 = _ := c.slice_bytes 12 rfl rfl rfl
  simp only [decodeCheckpoint, long, body, magic, version, headerSize, kind, gap,
    generationField, storeField, next, payloadSize, entries, digest, gap', checksum, payload,
    uint16_putUint16, uint32_putUint32, uint64_putUint64, idOf_putID, declared, false_or,
    failIf_of_not identity, ne_eq, not_true_eq_false, or_self, failIf_of_not not_false, ok_bind,
    pure_eq_ok]

/-- Every accepted checkpoint is valid and the encoding of what it decodes to. -/
theorem of_decode {data : Bytes} {kind : UInt16} {m : SystemManifest} {c : SystemCheckpoint}
    (known : kind = snapshotKindCatalog ∨ kind = snapshotKindOffsets) (valid : m.Valid)
    (decoded : decodeCheckpoint data kind m = .ok c) : c.Valid ∧ c.bytes = data := by
  simp only [decodeCheckpoint, bind_eq_ok, failIf_eq_ok, exists_const, not_or, not_not, ne_eq,
    Nat.not_lt, UInt64.not_lt, pure_eq_ok, Except.ok.injEq] at decoded
  obtain ⟨⟨length, magic, headerSize⟩, checksum, version, ⟨gap, gap'⟩,
    ⟨sameKind, generation, store, next, payload, entries, declared⟩, digest, rfl⟩ := decoded
  have long : 104 ≤ data.length := length
  have payloadLength : (data.drop checkpointHeaderBytes.toNat).length =
      (uint64 (slice data 48 56)).toNat := by
    rw [List.length_drop, declared]
  refine ⟨⟨sameKind ▸ known, generation ▸ valid.generation, store ▸ valid.storeID, next, ?_,
    entries⟩, ?_⟩
  · exact payloadLength ▸ payload
  have cut {start stop : Nat} (inside : stop ≤ 104) :
      (slice data start stop).length = stop - start := by
    rw [length_slice]
    omega
  have payloadSize : putUint64 (.ofNat (data.drop checkpointHeaderBytes.toNat).length) =
      slice data 48 56 := by
    rw [payloadLength, UInt64.ofNat_toNat, putUint64_uint64 (cut (by decide))]
  have joined : [slice data 0 8, slice data 8 10, slice data 10 12, slice data 12 14,
      slice data 14 16, slice data 16 24, slice data 24 40, slice data 40 48, slice data 48 56,
      slice data 56 64, slice data 64 96, slice data 96 100].flatten = slice data 0 100 := by
    simp only [List.flatten_cons, List.flatten_nil, List.append_nil, slice_append_slice,
      Nat.reduceLeDiff, Nat.zero_le]
  rw [bytes, checked_of_slices data 100 long ?_ checksum]
  · exact slice_append_drop data (Nat.zero_le _)
  refine (congrArg List.flatten ?_).trans joined
  simp only [fields, List.cons.injEq, and_true]
  exact ⟨magic.symm, putUint16_of_read (cut (by decide)) version,
    putUint16_of_read (cut (by decide)) headerSize, putUint16_uint16 (cut (by decide)),
    putUint16_of_read (cut (by decide)) gap, putUint64_uint64 (cut (by decide)),
    putID_idOf (cut (by decide)), putUint64_uint64 (cut (by decide)), payloadSize,
    putUint64_uint64 (cut (by decide)), digest, putUint32_of_read (cut (by decide)) gap'⟩

end SystemCheckpoint

/-! ## Encoders and decoders undo each other -/

/-- `decode` reads back what `encode` makes of a value in `Ok`, and `encode` restores
the data in `Exact` that `decode` accepts. -/
structure Inverse {α : Type} (encode : α → Except GoError Bytes)
    (decode : Bytes → Except GoError α) (Ok : α → Prop) (Exact : Bytes → Prop) : Prop where
  decodes : ∀ a data, Ok a → encode a = .ok data → decode data = .ok a
  restores : ∀ a data, Exact data → decode data = .ok a → encode a = .ok data

/-- The five fixed layouts are bijections between their values and their bytes. -/
theorem headers_inverse :
    (∀ topic partition, Inverse encodeSegmentHeader (decodeSegmentHeader · topic partition)
      (fun h => (topic ≠ 0 → h.topic = topic) ∧ h.partition = partition) (·.length = 72)) ∧
    Inverse (fun h => .ok (encodeIndexHeader h)) decodeIndexHeader IndexHeader.Valid
      (·.length = 128) ∧
    Inverse (fun h => .ok (encodeSnapshotHeader h)) decodeSnapshotHeader SnapshotHeader.Valid
      (·.length = 128) ∧
    Inverse encodeManifest decodeManifest (fun _ => True) (·.length = 256) ∧
    ∀ (m : SystemManifest) (kind : UInt16), m.Valid →
      kind = snapshotKindCatalog ∨ kind = snapshotKindOffsets →
      Inverse encodeCheckpoint (decodeCheckpoint · kind m)
        (fun c => c.kind = kind ∧ c.generation = m.generation ∧ c.storeID = m.storeID)
        (fun _ => True) := by
  refine ⟨?_, ?_, ?_, ?_, ?_⟩
  · intro topic partition
    refine ⟨?_, ?_⟩
    · intro h data expected encoded
      obtain ⟨sameTopic, rfl⟩ := expected
      obtain ⟨valid, rfl⟩ := SegmentHeader.encode_eq_ok.1 encoded
      have read := SegmentHeader.decode_bytes valid [] sameTopic
      rwa [List.append_nil] at read
    · intro h data size decoded
      obtain ⟨valid, -, -, whole⟩ := SegmentHeader.of_decode decoded
      rw [slice_whole size] at whole
      exact SegmentHeader.encode_eq_ok.2 ⟨valid, whole.symm⟩
  · refine ⟨?_, ?_⟩
    · intro h data valid encoded
      obtain rfl : encodeIndexHeader h = data := Except.ok.inj encoded
      have read := IndexHeader.decode_encode valid []
      rwa [List.append_nil] at read
    · intro h data size decoded
      exact congrArg Except.ok (IndexHeader.of_decode size decoded)
  · refine ⟨?_, ?_⟩
    · intro h data valid encoded
      obtain rfl : encodeSnapshotHeader h = data := Except.ok.inj encoded
      exact SnapshotHeader.decode_encode valid
    · intro h data size decoded
      exact congrArg Except.ok (SnapshotHeader.of_decode size decoded)
  · refine ⟨?_, ?_⟩
    · intro m data _ encoded
      obtain ⟨valid, rfl⟩ := SystemManifest.encode_eq_ok.1 encoded
      exact SystemManifest.decode_bytes valid
    · intro m data _ decoded
      exact SystemManifest.encode_eq_ok.2 (SystemManifest.of_decode decoded)
  · intro m kind validManifest known
    refine ⟨?_, ?_⟩
    · intro c data own encoded
      obtain ⟨rfl, generation, store⟩ := own
      obtain ⟨valid, rfl⟩ := SystemCheckpoint.encode_eq_ok.1 encoded
      exact SystemCheckpoint.decode_bytes valid generation store
    · intro c data _ decoded
      exact SystemCheckpoint.encode_eq_ok.2 (SystemCheckpoint.of_decode known validManifest decoded)

namespace FirstGeneration

def manifest : SystemManifest where
  generation := 1
  storeID := 7
  catalogNext := 1
  offsetsNext := 0
  catalogCheckpoint := 11
  offsetsCheckpoint := 12
  catalogAnchor := ⟨21, 22⟩
  offsetsAnchor := ⟨31, 32⟩

def checkpoint : SystemCheckpoint where
  kind := snapshotKindOffsets
  generation := 1
  storeID := 7
  next := 0
  entries := 0
  payload := putUint32 0

theorem manifest_valid : manifest.Valid := by
  constructor <;> decide

theorem checkpoint_valid : checkpoint.Valid := by
  constructor <;> decide

/-- The sample decodes against the manifest that it belongs to. -/
theorem checkpoint_read_back :
    decodeCheckpoint checkpoint.bytes snapshotKindOffsets manifest = .ok checkpoint :=
  (headers_inverse.2.2.2.2 manifest snapshotKindOffsets manifest_valid (.inr rfl)).decodes
    checkpoint checkpoint.bytes ⟨rfl, rfl, rfl⟩
    (SystemCheckpoint.encode_eq_ok.2 ⟨checkpoint_valid, rfl⟩)

end FirstGeneration

end Immulog
