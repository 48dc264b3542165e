import Immulog.Codec

/-!
What the decoder of `Immulog.Codec` accepts.

The readers are exact: they accept the encodings of valid values and nothing else,
apart from eight bytes of every record that the decoder does not look at.
-/

namespace Immulog

open Lib

/-! ## Readers of a record -/

namespace RecordCursor

open Cursor (run_bind_eq_ok run_pure_eq_ok run_ensure_bind_eq_ok run_take_eq_ok run_map_eq_ok
  run_field_eq_ok run_loop_eq_ok)

variable {bs rest : Bytes}

theorem run_u32_eq_ok {v : UInt32} : u32 bs = .ok (v, rest) ↔ bs = putUint32 v ++ rest :=
  run_field_eq_ok putUint32 (length_putUint32 v) (uint32_putUint32 v) fun _ => putUint32_uint32

/-- Read as null, or as that many bytes. -/
theorem run_bytesUnlessNull_eq_ok {length : UInt32} {v : Option Bytes} :
    bytesUnlessNull length bs = .ok (v, rest) ↔
      (v.getD []).length < 0xFFFFFFFF ∧ nullableLength v = length ∧ bs = v.getD [] ++ rest := by
  unfold bytesUnlessNull
  split
  · rename_i null
    rw [run_pure_eq_ok]
    constructor
    · rintro ⟨rfl, rfl⟩
      exact ⟨by simp, null.symm, rfl⟩
    · rintro ⟨small, same, rfl⟩
      cases v with
      | none => exact ⟨rfl, rfl⟩
      | some v => exact absurd (same.trans null) (nullableLength_some_ne small)
  · rename_i present
    simp only [run_map_eq_ok, bytes, run_take_eq_ok]
    constructor
    · rintro ⟨field, ⟨size, rfl⟩, rfl⟩
      have small : length.toNat ≠ 0xFFFFFFFF := by
        intro all
        exact present (UInt32.toNat_inj.1 all)
      have bound := length.toNat_lt
      refine ⟨?_, ?_, rfl⟩
      · simp only [Option.getD_some, size]
        omega
      · rw [nullableLength, size, UInt32.ofNat_toNat]
    · rintro ⟨small, same, rfl⟩
      cases v with
      | none => exact absurd same.symm present
      | some v =>
          have short : v.length < 0xFFFFFFFF := small
          refine ⟨v, ⟨?_, rfl⟩, rfl⟩
          rw [← same, nullableLength, toNat_ofNat32 (by omega)]

/-- The reader of nullable bytes accepts what the writer makes, and nothing else. -/
theorem run_nullableBytes_eq_ok {v : Option Bytes} :
    nullableBytes bs = .ok (v, rest) ↔
      (v.getD []).length < 0xFFFFFFFF ∧ bs = nullable v ++ rest := by
  simp only [nullableBytes, run_bind_eq_ok, run_u32_eq_ok, run_bytesUnlessNull_eq_ok]
  constructor
  · rintro ⟨length, _, rfl, small, rfl, rfl⟩
    exact ⟨small, by simp [nullable]⟩
  · rintro ⟨small, rfl⟩
    exact ⟨nullableLength v, v.getD [] ++ rest, by simp [nullable], small, rfl, rfl⟩

/-- The reader of a header accepts what the writer makes, and nothing else. -/
theorem run_header_eq_ok {h : Header} :
    header bs = .ok (h, rest) ↔
      (h.Valid ∧ (h.value.getD []).length < 0xFFFFFFFF) ∧ bs = h.bytes ++ rest := by
  constructor
  · intro read
    simp only [header, run_bind_eq_ok, run_u32_eq_ok, ↓run_ensure_bind_eq_ok, bytes, run_take_eq_ok,
      run_bytesUnlessNull_eq_ok, run_pure_eq_ok, not_not] at read
    obtain ⟨nameLength, _, rfl, -, valueLength, _, rfl, name, _, ⟨size, rfl⟩, valid, value, _,
      ⟨small, rfl, rfl⟩, rfl, rfl⟩ := read
    have length : UInt32.ofNat name.length = nameLength := by
      rw [size, UInt32.ofNat_toNat]
    refine ⟨⟨⟨valid, Nat.le_of_lt small⟩, small⟩, ?_⟩
    simp [Header.bytes, length]
  · rintro ⟨⟨valid, small⟩, rfl⟩
    exact parses_header valid small rest

/-- The same for all headers of a record. -/
theorem run_headers_eq_ok {count : Nat} {hs : List Header} :
    headers count bs = .ok (hs, rest) ↔
      hs.length = count ∧ (∀ h ∈ hs, h.Valid ∧ (h.value.getD []).length < 0xFFFFFFFF) ∧
        bs = hs.flatMap Header.bytes ++ rest := by
  have each : ∀ (done : List Header) s' bs rest, Cursor.Allowed
      (fun _ h => h.Valid ∧ (h.value.getD []).length < 0xFFFFFFFF) done →
      ((do return done ++ [← header] : Cursor GoError (List Header)) bs = .ok (s', rest) ↔
        ∃ h, (h.Valid ∧ (h.value.getD []).length < 0xFFFFFFFF) ∧ s' = done ++ [h] ∧
          bs = h.bytes ++ rest) := by
    intro done s' bs rest _
    simp only [run_bind_eq_ok, run_header_eq_ok, run_pure_eq_ok]
    constructor
    · rintro ⟨h, _, ⟨ok, rfl⟩, rfl, rfl⟩
      exact ⟨h, ok, rfl, rfl⟩
    · rintro ⟨h, ok, rfl, rfl⟩
      exact ⟨h, rest, ⟨ok, rfl⟩, rfl, rfl⟩
  unfold headers
  rw [run_loop_eq_ok Header.bytes (fun done : List Header => done) _ each]
  constructor
  · rintro ⟨items, size, allowed, rfl, rfl⟩
    refine ⟨size, ?_, rfl⟩
    intro h mem
    exact (allowed.mem mem).choose_spec
  · rintro ⟨size, valid, rfl⟩
    exact ⟨hs, size, fun done h left split => valid h (by simp [split]), rfl, rfl⟩

/-- The same for key, value and headers together. -/
theorem run_payload_eq_ok {count : UInt32} {key value : Option Bytes} {hs : List Header} :
    payload count bs = .ok ((key, value, hs), rest) ↔
      (key.getD []).length < 0xFFFFFFFF ∧ (value.getD []).length < 0xFFFFFFFF ∧
        hs.length = count.toNat ∧
        (∀ h ∈ hs, h.Valid ∧ (h.value.getD []).length < 0xFFFFFFFF) ∧
        bs = nullable key ++ (nullable value ++ (hs.flatMap Header.bytes ++ rest)) := by
  simp only [payload, run_bind_eq_ok, run_nullableBytes_eq_ok, run_headers_eq_ok, run_pure_eq_ok,
    Prod.mk.injEq]
  constructor
  · rintro ⟨k, _, ⟨keySmall, rfl⟩, v, _, ⟨valueSmall, rfl⟩, items, _, ⟨size, valid, rfl⟩,
      ⟨rfl, rfl, rfl⟩, rfl⟩
    exact ⟨keySmall, valueSmall, size, valid, rfl⟩
  · rintro ⟨keySmall, valueSmall, size, valid, rfl⟩
    exact ⟨key, _, ⟨keySmall, rfl⟩, value, _, ⟨valueSmall, rfl⟩, hs, rest, ⟨size, valid, rfl⟩,
      ⟨rfl, rfl, rfl⟩, rfl⟩

end RecordCursor

/-! ## Records -/

/-- The offset of a record gives its delta back. -/
theorem toUInt32_add_sub (base : UInt64) (delta : UInt32) :
    (base + delta.toUInt64 - base).toUInt32 = delta := by
  have cancel : base + delta.toUInt64 - base = delta.toUInt64 := by grind
  rw [cancel]
  simp

theorem slice_all (bs : Bytes) : slice bs 0 bs.length = bs := by
  simp [slice]

/-- A decoded record is valid, and stands in the bytes that its decoder consumed but
for those that the decoder skips. -/
theorem Record.of_decode {data : Bytes} {base : UInt64} {topic : TopicID} {partition index : UInt32}
    {r : Record} {n : Nat}
    (decoded : decodeRecord data base topic partition (some index) = .ok (r, n))
    (whole : n = data.length) :
    r.topic = topic ∧ r.partition = partition ∧ r.offset = base + index.toUInt64 ∧
      r.Valid base ∧ r.bytes base = slice data 0 16 ++ List.replicate 8 0 ++ data.drop 24 := by
  simp only [decodeRecord, bind_eq_ok, failIf_eq_ok, exists_const, not_or, Nat.not_lt,
    Option.mem_def, Option.some.injEq, exists_eq_left', not_not, ne_eq, pure_eq_ok,
    Except.ok.injEq, Prod.mk.injEq, Prod.exists, UInt32.not_lt, UInt64.not_lt] at decoded
  obtain ⟨long, ⟨-, small⟩, -, contiguous, ⟨baseRange, offsetRange⟩, few, key, value, headers, rest,
    payload, rfl, rfl, rfl⟩ := decoded
  rw [whole, slice_all] at contiguous few payload offsetRange
  have size : 28 ≤ data.length := long
  obtain ⟨keySmall, valueSmall, count, valid, body⟩ :=
    RecordCursor.run_payload_eq_ok.1 payload
  have cut : ∀ {start stop : Nat}, start ≤ stop → stop ≤ 28 →
      (slice data start stop).length = stop - start := by
    intro start stop _ _
    rw [length_slice]
    omega
  have headerCount : UInt32.ofNat headers.length = uint32 (slice data 24 28) := by
    rw [count, UInt32.ofNat_toNat]
  rw [whole, slice_all, contiguous]
  rw [contiguous] at offsetRange
  let r : Record :=
    { topic, partition, offset := base + index.toUInt64,
      timestamp := (uint64 (slice data 8 16)).toInt64, key, value, headers }
  change r.topic = topic ∧ r.partition = partition ∧ r.offset = base + index.toUInt64 ∧
    r.Valid base ∧ r.bytes base = slice data 0 16 ++ List.replicate 8 0 ++ data.drop 24
  have behind : slice data 24 28 ++
      (nullable r.key ++ nullable r.value ++ r.headers.flatMap Header.bytes) = data.drop 24 := by
    have split : data.drop 24 = slice data 24 28 ++ data.drop 28 :=
      (slice_append_drop data (by decide)).symm
    rw [split, body]
    simp [r]
  have tail : r.tail base = slice data 4 16 ++ List.replicate 8 0 ++ data.drop 24 := by
    have split : slice data 4 16 = slice data 4 8 ++ slice data 8 16 :=
      (slice_append_slice data (by decide) (by decide)).symm
    rw [← behind, split]
    simp only [Record.tail, r, toUInt32_add_sub, headerCount, UInt64.toUInt64_toInt64, ← contiguous]
    rw [putUint32_uint32 (cut (by decide) (by decide)),
      putUint64_uint64 (cut (by decide) (by decide)),
      putUint32_uint32 (cut (by decide) (by decide))]
    simp
  have length : 4 + (r.tail base).length = data.length := by
    rw [tail, List.length_append, List.length_append, cut (by decide) (by decide),
      List.length_replicate, List.length_drop]
    omega
  have bytes : r.bytes base = slice data 0 16 ++ List.replicate 8 0 ++ data.drop 24 := by
    have split : slice data 0 16 = slice data 0 4 ++ slice data 4 16 :=
      (slice_append_slice data (by decide) (by decide)).symm
    rw [Record.bytes, length, ← whole, UInt32.ofNat_toNat,
      putUint32_uint32 (cut (by decide) (by decide)), tail, split]
    simp
  refine ⟨rfl, rfl, rfl, ?_, bytes⟩
  have limit := maxOffset_toNat
  have room : base.toNat + index.toNat ≤ maxOffset.toNat := by
    rw [UInt64.le_iff_toNat_le, UInt32.toNat_toUInt64, UInt64.toNat_sub_of_le _ _ baseRange]
      at offsetRange
    have low := UInt64.le_iff_toNat_le.1 baseRange
    omega
  have offset : r.offset.toNat = base.toNat + index.toNat := by
    have wide := index.toNat_lt
    simp only [r, UInt64.toNat_add, UInt32.toNat_toUInt64]
    omega
  have difference : (r.offset - base).toNat = index.toNat := by
    rw [UInt64.toNat_sub_of_le _ _ (UInt64.le_iff_toNat_le.2 (by omega)), offset]
    omega
  constructor
  · exact UInt64.le_iff_toNat_le.2 (by omega)
  · rw [UInt64.le_iff_toNat_le, difference]
    exact Nat.le_of_lt_succ index.toNat_lt
  · exact baseRange
  · exact UInt64.le_iff_toNat_le.2 (by omega)
  · rw [count]
    exact UInt32.le_iff_toNat_le.1 few
  · exact Nat.le_of_lt keySmall
  · exact Nat.le_of_lt valueSmall
  · exact fun h mem => (valid h mem).1
  · rw [length, ← whole]
    exact UInt32.le_iff_toNat_le.1 small

/-! ## Batches -/

/-- The encoded records of a batch body, cut at their length fields. -/
def recordFrames : Nat → Bytes → List Bytes
  | 0, _ => []
  | count + 1, body =>
      let length := (uint32 (slice body 0 4)).toNat
      body.take length :: recordFrames count (body.drop length)

/-- Every record of an encoded batch has zero bytes at its positions 16 to 24. -/
def ReservedZero (data : Bytes) : Prop :=
  ∀ record ∈ recordFrames (uint32 (slice data 12 16)).toNat (slice data 48 (data.length - 4)),
    slice record 16 24 = List.replicate 8 0

instance (data : Bytes) : Decidable (ReservedZero data) :=
  inferInstanceAs (Decidable (∀ record ∈ _, _))

namespace RecordBatch

variable {topic : TopicID} {partition : UInt32} {base : UInt64}

/-- What the loop of the batch decoder returns: valid records that follow each other,
whose encodings it has consumed if the bytes it skips are zero. -/
theorem of_decodeRecords (start : Nat) {count : Nat} {body rest : Bytes} {records : List Record}
    (few : start + count < 2 ^ 32)
    (decoded : decodeRecords base topic partition count (.ofNat start) body = .ok (records, rest)) :
    records.length = count ∧
      (∀ index r, records[index]? = some r → r.topic = topic ∧ r.partition = partition ∧
        r.offset = base + .ofNat (start + index) ∧ r.Valid base) ∧
      body.length = (records.flatMap fun r => r.bytes base).length + rest.length ∧
      ((∀ record ∈ recordFrames count body, slice record 16 24 = List.replicate 8 0) →
        body = records.flatMap (fun r => r.bytes base) ++ rest) := by
  induction count generalizing start body records with
  | zero =>
      obtain ⟨rfl, rfl⟩ : [] = records ∧ body = rest := by simpa [decodeRecords] using decoded
      simp
  | succ count ih =>
      simp only [decodeRecords, bind_eq_ok, failIf_eq_ok, exists_const, not_or, Nat.not_lt, not_not,
        ne_eq, pure_eq_ok, Except.ok.injEq, Prod.mk.injEq, Prod.exists] at decoded
      obtain ⟨-, ⟨minimum, fits⟩, r, consumed, first, all, later, rest', others, rfl, rfl⟩ :=
        decoded
      have next : UInt32.ofNat start + 1 = UInt32.ofNat (start + 1) := by
        rw [UInt32.ofNat_add]
        rfl
      rw [next] at others
      obtain ⟨size, places, behindLength, behind⟩ := ih (start + 1) (by omega) others
      set n := (uint32 (slice body 0 4)).toNat with nEq
      have whole : slice body 0 n = body.take n := by simp [slice]
      have takeLength : (body.take n).length = n := by
        rw [List.length_take, Nat.min_eq_left fits]
      have long : 28 ≤ n := UInt32.le_iff_toNat_le.1 (UInt32.not_lt.1 minimum)
      rw [whole] at first
      obtain ⟨topicEq, partitionEq, offset, valid, bytes⟩ :=
        Record.of_decode first (all.trans takeLength.symm)
      have front : (slice (body.take n) 0 16).length = 16 := by
        rw [length_slice, takeLength]
        omega
      refine ⟨by simp [size], ?_, ?_, ?_⟩
      · intro index x found
        cases index with
        | zero =>
            obtain rfl : r = x := by simpa using found
            refine ⟨topicEq, partitionEq, ?_, valid⟩
            rw [offset]
            congr 1
            apply UInt64.toNat_inj.1
            rw [UInt32.toNat_toUInt64, toNat_ofNat32 (by omega), toNat_ofNat64 (by omega),
              Nat.add_zero]
        | succ index =>
            have place := places index x (by simpa using found)
            rwa [Nat.add_right_comm] at place
      · have length : (r.bytes base).length = n := by
          rw [bytes, List.length_append, List.length_append, front, List.length_replicate,
            List.length_drop, takeLength]
          omega
        rw [List.length_drop] at behindLength
        rw [List.flatMap_cons, List.length_append, length]
        omega
      · intro reserved
        rw [recordFrames] at reserved
        have zero := reserved _ List.mem_cons_self
        have exact : r.bytes base = body.take n := by
          rw [bytes, ← zero, slice_append_slice _ (by decide) (by decide)]
          simp [slice]
        rw [List.flatMap_cons, exact, List.append_assoc,
          ← behind fun record mem => reserved record (List.mem_cons_of_mem _ mem),
          List.take_append_drop]

/-- The header of an encoded batch, as a decoder finds it. -/
theorem header_eq_of_fields {data : Bytes} (long : 48 ≤ data.length)
    (magic : slice data 0 4 = batchMagic) (headerSize : uint16 (slice data 6 8) = batchHeaderBytes)
    (checksum : uint32 (slice data 44 48) = crc32c (slice data 0 44))
    (version : uint16 (slice data 4 6) = formatVersion)
    (encoding : uint16 (slice data 36 38) = formatVersion)
    (flags : uint32 (slice data 32 36) = 0) (reserved : uint16 (slice data 38 40) = 0)
    (reserved' : uint32 (slice data 40 44) = 0) :
    slice data 0 48 = withCRC32C (batchHeaderFields (uint32 (slice data 8 12))
      (uint32 (slice data 12 16)) (uint64 (slice data 16 24))
      (uint64 (slice data 24 32)).toInt64).flatten := by
  have cut : ∀ {start stop : Nat}, start ≤ stop → stop ≤ 48 →
      (slice data start stop).length = stop - start := by
    intro start stop _ _
    rw [length_slice]
    omega
  have fields : batchHeaderFields (uint32 (slice data 8 12)) (uint32 (slice data 12 16))
      (uint64 (slice data 16 24)) (uint64 (slice data 24 32)).toInt64 =
        [slice data 0 4, slice data 4 6, slice data 6 8, slice data 8 12, slice data 12 16,
          slice data 16 24, slice data 24 32, slice data 32 36, slice data 36 38, slice data 38 40,
          slice data 40 44] := by
    simp only [batchHeaderFields, List.cons.injEq, and_true, UInt64.toUInt64_toInt64]
    refine ⟨magic.symm, ?_, ?_, ?_, ?_, ?_, ?_, ?_, ?_, ?_, ?_⟩
    · rw [← version, putUint16_uint16 (cut (by decide) (by decide))]
    · rw [← headerSize, putUint16_uint16 (cut (by decide) (by decide))]
    · rw [putUint32_uint32 (cut (by decide) (by decide))]
    · rw [putUint32_uint32 (cut (by decide) (by decide))]
    · rw [putUint64_uint64 (cut (by decide) (by decide))]
    · rw [putUint64_uint64 (cut (by decide) (by decide))]
    · rw [← flags, putUint32_uint32 (cut (by decide) (by decide))]
    · rw [← encoding, putUint16_uint16 (cut (by decide) (by decide))]
    · rw [← reserved, putUint16_uint16 (cut (by decide) (by decide))]
    · rw [← reserved', putUint32_uint32 (cut (by decide) (by decide))]
  have joined : (batchHeaderFields (uint32 (slice data 8 12)) (uint32 (slice data 12 16))
      (uint64 (slice data 16 24)) (uint64 (slice data 24 32)).toInt64).flatten =
        slice data 0 44 := by
    rw [fields]
    simp only [List.flatten_cons, List.flatten_nil, List.append_nil, slice_append_slice,
      Nat.reduceLeDiff, Nat.zero_le]
  rw [withCRC32C, joined, ← checksum, putUint32_uint32 (cut (by decide) (by decide)),
    slice_append_slice _ (by decide) (by decide)]

/-- What `decodeBatch` has found in the bytes it accepts. -/
structure Decoded (b : RecordBatch) (data : Bytes) (topic : TopicID) (partition : UInt32) :
    Prop where
  topic_eq : b.topic = topic
  partition_eq : b.partition = partition
  valid : b.Valid
  total : b.total = data.length
  length : (uint32 (slice data 8 12)).toNat = data.length
  base : uint64 (slice data 16 24) = b.baseOffset
  time : (uint64 (slice data 24 32)).toInt64 = maxTimestamp b.records
  header : uint32 (slice data 44 48) = crc32c (slice data 0 44)
  trailer : uint32 (data.drop (data.length - 4)) = crc32c (slice data 0 (data.length - 4))
  canonical : ReservedZero data → b.bytes = data

/-- What a decoded batch is made of. -/
theorem Decoded.of_decode {data : Bytes} {b : RecordBatch}
    (decoded : decodeBatch data topic partition = .ok b) : b.Decoded data topic partition := by
  simp only [decodeBatch, bind_eq_ok, failIf_eq_ok, exists_const, not_or, Nat.not_lt, not_not,
    ne_eq, pure_eq_ok, Except.ok.injEq, Prod.exists, UInt32.not_lt, UInt64.not_lt] at decoded
  obtain ⟨long, magic, headerSize, checksum, ⟨version, encoding⟩, ⟨flags, reserved, reserved'⟩,
    topicOk, ⟨some_record, fewRecords, minimum, maximum⟩, range, -, length, trailer, records, rest,
    read, rfl, time, rfl⟩ := decoded
  have headerLong : 48 ≤ data.length := long
  have countBound : (uint32 (slice data 12 16)).toNat ≤ 65536 := UInt32.le_iff_toNat_le.1 fewRecords
  have lengthBound : (uint32 (slice data 8 12)).toNat ≤ 67108864 := UInt32.le_iff_toNat_le.1 maximum
  have lengthMinimum : 80 ≤ (uint32 (slice data 8 12)).toNat := UInt32.le_iff_toNat_le.1 minimum
  obtain ⟨count, places, bodyLength, exact⟩ := of_decodeRecords 0 (by omega) read
  have header := header_eq_of_fields headerLong magic headerSize checksum version encoding flags
    reserved reserved'
  let b : RecordBatch := ⟨topic, partition, uint64 (slice data 16 24), records⟩
  change b.Decoded data topic partition
  have total : b.total = data.length := by
    have body : (slice data 48 (data.length - 4)).length = b.recordBytes.length := bodyLength
    rw [length_slice] at body
    have sum : b.total = 48 + b.recordBytes.length + 4 := rfl
    omega
  have number : UInt32.ofNat records.length = uint32 (slice data 12 16) := by
    rw [count, UInt32.ofNat_toNat]
  have valid : b.Valid := by
    refine ⟨topicOk, ?_, ?_, ?_, ?_, ?_⟩
    · change 0 < records.length
      rw [count]
      refine Nat.pos_of_ne_zero fun zero => some_record ?_
      exact UInt32.toNat_inj.1 zero
    · change records.length ≤ _
      rw [count]
      exact countBound
    · change validOffsetRange _ (.ofNat records.length)
      rw [number]
      exact range
    · intro index r found
      obtain ⟨topicEq, partitionEq, offset, good⟩ := places index r found
      exact ⟨topicEq, partitionEq, by simpa using offset, good⟩
    · rw [total, ← length]
      exact lengthBound
  refine ⟨rfl, rfl, valid, total, length, rfl, time, checksum, trailer, ?_⟩
  intro zero
  have body := exact zero
  rw [List.append_nil] at body
  have fields : b.header = slice data 0 48 := by
    rw [header, RecordBatch.header, headerFields, total, ← length, UInt32.ofNat_toNat, ← time]
    simp only [b, number]
  have front : b.header ++ b.recordBytes = slice data 0 (data.length - 4) := by
    have records : b.recordBytes = slice data 48 (data.length - 4) := body.symm
    rw [fields, records, slice_append_slice _ (by decide) (by omega)]
  have last : (data.drop (data.length - 4)).length = 4 := by
    rw [List.length_drop]
    omega
  rw [bytes, withCRC32C, front]
  change slice data 0 (data.length - 4) ++
    putUint32 (crc32c (slice data 0 (data.length - 4))) = data
  have stored : uint32 (data.drop (data.length - 4)) = crc32c (slice data 0 (data.length - 4)) :=
    trailer
  rw [← stored, putUint32_uint32 last, slice_append_drop _ (Nat.zero_le _), List.drop_zero]

/-- The batch format round trip, in both directions. -/
theorem codec_round_trip :
    (∀ (b : RecordBatch) (data : Bytes), encodeBatch b = .ok data →
      decodeBatch data b.topic b.partition = .ok b) ∧
    ∀ (data : Bytes) (topic : TopicID) (partition : UInt32) (b : RecordBatch),
      decodeBatch data topic partition = .ok b → ReservedZero data → encodeBatch b = .ok data := by
  refine ⟨?_, ?_⟩
  · intro b data encoded
    obtain ⟨valid, rfl⟩ := encode_eq_ok.1 encoded
    exact decode_bytes valid
  · intro data topic partition b decoded zero
    have found := Decoded.of_decode decoded
    exact encode_eq_ok.2 ⟨found.valid, found.canonical zero⟩

/-- A nil key, an empty value and a header without a value. -/
def sample : RecordBatch where
  topic := 7
  partition := 3
  baseOffset := 40
  records :=
    [{ topic := 7, partition := 3, offset := 40, timestamp := -5, key := none, value := some [],
       headers := [⟨[0x61], none⟩, ⟨[], some [1, 2]⟩] }]

/-- A record with a null key, an empty value and two headers is read as it was written. -/
theorem codec_round_trip_sample :
    decodeBatch sample.bytes 7 3 = .ok sample ∧ encodeBatch sample = .ok sample.bytes := by
  have encoded : encodeBatch sample = .ok sample.bytes := by decide +kernel
  have read := codec_round_trip.1 sample sample.bytes encoded
  exact ⟨read, codec_round_trip.2 sample.bytes 7 3 sample read (by decide +kernel)⟩

end RecordBatch

/-! ## Segment headers -/

/-- The decoder accepts the bytes of valid headers only. -/
theorem SegmentHeader.of_decode {data : Bytes} {topic : TopicID} {partition : UInt32}
    {h : SegmentHeader} (decoded : decodeSegmentHeader data topic partition = .ok h) :
    h.Valid ∧ (topic ≠ 0 → h.topic = topic) ∧ h.partition = partition ∧
      slice data 0 72 = h.bytes := by
  simp only [decodeSegmentHeader, bind_eq_ok, failIf_eq_ok, exists_const, not_or, Nat.not_lt,
    not_and, not_not, ne_eq, pure_eq_ok, Except.ok.injEq, UInt32.not_lt, UInt64.not_lt] at decoded
  obtain ⟨long, magic, headerSize, checksum, ⟨version, encoding⟩, ⟨flags, reserved, reserved'⟩,
    ⟨someTopic, someID, partitionRange, baseRange⟩, topicEq, partitionEq, rfl⟩ := decoded
  have size : 72 ≤ data.length := long
  refine ⟨⟨someTopic, someID, partitionRange, baseRange⟩, topicEq, partitionEq, ?_⟩
  have cut : ∀ {start stop : Nat}, start ≤ stop → stop ≤ 72 →
      (slice data start stop).length = stop - start := by
    intro start stop _ _
    rw [length_slice]
    omega
  have fields : SegmentHeader.fields ⟨idOf (slice data 16 32), uint32 (slice data 32 36),
      uint64 (slice data 40 48), idOf (slice data 48 64)⟩ =
        [slice data 0 8, slice data 8 10, slice data 10 12, slice data 12 16, slice data 16 32,
          slice data 32 36, slice data 36 38, slice data 38 40, slice data 40 48, slice data 48 64,
          slice data 64 68] := by
    simp only [SegmentHeader.fields, List.cons.injEq, and_true]
    refine ⟨magic.symm, ?_, ?_, ?_, ?_, ?_, ?_, ?_, ?_, ?_, ?_⟩
    · rw [← version, putUint16_uint16 (cut (by decide) (by decide))]
    · rw [← headerSize, putUint16_uint16 (cut (by decide) (by decide))]
    · rw [← flags, putUint32_uint32 (cut (by decide) (by decide))]
    · rw [putID_idOf (cut (by decide) (by decide))]
    · rw [putUint32_uint32 (cut (by decide) (by decide))]
    · rw [← encoding, putUint16_uint16 (cut (by decide) (by decide))]
    · rw [← reserved, putUint16_uint16 (cut (by decide) (by decide))]
    · rw [putUint64_uint64 (cut (by decide) (by decide))]
    · rw [putID_idOf (cut (by decide) (by decide))]
    · rw [← reserved', putUint32_uint32 (cut (by decide) (by decide))]
  have joined : [slice data 0 8, slice data 8 10, slice data 10 12, slice data 12 16,
      slice data 16 32, slice data 32 36, slice data 36 38, slice data 38 40, slice data 40 48,
      slice data 48 64, slice data 64 68].flatten = slice data 0 68 := by
    simp only [List.flatten_cons, List.flatten_nil, List.append_nil, slice_append_slice,
      Nat.reduceLeDiff, Nat.zero_le]
  rw [SegmentHeader.bytes, withCRC32C, fields, joined, ← checksum,
    putUint32_uint32 (cut (by decide) (by decide)), slice_append_slice _ (by decide) (by decide)]

end Immulog
