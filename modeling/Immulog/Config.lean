import Immulog.EventCursor

/-!
Partition configurations in catalog events (`src/storage/config.go`).

`PartitionConfigV1.Encodes` collects what both directions check, so that a
configuration that was read from the log can be written again with the same bytes.
-/

namespace Immulog

open Lib

structure PartitionConfigV1 where
  maxRecordBytes : UInt32
  maxBatchBytes : UInt32
  maxBatchRecords : UInt32
  segmentMaxBytes : UInt64
  /-- `time.Duration`, in nanoseconds. -/
  batchLinger : Int
  retentionMask : UInt8
  retentionMillis : UInt64
  retentionBytes : UInt64
  maxSegmentAgeMillis : UInt64
  retentionCheckMillis : UInt64
  deriving DecidableEq, Repr

def partitionConfigBytes : UInt16 := 64

/-- `time.Millisecond` -/
def millisecond : Int := 1000000

/-- The decimals of `value / 10 ^ digits`, without zeros at the end. -/
def fractionString (value digits : Nat) : String :=
  let text := toString (value % 10 ^ digits)
  let padded := List.replicate (digits - text.length) '0' ++ text.toList
  if value % 10 ^ digits = 0 then ""
  else "." ++ String.ofList (padded.reverse.dropWhile (· = '0')).reverse

/-- `time.Duration.String`: the text of a number of nanoseconds. -/
def durationString (d : Int) : String :=
  let u := d.natAbs
  let seconds := u / 1000000000
  let text :=
    if u = 0 then "0s"
    else if u < 1000 then s!"{u}ns"
    else if u < 1000000 then s!"{u / 1000}{fractionString u 3}µs"
    else if u < 1000000000 then s!"{u / 1000000}{fractionString u 6}ms"
    else (if 3600 ≤ seconds then s!"{seconds / 3600}h" else "") ++
      (if 60 ≤ seconds then s!"{seconds / 60 % 60}m" else "") ++
      s!"{seconds % 60}{fractionString u 9}s"
  if d < 0 then "-" ++ text else text

example : [durationString (24 * 3600000000000), durationString (-1500),
      durationString 90500000000] =
    ["24h0m0s", "-1.5µs", "1m30.5s"] := by
  decide +kernel

def maxDurationMillis : UInt64 := 0x7FFFFFFFFFFFFFFF / 1000000

namespace PartitionConfigV1

private def invalid (detail : String) : GoError :=
  ⟨[.errInvalidArgument], [detail]⟩

def validate (config : PartitionConfigV1) (system : Bool) : Except GoError Unit := do
  let minimumBatch : UInt32 := batchHeaderBytes.toUInt32 + 4 + recordPrefixBytes
  failIf (config.maxRecordBytes < recordPrefixBytes ∨
      Immulog.maxRecordBytes < config.maxRecordBytes)
    (invalid "configured maximum record bytes are outside v1 limits")
  failIf (config.maxBatchBytes < minimumBatch ∨ Immulog.maxBatchBytes < config.maxBatchBytes ∨
      config.maxBatchBytes < config.maxRecordBytes + batchHeaderBytes.toUInt32 + 4)
    (invalid "configured maximum batch bytes are outside v1 limits")
  failIf (config.maxBatchRecords = 0 ∨ Immulog.maxBatchRecords < config.maxBatchRecords)
    (invalid "configured maximum batch records are outside v1 limits")
  failIf (config.segmentMaxBytes < segmentHeaderBytes.toUInt64 + config.maxBatchBytes.toUInt64 ∨
      maxOffset < config.segmentMaxBytes)
    (invalid "configured segment bytes are outside v1 limits")
  failIf (config.retentionMask &&& ~~~3 ≠ 0)
    ⟨[.errUnsupportedFormat], ["unsupported retention policy bit"]⟩
  failIf (system = true ∧ config.retentionMask ≠ 0)
    (invalid "system-log retention is disabled")
  failIf (config.retentionMask ≠ 0 ∧ config.retentionCheckMillis = 0)
    (invalid "retention requires a positive check interval")
  failIf (config.retentionMask &&& 1 ≠ 0 ∧ config.maxSegmentAgeMillis = 0)
    (invalid "time retention requires a segment age")
  failIf (maxDurationMillis < config.retentionMillis ∨
      maxDurationMillis < config.maxSegmentAgeMillis ∨
      maxDurationMillis < config.retentionCheckMillis)
    (invalid "configured duration is outside Go duration range")
  failIf (maxOffset < config.retentionBytes)
    (invalid "configured retention bytes are outside v1 limits")
  failIf (config.retentionMask &&& 1 = 0 ∧ config.retentionMillis ≠ 0)
    (invalid "disabled time retention has a nonzero duration")
  failIf (config.retentionMask &&& 2 = 0 ∧ config.retentionBytes ≠ 0)
    (invalid "disabled size retention has a nonzero byte limit")
  failIf (config.retentionMask = 0 ∧ config.retentionCheckMillis ≠ 0)
    (invalid "disabled retention has a nonzero check interval")

/-- A system log's configuration passes the checks of every log. -/
theorem validate_of_system {config : PartitionConfigV1} {system : Bool}
    (valid : config.validate system = .ok ()) : config.validate false = .ok () := by
  cases system with
  | false => exact valid
  | true =>
      simp only [validate, bind_eq_ok, failIf_eq_ok, exists_const, true_and, Bool.false_eq_true,
        false_and, not_false_eq_true] at valid ⊢
      grind

/-- A segment takes one batch at least, and its size is a signed word. -/
theorem segment_bounds {config : PartitionConfigV1} {system : Bool}
    (valid : config.validate system = .ok ()) :
    segmentHeaderBytes.toNat + config.maxBatchBytes.toNat ≤ config.segmentMaxBytes.toNat ∧
      config.segmentMaxBytes.toNat < 2 ^ 63 := by
  simp only [validate, bind_eq_ok, failIf_eq_ok, exists_const, not_or, UInt64.not_lt] at valid
  obtain ⟨-, -, -, ⟨least, most⟩, -⟩ := valid
  rw [UInt64.le_iff_toNat_le] at least most
  have header : segmentHeaderBytes.toUInt64.toNat = segmentHeaderBytes.toNat := rfl
  have small : segmentHeaderBytes.toNat = 72 := rfl
  have batch := config.maxBatchBytes.toNat_lt
  rw [UInt64.toNat_add, UInt32.toNat_toUInt64, header, Nat.mod_eq_of_lt (by omega)] at least
  exact ⟨least, Nat.lt_of_le_of_lt most (by decide)⟩

/-- The limits for records and batches are within those of the format. -/
theorem batch_bounds {config : PartitionConfigV1} {system : Bool}
    (valid : config.validate system = .ok ()) :
    config.maxRecordBytes.toNat ≤ Immulog.maxRecordBytes.toNat ∧
      config.maxBatchBytes.toNat ≤ Immulog.maxBatchBytes.toNat ∧
      0 < config.maxBatchRecords.toNat ∧
      config.maxBatchRecords.toNat ≤ Immulog.maxBatchRecords.toNat := by
  simp only [validate, bind_eq_ok, failIf_eq_ok, exists_const, not_or, UInt32.not_lt] at valid
  obtain ⟨⟨-, record⟩, ⟨-, batch, -⟩, ⟨positive, records⟩, -⟩ := valid
  rw [UInt32.le_iff_toNat_le] at record batch records
  exact ⟨record, batch, Nat.pos_of_ne_zero fun zero => positive (UInt32.toNat_inj.1 zero), records⟩

end PartitionConfigV1

def durationMillis (value : Int) : Except GoError UInt32 := do
  failIf (value < 0 ∨ value % millisecond ≠ 0)
    ⟨[.errInvalidArgument], ["duration must be a nonnegative whole millisecond"]⟩
  let millis := value / millisecond
  failIf (0xFFFFFFFF < millis) ⟨[.errInvalidArgument], ["batch linger exceeds v1 range"]⟩
  return .ofNat millis.toNat

theorem durationMillis_eq_ok {value : Int} {millis : UInt32} :
    durationMillis value = .ok millis ↔ value = millis.toNat * millisecond := by
  have bound := millis.toNat_lt
  simp only [durationMillis, bind_eq_ok, failIf_eq_ok, exists_const, not_or, pure_eq_ok,
    Except.ok.injEq]
  unfold millisecond
  constructor
  · rintro ⟨⟨nonnegative, whole⟩, small, rfl⟩
    rw [toNat_ofNat32 (by omega)]
    omega
  · rintro rfl
    refine ⟨by omega, by omega, ?_⟩
    apply UInt32.toNat_inj.1
    rw [toNat_ofNat32 (by omega)]
    omega

namespace PartitionConfigV1

def fields (config : PartitionConfigV1) (linger : UInt32) : List Bytes :=
  [putUint16 1, putUint16 partitionConfigBytes, putUint32 config.maxRecordBytes,
    putUint32 config.maxBatchBytes, putUint32 config.maxBatchRecords,
    putUint64 config.segmentMaxBytes, putUint32 linger, [config.retentionMask], [0], putUint16 0,
    putUint64 config.retentionMillis, putUint64 config.retentionBytes,
    putUint64 config.maxSegmentAgeMillis, putUint64 config.retentionCheckMillis]

/-- The 64 bytes of a configuration whose linger is a whole number of milliseconds. -/
def bytes (config : PartitionConfigV1) : Bytes :=
  (config.fields (.ofNat (config.batchLinger / millisecond).toNat)).flatten

@[simp] theorem length_bytes (config : PartitionConfigV1) : config.bytes.length = 64 := by
  simp [bytes, fields]

/-- The configuration passes the checks and its linger fits its field. -/
def Encodes (config : PartitionConfigV1) (system : Bool) : Prop :=
  config.validate system = .ok () ∧
    ∃ millis : UInt32, config.batchLinger = millis.toNat * millisecond

theorem bytes_eq {config : PartitionConfigV1} {millis : UInt32}
    (linger : config.batchLinger = millis.toNat * millisecond) :
    config.bytes = (config.fields millis).flatten := by
  have whole : (config.batchLinger / millisecond).toNat = millis.toNat := by
    rw [linger, millisecond]
    omega
  rw [bytes, whole, UInt32.ofNat_toNat]

end PartitionConfigV1

def encodePartitionConfig (config : PartitionConfigV1) : Except GoError Bytes := do
  config.validate false
  let linger ← durationMillis config.batchLinger
  return (config.fields linger).flatten

theorem encodePartitionConfig_eq_ok {config : PartitionConfigV1} {out : Bytes} :
    encodePartitionConfig config = .ok out ↔ config.Encodes false ∧ out = config.bytes := by
  simp only [encodePartitionConfig, bind_eq_ok, durationMillis_eq_ok, pure_eq_ok,
    Except.ok.injEq, PartitionConfigV1.Encodes]
  constructor
  · rintro ⟨_, valid, millis, linger, rfl⟩
    exact ⟨⟨valid, millis, linger⟩, (PartitionConfigV1.bytes_eq linger).symm⟩
  · rintro ⟨⟨valid, millis, linger⟩, rfl⟩
    exact ⟨(), valid, millis, linger, (PartitionConfigV1.bytes_eq linger).symm⟩

/-- The configuration in a 64-byte field. -/
def PartitionConfigV1.ofData (data : Bytes) : PartitionConfigV1 where
  maxRecordBytes := uint32 (slice data 4 8)
  maxBatchBytes := uint32 (slice data 8 12)
  maxBatchRecords := uint32 (slice data 12 16)
  segmentMaxBytes := uint64 (slice data 16 24)
  batchLinger := (uint32 (slice data 24 28)).toNat * millisecond
  retentionMask := (slice data 28 29).headD 0
  retentionMillis := uint64 (slice data 32 40)
  retentionBytes := uint64 (slice data 40 48)
  maxSegmentAgeMillis := uint64 (slice data 48 56)
  retentionCheckMillis := uint64 (slice data 56 64)

/-- The text of a failed check is kept, its sentinel is not. -/
def decodePartitionConfig (system : Bool) : Cursor GoError PartitionConfigV1 := do
  let data ← EventCursor.take partitionConfigBytes.toNat
  Cursor.ensure (uint16 (slice data 0 2) ≠ 1)
    (unsupported "unsupported partition configuration version")
  Cursor.ensure (uint16 (slice data 2 4) ≠ partitionConfigBytes ∨ slice data 29 30 ≠ [0] ∨
      uint16 (slice data 30 32) ≠ 0)
    (corrupt .errInvalidRecord "invalid partition configuration encoding")
  let config := PartitionConfigV1.ofData data
  Cursor.lift ((config.validate system).mapError fun e =>
    ⟨[.errCorruptLog, .errInvalidRecord], e.details⟩)
  return config

namespace PartitionConfigV1

/-- The sizes of the fields of an encoded configuration. -/
def layout : List Nat := [2, 2, 4, 4, 4, 8, 4, 1, 1, 2, 8, 8, 8, 8]

theorem slice_fields {config : PartitionConfigV1} {linger : UInt32} {field : Bytes}
    {k start stop : Nat} (found : (config.fields linger)[k]? = some field)
    (starts : (layout.take k).sum = start) (stops : (layout.take (k + 1)).sum = stop) :
    slice (config.fields linger).flatten start stop = field := by
  have sizes : (config.fields linger).map List.length = layout := by simp [fields, layout]
  have read := slice_layout [] sizes found starts stops
  simpa using read

/-- The decoder's checks on an encoded configuration, and what it reads. -/
theorem ofData_fields {config : PartitionConfigV1} {linger : UInt32}
    (whole : config.batchLinger = linger.toNat * millisecond) :
    ofData (config.fields linger).flatten = config := by
  have maxRecord : slice (config.fields linger).flatten 4 8 = _ := slice_fields (k := 2) rfl rfl rfl
  have maxBatch : slice (config.fields linger).flatten 8 12 = _ := slice_fields (k := 3) rfl rfl rfl
  have records : slice (config.fields linger).flatten 12 16 = _ := slice_fields (k := 4) rfl rfl rfl
  have segment : slice (config.fields linger).flatten 16 24 = _ := slice_fields (k := 5) rfl rfl rfl
  have lingers : slice (config.fields linger).flatten 24 28 = _ := slice_fields (k := 6) rfl rfl rfl
  have mask : slice (config.fields linger).flatten 28 29 = _ := slice_fields (k := 7) rfl rfl rfl
  have millis : slice (config.fields linger).flatten 32 40 = _ := slice_fields (k := 10) rfl rfl rfl
  have retained : slice (config.fields linger).flatten 40 48 = _ :=
    slice_fields (k := 11) rfl rfl rfl
  have age : slice (config.fields linger).flatten 48 56 = _ := slice_fields (k := 12) rfl rfl rfl
  have check : slice (config.fields linger).flatten 56 64 = _ := slice_fields (k := 13) rfl rfl rfl
  simp only [ofData, maxRecord, maxBatch, records, segment, lingers, mask, millis, retained, age,
    check, uint32_putUint32, uint64_putUint64, List.headD_cons, ← whole]

/-- A field that passes the checks of the fixed bytes is the encoding of what is read. -/
theorem fields_ofData {data : Bytes} (size : data.length = 64)
    (version : uint16 (slice data 0 2) = 1)
    (length : uint16 (slice data 2 4) = partitionConfigBytes) (zero : slice data 29 30 = [0])
    (reserved : uint16 (slice data 30 32) = 0) :
    ((ofData data).fields (uint32 (slice data 24 28))).flatten = data := by
  have maskByte : [(slice data 28 29).headD 0] = slice data 28 29 := by
    obtain ⟨b, one⟩ := List.length_eq_one_iff.1 (show (slice data 28 29).length = 1 by simp [size])
    rw [one]
    rfl
  have cut : ∀ {start stop : Nat}, start ≤ stop → stop ≤ 64 →
      (slice data start stop).length = stop - start := by
    intro start stop _ _
    rw [length_slice, size]
    omega
  rw [fields, ← version, ← length, ← reserved, ← zero]
  simp only [ofData, maskByte]
  rw [putUint16_uint16 (cut (by decide) (by decide)),
    putUint16_uint16 (cut (by decide) (by decide)),
    putUint16_uint16 (cut (by decide) (by decide)), putUint32_uint32 (cut (by decide) (by decide)),
    putUint32_uint32 (cut (by decide) (by decide)), putUint32_uint32 (cut (by decide) (by decide)),
    putUint32_uint32 (cut (by decide) (by decide)), putUint64_uint64 (cut (by decide) (by decide)),
    putUint64_uint64 (cut (by decide) (by decide)), putUint64_uint64 (cut (by decide) (by decide)),
    putUint64_uint64 (cut (by decide) (by decide)), putUint64_uint64 (cut (by decide) (by decide))]
  simp only [List.flatten_cons, List.flatten_nil, List.append_nil, slice_append_slice,
    Nat.reduceLeDiff, Nat.zero_le]
  rw [slice, List.drop_zero, List.take_of_length_le (by omega)]

end PartitionConfigV1

open Cursor (run_bind_eq_ok run_pure_eq_ok run_ensure_bind_eq_ok run_take_eq_ok
  run_lift_eq_ok) in
theorem run_decodePartitionConfig_eq_ok {system : Bool} {config : PartitionConfigV1}
    {bs rest : Bytes} :
    decodePartitionConfig system bs = .ok (config, rest) ↔
      config.Encodes system ∧ bs = config.bytes ++ rest := by
  simp only [decodePartitionConfig, run_bind_eq_ok, EventCursor.take, run_take_eq_ok,
    ↓run_ensure_bind_eq_ok, not_or, ne_eq, Decidable.not_not, run_lift_eq_ok,
    mapError_eq_ok, run_pure_eq_ok]
  constructor
  · rintro ⟨data, _, ⟨size, rfl⟩, version, ⟨length, zero, reserved⟩, _, _, ⟨valid, rfl⟩,
      rfl, rfl⟩
    have back := PartitionConfigV1.fields_ofData size version length zero reserved
    refine ⟨⟨valid, _, rfl⟩, ?_⟩
    have bytes : (PartitionConfigV1.ofData data).bytes = _ := PartitionConfigV1.bytes_eq rfl
    rw [bytes, back]
  · rintro ⟨⟨valid, millis, linger⟩, rfl⟩
    have version : slice (config.fields millis).flatten 0 2 = _ :=
      PartitionConfigV1.slice_fields (k := 0) rfl rfl rfl
    have length : slice (config.fields millis).flatten 2 4 = _ :=
      PartitionConfigV1.slice_fields (k := 1) rfl rfl rfl
    have zero : slice (config.fields millis).flatten 29 30 = _ :=
      PartitionConfigV1.slice_fields (k := 8) rfl rfl rfl
    have reserved : slice (config.fields millis).flatten 30 32 = _ :=
      PartitionConfigV1.slice_fields (k := 9) rfl rfl rfl
    have back := PartitionConfigV1.ofData_fields linger
    refine ⟨config.bytes, rest, ⟨by simp [partitionConfigBytes], rfl⟩, ?_⟩
    rw [PartitionConfigV1.bytes_eq linger, version, length, zero, reserved, back]
    simp [valid]

end Immulog
