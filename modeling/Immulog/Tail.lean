import Immulog.Codec

/-!
Fetch limits and the tail cache (`src/storage/tail.go`, the encoded sizes of
`src/storage/writer.go` and the options of `src/storage/fetch.go`).

The tail keeps clones of batches that were already durable when they were offered.
`PartitionTail.Holds` bounds what is cached; offers and evictions keep it, and a hit
returns records of one cached batch one after the other from the requested offset on.
-/

namespace Immulog

open Lib

/-! ## Encoded sizes -/

def checkedAdd (left right : UInt64) : Except GoError UInt64 := do
  failIf (0xFFFFFFFFFFFFFFFF - left < right)
    (.join [.ofKind .errResourceLimit, .new "writer size arithmetic overflow"])
  return left + right

/-- The size of the headers behind `size` bytes. -/
def headersEncodedBytes : List Header → UInt64 → Except GoError UInt64
  | [], size => return size
  | header :: rest, size => do
      failIf (¬ validHeaderName header.name)
        (.join [.ofKind .errInvalidArgument,
          .new "header name is not valid UTF-8 or is too large"])
      let size ← checkedAdd size
        (8 + .ofNat header.name.length + .ofNat (header.value.getD []).length)
      headersEncodedBytes rest size

def recordEncodedBytes (record : Record) : Except GoError UInt64 := do
  failIf (maxRecordHeaders.toNat < record.headers.length)
    (.join [.ofKind .errInvalidArgument, .new "record header count exceeds v1 limit"])
  headersEncodedBytes record.headers
    (recordPrefixBytes.toUInt64 + 4 + .ofNat (record.key.getD []).length + 4 +
      .ofNat (record.value.getD []).length)

/-- The size of the records behind `size` bytes. -/
def recordsEncodedBytes : List Record → UInt64 → Except GoError UInt64
  | [], size => return size
  | record :: rest, size => do
      let recordSize ← recordEncodedBytes record
      let size ← checkedAdd size recordSize
      recordsEncodedBytes rest size

def batchEncodedBytes (records : List Record) : Except GoError UInt64 := do
  failIf (records.length = 0 ∨ maxBatchRecords.toNat < records.length)
    (.join [.ofKind .errInvalidArgument, .new "record count is outside v1 limits"])
  recordsEncodedBytes records (batchHeaderBytes.toUInt64 + 4)

theorem checkedAdd_ofNat {l r : Nat} (small : l + r < 2 ^ 64) :
    checkedAdd (.ofNat l) (.ofNat r) = .ok (.ofNat (l + r)) := by
  have room : ¬ (0xFFFFFFFFFFFFFFFF - UInt64.ofNat l < UInt64.ofNat r) := by
    rw [UInt64.lt_iff_toNat_lt, UInt64.toNat_sub_of_le _ _ (UInt64.le_iff_toNat_le.2 ?_),
      toNat_ofNat64 (by omega), toNat_ofNat64 (by omega)]
    · simp only [UInt64.reduceToNat]
      omega
    · rw [toNat_ofNat64 (by omega)]
      simp only [UInt64.reduceToNat]
      omega
  rw [checkedAdd, failIf_of_not room, UInt64.ofNat_add]
  rfl

/-- Addition is checked: it fails exactly when the sum does not fit. -/
theorem checkedAdd_eq_ok {left right sum : UInt64} :
    checkedAdd left right = .ok sum ↔
      sum.toNat = left.toNat + right.toNat := by
  have bound : (0xFFFFFFFFFFFFFFFF - left).toNat = 2 ^ 64 - 1 - left.toNat := by
    rw [UInt64.toNat_sub_of_le _ _ (UInt64.le_iff_toNat_le.2 ?_)]
    · rfl
    · exact Nat.le_of_lt_succ left.toNat_lt
  have small := sum.toNat_lt
  have leftSmall := left.toNat_lt
  have rightSmall := right.toNat_lt
  simp only [checkedAdd, bind_eq_ok, failIf_eq_ok, exists_const, UInt64.not_lt, pure_eq_ok,
    Except.ok.injEq, UInt64.le_iff_toNat_le, bound, ← UInt64.toNat_inj, UInt64.toNat_add]
  omega

/-- The bytes of a record in a batch. -/
def Record.encodedBytes (r : Record) : Nat :=
  (r.bytes r.offset).length

def encodedBytes (records : List Record) : Nat :=
  (records.map Record.encodedBytes).sum

/-- The base of the batch does not matter for the size. -/
theorem Record.length_bytes_eq (r : Record) (base : UInt64) :
    (r.bytes base).length = r.encodedBytes := by
  simp [Record.encodedBytes, Record.tail]

/-- The size of a record is the sum of its parts. -/
theorem Record.encodedBytes_eq (r : Record) :
    r.encodedBytes = 28 + 4 + (r.key.getD []).length + 4 + (r.value.getD []).length +
      (r.headers.flatMap Header.bytes).length := by
  rw [Record.encodedBytes, Record.length_bytes]
  simp only [Record.tail, nullable, List.length_append, length_putUint32, length_putUint64,
    List.length_replicate]
  omega

@[simp] theorem encodedBytes_nil : encodedBytes [] = 0 :=
  rfl

@[simp] theorem encodedBytes_cons (r : Record) (records : List Record) :
    encodedBytes (r :: records) = r.encodedBytes + encodedBytes records := by
  simp [encodedBytes]

@[simp] theorem encodedBytes_append (first second : List Record) :
    encodedBytes (first ++ second) = encodedBytes first + encodedBytes second := by
  simp [encodedBytes]

theorem Header.length_bytes (h : Header) :
    h.bytes.length = 8 + h.name.length + (h.value.getD []).length := by
  simp only [Header.bytes, List.length_append, length_putUint32]

/-- A header is not longer than all of them. -/
theorem Header.length_le_flatMap {h : Header} {hs : List Header} (mem : h ∈ hs) :
    h.bytes.length ≤ (hs.flatMap Header.bytes).length := by
  obtain ⟨front, back, rfl⟩ := List.append_of_mem mem
  simp only [List.flatMap_append, List.flatMap_cons, List.length_append]
  omega

/-- The headers are summed up when their names are valid. -/
theorem headersEncodedBytes_eq_ok {hs : List Header} {size : Nat} {n : UInt64}
    (small : size + (hs.flatMap Header.bytes).length < 2 ^ 64) :
    headersEncodedBytes hs (.ofNat size) = .ok n ↔
      (∀ h ∈ hs, validHeaderName h.name) ∧
        n = .ofNat (size + (hs.flatMap Header.bytes).length) := by
  induction hs generalizing size with
  | nil => simp [headersEncodedBytes, eq_comm]
  | cons h hs ih =>
      have sum : (8 + .ofNat h.name.length + .ofNat (h.value.getD []).length : UInt64) =
          .ofNat h.bytes.length := by
        rw [h.length_bytes, UInt64.ofNat_add, UInt64.ofNat_add]
        rfl
      rw [List.flatMap_cons, List.length_append, ← Nat.add_assoc] at small ⊢
      have now := checkedAdd_ofNat (l := size) (r := h.bytes.length) (by omega)
      simp only [headersEncodedBytes, sum, now, ok_bind, bind_eq_ok, failIf_eq_ok, not_not,
        exists_const, ih small, List.forall_mem_cons, and_assoc]

/-- The size that the writer computes for a record is the one that the encoder gives it. -/
theorem recordEncodedBytes_eq_ok {r : Record} {n : UInt64} (small : r.encodedBytes < 2 ^ 64) :
    recordEncodedBytes r = .ok n ↔
      r.headers.length ≤ maxRecordHeaders.toNat ∧ (∀ h ∈ r.headers, validHeaderName h.name) ∧
        n = .ofNat r.encodedBytes := by
  have start : recordPrefixBytes.toUInt64 + 4 + .ofNat (r.key.getD []).length + 4 +
      .ofNat (r.value.getD []).length =
        UInt64.ofNat (28 + 4 + (r.key.getD []).length + 4 + (r.value.getD []).length) := by
    simp only [UInt64.ofNat_add]
    rfl
  rw [Record.encodedBytes_eq] at small ⊢
  simp only [recordEncodedBytes, start, bind_eq_ok, failIf_eq_ok, Nat.not_lt, exists_const,
    headersEncodedBytes_eq_ok small]

/-- The predicted size of a valid record is that of its encoding. -/
theorem recordEncodedBytes_of_valid {r : Record} {base : UInt64} (valid : r.Valid base) :
    recordEncodedBytes r = .ok (.ofNat (r.bytes base).length) := by
  have limit : 4 + (r.tail base).length ≤ 16777216 := valid.size
  have small : r.encodedBytes < 2 ^ 64 := by
    rw [← r.length_bytes_eq base, Record.length_bytes]
    omega
  rw [r.length_bytes_eq]
  exact (recordEncodedBytes_eq_ok small).2
    ⟨valid.headerCount, fun h mem => (valid.headers h mem).name, rfl⟩

/-- What the encoder checks of a record, but for its offset, follows from its predicted size. -/
theorem Record.valid_of_size {r : Record} {base : UInt64}
    (headerCount : r.headers.length ≤ maxRecordHeaders.toNat)
    (names : ∀ h ∈ r.headers, validHeaderName h.name)
    (small : r.encodedBytes ≤ maxRecordBytes.toNat) (above : base ≤ r.offset)
    (delta : r.offset - base ≤ 0xFFFFFFFF) (range : r.offset ≤ maxOffset) : r.Valid base := by
  have size := r.encodedBytes_eq
  have limit : maxRecordBytes.toNat = 16777216 := rfl
  refine ⟨above, delta, UInt64.le_trans above range, range, headerCount, ?_, ?_,
    fun h mem => ⟨names h mem, ?_⟩, ?_⟩
  · omega
  · omega
  · have length := Header.length_le_flatMap mem
    rw [h.length_bytes] at length
    omega
  · rw [← Record.length_bytes, Record.length_bytes_eq]
    exact small

/-- The same for the records of a batch, behind what has been counted before. -/
theorem recordsEncodedBytes_of_valid {base : UInt64} {rs : List Record}
    (valid : ∀ r ∈ rs, r.Valid base) {size : Nat}
    (small : size + (rs.flatMap fun r => r.bytes base).length < 2 ^ 64) :
    recordsEncodedBytes rs (.ofNat size) =
      .ok (.ofNat (size + (rs.flatMap fun r => r.bytes base).length)) := by
  induction rs generalizing size with
  | nil => simp [recordsEncodedBytes]
  | cons r rs ih =>
      have first := recordEncodedBytes_of_valid (valid r List.mem_cons_self)
      rw [List.flatMap_cons, List.length_append, ← Nat.add_assoc] at small ⊢
      -- only the length of the record matters from here on
      generalize (r.bytes base).length = n at first small ⊢
      have later := ih (fun x mem => valid x (List.mem_cons_of_mem _ mem)) small
      rw [recordsEncodedBytes, first, ok_bind, checkedAdd_ofNat (by omega), ok_bind, later]

theorem RecordBatch.Valid.records_valid {b : RecordBatch} (valid : b.Valid) {r : Record}
    (mem : r ∈ b.records) : r.Valid b.baseOffset := by
  obtain ⟨index, found⟩ := List.mem_iff_getElem?.1 mem
  exact (valid.places index r found).valid

/-- The predicted size of a valid batch is that of its encoding. -/
theorem batchEncodedBytes_of_valid {b : RecordBatch} (valid : b.Valid) :
    batchEncodedBytes b.records = .ok (.ofNat b.total) := by
  have limit : b.total ≤ 67108864 := valid.size
  have total : b.total = 52 + b.recordBytes.length := by
    simp only [RecordBatch.total, batchHeaderBytes, batchTrailerBytes, UInt16.reduceToNat]
    omega
  have count : ¬ (b.records.length = 0 ∨ maxBatchRecords.toNat < b.records.length) := by
    have nonempty := valid.nonempty
    have few := valid.count
    omega
  have start : (batchHeaderBytes.toUInt64 + 4 : UInt64) = .ofNat 52 := by decide
  rw [batchEncodedBytes, failIf_of_not count, start, total]
  refine recordsEncodedBytes_of_valid (fun r mem => valid.records_valid mem) ?_
  change 52 + b.recordBytes.length < _
  omega
/-- What a record holds lies in the memory of one process. -/
def Record.InMemory (r : Record) : Prop :=
  (r.key.getD []).length + (r.value.getD []).length +
    (r.headers.flatMap Header.bytes).length < 2 ^ 63

/-- Records in memory have sizes within 64 bits. -/
theorem Record.InMemory.encodedBytes_lt {r : Record} (inMemory : r.InMemory) :
    r.encodedBytes < 2 ^ 64 := by
  rw [Record.encodedBytes_eq]
  unfold Record.InMemory at inMemory
  omega

/-- The sum is the one of the sizes, without overflow. -/
theorem recordsEncodedBytes_sum {rs : List Record} {size n : UInt64}
    (sized : ∀ r ∈ rs, recordEncodedBytes r = .ok (.ofNat r.encodedBytes) ∧
      r.encodedBytes < 2 ^ 64)
    (summed : recordsEncodedBytes rs size = .ok n) : n.toNat = size.toNat + encodedBytes rs := by
  induction rs generalizing size with
  | nil =>
      obtain rfl : size = n := Except.ok.inj summed
      rw [encodedBytes_nil, Nat.add_zero]
  | cons r rs ih =>
      obtain ⟨⟨first, small⟩, rest⟩ := List.forall_mem_cons.1 sized
      rw [recordsEncodedBytes, first, ok_bind, bind_eq_ok] at summed
      obtain ⟨sum, adding, later⟩ := summed
      have added := checkedAdd_eq_ok.1 adding
      rw [toNat_ofNat64 small] at added
      rw [ih rest later, added, encodedBytes_cons, Nat.add_assoc]

theorem RecordBatch.total_eq (b : RecordBatch) : b.total = 52 + encodedBytes b.records := by
  have length : b.recordBytes.length = encodedBytes b.records := by
    rw [RecordBatch.recordBytes, List.length_flatMap, encodedBytes]
    simp only [Record.length_bytes_eq]
  rw [RecordBatch.total, length]
  simp only [batchHeaderBytes, batchTrailerBytes, UInt16.reduceToNat]
  omega

/-- The records of a batch stand at its topic, its partition and one offset after the other. -/
def RecordBatch.Ordered (b : RecordBatch) : Prop :=
  ∀ (index : Nat) (r : Record), b.records[index]? = some r →
    r.topic = b.topic ∧ r.partition = b.partition ∧ r.offset = b.baseOffset + .ofNat index

/-- The batch is predicted: every record and the whole are within the limits of the format. -/
structure RecordBatch.Predicted (b : RecordBatch) : Prop where
  records : ∀ r ∈ b.records, ∃ n, recordEncodedBytes r = .ok n ∧ n ≤ maxRecordBytes.toUInt64
  batch : ∃ n, batchEncodedBytes b.records = .ok n ∧ n ≤ maxBatchBytes.toUInt64

/-- A batch whose sizes were predicted is valid once its records are numbered. -/
theorem RecordBatch.Predicted.valid {b : RecordBatch} (predicted : b.Predicted)
    (topic : b.topic ≠ 0) (inMemory : ∀ r ∈ b.records, r.InMemory) (ordered : b.Ordered)
    (range : validOffsetRange b.baseOffset (.ofNat b.records.length)) : b.Valid := by
  have sized : ∀ r ∈ b.records, r.headers.length ≤ maxRecordHeaders.toNat ∧
      (∀ h ∈ r.headers, validHeaderName h.name) ∧ r.encodedBytes ≤ maxRecordBytes.toNat := by
    intro r mem
    obtain ⟨n, size, small⟩ := predicted.records r mem
    have bound := (inMemory r mem).encodedBytes_lt
    obtain ⟨count, names, rfl⟩ := (recordEncodedBytes_eq_ok bound).1 size
    rw [UInt64.le_iff_toNat_le, toNat_ofNat64 bound, UInt32.toNat_toUInt64] at small
    exact ⟨count, names, small⟩
  obtain ⟨n, size, small⟩ := predicted.batch
  simp only [batchEncodedBytes, bind_eq_ok, failIf_eq_ok, exists_const, not_or, Nat.not_lt] at size
  obtain ⟨⟨nonempty, count⟩, summed⟩ := size
  have positive : 0 < b.records.length := Nat.pos_of_ne_zero nonempty
  have few : b.records.length ≤ 65536 := count
  have last := (validOffsetRange_iff positive (by omega)).1 range
  rw [maxOffset_toNat] at last
  refine ⟨topic, positive, count, range, fun index r found => ?_, ?_⟩
  · obtain ⟨sameTopic, samePartition, offset⟩ := ordered index r found
    obtain ⟨headerCount, names, fits⟩ := sized r (List.mem_of_getElem? found)
    have inside : index < b.records.length := (List.getElem?_eq_some_iff.1 found).1
    have place : r.offset.toNat = b.baseOffset.toNat + index := by
      rw [offset, UInt64.toNat_add, toNat_ofNat64 (by omega), Nat.mod_eq_of_lt (by omega)]
    have above : b.baseOffset ≤ r.offset := UInt64.le_iff_toNat_le.2 (by omega)
    refine ⟨sameTopic, samePartition, offset,
      Record.valid_of_size headerCount names fits above ?_ ?_⟩
    · rw [UInt64.le_iff_toNat_le, UInt64.toNat_sub_of_le _ _ above, place]
      simp only [UInt64.reduceToNat]
      omega
    · rw [UInt64.le_iff_toNat_le, place, maxOffset_toNat]
      omega
  · have start : (batchHeaderBytes.toUInt64 + 4 : UInt64).toNat = 52 := by decide
    have sum := recordsEncodedBytes_sum (fun r mem => ?_) summed
    · rw [UInt64.le_iff_toNat_le, sum, start, UInt32.toNat_toUInt64] at small
      rw [b.total_eq]
      exact small
    · obtain ⟨headerCount, names, fits⟩ := sized r mem
      have bound := (inMemory r mem).encodedBytes_lt
      exact ⟨(recordEncodedBytes_eq_ok bound).2 ⟨headerCount, names, rfl⟩, bound⟩

/-- What the writer predicts is what the encoder writes, and what it predicts is written. -/
structure PredictsSizes : Prop where
  record : ∀ (r : Record) (base : UInt64) (bs : Bytes), encodeRecord r base = .ok bs →
    ∃ n, recordEncodedBytes r = .ok n ∧ n.toNat = bs.length
  batch : ∀ (b : RecordBatch) (bs : Bytes), encodeBatch b = .ok bs →
    ∃ n, batchEncodedBytes b.records = .ok n ∧ n.toNat = bs.length
  encodes : ∀ b : RecordBatch, b.topic ≠ 0 → (∀ r ∈ b.records, r.InMemory) → b.Ordered →
    validOffsetRange b.baseOffset (.ofNat b.records.length) → b.Predicted →
      ∃ bs, encodeBatch b = .ok bs

/-- Where sizes are predicted they are exact, for records and for batches, and a predicted batch is
encoded. -/
theorem sizes_predicted : PredictsSizes where
  record r base bs encoded := by
    obtain ⟨valid, rfl⟩ := Record.encode_eq_ok.1 encoded
    have limit : 4 + (r.tail base).length ≤ 16777216 := valid.size
    refine ⟨_, recordEncodedBytes_of_valid valid, toNat_ofNat64 ?_⟩
    rw [Record.length_bytes]
    omega
  batch b bs encoded := by
    obtain ⟨valid, rfl⟩ := RecordBatch.encode_eq_ok.1 encoded
    have limit : b.total ≤ 67108864 := valid.size
    refine ⟨_, batchEncodedBytes_of_valid valid, ?_⟩
    rw [RecordBatch.length_bytes, toNat_ofNat64 (by omega)]
  encodes b topic inMemory ordered range predicted :=
    ⟨b.bytes, RecordBatch.encode_eq_ok.2 ⟨predicted.valid topic inMemory ordered range, rfl⟩⟩

namespace OneRecord

/-- A record with a null value and one header. -/
def record : Record :=
  { topic := 5, partition := 0, offset := 7, timestamp := 3, key := some [1], value := none
    headers := [⟨[97], none⟩] }

def batch : RecordBatch :=
  { topic := 5, partition := 0, baseOffset := 7, records := [record] }

theorem ordered : batch.Ordered := by
  intro index r found
  obtain ⟨inside, rfl⟩ := List.getElem?_eq_some_iff.1 found
  obtain rfl : index = 0 := Nat.lt_one_iff.1 inside
  exact ⟨rfl, rfl, rfl⟩

theorem predicted : batch.Predicted where
  records := List.forall_mem_singleton.2 ⟨46, by decide +kernel, by decide⟩
  batch := ⟨98, by decide +kernel, by decide⟩

/-- The sample is encoded, as predicted. -/
theorem batch_encoded : ∃ bs, encodeBatch batch = .ok bs :=
  sizes_predicted.encodes batch (by decide)
    (List.forall_mem_singleton.2 (by unfold Record.InMemory; decide)) ordered (by decide) predicted

end OneRecord

/-! ## Fetch options -/

/-- Waiting for data is not part of a fetch. -/
structure FetchOptions where
  maxRecords : UInt32
  maxBytes : UInt64
  deriving DecidableEq, Repr

structure FetchResult where
  records : List Record
  nextOffset : UInt64
  deriving DecidableEq

def defaultFetchRecords : UInt32 := 1024
def defaultFetchBytes : UInt64 := 4 * 1024 * 1024
def maxFetchBytes : UInt64 := maxBatchBytes.toUInt64

def normalizeFetchOptions (options : FetchOptions) : Except GoError FetchOptions := do
  let maxRecords := if options.maxRecords = 0 then defaultFetchRecords else options.maxRecords
  failIf (maxBatchRecords < maxRecords)
    (.join [.ofKind .errInvalidArgument,
      .new s!"fetch record limit {maxRecords} exceeds {maxBatchRecords}"])
  let maxBytes := if options.maxBytes = 0 then defaultFetchBytes else options.maxBytes
  failIf (maxFetchBytes < maxBytes)
    (.join [.ofKind .errInvalidArgument,
      .new s!"fetch byte limit {maxBytes} exceeds {maxFetchBytes}"])
  return { maxRecords, maxBytes }

/-- The first record alone exceeds the byte limit. -/
def fetchLimitTooSmall (offset recordBytes maxBytes : UInt64) : GoError :=
  .join [.ofKind .errFetchLimitTooSmall,
    .new s!"record at offset {offset} needs {recordBytes} bytes, limit is {maxBytes}"]

/-- A result with the bytes it counts. -/
structure FetchState where
  result : FetchResult
  bytes : UInt64
  deriving DecidableEq

def FetchState.push (s : FetchState) (record : Record) (recordBytes : UInt64) : FetchState :=
  { result := { records := s.result.records ++ [record], nextOffset := record.offset + 1 }
    bytes := s.bytes + recordBytes }

def FetchState.start (offset : UInt64) : FetchState :=
  { result := { records := [], nextOffset := offset }, bytes := 0 }

/-! ## The cache -/

def maxTailSlots : UInt32 := 256
def maxTailBytes : UInt64 := 256 * 1024 * 1024

structure DeliveredBatch where
  topic : TopicID
  partition : UInt32
  base : UInt64
  endOffset : UInt64
  durableEnd : UInt64
  bytes : UInt64
  records : List Record
  deriving DecidableEq

/-- A ring of slots; `count` of them are in use from `head` on. -/
structure PartitionTail where
  slots : List (Option DeliveredBatch)
  head : Nat
  count : Nat
  bytes : UInt64
  limit : UInt64
  closed : Bool
  deriving DecidableEq

/-- A partition without tail options has no tail. -/
def newPartitionTail (tailSlots : UInt32) (tailBytes : UInt64) :
    Except GoError (Option PartitionTail) :=
  if tailSlots = 0 ∧ tailBytes = 0 then return none
  else do
    failIf (tailSlots = 0 ∨ tailBytes = 0)
      (invalidArgument .errInvalidBatch "tail slots and bytes must be configured together")
    failIf (maxTailSlots < tailSlots ∨ maxTailBytes < tailBytes)
      (.join [.ofKind .errResourceLimit, .new "tail configuration exceeds runtime limits"])
    return some
      { slots := List.replicate tailSlots.toNat none
        head := 0
        count := 0
        bytes := 0
        limit := tailBytes
        closed := false }

/-- The bytes of the records, when they are the records of one batch. -/
def deliveredBytes (topic : TopicID) (partition : UInt32) (base : UInt64) :
    Nat → List Record → UInt64 → Option UInt64
  | _, [], bytes => some bytes
  | index, record :: rest, bytes =>
      if record.topic ≠ topic ∨ record.partition ≠ partition ∨
          record.offset ≠ base + .ofNat index then none
      else
        match (do checkedAdd bytes (← recordEncodedBytes record) : Except GoError UInt64) with
        | .ok bytes => deliveredBytes topic partition base (index + 1) rest bytes
        | .error _ => none

def newDeliveredBatch (topic : TopicID) (partition : UInt32) (records : List Record)
    (durableEnd : UInt64) : Option DeliveredBatch :=
  match records with
  | [] => none
  | first :: _ =>
      let base := first.offset
      let endOffset := base + .ofNat records.length
      if maxBatchRecords.toNat < records.length ∨
          ¬ validOffsetRange base (.ofNat records.length) ∨ durableEnd < endOffset then none
      else (deliveredBytes topic partition base 0 records 0).map fun bytes =>
        { topic, partition, base, endOffset, durableEnd, bytes, records }

namespace PartitionTail

/-- The slot `index` places behind the head. -/
def slotAt (tail : PartitionTail) (index : Nat) : Option DeliveredBatch :=
  (tail.slots[(tail.head + index) % tail.slots.length]?).join

/-- The loop of `evictionPlan`: how many batches have to go, and their bytes. -/
def planEvictions (tail : PartitionTail) (incoming : UInt64) :
    Nat → Nat → UInt64 → UInt64 → Option (Nat × UInt64)
  | 0, evictions, bytes, removed =>
      if tail.slots.length = 0 ∨ tail.limit - incoming < bytes then none
      else some (evictions, removed)
  | count + 1, evictions, bytes, removed =>
      if count + 1 = tail.slots.length ∨ tail.limit - incoming < bytes then
        match tail.slotAt evictions with
        | none => none
        | some batch =>
            if bytes < batch.bytes then none
            else tail.planEvictions incoming count (evictions + 1) (bytes - batch.bytes)
              (removed + batch.bytes)
      else some (evictions, removed)

def evictionPlan (tail : PartitionTail) (incoming : UInt64) : Option (Nat × UInt64) :=
  if tail.limit < incoming ∨ tail.slots.length = 0 then none
  else tail.planEvictions incoming tail.count 0 tail.bytes 0

/-- Drop the oldest batch. -/
def evictOne (tail : PartitionTail) : PartitionTail :=
  { tail with
    slots := tail.slots.set tail.head none
    head := (tail.head + 1) % tail.slots.length
    count := tail.count - 1
    bytes := tail.bytes - ((tail.slotAt 0).elim 0 DeliveredBatch.bytes) }

def evict (tail : PartitionTail) : Nat → PartitionTail
  | 0 => tail
  | count + 1 => (tail.evictOne).evict count

/-- Put a batch behind the last one. -/
def insert (tail : PartitionTail) (batch : DeliveredBatch) : PartitionTail :=
  { tail with
    slots := tail.slots.set ((tail.head + tail.count) % tail.slots.length) (some batch)
    count := tail.count + 1
    bytes := tail.bytes + batch.bytes }

/-- `free` tells that neither the tail's lock nor the shared budget refuses the offer. -/
def offer (tail : PartitionTail) (free : Bool) (topic : TopicID) (partition : UInt32)
    (records : List Record) (durableEnd : UInt64) : PartitionTail :=
  if free = false ∨ tail.closed = true then tail
  else
    match newDeliveredBatch topic partition records durableEnd with
    | none => tail
    | some batch =>
        match tail.evictionPlan batch.bytes with
        | none => tail
        | some (evictions, _) => (tail.evict evictions).insert batch

/-- `close` and `clear` drop every cached batch. -/
def emptied (tail : PartitionTail) : PartitionTail :=
  { tail with slots := tail.slots.map fun _ => none, head := 0, count := 0, bytes := 0 }

def close (tail : PartitionTail) : PartitionTail :=
  if tail.closed then tail else { tail.emptied with closed := true }

def clear (tail : PartitionTail) : PartitionTail :=
  if tail.closed = true ∨ tail.count = 0 then tail else tail.emptied

end PartitionTail

/-! ## Fetching from the cache -/

/-- The records stand at their positions of the batch. -/
def deliveredRecordsMatch (topic : TopicID) (partition : UInt32) (base : UInt64) :
    Nat → List Record → Bool
  | _, [] => true
  | index, record :: rest =>
      decide (record.topic = topic ∧ record.partition = partition ∧
        record.offset = base + .ofNat index) &&
        deliveredRecordsMatch topic partition base (index + 1) rest

def validDeliveredBatch (batch : DeliveredBatch) (topic : TopicID) (partition : UInt32)
    (offset durableEnd : UInt64) : Prop :=
  batch.topic = topic ∧ batch.partition = partition ∧ batch.base ≤ offset ∧
    offset < batch.endOffset ∧ batch.endOffset ≤ batch.durableEnd ∧
    batch.durableEnd ≤ durableEnd ∧ batch.records.length ≠ 0 ∧
    batch.records.length ≤ maxBatchRecords.toNat ∧
    validOffsetRange batch.base (.ofNat batch.records.length) ∧
    batch.endOffset = batch.base + .ofNat batch.records.length ∧
    deliveredRecordsMatch topic partition batch.base 0 batch.records = true

instance (batch : DeliveredBatch) (topic : TopicID) (partition : UInt32)
    (offset durableEnd : UInt64) :
    Decidable (validDeliveredBatch batch topic partition offset durableEnd) :=
  inferInstanceAs (Decidable (_ ∧ _))

namespace PartitionTail

/-- The loop over the records of a cached batch; `none` is a miss. -/
def fetchRecords (options : FetchOptions) :
    List Record → FetchState → Option (Except GoError FetchResult)
  | [], s => some (.ok s.result)
  | record :: rest, s =>
      match recordEncodedBytes record with
      | .error _ => none
      | .ok recordBytes =>
          if options.maxRecords ≤ .ofNat s.result.records.length then some (.ok s.result)
          else if options.maxBytes - s.bytes < recordBytes then
            if s.result.records = [] then
              some (.error (fetchLimitTooSmall record.offset recordBytes options.maxBytes))
            else some (.ok s.result)
          else fetchRecords options rest (s.push record recordBytes)

/-- The first slot whose batch contains the offset answers. -/
def fetchSlots (topic : TopicID) (partition : UInt32) (offset durableEnd : UInt64)
    (options : FetchOptions) :
    List (Option DeliveredBatch) → Option (Except GoError FetchResult)
  | [] => none
  | none :: rest => fetchSlots topic partition offset durableEnd options rest
  | some batch :: rest =>
      if validDeliveredBatch batch topic partition offset durableEnd then
        fetchRecords options (batch.records.drop (offset - batch.base).toNat) (.start offset)
      else fetchSlots topic partition offset durableEnd options rest

/-- `free` tells that the tail's lock is not taken; `none` is a miss. -/
def fetch (tail : PartitionTail) (free : Bool) (topic : TopicID) (partition : UInt32)
    (offset durableEnd : UInt64) (options : FetchOptions) : Option (Except GoError FetchResult) :=
  if free = false ∨ tail.closed = true then none
  else fetchSlots topic partition offset durableEnd options tail.slots

end PartitionTail

/-! ## What a hit returns -/

/-- The result with more records, the next offset behind the last of them. -/
def FetchResult.extend (r : FetchResult) (taken : List Record) : FetchResult :=
  { records := r.records ++ taken
    nextOffset := taken.getLast?.elim r.nextOffset fun record => record.offset + 1 }

@[simp] theorem FetchResult.extend_nil (r : FetchResult) : r.extend [] = r := by
  simp [extend]

theorem FetchState.push_extend (s : FetchState) (record : Record) (recordBytes : UInt64)
    (taken : List Record) :
    (s.push record recordBytes).result.extend taken = s.result.extend (record :: taken) := by
  cases h : taken.getLast? <;> simp [push, FetchResult.extend, List.getLast?_cons, h]

namespace PartitionTail

/-- A hit returns a front of the records. -/
theorem fetchRecords_extend {options : FetchOptions} {records : List Record} {s : FetchState}
    {result : FetchResult} (hit : fetchRecords options records s = some (.ok result)) :
    ∃ taken, taken <+: records ∧ result = s.result.extend taken := by
  induction records generalizing s with
  | nil => exact ⟨[], List.nil_prefix, by simpa [fetchRecords, eq_comm] using hit⟩
  | cons record rest ih =>
      unfold fetchRecords at hit
      split at hit
      · simp at hit
      · rename_i recordBytes _
        split_ifs at hit
        · exact ⟨[], List.nil_prefix, by simpa [eq_comm] using hit⟩
        · simp at hit
        · exact ⟨[], List.nil_prefix, by simpa [eq_comm] using hit⟩
        · obtain ⟨taken, front, rfl⟩ := ih hit
          exact ⟨record :: taken, List.cons_prefix_cons.2 ⟨rfl, front⟩, s.push_extend ..⟩

/-- Everything cached satisfies `P`. -/
def Holds (tail : PartitionTail) (P : DeliveredBatch → Prop) : Prop :=
  ∀ batch, some batch ∈ tail.slots → P batch

/-- A hit is answered from one cached batch that contains the offset. -/
theorem fetch_answer {tail : PartitionTail} {P : DeliveredBatch → Prop} (holds : tail.Holds P)
    {free : Bool} {topic : TopicID} {partition : UInt32} {offset durableEnd : UInt64}
    {options : FetchOptions} {answer : Except GoError FetchResult}
    (hit : tail.fetch free topic partition offset durableEnd options = some answer) :
    ∃ batch, P batch ∧ validDeliveredBatch batch topic partition offset durableEnd ∧
      fetchRecords options (batch.records.drop (offset - batch.base).toNat) (.start offset) =
        some answer := by
  unfold fetch at hit
  split at hit
  · simp at hit
  have general : ∀ slots : List (Option DeliveredBatch), (∀ batch, some batch ∈ slots → P batch) →
      fetchSlots topic partition offset durableEnd options slots = some answer →
      ∃ batch, P batch ∧ validDeliveredBatch batch topic partition offset durableEnd ∧
        fetchRecords options (batch.records.drop (offset - batch.base).toNat) (.start offset) =
          some answer := by
    intro slots
    induction slots with
    | nil => simp [fetchSlots]
    | cons slot slots ih =>
        intro all answered
        have later := ih fun batch mem => all batch (List.mem_cons_of_mem _ mem)
        cases slot with
        | none => exact later answered
        | some batch =>
            unfold fetchSlots at answered
            split at answered
            · rename_i valid
              exact ⟨batch, all batch List.mem_cons_self, valid, answered⟩
            · exact later answered
  exact general tail.slots holds hit

/-- A hit returns consecutive records of one cached batch from the offset on. -/
theorem fetch_hit {tail : PartitionTail} {P : DeliveredBatch → Prop} (holds : tail.Holds P)
    {free : Bool} {topic : TopicID} {partition : UInt32} {offset durableEnd : UInt64}
    {options : FetchOptions} {result : FetchResult}
    (hit : tail.fetch free topic partition offset durableEnd options = some (.ok result)) :
    ∃ batch, P batch ∧ validDeliveredBatch batch topic partition offset durableEnd ∧
      ∃ taken, taken <+: batch.records.drop (offset - batch.base).toNat ∧
        result = (FetchState.start offset).result.extend taken := by
  obtain ⟨batch, held, valid, answered⟩ := fetch_answer holds hit
  exact ⟨batch, held, valid, fetchRecords_extend answered⟩

theorem Holds.mono {tail : PartitionTail} {P Q : DeliveredBatch → Prop} (holds : tail.Holds P)
    (implies : ∀ batch, P batch → Q batch) : tail.Holds Q :=
  fun batch mem => implies batch (holds batch mem)

/-- Eviction keeps what holds of all cached batches. -/
theorem evict_holds {tail : PartitionTail} {P : DeliveredBatch → Prop} (holds : tail.Holds P)
    (count : Nat) : (tail.evict count).Holds P := by
  induction count generalizing tail with
  | zero => exact holds
  | succ count ih =>
      refine ih fun batch mem => ?_
      rcases List.mem_or_eq_of_mem_set mem with old | new
      · exact holds batch old
      · cases new

theorem newDeliveredBatch_records {topic : TopicID} {partition : UInt32} {records : List Record}
    {durableEnd : UInt64} {batch : DeliveredBatch}
    (made : newDeliveredBatch topic partition records durableEnd = some batch) :
    batch.records = records := by
  unfold newDeliveredBatch at made
  split at made
  · simp at made
  · dsimp only at made
    split at made
    · simp at made
    · obtain ⟨bytes, _, rfl⟩ := Option.map_eq_some_iff.1 made
      rfl

/-- An offer caches the offered records or changes nothing that a hit could return. -/
theorem offer_holds {tail : PartitionTail} {P : DeliveredBatch → Prop} (holds : tail.Holds P)
    {free : Bool} {topic : TopicID} {partition : UInt32} {records : List Record}
    {durableEnd : UInt64} (offered : ∀ batch, batch.records = records → P batch) :
    (tail.offer free topic partition records durableEnd).Holds P := by
  unfold offer
  split
  · exact holds
  · split
    · exact holds
    · rename_i batch made
      split
      · exact holds
      · rename_i evictions _ _
        intro other mem
        rcases List.mem_or_eq_of_mem_set mem with old | new
        · exact evict_holds holds evictions other old
        · obtain rfl := Option.some.inj new
          exact offered other (newDeliveredBatch_records made)

theorem emptied_holds (tail : PartitionTail) (P : DeliveredBatch → Prop) :
    tail.emptied.Holds P := by
  intro batch mem
  obtain ⟨_, _, wrong⟩ := List.mem_map.1 mem
  cases wrong

theorem clear_holds {tail : PartitionTail} {P : DeliveredBatch → Prop} (holds : tail.Holds P) :
    tail.clear.Holds P := by
  unfold clear
  split
  · exact holds
  · exact emptied_holds tail P

theorem close_holds {tail : PartitionTail} {P : DeliveredBatch → Prop} (holds : tail.Holds P) :
    tail.close.Holds P := by
  unfold close
  split
  · exact holds
  · exact emptied_holds tail P

/-- A new tail is empty. -/
theorem new_holds {tailSlots : UInt32} {tailBytes : UInt64} {tail : PartitionTail}
    {P : DeliveredBatch → Prop} (made : newPartitionTail tailSlots tailBytes = .ok (some tail)) :
    tail.Holds P := by
  unfold newPartitionTail at made
  split at made
  · simp at made
  · simp only [bind_eq_ok, failIf_eq_ok, exists_const, pure_eq_ok, Except.ok.injEq,
      Option.some.injEq] at made
    obtain ⟨_, _, rfl⟩ := made
    intro batch mem
    cases (List.mem_replicate.1 mem).2

end PartitionTail

end Immulog
