import Immulog.Appending
import Immulog.Config
import Immulog.Running

/-!
The terminal writer (`writeIngressBatches` of `src/storage/ingress.go`, the requests of
`src/storage/writer.go`).

Admitted requests are gathered into groups by their predicted sizes, and every group is one
batch of the log.  A run is taken apart into the writes of its groups; what the requests are
told, what is in the log and what a fault leaves is then said once for a write and once for
all of them.
-/

namespace Immulog

open Lib

/-! ## Requests -/

/-- `api.AppendRequest`.  What it holds lies in the memory of one process. -/
structure AppendInput where
  topic : TopicID
  partition : UInt32
  key : Option Bytes
  value : Option Bytes
  headers : List Header
  inMemory : (key.getD []).length + (value.getD []).length +
    (headers.flatMap Header.bytes).length < 2 ^ 63

def requestDescriptorBytes : UInt64 := 128

/-- The record of a request, with the time of its admission. -/
def copyRequest (p : Partition) (request : AppendInput) (timestamp : Int64) : Record :=
  { topic := p.topic
    partition := p.partition
    offset := 0
    timestamp
    key := request.key
    value := request.value
    headers := request.headers }

/-- The bytes that a request takes of the admission budget. -/
def requestCharge (p : Partition) (request : AppendInput) : Except GoError UInt64 := do
  failIf (request.topic ≠ p.topic ∨ request.partition ≠ p.partition)
    (.join [.ofKind .errInvalidArgument, .new "append request does not match partition"])
  let recordBytes ← recordEncodedBytes (copyRequest p request 0)
  failIf (p.options.recordBytes.toUInt64 < recordBytes)
    (.join [.ofKind .errRecordTooLarge, .new "append request exceeds configured record limit"])
  let batchBytes ← checkedAdd (batchHeaderBytes.toUInt64 + 4) recordBytes
  failIf (p.options.batchBytes.toUInt64 < batchBytes)
    (.join [.ofKind .errRecordTooLarge, .new "append request exceeds configured batch limit"])
  checkedAdd requestDescriptorBytes recordBytes

/-- `appendRequest`; the identity stands for the pointer. -/
structure AppendRequest where
  id : Nat
  record : Record
  charge : UInt64
  deriving DecidableEq

/-- What a caller of `Append` has handed over to the writer. -/
def AppendRequest.Admitted (p : Partition) (r : AppendRequest) : Prop :=
  ∃ input timestamp, requestCharge p input = .ok r.charge ∧ r.record = copyRequest p input timestamp

/-- A call of `complete`: the request and what it is told. -/
abbrev Completion := AppendRequest × Except GoError Record

/-- The calls of `complete` at the end of `writeRequests`. -/
def completions (requests : List AppendRequest) : Except GoError (List Record) → List Completion
  | .error e => requests.map fun request => (request, .error e)
  | .ok records => (requests.zip records).map fun told => (told.1, .ok told.2)

/-- The completed requests that were told a record. -/
def successes (completed : List Completion) : List (AppendRequest × Record) :=
  completed.filterMap fun c => c.2.toOption.map fun record => (c.1, record)

theorem successes_append (first second : List Completion) :
    successes (first ++ second) = successes first ++ successes second :=
  List.filterMap_append

theorem successes_completions_ok (requests : List AppendRequest) (records : List Record) :
    successes (completions requests (.ok records)) = requests.zip records := by
  simp [successes, completions, Except.toOption]

theorem successes_completions_error (requests : List AppendRequest) (e : GoError) :
    successes (completions requests (.error e)) = [] := by
  simp [successes, completions, Except.toOption]

/-! ## The loop -/

/-- The variables of the loop, the calls of `complete` so far and the number of groups
written. -/
structure IngressState where
  partition : Partition
  batch : List AppendRequest
  batchBytes : UInt64
  completed : List Completion
  writes : Nat

def IngressState.start (p : Partition) : IngressState :=
  { partition := p, batch := [], batchBytes := batchHeaderBytes.toUInt64 + 4, completed := []
    writes := 0 }

/-- The request does not fit behind those of the group. -/
def IngressState.Full (s : IngressState) (recordBytes : UInt64) : Prop :=
  s.batch ≠ [] ∧ (UInt32.ofNat s.batch.length = s.partition.options.batchRecords ∨
    s.partition.options.batchBytes.toUInt64 < s.batchBytes + recordBytes)

instance (s : IngressState) (recordBytes : UInt64) : Decidable (s.Full recordBytes) := by
  have : Decidable (s.batch ≠ []) :=
    decidable_of_iff (s.batch.isEmpty = false) (by cases s.batch <;> simp)
  unfold IngressState.Full
  infer_instance

/-- The group is written and its requests are completed; the next one begins. -/
def IngressState.next (s : IngressState) (p : Partition) (outcome : Except GoError (List Record)) :
    IngressState :=
  { partition := p
    batch := []
    batchBytes := batchHeaderBytes.toUInt64 + 4
    completed := s.completed ++ completions s.batch outcome
    writes := s.writes + 1 }

/-- Write the group.  `draws` holds, for every write, the identity of a new segment and
whether the tail is free. -/
def IngressState.write (draws : Nat → SegmentID × Bool) (s : IngressState) : DirM IngressState := do
  let (p, outcome) ← writeRequests s.partition (s.batch.map AppendRequest.record)
    (draws s.writes).1 (draws s.writes).2
  return s.next p outcome

/-- Write the group in front of a request that does not fit. -/
def IngressState.makeRoom (draws : Nat → SegmentID × Bool) (s : IngressState)
    (recordBytes : UInt64) : DirM IngressState :=
  if s.Full recordBytes then s.write draws else pure s

/-- The request goes into the group. -/
def IngressState.push (s : IngressState) (request : AppendRequest) (recordBytes : UInt64) :
    IngressState :=
  { s with batch := s.batch ++ [request], batchBytes := s.batchBytes + recordBytes }

/-- `writeIngressBatches`, the loop over the requests. -/
def gatherRequests (draws : Nat → SegmentID × Bool) :
    List AppendRequest → IngressState → DirM IngressState
  | [], s => return s
  | request :: rest, s =>
      match recordEncodedBytes request.record with
      | .error e =>
          gatherRequests draws rest { s with completed := s.completed ++ [(request, .error e)] }
      | .ok recordBytes => do
          let s ← s.makeRoom draws recordBytes
          gatherRequests draws rest (s.push request recordBytes)

/-- `writeIngressBatches`, the group behind the loop. -/
def IngressState.finish (draws : Nat → SegmentID × Bool) (s : IngressState) : DirM IngressState :=
  if s.batch.isEmpty then pure s else s.write draws

/-- The partition behind the writes, and the calls of `complete`. -/
def writeIngressBatches (p : Partition) (requests : List AppendRequest)
    (draws : Nat → SegmentID × Bool) : DirM (Partition × List Completion) := do
  let s ← gatherRequests draws requests (.start p)
  let s ← s.finish draws
  return (s.partition, s.completed)

/-! ## Limits -/

/-- Limits of a writer that a valid configuration gives. -/
structure PartitionOptions.Sound (options : PartitionOptions) : Prop where
  record : options.recordBytes.toNat ≤ maxRecordBytes.toNat
  batch : options.batchBytes.toNat ≤ maxBatchBytes.toNat
  positive : 0 < options.batchRecords.toNat
  records : options.batchRecords.toNat ≤ maxBatchRecords.toNat
  segment : segmentHeaderBytes.toNat + options.batchBytes.toNat ≤ options.segmentBytes.toNat

/-- The options follow a configuration. -/
structure PartitionOptions.Follows (options : PartitionOptions) (config : PartitionConfigV1) :
    Prop where
  segment : options.segmentBytes = config.segmentMaxBytes
  batch : options.batchBytes = config.maxBatchBytes
  records : options.batchRecords = config.maxBatchRecords
  record : options.recordBytes = config.maxRecordBytes

/-- Configurations that were checked give sound options. -/
theorem PartitionOptions.Follows.sound {options : PartitionOptions} {config : PartitionConfigV1}
    {system : Bool} (follows : options.Follows config) (valid : config.validate system = .ok ()) :
    options.Sound := by
  obtain ⟨record, batch, positive, records⟩ := PartitionConfigV1.batch_bounds valid
  have segment := (PartitionConfigV1.segment_bounds valid).1
  refine ⟨?_, ?_, ?_, ?_, ?_⟩
  · rwa [follows.record]
  · rwa [follows.batch]
  · rwa [follows.records]
  · rwa [follows.records]
  · rwa [follows.batch, follows.segment]

/-- A record that the limits of the writer admit. -/
structure PartitionOptions.Admits (options : PartitionOptions) (r : Record) : Prop where
  headerCount : r.headers.length ≤ maxRecordHeaders.toNat
  names : ∀ h ∈ r.headers, validHeaderName h.name
  record : r.encodedBytes ≤ options.recordBytes.toNat
  batch : 52 + r.encodedBytes ≤ options.batchBytes.toNat

theorem PartitionOptions.Admits.size {options : PartitionOptions} {r : Record}
    (admits : options.Admits r) :
    recordEncodedBytes r = .ok (.ofNat r.encodedBytes) ∧ r.encodedBytes < 2 ^ 32 := by
  have small := options.recordBytes.toNat_lt
  have bound := admits.record
  exact ⟨(recordEncodedBytes_eq_ok (by omega)).2 ⟨admits.headerCount, admits.names, rfl⟩, by omega⟩

/-- The writer's limits admit every request that was charged. -/
theorem AppendRequest.Admitted.admits {p : Partition} {r : AppendRequest}
    (admitted : r.Admitted p) : p.options.Admits r.record := by
  obtain ⟨input, timestamp, charged, copied⟩ := admitted
  have memory := input.inMemory
  have size := Record.encodedBytes_eq (copyRequest p input 0)
  have start : (batchHeaderBytes.toUInt64 + 4 : UInt64).toNat = 52 := by decide
  have same : r.record.encodedBytes = (copyRequest p input 0).encodedBytes := by
    rw [copied, Record.encodedBytes_eq, Record.encodedBytes_eq]
    rfl
  have small : (copyRequest p input 0).encodedBytes < 2 ^ 64 := by
    rw [size]
    simp only [copyRequest]
    omega
  simp only [requestCharge, bind_eq_ok, failIf_eq_ok, exists_const, not_or, not_not,
    UInt64.not_lt, recordEncodedBytes_eq_ok small, checkedAdd_eq_ok, start, and_assoc,
    UInt64.le_iff_toNat_le, UInt32.toNat_toUInt64] at charged
  obtain ⟨-, -, n, headerCount, names, rfl, record, total, sum, batch, -⟩ := charged
  rw [toNat_ofNat64 small] at record sum
  refine ⟨?_, ?_, ?_, ?_⟩
  · rwa [copied]
  · rwa [copied]
  · rwa [same]
  · rw [same, ← sum]
    exact batch

/-! ## Groups -/

/-- A group that is written as one batch. -/
structure PartitionOptions.Groups (options : PartitionOptions) (group : List Record) : Prop where
  nonempty : group ≠ []
  few : group.length ≤ options.batchRecords.toNat
  small : 52 + encodedBytes group ≤ options.batchBytes.toNat
  admitted : ∀ r ∈ group, options.Admits r

/-- The record at its place in the log. -/
def Partition.place (p : Partition) (offset : UInt64) (r : Record) : Record :=
  { r with topic := p.topic, partition := p.partition, offset }

theorem Partition.encodedBytes_place (p : Partition) (offset : UInt64) (r : Record) :
    (p.place offset r).encodedBytes = r.encodedBytes := by
  rw [Record.encodedBytes_eq, Record.encodedBytes_eq]
  rfl

theorem formBatch_records (p : Partition) (records : List Record) :
    (formBatch p records).records =
      records.mapIdx fun index r => p.place (p.logEnd + .ofNat index) r :=
  rfl

theorem length_formBatch (p : Partition) (records : List Record) :
    (formBatch p records).records.length = records.length := by
  rw [formBatch_records, List.length_mapIdx]

theorem getElem?_formBatch {p : Partition} {records : List Record} {index : Nat} {r : Record}
    (found : (formBatch p records).records[index]? = some r) :
    ∃ given, records[index]? = some given ∧ r = p.place (p.logEnd + .ofNat index) given := by
  rw [formBatch_records, List.getElem?_mapIdx, Option.map_eq_some_iff] at found
  obtain ⟨given, there, rfl⟩ := found
  exact ⟨given, there, rfl⟩

theorem total_formBatch (p : Partition) (records : List Record) :
    (formBatch p records).total = 52 + encodedBytes records := by
  have sizes : ((formBatch p records).records.map Record.encodedBytes) =
      records.map Record.encodedBytes := by
    refine List.ext_getElem? fun index => ?_
    rw [formBatch_records, List.getElem?_map, List.getElem?_mapIdx, List.getElem?_map,
      Option.map_map]
    exact congrArg (Option.map · _) (funext fun r => p.encodedBytes_place _ r)
  rw [RecordBatch.total_eq, encodedBytes, encodedBytes, sizes]

/-- What the encoder checks of a record, but for its offset, is checked at admission. -/
theorem PartitionOptions.Admits.valid {options : PartitionOptions} {r : Record} {base : UInt64}
    (sound : options.Sound) (admits : options.Admits r) (above : base ≤ r.offset)
    (delta : r.offset - base ≤ 0xFFFFFFFF) (range : r.offset ≤ maxOffset) : r.Valid base :=
  Record.valid_of_size admits.headerCount admits.names (admits.record.trans sound.record)
    above delta
    range

/-- The error of a batch that would go beyond the last offset. -/
def offsetRangeError : GoError :=
  invalidArgument .errInvalidBatch "batch offset range is outside v1 limits"

section Formed

variable {p : Partition} {group : List Record}

theorem PartitionOptions.Groups.length_pos {options : PartitionOptions}
    (groups : options.Groups group) : 0 < group.length :=
  List.length_pos_iff.2 groups.nonempty

theorem PartitionOptions.Groups.length_le {options : PartitionOptions} (sound : options.Sound)
    (groups : options.Groups group) : group.length ≤ 65536 :=
  groups.few.trans sound.records

/-- A group within the limits forms a valid batch. -/
theorem formBatch_valid (sound : p.options.Sound) (topic : p.topic ≠ 0)
    (groups : p.options.Groups group)
    (space : p.logEnd.toNat + group.length ≤ maxOffset.toNat) : (formBatch p group).Valid := by
  have positive := groups.length_pos
  have few := groups.length_le sound
  rw [maxOffset_toNat] at space
  refine ⟨topic, ?_, ?_, ?_, fun index r found => ?_, ?_⟩
  · rw [length_formBatch]
    exact positive
  · rw [length_formBatch]
    exact few
  · rw [length_formBatch]
    refine (validOffsetRange_iff positive (by omega)).2 ?_
    rw [maxOffset_toNat]
    exact space
  · obtain ⟨given, there, rfl⟩ := getElem?_formBatch found
    have inside : index < group.length := (List.getElem?_eq_some_iff.1 there).1
    have admits := groups.admitted given (List.mem_of_getElem? there)
    have placed : p.options.Admits (p.place (p.logEnd + .ofNat index) given) := by
      refine ⟨admits.headerCount, admits.names, ?_, ?_⟩
      · rw [p.encodedBytes_place]
        exact admits.record
      · rw [p.encodedBytes_place]
        exact admits.batch
    have offset : (p.logEnd + .ofNat index : UInt64).toNat = p.logEnd.toNat + index := by
      rw [UInt64.toNat_add, toNat_ofNat64 (by omega), Nat.mod_eq_of_lt (by omega)]
    have delta : (p.logEnd + .ofNat index) - p.logEnd = (.ofNat index : UInt64) := by
      grind
    refine ⟨rfl, rfl, rfl, placed.valid sound ?_ ?_ ?_⟩
    · change p.logEnd ≤ p.logEnd + .ofNat index
      rw [UInt64.le_iff_toNat_le, offset]
      omega
    · change (p.logEnd + .ofNat index) - p.logEnd ≤ 0xFFFFFFFF
      rw [delta, UInt64.le_iff_toNat_le, toNat_ofNat64 (by omega)]
      simp only [UInt64.reduceToNat]
      omega
    · change p.logEnd + .ofNat index ≤ maxOffset
      rw [UInt64.le_iff_toNat_le, offset, maxOffset_toNat]
      omega
  · rw [total_formBatch]
    exact groups.small.trans sound.batch

/-- The writer encodes its batch, unless the offsets run out. -/
theorem encodeFormed_groups (sound : p.options.Sound) (topic : p.topic ≠ 0)
    (available : p.unavailable = false) (groups : p.options.Groups group) :
    (p.logEnd.toNat + group.length ≤ maxOffset.toNat ∧
        encodeFormed p (formBatch p group) = .ok (formBatch p group).bytes) ∨
      (maxOffset.toNat < p.logEnd.toNat + group.length ∧
        encodeFormed p (formBatch p group) = .error offsetRangeError) := by
  have positive := groups.length_pos
  have few := groups.length_le sound
  have isOpen : ¬ p.unavailable = true := by simp [available]
  by_cases space : p.logEnd.toNat + group.length ≤ maxOffset.toNat
  · have encodes := RecordBatch.encode_eq_ok.2 ⟨formBatch_valid sound topic groups space, rfl⟩
    have small : ¬ p.options.batchBytes.toNat < (formBatch p group).bytes.length := by
      rw [RecordBatch.length_bytes, total_formBatch]
      exact Nat.not_lt.2 groups.small
    refine .inl ⟨space, ?_⟩
    simp only [encodeFormed, failIf_of_not isOpen, encodes, ok_bind, failIf_of_not small]
    rfl
  · have count : ¬ ((formBatch p group).topic = 0 ∨ (formBatch p group).records.length = 0 ∨
        maxBatchRecords.toNat < (formBatch p group).records.length) := by
      rw [length_formBatch]
      intro either
      rcases either with zero | empty | many
      · exact topic zero
      · omega
      · exact absurd (many : 65536 < group.length) (Nat.not_lt.2 few)
    have beyond : ¬ validOffsetRange (formBatch p group).baseOffset
        (.ofNat (formBatch p group).records.length) := by
      rw [length_formBatch]
      exact fun range => space ((validOffsetRange_iff positive (by omega)).1 range)
    refine .inr ⟨Nat.lt_of_not_le space, ?_⟩
    simp only [encodeFormed, failIf_of_not isOpen, encodeBatch, failIf_of_not count, ok_bind,
      failIf_of beyond]
    rfl

theorem checkRecordLimits_eq_ok {limit : UInt32} {records : List Record}
    (within : ∀ r ∈ records, recordEncodedBytes r = .ok (.ofNat r.encodedBytes) ∧
      r.encodedBytes ≤ limit.toNat) : checkRecordLimits limit records = .ok () := by
  induction records with
  | nil => rfl
  | cons r records ih =>
      obtain ⟨size, small⟩ := within r List.mem_cons_self
      have bound := limit.toNat_lt
      have fits : ¬ limit.toUInt64 < .ofNat r.encodedBytes := by
        rw [UInt64.lt_iff_toNat_lt, toNat_ofNat64 (by omega), UInt32.toNat_toUInt64]
        omega
      rw [checkRecordLimits, size, ok_bind, failIf_of_not fits, ok_bind]
      exact ih fun x mem => within x (List.mem_cons_of_mem _ mem)

/-- The checks in front of the log pass: an empty segment takes every batch. -/
theorem checkAppend_groups {topic : TopicID} {partition : UInt32} {d : Dir Name}
    {closed : StoredSegments topic partition} {last : List (StoredBatch topic partition)}
    (represents : p.Represents d closed last) (sound : p.options.Sound) (isOpen : p.closed = false)
    (available : p.unavailable = false) (groups : p.options.Groups group) :
    checkAppend p (formBatch p group) (formBatch p group).bytes = .ok () := by
  have positive := groups.length_pos
  have small := groups.small
  have notClosed : ¬ p.closed = true := by simp [isOpen]
  have notFenced : ¬ p.unavailable = true := by simp [available]
  have same : ¬ ((formBatch p group).topic ≠ p.topic ∨
      (formBatch p group).partition ≠ p.partition ∨
      (formBatch p group).baseOffset ≠ p.logEnd) := by
    simp [formBatch]
  have few : ¬ ((formBatch p group).records.length = 0 ∨
      p.options.batchRecords.toNat < (formBatch p group).records.length ∨
      p.options.batchBytes.toNat < (formBatch p group).bytes.length) := by
    rw [length_formBatch, RecordBatch.length_bytes, total_formBatch]
    have := groups.few
    omega
  have limits : checkRecordLimits p.options.recordBytes (formBatch p group).records = .ok () := by
    refine checkRecordLimits_eq_ok fun r mem => ?_
    obtain ⟨index, found⟩ := List.mem_iff_getElem?.1 mem
    obtain ⟨given, there, rfl⟩ := getElem?_formBatch found
    have admits := groups.admitted given (List.mem_of_getElem? there)
    rw [p.encodedBytes_place]
    exact ⟨admits.size.1, admits.record⟩
  have room : ¬ (p.options.segmentBytes.toNat < (formBatch p group).bytes.length + p.active.size ∧
      p.active.records = 0) := by
    intro both
    obtain ⟨data, -, active⟩ := represents.activeFile
    have size := (active.size_of_empty both.2).1
    have segment := sound.segment
    have header : segmentHeaderBytes.toNat = 72 := rfl
    rw [RecordBatch.length_bytes, total_formBatch, size] at both
    omega
  simp only [checkAppend, failIf_of_not notClosed, failIf_of_not notFenced, failIf_of_not same,
    failIf_of_not few, limits, ok_bind, failIf_of_not room]

end Formed

/-! ## One write -/

/-- An open writer over a log, available or fenced. -/
structure Serving {topic : TopicID} {partition : UInt32} (options : PartitionOptions)
    (w : Partition × Dir Name) (closed : StoredSegments topic partition)
    (last : List (StoredBatch topic partition)) : Prop where
  represents : w.1.Represents w.2 closed last
  options_eq : w.1.options = options
  topic_ne : topic ≠ 0
  isOpen : w.1.closed = false

/-- The write of a group, with what was there before and what is there after it. -/
structure GroupWrite where
  requests : List AppendRequest
  before : Partition × Dir Name
  outcome : Except GoError (List Record)
  after : Partition × Dir Name

namespace GroupWrite

def records (g : GroupWrite) : List Record :=
  g.requests.map AppendRequest.record

/-- `writeRequests` with the group, in which any operation may fail. -/
def Made (g : GroupWrite) : Prop :=
  (AppendCall.requests g.records).Steps g.before g.outcome g.after

/-- The calls of `complete` for the group. -/
def completed (g : GroupWrite) : List Completion :=
  completions g.requests g.outcome

/-- A write, a sync or the creation of a segment has failed, and fenced the partition. -/
def Faulted (g : GroupWrite) : Prop :=
  g.before.1.unavailable = false ∧ g.after.1.unavailable = true

/-- The write fails and changes nothing. -/
def Skipped (g : GroupWrite) : Prop :=
  (∃ e, g.outcome = .error e) ∧ g.after = g.before

/-- How the write of a group can end. -/
inductive Ends (g : GroupWrite) : Prop where
  | written : g.before.1.unavailable = false → g.after.1.unavailable = false →
      g.outcome = .ok (formBatch g.before.1 g.records).records →
      g.after.1.logEnd.toNat = g.before.1.logEnd.toNat + g.requests.length →
      g.after.1.logEnd.toNat ≤ maxOffset.toNat → Ends g
  | faulted {e : GoError} : g.Faulted → g.outcome = .error e → e.is .errPartitionUnavailable →
      g.after.1.logEnd = g.before.1.logEnd → Ends g
  | exhausted : g.before.1.unavailable = false →
      maxOffset.toNat < g.before.1.logEnd.toNat + g.requests.length →
      g.outcome = .error offsetRangeError → g.after = g.before → Ends g
  /-- The partition was fenced by an earlier group. -/
  | refused : g.before.1.unavailable = true →
      g.outcome = .error (.ofKind .errPartitionUnavailable) → g.after = g.before → Ends g

end GroupWrite

theorem requestError_unavailable {e : GoError} (unavailable : e.is .errPartitionUnavailable) :
    (requestError e).is .errPartitionUnavailable := by
  unfold requestError
  split
  · exact List.mem_cons_self
  · exact unavailable

theorem requestError_offsetRange : requestError offsetRangeError = offsetRangeError :=
  if_neg fun both => absurd both.1 (by decide)

section Write

variable {topic : TopicID} {partition : UInt32} {options : PartitionOptions}
  {closed : StoredSegments topic partition} {last : List (StoredBatch topic partition)}
  {g : GroupWrite}

theorem Serving.told {p : Partition} {d : Dir Name} (serving : Serving options (p, d) closed last)
    (free : Bool) (records : List Record) (outcome : Except GoError UInt64) :
    Serving options (p.told free records outcome, d) closed last := by
  cases outcome with
  | error e => exact serving
  | ok offset =>
      exact ⟨serving.represents.publishTail free records p.logEnd, serving.options_eq,
        serving.topic_ne, serving.isOpen⟩

/-- A write in front of a fenced partition does nothing. -/
theorem GroupWrite.Made.refused (made : g.Made) (fenced : g.before.1.unavailable = true) :
    g.outcome = .error (.ofKind .errPartitionUnavailable) ∧ g.after = g.before := by
  obtain ⟨drawn, free, ran⟩ := made
  have stops : encodeFormed g.before.1 (formBatch g.before.1 g.records) =
      .error (.ofKind .errPartitionUnavailable) := by
    simp only [encodeFormed, failIf_of fenced]
    rfl
  rcases runs_writeRequests ran with ⟨e, refused, same, sameDir⟩ | ⟨formed, -⟩
  · obtain rfl := Except.error.inj (stops.symm.trans refused)
    obtain ⟨sameLog, told⟩ := Prod.mk.inj (Except.ok.inj same)
    exact ⟨told, Prod.ext sameLog sameDir⟩
  · rw [stops] at formed
    cases formed

/-- A group that fails acknowledges nothing. -/
theorem GroupWrite.acknowledges_nothing {e : GoError} (failed : g.outcome = .error e) :
    (successes g.completed).map Prod.snd = [] := by
  rw [GroupWrite.completed, failed, successes_completions_error, List.map_nil]

/-- The write of a group at an available partition; the log grows by what the requests are
told. -/
theorem GroupWrite.Made.available (made : g.Made) (sound : options.Sound)
    (serving : Serving options g.before closed last) (groups : options.Groups g.records)
    (fenced : g.before.1.unavailable = false) :
    g.Ends ∧ ∃ (closed' : StoredSegments topic partition)
      (last' : List (StoredBatch topic partition)), Serving options g.after closed' last' ∧
        logRecords closed' last' =
          logRecords closed last ++ (successes g.completed).map Prod.snd := by
  have optionsEq := serving.options_eq
  subst optionsEq
  have topicNe : g.before.1.topic ≠ 0 := by
    rw [serving.represents.topic_eq]
    exact serving.topic_ne
  have length : g.records.length = g.requests.length := List.length_map ..
  obtain ⟨drawn, free, ran⟩ := made
  rcases runs_writeRequests ran with ⟨e, refused, same, sameDir⟩ |
    ⟨formed, valid, q, result, appends, same⟩
  · rcases encodeFormed_groups sound topicNe fenced groups with ⟨-, ok⟩ | ⟨beyond, failed⟩
    · rw [ok] at refused
      cases refused
    · obtain rfl := Except.error.inj (failed.symm.trans refused)
      obtain ⟨sameLog, told⟩ := Prod.mk.inj (Except.ok.inj same)
      rw [requestError_offsetRange] at told
      have unchanged : g.after = g.before := Prod.ext sameLog sameDir
      refine ⟨.exhausted fenced (length ▸ beyond) told unchanged, closed, last, ?_, ?_⟩
      · rw [unchanged]
        exact serving
      · rw [g.acknowledges_nothing told, List.append_nil]
  · obtain ⟨sameLog, told⟩ := Prod.mk.inj (Except.ok.inj same)
    have passed := checkAppend_groups serving.represents sound serving.isOpen fenced groups
    obtain ⟨sameOptions, sameClosed⟩ := appends.same
    obtain ⟨-, closed', last', represents, grown⟩ :=
      appends.represents valid serving.represents
    have after : Serving g.before.1.options g.after closed' last' := by
      have serving' : Serving g.before.1.options (q, g.after.2) closed' last' :=
        ⟨represents, sameOptions, serving.topic_ne, sameClosed.trans serving.isOpen⟩
      have offered := serving'.told free (formBatch g.before.1 g.records).records result
      rwa [← sameLog] at offered
    rcases appends.ends passed serving.represents.logEnd with
      ⟨rfl, sameFence, moved⟩ | ⟨e, rfl, unavailable, nowFenced, sameEnd⟩
    · have acked : (successes g.completed).map Prod.snd =
          (formBatch g.before.1 g.records).records := by
        rw [GroupWrite.completed, told]
        refine (congrArg _ (successes_completions_ok ..)).trans (List.map_snd_zip ?_)
        rw [length_formBatch, length]
      obtain ⟨stop, inside⟩ := valid.end_toNat
      rw [length_formBatch, length] at stop inside
      have ends : g.after.1.logEnd.toNat = g.before.1.logEnd.toNat + g.requests.length := by
        rw [length_formBatch, length] at moved
        rw [sameLog]
        exact (congrArg UInt64.toNat moved).trans stop
      refine ⟨.written fenced ?_ told ends (ends ▸ inside), closed', last', after, ?_⟩
      · rw [sameLog]
        exact sameFence.trans fenced
      · rw [grown, acked]
        rfl
    · refine ⟨.faulted ⟨fenced, ?_⟩ told (requestError_unavailable unavailable) ?_, closed',
        last', after, ?_⟩
      · rw [sameLog]
        exact nowFenced
      · rw [sameLog]
        exact sameEnd
      · rw [grown, g.acknowledges_nothing told]
        rfl

/-- The write of a group with any faults. -/
theorem GroupWrite.Made.ends (made : g.Made) (sound : options.Sound)
    (serving : Serving options g.before closed last) (groups : options.Groups g.records) :
    g.Ends ∧ ∃ (closed' : StoredSegments topic partition)
      (last' : List (StoredBatch topic partition)), Serving options g.after closed' last' ∧
        logRecords closed' last' =
          logRecords closed last ++ (successes g.completed).map Prod.snd := by
  cases fenced : g.before.1.unavailable with
  | true =>
      obtain ⟨told, same⟩ := made.refused fenced
      refine ⟨.refused fenced told same, closed, last, ?_, ?_⟩
      · rw [same]
        exact serving
      · rw [g.acknowledges_nothing told, List.append_nil]
  | false => exact made.available sound serving groups fenced

end Write

theorem GroupWrite.Made.options_eq {g : GroupWrite} (made : g.Made) :
    g.after.1.options = g.before.1.options := by
  obtain ⟨drawn, free, ran⟩ := made
  rcases runs_writeRequests ran with ⟨e, -, same, -⟩ | ⟨-, -, q, result, appends, same⟩
  · rw [(Prod.mk.inj (Except.ok.inj same)).1]
  · rw [(Prod.mk.inj (Except.ok.inj same)).1, ← appends.same.1]
    cases result <;> rfl

/-! ## All writes -/

/-- Writes one after the other. -/
def Chained : Partition × Dir Name → List GroupWrite → Partition × Dir Name → Prop
  | w, [], w' => w' = w
  | w, g :: rest, w' => g.before = w ∧ g.Made ∧ Chained g.after rest w'

/-- Two sequences of group writes that meet are one. -/
theorem Chained.append {w mid w' : Partition × Dir Name} {first second : List GroupWrite}
    (front : Chained w first mid) (back : Chained mid second w') :
    Chained w (first ++ second) w' := by
  induction first generalizing w with
  | nil =>
      obtain rfl : mid = w := front
      exact back
  | cons g rest ih =>
      obtain ⟨before, here, later⟩ := front
      exact ⟨before, here, ih later⟩

/-- Once the partition is fenced, nothing is written. -/
theorem Chained.fenced {w w' : Partition × Dir Name} {trace : List GroupWrite}
    (chained : Chained w trace w') (fenced : w.1.unavailable = true) :
    ∀ g ∈ trace, g.Skipped := by
  induction trace generalizing w with
  | nil => simp
  | cons first rest ih =>
      obtain ⟨rfl, made, later⟩ := chained
      obtain ⟨told, same⟩ := made.refused fenced
      refine List.forall_mem_cons.2 ⟨⟨⟨_, told⟩, same⟩, ih later ?_⟩
      rw [same]
      exact fenced

/-- What is behind a fault is skipped. -/
theorem Chained.skips {w w' : Partition × Dir Name} {trace : List GroupWrite}
    (chained : Chained w trace w') :
    trace.Pairwise fun g later => g.Faulted → later.Skipped := by
  induction trace generalizing w with
  | nil => exact .nil
  | cons first rest ih =>
      obtain ⟨-, -, later⟩ := chained
      exact .cons (fun g mem faulted => later.fenced faulted.2 g mem) (ih later)

/-- The completed requests have their own payloads, at one offset after the other. -/
def Numbered (topic : TopicID) (partition : UInt32) (next : UInt64)
    (told : List (AppendRequest × Record)) : Prop :=
  ∀ (index : Nat) (request : AppendRequest) (record : Record),
    told[index]? = some (request, record) →
      record = { request.record with topic, partition, offset := next + .ofNat index }

/-- Numbers go on where the first records end. -/
theorem Numbered.append {topic : TopicID} {partition : UInt32} {next : UInt64}
    {first second : List (AppendRequest × Record)} (front : Numbered topic partition next first)
    (back : Numbered topic partition (next + .ofNat first.length) second) :
    Numbered topic partition next (first ++ second) := by
  intro index request record found
  by_cases inside : index < first.length
  · rw [List.getElem?_append_left inside] at found
    exact front index request record found
  · have behind := Nat.le_of_not_lt inside
    rw [List.getElem?_append_right behind] at found
    have place : next + .ofNat first.length + .ofNat (index - first.length) =
        next + UInt64.ofNat index := by
      rw [UInt64.add_assoc, ← UInt64.ofNat_add, Nat.add_sub_cancel' behind]
    rw [back _ request record found, place]

/-- The records of a batch are numbered in the order of their requests. -/
theorem numbered_formBatch (p : Partition) (requests : List AppendRequest) :
    Numbered p.topic p.partition p.logEnd
      (requests.zip (formBatch p (requests.map AppendRequest.record)).records) := by
  intro index request record found
  obtain ⟨there, placed⟩ := List.getElem?_zip_eq_some.1 found
  obtain ⟨given, same, rfl⟩ := getElem?_formBatch placed
  rw [List.getElem?_map, there] at same
  obtain rfl : request.record = given := Option.some.inj same
  rfl

/-- The calls of `complete` of all writes. -/
def traceCompleted (trace : List GroupWrite) : List Completion :=
  trace.flatMap GroupWrite.completed

section Trace

variable {topic : TopicID} {partition : UInt32} {options : PartitionOptions}
  {closed : StoredSegments topic partition} {last : List (StoredBatch topic partition)}
  {w w' : Partition × Dir Name} {trace : List GroupWrite}

/-- Where a write takes the end of the log, and the numbers it gives. -/
theorem GroupWrite.Ends.numbers {g : GroupWrite} (ends : g.Ends)
    (represents : g.before.1.Represents g.before.2 closed last) :
    g.after.1.logEnd.toNat = g.before.1.logEnd.toNat + (successes g.completed).length ∧
      g.before.1.logEnd + .ofNat (successes g.completed).length = g.after.1.logEnd ∧
      Numbered topic partition g.before.1.logEnd (successes g.completed) := by
  have nothing : ∀ {e : GoError}, g.outcome = .error e → successes g.completed = [] := by
    intro e failed
    rw [GroupWrite.completed, failed, successes_completions_error]
  have noNumbers : Numbered topic partition g.before.1.logEnd [] := by simp [Numbered]
  have zero (x : UInt64) : x + .ofNat 0 = x := UInt64.add_zero x
  cases ends with
  | written _ _ told moved inside =>
      have length : g.records.length = g.requests.length := List.length_map ..
      have acked : successes g.completed =
          g.requests.zip (formBatch g.before.1 g.records).records := by
        rw [GroupWrite.completed, told, successes_completions_ok]
      have count : (successes g.completed).length = g.requests.length := by
        rw [acked, List.length_zip, length_formBatch, length, Nat.min_self]
      have bound := maxOffset_toNat
      refine ⟨by rw [count]; exact moved, ?_, ?_⟩
      · rw [count, ← UInt64.toNat_inj, UInt64.toNat_add, toNat_ofNat64 (by omega), moved]
        omega
      · rw [acked, ← represents.topic_eq, ← represents.partition_eq]
        exact numbered_formBatch g.before.1 g.requests
  | faulted _ failed _ same =>
      rw [nothing failed, same]
      exact ⟨rfl, zero _, noNumbers⟩
  | exhausted _ _ failed same =>
      rw [nothing failed, same]
      exact ⟨rfl, zero _, noNumbers⟩
  | refused _ failed same =>
      rw [nothing failed, same]
      exact ⟨rfl, zero _, noNumbers⟩

/-- All writes together: how each of them ends, what is in the log and which numbers the
requests have. -/
theorem Chained.outcome (chained : Chained w trace w') (sound : options.Sound)
    (serving : Serving options w closed last) (groups : ∀ g ∈ trace, options.Groups g.records) :
    (∀ g ∈ trace, g.Ends) ∧
      w'.1.logEnd.toNat = w.1.logEnd.toNat + (successes (traceCompleted trace)).length ∧
      Numbered topic partition w.1.logEnd (successes (traceCompleted trace)) ∧
      ∃ (closed' : StoredSegments topic partition) (last' : List (StoredBatch topic partition)),
        Serving options w' closed' last' ∧
          logRecords closed' last' =
            logRecords closed last ++ (successes (traceCompleted trace)).map Prod.snd := by
  induction trace generalizing w closed last with
  | nil =>
      obtain rfl : w' = w := chained
      exact ⟨by simp, rfl, by simp [Numbered, traceCompleted, successes], closed, last, serving,
        by simp [traceCompleted, successes]⟩
  | cons g rest ih =>
      obtain ⟨rfl, made, later⟩ := chained
      obtain ⟨here, more⟩ := List.forall_mem_cons.1 groups
      obtain ⟨ends, closed', last', after, grown⟩ := made.ends sound serving here
      obtain ⟨moved, next, numbered⟩ := ends.numbers serving.represents
      obtain ⟨allEnd, movedMore, numberedMore, closed'', last'', final, grownMore⟩ :=
        ih later after more
      have split : successes (traceCompleted (g :: rest)) =
          successes g.completed ++ successes (traceCompleted rest) := by
        rw [traceCompleted, List.flatMap_cons, successes_append]
        rfl
      rw [← next] at numberedMore
      refine ⟨List.forall_mem_cons.2 ⟨ends, allEnd⟩, ?_, ?_, closed'', last'', final, ?_⟩
      · rw [split, List.length_append, movedMore, moved, Nat.add_assoc]
      · rw [split]
        exact numbered.append numberedMore
      · rw [split, List.map_append, ← List.append_assoc, ← grown, grownMore]

end Trace

/-! ## The loop with faults -/

/-- The group that the loop gathers keeps the limits, and its size is foretold. -/
structure IngressState.Gathers (options : PartitionOptions) (s : IngressState) : Prop where
  options_eq : s.partition.options = options
  bytes : s.batchBytes.toNat = 52 + encodedBytes (s.batch.map AppendRequest.record)
  group : s.batch = [] ∨ options.Groups (s.batch.map AppendRequest.record)

section Loop

variable {options : PartitionOptions} {s : IngressState} {draws : Nat → SegmentID × Bool}
  {d d' : Dir Name}

theorem gathers_start {p : Partition} (optionsEq : p.options = options) :
    (IngressState.start p).Gathers options :=
  ⟨optionsEq, rfl, .inl rfl⟩

theorem gathers_next {p : Partition} (optionsEq : p.options = options)
    (outcome : Except GoError (List Record)) : (s.next p outcome).Gathers options :=
  ⟨optionsEq, rfl, .inl rfl⟩

/-- A request that fits goes into the group. -/
theorem IngressState.Gathers.push (gathers : s.Gathers options) (sound : options.Sound)
    {request : AppendRequest} (admits : options.Admits request.record)
    (fits : ¬ s.Full (.ofNat request.record.encodedBytes)) :
    (s.push request (.ofNat request.record.encodedBytes)).Gathers options := by
  have size := admits.size.2
  have batch : options.batchBytes.toNat ≤ 67108864 := sound.batch
  have few : options.batchRecords.toNat ≤ 65536 := sound.records
  have positive := sound.positive
  have alone := admits.batch
  have bytes := gathers.bytes
  have content : encodedBytes ((s.push request (.ofNat request.record.encodedBytes)).batch.map
      AppendRequest.record) =
        encodedBytes (s.batch.map AppendRequest.record) + request.record.encodedBytes := by
    simp [IngressState.push]
  have small : 52 + encodedBytes (s.batch.map AppendRequest.record) ≤ 67108864 := by
    rcases gathers.group with empty | group
    · rw [empty]
      decide
    · exact group.small.trans batch
  have sum : (s.batchBytes + .ofNat request.record.encodedBytes).toNat =
      s.batchBytes.toNat + request.record.encodedBytes := by
    rw [UInt64.toNat_add, toNat_ofNat64 (by omega), Nat.mod_eq_of_lt (by omega)]
  refine ⟨gathers.options_eq, ?_, .inr ⟨?_, ?_, ?_, ?_⟩⟩
  · rw [content]
    exact sum.trans (by omega)
  · simp [IngressState.push]
  · simp only [IngressState.push, List.map_append, List.length_append, List.length_map,
      List.map_cons, List.map_nil, List.length_singleton]
    rcases gathers.group with empty | group
    · rw [empty, List.length_nil]
      omega
    · have within := group.few
      rw [List.length_map] at within
      have nonempty : s.batch ≠ [] := fun empty => group.nonempty (by rw [empty]; rfl)
      have below : UInt32.ofNat s.batch.length ≠ s.partition.options.batchRecords :=
        fun full => fits ⟨nonempty, .inl full⟩
      rw [gathers.options_eq] at below
      have : s.batch.length ≠ options.batchRecords.toNat := by
        intro same
        refine below (UInt32.toNat_inj.1 ?_)
        rw [toNat_ofNat32 (by omega), same]
      omega
  · rw [content]
    rcases gathers.group with empty | group
    · rw [empty]
      simpa using alone
    · have nonempty : s.batch ≠ [] := fun empty => group.nonempty (by rw [empty]; rfl)
      have room : ¬ s.partition.options.batchBytes.toUInt64 <
          s.batchBytes + .ofNat request.record.encodedBytes :=
        fun full => fits ⟨nonempty, .inr full⟩
      rw [UInt64.lt_iff_toNat_lt, sum, UInt32.toNat_toUInt64, gathers.options_eq] at room
      omega
  · intro r mem
    simp only [IngressState.push, List.map_append, List.mem_append, List.map_cons, List.map_nil,
      List.mem_singleton] at mem
    rcases mem with old | rfl
    · rcases gathers.group with empty | group
      · rw [empty] at old
        cases old
      · exact group.admitted r old
    · exact admits

/-- A write of the gathered group, with any faults. -/
theorem runs_write {result : Except GoError IngressState}
    (ran : Prog.Runs Dir.device (s.write draws) d result d') :
    ∃ g : GroupWrite, g.requests = s.batch ∧ g.before = (s.partition, d) ∧ g.after.2 = d' ∧ g.Made ∧
      result = .ok (s.next g.after.1 g.outcome) := by
  have told : ∀ {result : Except GoError (Partition × Except GoError (List Record))}
      {mid : Dir Name}, Prog.Runs Dir.device (writeRequests s.partition
        (s.batch.map AppendRequest.record) (draws s.writes).1 (draws s.writes).2) d result mid →
      ∃ told, result = .ok told := by
    intro result mid writing
    rcases runs_writeRequests writing with ⟨_, _, same, _⟩ | ⟨_, _, _, _, _, same⟩
    · exact ⟨_, same⟩
    · exact ⟨_, same⟩
  rcases Prog.runs_bind.1 ran with ⟨⟨p, outcome⟩, mid, writing, later⟩ | ⟨e, -, failed⟩
  · obtain ⟨rfl, rfl⟩ := Prog.runs_done.1 later
    exact ⟨⟨s.batch, (s.partition, d), outcome, (p, d')⟩, rfl, rfl, rfl, ⟨_, _, writing⟩, rfl⟩
  · obtain ⟨_, wrong⟩ := told failed
    cases wrong

/-- What a part of the loop has done, with any faults: a chain of writes of groups, and
requests that are still gathered. -/
structure Gathered (options : PartitionOptions) (s : IngressState) (d : Dir Name)
    (taken : List AppendRequest) (s' : IngressState) (d' : Dir Name) (trace : List GroupWrite) :
    Prop where
  gathers : s'.Gathers options
  chained : Chained (s.partition, d) trace (s'.partition, d')
  requests : trace.flatMap GroupWrite.requests ++ s'.batch = s.batch ++ taken
  completed : s'.completed = s.completed ++ traceCompleted trace
  groups : ∀ g ∈ trace, options.Groups g.records

theorem gathered_refl (gathers : s.Gathers options) (d : Dir Name) :
    Gathered options s d [] s d [] :=
  ⟨gathers, rfl, by simp, by simp [traceCompleted], by simp⟩

/-- A write is one group. -/
theorem gathered_write (gathers : s.Gathers options) (nonempty : s.batch ≠ []) {g : GroupWrite}
    (requests : g.requests = s.batch) (before : g.before = (s.partition, d)) (made : g.Made) :
    Gathered options s d [] (s.next g.after.1 g.outcome) g.after.2 [g] := by
  have sameOptions : g.after.1.options = options := by
    rw [made.options_eq, before]
    exact gathers.options_eq
  refine ⟨gathers_next sameOptions _, ⟨before, made, rfl⟩, ?_, ?_, ?_⟩
  · simp [requests, IngressState.next]
  · simp [traceCompleted, IngressState.next, GroupWrite.completed, requests]
  · simp only [List.mem_singleton, forall_eq]
    rw [GroupWrite.records, requests]
    exact gathers.group.resolve_left nonempty

theorem runs_makeRoom {recordBytes : UInt64} {result : Except GoError IngressState}
    (gathers : s.Gathers options)
    (ran : Prog.Runs Dir.device (s.makeRoom draws recordBytes) d result d') :
    ∃ s' trace, result = .ok s' ∧ ¬ s'.Full recordBytes ∧ Gathered options s d [] s' d' trace := by
  unfold IngressState.makeRoom at ran
  by_cases full : s.Full recordBytes
  · rw [if_pos full] at ran
    obtain ⟨g, requests, before, rfl, made, rfl⟩ := runs_write ran
    exact ⟨_, [g], rfl, fun again => again.1 rfl,
      gathered_write gathers full.1 requests before made⟩
  · rw [if_neg full] at ran
    obtain ⟨rfl, rfl⟩ := Prog.runs_done.1 ran
    exact ⟨s, [], rfl, full, gathered_refl gathers d'⟩

/-- At the end nothing is left in the batch. -/
theorem runs_finish {result : Except GoError IngressState} (gathers : s.Gathers options)
    (ran : Prog.Runs Dir.device (s.finish draws) d result d') :
    ∃ s' trace, result = .ok s' ∧ s'.batch = [] ∧ Gathered options s d [] s' d' trace := by
  unfold IngressState.finish at ran
  by_cases empty : s.batch.isEmpty
  · rw [if_pos empty] at ran
    obtain ⟨rfl, rfl⟩ := Prog.runs_done.1 ran
    exact ⟨s, [], rfl, List.isEmpty_iff.1 empty, gathered_refl gathers d'⟩
  · rw [if_neg empty] at ran
    obtain ⟨g, requests, before, rfl, made, rfl⟩ := runs_write ran
    have nonempty : s.batch ≠ [] := fun none => empty (List.isEmpty_iff.2 none)
    exact ⟨_, [g], rfl, rfl, gathered_write gathers nonempty requests before made⟩

/-- Two parts of the loop, one after the other. -/
theorem Gathered.trans {s₁ s₂ : IngressState} {d₁ d₂ : Dir Name} {first second : List GroupWrite}
    {taken more : List AppendRequest} (front : Gathered options s d taken s₁ d₁ first)
    (back : Gathered options s₁ d₁ more s₂ d₂ second) :
    Gathered options s d (taken ++ more) s₂ d₂ (first ++ second) := by
  refine ⟨back.gathers, front.chained.append back.chained, ?_, ?_, ?_⟩
  · rw [List.flatMap_append, List.append_assoc, back.requests, ← List.append_assoc, front.requests,
      List.append_assoc]
  · rw [back.completed, front.completed, List.append_assoc, traceCompleted, traceCompleted,
      traceCompleted, List.flatMap_append]
  · intro g mem
    rcases List.mem_append.1 mem with old | new
    · exact front.groups g old
    · exact back.groups g new

theorem gathered_push (gathers : s.Gathers options) (sound : options.Sound)
    {request : AppendRequest} (admits : options.Admits request.record)
    (fits : ¬ s.Full (.ofNat request.record.encodedBytes)) (d : Dir Name) :
    Gathered options s d [request] (s.push request (.ofNat request.record.encodedBytes)) d [] :=
  ⟨gathers.push sound admits fits, rfl, rfl, by simp [traceCompleted, IngressState.push], by simp⟩

/-- The loop, with any faults. -/
theorem runs_gatherRequests (sound : options.Sound) {requests : List AppendRequest}
    (admitted : ∀ r ∈ requests, options.Admits r.record) (gathers : s.Gathers options)
    {result : Except GoError IngressState}
    (ran : Prog.Runs Dir.device (gatherRequests draws requests s) d result d') :
    ∃ s' trace, result = .ok s' ∧ Gathered options s d requests s' d' trace := by
  induction requests generalizing s d with
  | nil =>
      obtain ⟨rfl, rfl⟩ := Prog.runs_done.1 ran
      exact ⟨s, [], rfl, gathered_refl gathers d'⟩
  | cons request rest ih =>
      obtain ⟨admits, more⟩ := List.forall_mem_cons.1 admitted
      simp only [gatherRequests, admits.size.1] at ran
      rcases Prog.runs_bind.1 ran with ⟨s₁, mid, writing, later⟩ | ⟨e, -, failed⟩
      · obtain ⟨_, first, same, fits, room⟩ := runs_makeRoom gathers writing
        obtain rfl := Except.ok.inj same
        have pushed := gathered_push room.gathers sound admits fits mid
        obtain ⟨s', trace, rfl, gathered⟩ := ih more pushed.gathers later
        exact ⟨s', _, rfl, (room.trans pushed).trans gathered⟩
      · obtain ⟨_, _, wrong, _⟩ := runs_makeRoom gathers failed
        cases wrong

/-- `writeIngressBatches`, with any faults, is a chain of writes of groups. -/
theorem runs_writeIngressBatches {p : Partition} (sound : p.options.Sound)
    {requests : List AppendRequest} (admitted : ∀ r ∈ requests, p.options.Admits r.record)
    {result : Except GoError (Partition × List Completion)}
    (ran : Prog.Runs Dir.device (writeIngressBatches p requests draws) d result d') :
    ∃ p' trace, result = .ok (p', traceCompleted trace) ∧ Chained (p, d) trace (p', d') ∧
      trace.flatMap GroupWrite.requests = requests ∧ ∀ g ∈ trace, p.options.Groups g.records := by
  have start : (IngressState.start p).Gathers p.options := gathers_start rfl
  rcases Prog.runs_bind.1 ran with ⟨s, mid, looping, later⟩ | ⟨e, -, failed⟩
  swap
  · obtain ⟨_, _, wrong, _⟩ := runs_gatherRequests sound admitted start failed
    cases wrong
  obtain ⟨_, first, same, gathered⟩ := runs_gatherRequests sound admitted start looping
  obtain rfl := Except.ok.inj same
  rcases Prog.runs_bind.1 later with ⟨s', left, finishing, ending⟩ | ⟨e, -, failed⟩
  swap
  · obtain ⟨_, _, wrong, _⟩ := runs_finish gathered.gathers failed
    cases wrong
  obtain ⟨_, second, same, empty, finished⟩ := runs_finish gathered.gathers finishing
  obtain rfl := Except.ok.inj same
  obtain ⟨rfl, rfl⟩ := Prog.runs_done.1 ending
  have all := gathered.trans finished
  refine ⟨s'.partition, first ++ second, ?_, all.chained, ?_, all.groups⟩
  · rw [all.completed]
    rfl
  · have split := all.requests
    rw [empty, List.append_nil, List.append_nil] at split
    exact split

end Loop

/-! ## The writer without faults -/

/-- The names of new segments are free: there is no temporary file of a segment that will be
drawn, and from the offset `next` on no segment but the active one. -/
structure Ahead (draws : Nat → SegmentID × Bool) (next active : UInt64) (d : Dir Name) : Prop where
  tmp : ∀ n, .segmentTmp (segmentID (draws n).1) ∉ d
  logs : ∀ base, next ≤ base → base ≠ active → .log base ∉ d

theorem Ahead.mono {draws : Nat → SegmentID × Bool} {next next' active : UInt64} {d : Dir Name}
    (ahead : Ahead draws next active d) (later : next ≤ next') : Ahead draws next' active d :=
  ⟨ahead.tmp, fun base above other => ahead.logs base (UInt64.le_trans later above) other⟩

section FaultFree

variable {p : Partition} {d : Dir Name} {drawn : SegmentID} {b : RecordBatch} {encoded : Bytes}

/-- A roll with free names; no other name appears. -/
theorem run_rollSegment_free (valid : (drawnHeader drawn p.topic p.partition p.logEnd).Valid)
    (freshTmp : .segmentTmp (segmentID drawn) ∉ d) (fresh : .log p.logEnd ∉ d) :
    ∃ sealed d', Prog.run Dir.device (rollSegment p drawn) d =
        (.ok (p.rolled sealed (drawnHeader drawn p.topic p.partition p.logEnd), .ok ()), d') ∧
      d'.read? (.log p.logEnd) = some (drawnHeader drawn p.topic p.partition p.logEnd).bytes ∧
      ∀ name : Name, name.NotIndex → name ≠ .log p.logEnd → name ∈ d' → name ∈ d := by
  have created := Prog.run_attempt (D := Dir.device)
    (createSegment drawn p.topic p.partition p.logEnd) d
  rw [run_createSegment valid freshTmp fresh] at created
  have here := Prog.lookup_renamed d (.segmentTmp (segmentID drawn)) (.log p.logEnd)
    (drawnHeader drawn p.topic p.partition p.logEnd).bytes
  have others : ∀ name : Name, name ≠ .log p.logEnd → name ∈ (Prog.renamed d
      (.segmentTmp (segmentID drawn)) (.log p.logEnd)
      (drawnHeader drawn p.topic p.partition p.logEnd).bytes).synced → name ∈ d := by
    intro name other mem
    by_cases tmp : name = .segmentTmp (segmentID drawn)
    · rw [tmp, ← AList.lookup_isSome, Dir.lookup_synced, Prog.lookup_renamed_tmp (by simp)] at mem
      cases mem
    · refine mem_of_settles (.inr ?_) mem
      rw [Dir.lookup_synced, Prog.lookup_renamed_of_ne tmp other]
  have read : (Prog.renamed d (.segmentTmp (segmentID drawn)) (.log p.logEnd)
      (drawnHeader drawn p.topic p.partition p.logEnd).bytes).synced.read? (.log p.logEnd) =
      some (drawnHeader drawn p.topic p.partition p.logEnd).bytes := by
    rw [Dir.read?, Dir.file?, Dir.lookup_synced, here]
    rfl
  generalize (Prog.renamed d (.segmentTmp (segmentID drawn)) (.log p.logEnd)
    (drawnHeader drawn p.topic p.partition p.logEnd).bytes).synced = mid at created others read
  have installed := Prog.run_attempt (D := Dir.device)
    (installSegmentIndexes p.active p.storeID p.options.indexStride) mid
  have quiet : ∀ name : Name, name.NotIndex → Entry.Settles (mid.lookup name) ((Prog.run Dir.device
      (installSegmentIndexes p.active p.storeID p.options.indexStride) mid).2.lookup name) :=
    fun name notIndex => Dir.run_settles (only_installSegmentIndexes notIndex) mid
  have rolled : ∃ sealed, Prog.run Dir.device (rollSegment p drawn) d =
      (.ok (p.rolled sealed (drawnHeader drawn p.topic p.partition p.logEnd), .ok ()),
        (Prog.run Dir.device (installSegmentIndexes p.active p.storeID p.options.indexStride)
          mid).2) := by
    unfold rollSegment
    rw [Prog.run_bind_ok created, Prog.run_bind_ok installed]
    cases (Prog.run Dir.device
      (installSegmentIndexes p.active p.storeID p.options.indexStride) mid).1 with
    | ok segment => exact ⟨segment, rfl⟩
    | error e => exact ⟨p.active, rfl⟩
  obtain ⟨sealed, ran⟩ := rolled
  refine ⟨sealed, _, ran, ?_, fun name notIndex other mem => ?_⟩
  · rw [Dir.read?_of_settles (quiet (.log p.logEnd) trivial)]
    exact read
  · exact others name other (mem_of_settles (quiet name notIndex) mem)

/-- Writing behind an existing file. -/
theorem run_writeBatch_file (b : RecordBatch) (encoded : Bytes) {data : Bytes}
    (read : d.read? p.active.name = some data) :
    ∃ d', Prog.run Dir.device (writeBatch p b encoded) d =
        (.ok (p.extended b encoded, .ok b.baseOffset), d') ∧ ∀ name, name ∈ d' → name ∈ d := by
  obtain ⟨f, durable, found, -⟩ := lookup_of_read? read
  have wrote : Dir.exec (.writeAt p.active.name p.active.size encoded) d = some _ :=
    Dir.modify_eq_some.2 ⟨f, durable, found, rfl⟩
  have first := Prog.run_attempt (D := Dir.device) (Prog.perform (.writeAt p.active.name
    p.active.size encoded) (ioError "short write")) d
  rw [Prog.run_perform_some wrote] at first
  have second := Prog.run_attempt (D := Dir.device) (Prog.perform (.sync p.active.name)
    (ioError "sync batch")) (d.insert p.active.name
      ⟨some { f with data := Dir.overwrite f.data p.active.size encoded }, durable⟩)
  rw [Prog.run_perform_some Prog.exec_sync_insert] at second
  have ran : Prog.run Dir.device (writeBatch p b encoded) d =
      (.ok (p.extended b encoded, .ok b.baseOffset), d.insert p.active.name
        ⟨some ⟨Dir.overwrite f.data p.active.size encoded,
          Dir.overwrite f.data p.active.size encoded⟩, durable⟩) := by
    simp only [writeBatch]
    rw [Prog.run_bind_ok first]
    simp only
    rw [Prog.run_bind_ok second]
    rfl
  refine ⟨_, ran, fun name mem => ?_⟩
  rcases (AList.mem_insert d).1 mem with rfl | old
  · exact AList.lookup_isSome.1 (by rw [found]; rfl)
  · exact old

variable {topic : TopicID} {partition : UInt32} {options : PartitionOptions}
  {closed : StoredSegments topic partition} {last : List (StoredBatch topic partition)}
  {draws : Nat → SegmentID × Bool}

theorem Partition.Represents.base_le (represents : p.Represents d closed last) :
    p.active.header.baseOffset ≤ p.logEnd := by
  rw [UInt64.le_iff_toNat_le, represents.logEnd_eq]
  exact Nat.le_add_right _ _

/-- There is room for the batch in the active segment, or a new one is made. -/
theorem run_rollIfFull_free (serving : Serving options (p, d) closed last)
    (passed : checkAppend p b encoded = .ok ()) (inside : p.logEnd ≤ maxOffset)
    (ahead : Ahead draws p.logEnd p.active.header.baseOffset d) (n : Nat) :
    ∃ q mid data, Prog.run Dir.device (rollIfFull p encoded (draws n).1) d =
        (.ok (q, .ok ()), mid) ∧ mid.read? q.active.name = some data ∧
      Ahead draws p.logEnd q.active.header.baseOffset mid := by
  have represents := serving.represents
  obtain ⟨data, read, active⟩ := represents.activeFile
  by_cases full : p.options.segmentBytes.toNat < encoded.length + p.active.size
  · have filled := (checkAppend_passed passed).2.2.2 full
    have other : p.logEnd ≠ p.active.header.baseOffset :=
      (represents.ne_logEnd filled (List.mem_append_right _ List.mem_cons_self)).symm
    have topicNe : p.topic ≠ 0 := by
      rw [represents.topic_eq]
      exact serving.topic_ne
    have small : p.partition ≤ int32Max := by
      rw [represents.partition_eq, ← active.partition_eq]
      exact active.header.partition
    have valid : (drawnHeader (draws n).1 p.topic p.partition p.logEnd).Valid :=
      drawnHeader_valid topicNe small inside
    obtain ⟨sealed, mid, ran, here, others⟩ := run_rollSegment_free valid (ahead.tmp n)
      (ahead.logs p.logEnd (UInt64.le_refl _) other)
    have rolling : Prog.run Dir.device (rollIfFull p encoded (draws n).1) d =
        (.ok (p.rolled sealed (drawnHeader (draws n).1 p.topic p.partition p.logEnd), .ok ()),
          mid) := by
      rw [rollIfFull, if_pos full]
      exact ran
    refine ⟨_, mid, _, rolling, here, fun k mem => ?_, fun base above differ mem => ?_⟩
    · exact ahead.tmp k (others _ trivial (by simp) mem)
    · have old : base ≠ p.active.header.baseOffset := by
        rintro rfl
        exact differ (UInt64.le_antisymm represents.base_le above)
      exact ahead.logs base above old
        (others _ trivial (fun same => differ (Name.log.inj same)) mem)
  · exact ⟨p, d, data, by rw [rollIfFull, if_neg full]; rfl, read, ahead⟩

/-- Without faults a group is written. -/
theorem run_writeRequests_free {group : List Record} (sound : options.Sound)
    (serving : Serving options (p, d) closed last) (available : p.unavailable = false)
    (groups : options.Groups group) (space : p.logEnd.toNat + group.length ≤ maxOffset.toNat)
    (ahead : Ahead draws p.logEnd p.active.header.baseOffset d) (n : Nat) :
    ∃ p' d', Prog.run Dir.device (writeRequests p group (draws n).1 (draws n).2) d =
        (.ok (p', .ok (formBatch p group).records), d') ∧
      Ahead draws p.logEnd p'.active.header.baseOffset d' := by
  obtain rfl : p.options = options := serving.options_eq
  have topicNe : p.topic ≠ 0 := by
    rw [serving.represents.topic_eq]
    exact serving.topic_ne
  have inside : p.logEnd ≤ maxOffset := UInt64.le_iff_toNat_le.2 (by omega)
  have passed := checkAppend_groups serving.represents sound serving.isOpen available groups
  obtain ⟨q, mid, data, rolled, read, ahead'⟩ := run_rollIfFull_free serving passed inside ahead n
  obtain ⟨d', wrote, names⟩ := run_writeBatch_file (formBatch p group)
    (formBatch p group).bytes read
  rcases encodeFormed_groups sound topicNe available groups with ⟨-, formed⟩ | ⟨beyond, -⟩
  · obtain ⟨q', named⟩ : ∃ q', q.extended (formBatch p group) (formBatch p group).bytes = q' :=
      ⟨_, rfl⟩
    have appended : Prog.run Dir.device (appendEncodedLocked p (formBatch p group)
        (formBatch p group).bytes (draws n).1) d =
        (.ok (q', .ok (formBatch p group).baseOffset), d') := by
      simp only [appendEncodedLocked, passed, ← named]
      rw [Prog.run_bind_ok rolled]
      exact wrote
    have published : Prog.run Dir.device (appendAndPublish p (formBatch p group)
        (formBatch p group).bytes (draws n).1 (draws n).2) d =
        (.ok (q'.publishTail (draws n).2 (formBatch p group).records q'.logEnd,
          .ok (formBatch p group).baseOffset), d') := by
      rw [appendAndPublish, Prog.run_bind_ok appended]
      rfl
    refine ⟨q'.publishTail (draws n).2 (formBatch p group).records q'.logEnd, d', ?_, ?_⟩
    · simp only [writeRequests, formed]
      rw [Prog.run_bind_ok published]
      rfl
    · subst named
      exact ⟨fun k mem => ahead'.tmp k (names _ mem),
        fun base above other mem => ahead'.logs base above other (names _ mem)⟩
  · exact absurd space (Nat.not_le.2 beyond)

/-- The loop without faults: everything so far was told its record. -/
structure IngressState.Ready (options : PartitionOptions) (draws : Nat → SegmentID × Bool)
    (closed : StoredSegments topic partition) (last : List (StoredBatch topic partition))
    (s : IngressState) (d : Dir Name) : Prop where
  gathers : s.Gathers options
  serving : Serving options (s.partition, d) closed last
  available : s.partition.unavailable = false
  ahead : Ahead draws s.partition.logEnd s.partition.active.header.baseOffset d
  told : ∀ c ∈ s.completed, ∃ record, c.2 = .ok record

/-- The offset behind the requests that the loop has seen. -/
def IngressState.upTo (s : IngressState) : Nat :=
  s.partition.logEnd.toNat + s.batch.length

/-- The run of a part of the loop without faults, over so many more requests. -/
def RunsFree (options : PartitionOptions) (draws : Nat → SegmentID × Bool) (topic : TopicID)
    (partition : UInt32) (m : DirM IngressState) (s : IngressState) (d : Dir Name) (more : Nat)
    (s' : IngressState) : Prop :=
  ∃ (d' : Dir Name) (closed : StoredSegments topic partition)
    (last : List (StoredBatch topic partition)), Prog.run Dir.device m d = (.ok s', d') ∧
      s'.Ready options draws closed last d' ∧ s'.upTo = s.upTo + more

variable {s : IngressState}

/-- A batch that is ready is written, if nothing fails. -/
theorem IngressState.Ready.write (ready : s.Ready options draws closed last d)
    (sound : options.Sound) (nonempty : s.batch ≠ []) (space : s.upTo ≤ maxOffset.toNat) :
    ∃ s', s'.batch = [] ∧ RunsFree options draws topic partition (s.write draws) s d 0 s' := by
  have groups := ready.gathers.group.resolve_left nonempty
  have length : (s.batch.map AppendRequest.record).length = s.batch.length := List.length_map ..
  obtain ⟨p', d', ran, ahead⟩ := run_writeRequests_free sound ready.serving ready.available groups
    (by rw [length]; exact space) ready.ahead s.writes
  have made : GroupWrite.Made ⟨s.batch, (s.partition, d),
      .ok (formBatch s.partition (s.batch.map AppendRequest.record)).records, (p', d')⟩ := by
    have runs := Prog.Runs.of_run ran
    exact ⟨_, _, runs⟩
  obtain ⟨ends, closed', last', serving, -⟩ :=
    made.available sound ready.serving groups ready.available
  cases ends with
  | written _ available _ moved _ =>
      have later : s.partition.logEnd ≤ p'.logEnd := by
        rw [UInt64.le_iff_toNat_le]
        exact Nat.le.intro moved.symm
      refine ⟨s.next p' (.ok (formBatch s.partition (s.batch.map AppendRequest.record)).records),
        rfl, d', closed', last', ?_, ⟨gathers_next serving.options_eq _, serving, available,
          ahead.mono later, ?_⟩, moved⟩
      · rw [IngressState.write, Prog.run_bind_ok ran]
        rfl
      · intro c mem
        rcases List.mem_append.1 mem with old | new
        · exact ready.told c old
        · obtain ⟨told, -, rfl⟩ := List.mem_map.1 new
          exact ⟨told.2, rfl⟩
  | faulted _ failed _ _ => cases failed
  | exhausted _ _ failed _ => cases failed
  | refused _ failed _ => cases failed

theorem IngressState.Ready.makeRoom (ready : s.Ready options draws closed last d)
    (sound : options.Sound) (space : s.upTo ≤ maxOffset.toNat) (recordBytes : UInt64) :
    ∃ s', ¬ s'.Full recordBytes ∧
      RunsFree options draws topic partition (s.makeRoom draws recordBytes) s d 0 s' := by
  unfold IngressState.makeRoom
  by_cases full : s.Full recordBytes
  · rw [if_pos full]
    obtain ⟨s', empty, ran⟩ := ready.write sound full.1 space
    exact ⟨s', fun again => again.1 empty, ran⟩
  · rw [if_neg full]
    exact ⟨s, full, d, closed, last, rfl, ready, rfl⟩

theorem IngressState.Ready.finish (ready : s.Ready options draws closed last d)
    (sound : options.Sound) (space : s.upTo ≤ maxOffset.toNat) :
    ∃ s', RunsFree options draws topic partition (s.finish draws) s d 0 s' := by
  unfold IngressState.finish
  by_cases empty : s.batch.isEmpty
  · rw [if_pos empty]
    exact ⟨s, d, closed, last, rfl, ready, rfl⟩
  · rw [if_neg empty]
    obtain ⟨s', -, ran⟩ := ready.write sound (fun none => empty (List.isEmpty_iff.2 none)) space
    exact ⟨s', ran⟩

/-- All requests are gathered and written, if nothing fails. -/
theorem IngressState.Ready.gatherRequests (sound : options.Sound) {requests : List AppendRequest}
    (admitted : ∀ r ∈ requests, options.Admits r.record)
    (ready : s.Ready options draws closed last d)
    (space : s.upTo + requests.length ≤ maxOffset.toNat) :
    ∃ s', RunsFree options draws topic partition (gatherRequests draws requests s) s d
      requests.length s' := by
  induction requests generalizing s d closed last with
  | nil => exact ⟨s, d, closed, last, rfl, ready, rfl⟩
  | cons request rest ih =>
      obtain ⟨admits, more⟩ := List.forall_mem_cons.1 admitted
      rw [List.length_cons] at space
      obtain ⟨s₁, fits, mid, closed₁, last₁, ran, ready₁, upTo₁⟩ :=
        ready.makeRoom sound (by omega) (.ofNat request.record.encodedBytes)
      have pushed : (s₁.push request (.ofNat request.record.encodedBytes)).upTo = s₁.upTo + 1 := by
        simp [IngressState.upTo, IngressState.push, Nat.add_assoc]
      have ready₂ : (s₁.push request (.ofNat request.record.encodedBytes)).Ready options
          draws closed₁ last₁ mid :=
        ⟨ready₁.gathers.push sound admits fits, ready₁.serving, ready₁.available, ready₁.ahead,
          ready₁.told⟩
      obtain ⟨s', d', closed', last', ran', ready', upTo'⟩ := ih more ready₂ (by omega)
      refine ⟨s', d', closed', last', ?_, ready', by rw [List.length_cons]; omega⟩
      simp only [Immulog.gatherRequests, admits.size.1]
      rw [Prog.run_bind_ok ran]
      exact ran'

/-- Without faults and with offsets for all of them, every request is told its record. -/
theorem run_writeIngressBatches (sound : options.Sound) {requests : List AppendRequest}
    (admitted : ∀ r ∈ requests, options.Admits r.record)
    (serving : Serving options (p, d) closed last) (available : p.unavailable = false)
    (space : p.logEnd.toNat + requests.length ≤ maxOffset.toNat)
    (ahead : Ahead draws p.logEnd p.active.header.baseOffset d) :
    ∃ p' completed d', Prog.run Dir.device (writeIngressBatches p requests draws) d =
        (.ok (p', completed), d') ∧ ∀ c ∈ completed, ∃ record, c.2 = .ok record := by
  have ready : (IngressState.start p).Ready options draws closed last d :=
    ⟨gathers_start serving.options_eq, serving, available, ahead, by simp [IngressState.start]⟩
  obtain ⟨s, mid, closed', last', looped, ready', upTo⟩ :=
    IngressState.Ready.gatherRequests sound admitted ready space
  have within : s.upTo ≤ maxOffset.toNat := by
    rw [upTo]
    exact space
  obtain ⟨s', d', _, _, finished, ready'', -⟩ := ready'.finish sound within
  refine ⟨s'.partition, s'.completed, d', ?_, ready''.told⟩
  rw [writeIngressBatches, Prog.run_bind_ok looped, Prog.run_bind_ok finished]
  rfl

end FaultFree

/-! ## What the requests are told -/

def formedExceedsError : GoError :=
  .join [.ofKind .errRecordTooLarge, .new "formed batch exceeds configured byte limit"]

def cannotFitError : GoError :=
  .join [.ofKind .errRecordTooLarge, .new "batch cannot fit in configured segment"]

/-- What `writeIngressBatches` has done with the requests. -/
structure Grouped {topic : TopicID} {partition : UInt32} (p : Partition) (d : Dir Name)
    (closed : StoredSegments topic partition) (last : List (StoredBatch topic partition))
    (requests : List AppendRequest) (p' : Partition) (d' : Dir Name) (completed : List Completion) :
    Prop where
  once : completed.map Prod.fst = requests
  numbered : ∀ (index : Nat) (request : AppendRequest) (record : Record),
    (successes completed)[index]? = some (request, record) →
      record = { request.record with
        topic := p.topic, partition := p.partition, offset := p.logEnd + .ofNat index } ∧
      record.offset.toNat = p.logEnd.toNat + index
  logged : ∃ (closed' : StoredSegments topic partition)
    (last' : List (StoredBatch topic partition)),
    p'.Represents d' closed' last' ∧
      logRecords closed' last' = logRecords closed last ++ (successes completed).map Prod.snd
  errors : ∀ c ∈ completed, ∀ e, c.2 = .error e → e.is .errPartitionUnavailable ∨
    (e = offsetRangeError ∧ maxOffset.toNat < p.logEnd.toNat + requests.length)
  unreachable : ∀ c ∈ completed,
    c.2 ≠ .error formedExceedsError ∧ c.2 ≠ .error cannotFitError
  groups : ∃ trace, Chained (p, d) trace (p', d') ∧
    trace.flatMap GroupWrite.requests = requests ∧ traceCompleted trace = completed ∧
    (∀ g ∈ trace, g.Ends ∧ g.requests.length ≤ p.options.batchRecords.toNat ∧
      (formBatch g.before.1 g.records).bytes.length ≤ p.options.batchBytes.toNat) ∧
    trace.Pairwise fun g later => g.Faulted → later.Skipped

/-- With any faults the requests are grouped, and without faults all of them succeed. -/
structure IngressFaithful {topic : TopicID} {partition : UInt32} (p : Partition) (d : Dir Name)
    (closed : StoredSegments topic partition) (last : List (StoredBatch topic partition))
    (requests : List AppendRequest) : Prop where
  runs : ∀ draws result d',
    Prog.Runs Dir.device (writeIngressBatches p requests draws) d result d' →
      ∃ p' completed, result = .ok (p', completed) ∧
        Grouped p d closed last requests p' d' completed
  faultFree : p.logEnd.toNat + requests.length ≤ maxOffset.toNat →
    ∀ draws, Ahead draws p.logEnd p.active.header.baseOffset d →
      ∃ p' completed d', Prog.run Dir.device (writeIngressBatches p requests draws) d =
          (.ok (p', completed), d') ∧ ∀ c ∈ completed, ∃ record, c.2 = .ok record

section Completed

variable {g : GroupWrite}

/-- Every request of a group is completed once. -/
theorem GroupWrite.Ends.once (ends : g.Ends) : g.completed.map Prod.fst = g.requests := by
  have failed : ∀ {e : GoError}, g.outcome = .error e → g.completed.map Prod.fst = g.requests := by
    intro e outcome
    simp [GroupWrite.completed, outcome, completions, Function.comp_def]
  cases ends with
  | written _ _ told _ _ =>
      have length : (formBatch g.before.1 g.records).records.length = g.requests.length := by
        rw [length_formBatch, GroupWrite.records, List.length_map]
      rw [GroupWrite.completed, told, completions, List.map_map]
      exact List.map_fst_zip (Nat.le_of_eq length.symm)
  | faulted _ outcome _ _ => exact failed outcome
  | exhausted _ _ outcome _ => exact failed outcome
  | refused _ outcome _ => exact failed outcome

/-- The log grows by one offset for a request at most. -/
theorem GroupWrite.Ends.logEnd_le (ends : g.Ends) :
    g.after.1.logEnd.toNat ≤ g.before.1.logEnd.toNat + g.requests.length := by
  cases ends with
  | written _ _ _ moved _ => exact Nat.le_of_eq moved
  | faulted _ _ _ same => rw [same]; exact Nat.le_add_right _ _
  | exhausted _ _ _ same => rw [same]; exact Nat.le_add_right _ _
  | refused _ _ same => rw [same]; exact Nat.le_add_right _ _

/-- The errors that a group is told. -/
theorem GroupWrite.Ends.error (ends : g.Ends) {c : Completion} (mem : c ∈ g.completed)
    {e : GoError} (told : c.2 = .error e) : e.is .errPartitionUnavailable ∨
      (e = offsetRangeError ∧
        maxOffset.toNat < g.before.1.logEnd.toNat + g.requests.length) := by
  have same : ∀ {e' : GoError}, g.outcome = .error e' → e = e' := by
    intro e' outcome
    rw [GroupWrite.completed, outcome] at mem
    obtain ⟨request, -, rfl⟩ := List.mem_map.1 mem
    exact (Except.error.inj told).symm
  cases ends with
  | written _ _ outcome _ _ =>
      rw [GroupWrite.completed, outcome] at mem
      obtain ⟨told', -, rfl⟩ := List.mem_map.1 mem
      cases told
  | faulted _ outcome unavailable _ =>
      rw [same outcome]
      exact .inl unavailable
  | exhausted _ beyond outcome _ => exact .inr ⟨same outcome, beyond⟩
  | refused _ outcome _ =>
      rw [same outcome]
      exact .inl List.mem_cons_self

/-- So is every request of a run. -/
theorem traceCompleted_fst {trace : List GroupWrite} (ends : ∀ g ∈ trace, g.Ends) :
    (traceCompleted trace).map Prod.fst = trace.flatMap GroupWrite.requests := by
  rw [traceCompleted, List.map_flatMap]
  exact List.flatMap_congr fun g mem => (ends g mem).once

/-- A group lies within the offsets of all requests. -/
theorem Chained.within {w w' : Partition × Dir Name} {trace : List GroupWrite}
    (chained : Chained w trace w') (ends : ∀ g ∈ trace, g.Ends) {g : GroupWrite} (mem : g ∈ trace) :
    g.before.1.logEnd.toNat + g.requests.length ≤
      w.1.logEnd.toNat + (trace.flatMap GroupWrite.requests).length := by
  induction trace generalizing w with
  | nil => cases mem
  | cons first rest ih =>
      obtain ⟨rfl, -, later⟩ := chained
      obtain ⟨here, more⟩ := List.forall_mem_cons.1 ends
      rw [List.flatMap_cons, List.length_append]
      rcases List.mem_cons.1 mem with rfl | mem
      · omega
      · have bound := ih later more mem
        have moved := here.logEnd_le
        omega

end Completed

/-- The two errors that cannot happen. -/
theorem unreachable_of_errors {e : GoError}
    (known : e.is .errPartitionUnavailable ∨ e = offsetRangeError) :
    e ≠ formedExceedsError ∧ e ≠ cannotFitError := by
  rcases known with unavailable | rfl
  · refine ⟨?_, ?_⟩
    · rintro rfl
      exact absurd unavailable (by decide)
    · rintro rfl
      exact absurd unavailable (by decide)
  · exact ⟨by decide, by decide⟩

/-- Under a valid configuration, at an open and available partition, admitted requests are
grouped faithfully. -/
theorem ingress_grouping {config : PartitionConfigV1} {system : Bool} {topic : TopicID}
    {partition : UInt32} {p : Partition} {d : Dir Name} {closed : StoredSegments topic partition}
    {last : List (StoredBatch topic partition)} {requests : List AppendRequest}
    (valid : config.validate system = .ok ()) (follows : p.options.Follows config)
    (topic_ne : topic ≠ 0) (represents : p.Represents d closed last) (isOpen : p.closed = false)
    (available : p.unavailable = false) (admitted : ∀ r ∈ requests, r.Admitted p) :
    IngressFaithful p d closed last requests := by
  have sound := follows.sound valid
  have admits : ∀ r ∈ requests, p.options.Admits r.record := fun r mem => (admitted r mem).admits
  have serving : Serving p.options (p, d) closed last := ⟨represents, rfl, topic_ne, isOpen⟩
  refine ⟨fun draws result d' ran => ?_, fun space draws ahead =>
    run_writeIngressBatches sound admits serving available space ahead⟩
  obtain ⟨p', trace, rfl, chained, rfl, groups⟩ := runs_writeIngressBatches sound admits ran
  obtain ⟨ends, moved, numbered, closed', last', serving', grown⟩ :=
    chained.outcome sound serving groups
  have errors : ∀ c ∈ traceCompleted trace, ∀ e, c.2 = .error e → e.is .errPartitionUnavailable ∨
      (e = offsetRangeError ∧ maxOffset.toNat <
        p.logEnd.toNat + (trace.flatMap GroupWrite.requests).length) := by
    intro c mem e told
    obtain ⟨g, inTrace, inGroup⟩ := List.mem_flatMap.1 mem
    rcases (ends g inTrace).error inGroup told with unavailable | ⟨same, beyond⟩
    · exact .inl unavailable
    · exact .inr ⟨same, Nat.lt_of_lt_of_le beyond (chained.within ends inTrace)⟩
  refine ⟨p', _, rfl, traceCompleted_fst ends, ?_,
    ⟨closed', last', serving'.represents, grown⟩, errors,
    ?_, trace, chained, rfl, rfl, fun g mem => ⟨ends g mem, ?_, ?_⟩, chained.skips⟩
  · intro index request record found
    have placed := numbered index request record found
    rw [← represents.topic_eq, ← represents.partition_eq] at placed
    refine ⟨placed, ?_⟩
    have inside : index < (successes (traceCompleted trace)).length :=
      (List.getElem?_eq_some_iff.1 found).1
    have bound := p'.logEnd.toNat_lt
    rw [placed]
    change (p.logEnd + .ofNat index : UInt64).toNat = _
    dsimp only at moved
    rw [UInt64.toNat_add, toNat_ofNat64 (by omega), Nat.mod_eq_of_lt (by omega)]
  · intro c mem
    have known : ∀ e, c.2 = .error e → e ≠ formedExceedsError ∧ e ≠ cannotFitError :=
      fun e told => unreachable_of_errors ((errors c mem e told).imp id And.left)
    exact ⟨fun told => (known _ told).1 rfl, fun told => (known _ told).2 rfl⟩
  · have few := (groups g mem).few
    rwa [GroupWrite.records, List.length_map] at few
  · rw [RecordBatch.length_bytes, total_formBatch]
    exact (groups g mem).small

theorem orDefault_of_ne {α : Type} [OfNat α 0] [DecidableEq α] {value : α} (given : value ≠ 0)
    (byDefault : α) : orDefault value byDefault = value :=
  if_neg given

/-- A configuration in force gives the writer its limits. -/
theorem PartitionConfigV1.options_follow {config : PartitionConfigV1} {system : Bool}
    (valid : config.validate system = .ok ()) :
    config.options.toPartitionOptions.Follows config := by
  have segment : config.segmentMaxBytes ≠ 0 := by
    intro zero
    have least := (segment_bounds valid).1
    rw [zero] at least
    exact absurd least (by simp [segmentHeaderBytes])
  simp only [validate, bind_eq_ok, failIf_eq_ok, exists_const, not_or, UInt32.not_lt] at valid
  obtain ⟨⟨record, -⟩, ⟨batch, -⟩, ⟨records, -⟩, -⟩ := valid
  have recordNe : config.maxRecordBytes ≠ 0 := by
    intro zero
    rw [zero] at record
    exact absurd record (by decide)
  have batchNe : config.maxBatchBytes ≠ 0 := by
    intro zero
    rw [zero] at batch
    exact absurd batch (by decide)
  exact ⟨orDefault_of_ne segment _, orDefault_of_ne batchNe _, orDefault_of_ne records _,
    orDefault_of_ne recordNe _⟩

namespace ThreeRequests

theorem valid_key : TopicKey.Valid ⟨5, 0⟩ := by
  decide

/-- Two records to a batch, and segments with room for one batch of them. -/
def config : PartitionConfigV1 :=
  { systemPartitionConfig with
    maxRecordBytes := 64, maxBatchBytes := 160, maxBatchRecords := 2, segmentMaxBytes := 232 }

def spec : PartitionSpec :=
  firstSpec ⟨5, 0⟩ valid_key config

def fresh : Partition :=
  spec.fresh ∅ 1

def input (value : UInt8) : AppendInput where
  topic := 5
  partition := 0
  key := none
  value := some [value]
  headers := []
  inMemory := by simp

def request (id : Nat) (value : UInt8) : AppendRequest :=
  { id, record := copyRequest fresh (input value) 3, charge := 165 }

def requests : List AppendRequest :=
  [request 1 7, request 2 8, request 3 9]

theorem requests_admitted : ∀ r ∈ requests, r.Admitted fresh := by
  have admitted (id : Nat) (value : UInt8)
      (charged : requestCharge fresh (input value) = .ok 165) : (request id value).Admitted fresh :=
    ⟨input value, 3, charged, rfl⟩
  intro r mem
  simp only [requests, List.mem_cons, List.not_mem_nil, or_false] at mem
  rcases mem with rfl | rfl | rfl
  · exact admitted 1 7 (by decide +kernel)
  · exact admitted 2 8 (by decide +kernel)
  · exact admitted 3 9 (by decide +kernel)

theorem represents_fresh : ∃ (closed : StoredSegments spec.topic spec.partition)
    (last : List (StoredBatch spec.topic spec.partition)),
    fresh.Represents (spec.created ∅ 1) closed last := by
  have opened := Prog.Runs.faultFree (D := Dir.device) (spec.reopen 1) ∅
  rw [run_open_empty ⟨fun _ => AList.notMem_empty _, fun _ => AList.notMem_empty _⟩
    (AList.notMem_empty _)] at opened
  exact (runs_openPartition opened).2

theorem ahead_fresh (draws : Nat → SegmentID × Bool) :
    Ahead draws fresh.logEnd fresh.active.header.baseOffset (spec.created ∅ 1) := by
  have others : ∀ {name : Name}, name ≠ .log 0 → name ∉ spec.created ∅ 1 := by
    intro name other mem
    rw [← AList.lookup_isSome, spec.lookup_created_other 1 other] at mem
    cases mem
  have first : fresh.active.header.baseOffset = 0 := by decide +kernel
  refine ⟨fun n => others (by simp), fun base above differ => others fun same => ?_⟩
  exact differ ((Name.log.inj same).trans first.symm)

def draws : Nat → SegmentID × Bool :=
  fun n => (n + 2, true)

/-- What the requests are told. -/
def told : List Completion :=
  [(request 1 7, .ok { (request 1 7).record with offset := 0 }),
    (request 2 8, .ok { (request 2 8).record with offset := 1 }),
    (request 3 9, .ok { (request 3 9).record with offset := 2 })]

/-- Two requests go into one batch, and the third one into a batch behind a roll. -/
theorem requests_grouped : ∃ (closed : StoredSegments spec.topic spec.partition)
    (last : List (StoredBatch spec.topic spec.partition)) (p' : Partition) (d' : Dir Name),
    fresh.Represents (spec.created ∅ 1) closed last ∧
      Prog.run Dir.device (writeIngressBatches fresh requests draws) (spec.created ∅ 1) =
        (.ok (p', told), d') ∧
      (p'.segments.map fun segment => segment.batches.map BatchInfo.records) = [[2], [1]] ∧
      Grouped fresh (spec.created ∅ 1) closed last requests p' d' told := by
  have seen : ∃ x ∈ Prog.run? Dir.device (writeIngressBatches fresh requests draws)
      (spec.created ∅ 1), x.1.2 = told ∧
        (x.1.1.segments.map fun segment => segment.batches.map BatchInfo.records) = [[2], [1]] := by
    decide +kernel
  obtain ⟨closed, last, represents⟩ := represents_fresh
  have valid : config.validate true = .ok () := by decide +kernel
  obtain ⟨runs, faultFree⟩ := ingress_grouping valid (PartitionConfigV1.options_follow valid)
    spec.topic_ne_zero represents rfl rfl requests_admitted
  obtain ⟨p', completed, d', ran, -⟩ := faultFree (by decide) draws (ahead_fresh draws)
  obtain ⟨_, _, same, grouped⟩ := runs draws _ _ (.of_run ran)
  obtain ⟨rfl, rfl⟩ := Prod.mk.inj (Except.ok.inj same)
  obtain ⟨x, found, isTold, batches⟩ := seen
  obtain rfl := Option.some.inj ((Prog.run?_eq_some.2 ran).symm.trans found)
  obtain rfl : completed = told := isTold
  exact ⟨closed, last, p', d', represents, ran, batches, grouped⟩

end ThreeRequests

end Immulog
