import Immulog.CodecExact
import Immulog.PartitionLog
import Mathlib.Data.List.Chain
import Mathlib.Order.Bounds.Basic

/-!
What the segments in memory say about the segment files.

The bytes of a segment file that belong to the log are its header and then batches that
`DecodeBatch` accepts, also those that `EncodeBatch` would not write.  A segment in
memory represents such a file: its batch map lists the batches, its counters sum them up.
-/

namespace Immulog

open Lib

/-! ## Batches in a file -/

/-- The bytes of a batch in a segment file. -/
structure StoredBatch (topic : TopicID) (partition : UInt32) where
  encoded : Bytes
  batch : RecordBatch
  decodes : decodeBatch encoded topic partition = .ok batch

section Stored

variable {topic : TopicID} {partition : UInt32}

theorem StoredBatch.decoded (b : StoredBatch topic partition) :
    b.batch.Decoded b.encoded topic partition :=
  .of_decode b.decodes

theorem StoredBatch.length_pos (b : StoredBatch topic partition) : 0 < b.encoded.length := by
  have bounds := b.decoded.valid.total_bounds
  have total := b.decoded.total
  omega

def storedBytes (stored : List (StoredBatch topic partition)) : Bytes :=
  stored.flatMap StoredBatch.encoded

def storedRecords (stored : List (StoredBatch topic partition)) : List Record :=
  stored.flatMap fun b => b.batch.records

@[simp] theorem storedBytes_nil : storedBytes ([] : List (StoredBatch topic partition)) = [] :=
  rfl

@[simp] theorem storedBytes_cons (b : StoredBatch topic partition)
    (stored : List (StoredBatch topic partition)) :
    storedBytes (b :: stored) = b.encoded ++ storedBytes stored :=
  rfl

@[simp] theorem storedBytes_append (first second : List (StoredBatch topic partition)) :
    storedBytes (first ++ second) = storedBytes first ++ storedBytes second :=
  List.flatMap_append

@[simp] theorem storedRecords_nil :
    storedRecords ([] : List (StoredBatch topic partition)) = [] :=
  rfl

@[simp] theorem storedRecords_cons (b : StoredBatch topic partition)
    (stored : List (StoredBatch topic partition)) :
    storedRecords (b :: stored) = b.batch.records ++ storedRecords stored :=
  rfl

@[simp] theorem storedRecords_append (first second : List (StoredBatch topic partition)) :
    storedRecords (first ++ second) = storedRecords first ++ storedRecords second :=
  List.flatMap_append

/-! ## The batch map -/

/-- The entry of the batch map for a batch at the given offset and position. -/
structure BatchInfo.Describes (info : BatchInfo) (b : StoredBatch topic partition)
    (base position : Nat) : Prop where
  base : info.base.toNat = base
  batch : b.batch.baseOffset = info.base
  position : info.position = position
  bytes : info.bytes.toNat = b.encoded.length
  records : info.records.toNat = b.batch.records.length
  maxTime : info.maxTime = maxTimestamp b.batch.records

/-- The entry that an append makes describes its batch. -/
theorem batchInfo_describes (b : StoredBatch topic partition) (position : Nat) :
    (batchInfo b.batch position b.encoded).Describes b b.batch.baseOffset.toNat position := by
  have found := b.decoded
  have bounds := found.valid.total_bounds
  have total := found.total
  have count : b.batch.records.length ≤ 65536 := found.valid.count
  refine ⟨rfl, rfl, rfl, ?_, ?_, found.time⟩
  · exact toNat_ofNat32 (by omega)
  · exact toNat_ofNat32 (by omega)

/-- The batch map lists the stored batches, which lie one behind the other from offset
`base` and position `position` on and end at offset `stop` and position `size`. -/
def Tiles (stop size : Nat) :
    Nat → Nat → List BatchInfo → List (StoredBatch topic partition) → Prop
  | base, position, [], [] => base = stop ∧ position = size
  | base, position, info :: infos, b :: stored =>
      info.Describes b base position ∧
        Tiles stop size (base + b.batch.records.length) (position + b.encoded.length) infos stored
  | _, _, _, _ => False

/-- One more batch behind the others. -/
theorem Tiles.snoc {stop size base position : Nat} {infos : List BatchInfo}
    {stored : List (StoredBatch topic partition)}
    (tiles : Tiles stop size base position infos stored)
    {info : BatchInfo} {b : StoredBatch topic partition} (describes : info.Describes b stop size) :
    Tiles (stop + b.batch.records.length) (size + b.encoded.length) base position (infos ++ [info])
      (stored ++ [b]) := by
  induction infos generalizing base position stored with
  | nil =>
      cases stored with
      | nil =>
          obtain ⟨rfl, rfl⟩ := tiles
          exact ⟨describes, rfl, rfl⟩
      | cons _ _ => exact tiles.elim
  | cons first infos ih =>
      cases stored with
      | nil => exact tiles.elim
      | cons _ _ => exact ⟨tiles.1, ih tiles.2⟩

/-- The offsets and positions add up. -/
theorem Tiles.sums {stop size base position : Nat} {infos : List BatchInfo}
    {stored : List (StoredBatch topic partition)}
    (tiles : Tiles stop size base position infos stored) :
    stop = base + (storedRecords stored).length ∧
      size = position + (storedBytes stored).length := by
  induction infos generalizing base position stored with
  | nil =>
      cases stored with
      | nil =>
          obtain ⟨rfl, rfl⟩ := tiles
          exact ⟨rfl, rfl⟩
      | cons _ _ => exact tiles.elim
  | cons first infos ih =>
      cases stored with
      | nil => exact tiles.elim
      | cons b stored =>
          obtain ⟨offsets, positions⟩ := ih tiles.2
          simp only [storedRecords_cons, storedBytes_cons, List.length_append]
          omega

/-! ## Timestamps -/

/-- The largest timestamp of the records; the smallest value stands for none. -/
def LatestTime (time : Int64) (records : List Record) : Prop :=
  (records = [] ∧ time = Int64.minValue) ∨
    IsGreatest {t | ∃ r ∈ records, r.timestamp = t} time

theorem raiseMaxTime_append (time : Int64) (first second : List Record) :
    raiseMaxTime time (first ++ second) = raiseMaxTime (raiseMaxTime time first) second :=
  List.foldl_append

/-- A later record raises the latest time. -/
theorem LatestTime.push {time : Int64} {records : List Record} (latest : LatestTime time records)
    (r : Record) :
    LatestTime (if time < r.timestamp then r.timestamp else time) (records ++ [r]) := by
  refine .inr ?_
  rcases latest with ⟨rfl, rfl⟩ | ⟨⟨r', mem, rfl⟩, bound⟩
  · by_cases above : Int64.minValue < r.timestamp
    · rw [if_pos above]
      refine ⟨⟨r, by simp, rfl⟩, fun t found => ?_⟩
      obtain ⟨r', mem, rfl⟩ := found
      obtain rfl := List.mem_singleton.1 mem
      exact Int64.le_refl _
    · rw [if_neg above]
      have least : r.timestamp = Int64.minValue :=
        Int64.le_antisymm (Int64.not_lt.1 above) (Int64.minValue_le _)
      refine ⟨⟨r, by simp, least⟩, fun t found => ?_⟩
      obtain ⟨r', mem, rfl⟩ := found
      obtain rfl := List.mem_singleton.1 mem
      exact Int64.not_lt.1 above
  · by_cases above : r'.timestamp < r.timestamp
    · rw [if_pos above]
      refine ⟨⟨r, by simp, rfl⟩, fun t found => ?_⟩
      obtain ⟨other, mem, rfl⟩ := found
      rcases List.mem_append.1 mem with old | new
      · exact Int64.le_trans (bound ⟨other, old, rfl⟩) (Int64.le_of_lt above)
      · obtain rfl := List.mem_singleton.1 new
        exact Int64.le_refl _
    · rw [if_neg above]
      refine ⟨⟨r', by simp [mem], rfl⟩, fun t found => ?_⟩
      obtain ⟨other, mem, rfl⟩ := found
      rcases List.mem_append.1 mem with old | new
      · exact bound ⟨other, old, rfl⟩
      · obtain rfl := List.mem_singleton.1 new
        exact Int64.not_lt.1 above

theorem LatestTime.raise {time : Int64} {records : List Record} (latest : LatestTime time records)
    (more : List Record) : LatestTime (raiseMaxTime time more) (records ++ more) := by
  induction more generalizing time records with
  | nil => simpa [raiseMaxTime] using latest
  | cons r more ih =>
      have pushed := ih (latest.push r)
      rwa [List.append_assoc, List.singleton_append] at pushed

/-! ## Segments -/

/-- The segment in memory represents a file whose log part holds the given batches. -/
structure Segment.Represents (s : Segment) (data : Bytes)
    (stored : List (StoredBatch topic partition)) : Prop where
  header : s.header.Valid
  topic_eq : topic ≠ 0 → s.header.topic = topic
  partition_eq : s.header.partition = partition
  inside : s.size ≤ data.length
  file : data.take s.size = s.header.bytes ++ storedBytes stored
  tiles : Tiles s.endOffset.toNat s.size s.header.baseOffset.toNat segmentHeaderBytes.toNat
    s.batches stored
  records : s.records = (storedRecords stored).length
  maxTime : LatestTime s.maxTime (storedRecords stored)
  hash : s.headerHash = segmentHeaderHash s.header.bytes
  hints : HintsOf s.batches s.offsetIndex

namespace Segment.Represents

variable {s : Segment} {data : Bytes} {stored : List (StoredBatch topic partition)}

/-- The size in memory is that of header and batches. -/
theorem size_eq (represents : s.Represents data stored) :
    s.size = 72 + (storedBytes stored).length :=
  represents.tiles.sums.2

/-- A segment counts its records. -/
theorem endOffset_eq (represents : s.Represents data stored) :
    s.endOffset.toNat = s.header.baseOffset.toNat + s.records := by
  rw [represents.records]
  exact represents.tiles.sums.1

/-- A segment without records has no bytes behind its header. -/
theorem size_of_empty (represents : s.Represents data stored) (empty : s.records = 0) :
    s.size = 72 ∧ stored = [] := by
  have none : stored = [] := by
    cases stored with
    | nil => rfl
    | cons b stored =>
        have nonempty := b.decoded.valid.nonempty
        have count := represents.records
        simp only [storedRecords_cons, List.length_append] at count
        omega
  subst none
  exact ⟨represents.size_eq, rfl⟩

/-- Any hints into the batches will do as an index. -/
theorem withIndexes (represents : s.Represents data stored)
    {offsetIndex : List OffsetIndexEntry} (hints : HintsOf s.batches offsetIndex)
    (timeIndex : List TimeIndexEntry) (indexDirty : Bool) :
    (s.withIndexes offsetIndex timeIndex indexDirty).Represents data stored :=
  { represents with hints }

/-- Bytes behind the log part do not matter. -/
theorem of_take {data' : Bytes} (represents : s.Represents data stored)
    (inside : s.size ≤ data'.length) (same : data'.take s.size = data.take s.size) :
    s.Represents data' stored :=
  { represents with inside, file := same.trans represents.file }

/-- A new segment represents a file of its header. -/
theorem newSegment {h : SegmentHeader} (valid : h.Valid) (topicEq : topic ≠ 0 → h.topic = topic)
    (partitionEq : h.partition = partition) :
    (newSegment h).Represents h.bytes ([] : List (StoredBatch topic partition)) where
  header := valid
  topic_eq := topicEq
  partition_eq := partitionEq
  inside := by simp [Immulog.newSegment, segmentHeaderBytes]
  file := by
    rw [storedBytes_nil, List.append_nil]
    exact List.take_of_length_le (by simp [Immulog.newSegment, segmentHeaderBytes])
  tiles := ⟨rfl, rfl⟩
  records := rfl
  maxTime := .inl ⟨rfl, rfl⟩
  hash := rfl
  hints := by simp [HintsOf, Immulog.newSegment]

/-- A batch behind the log part extends the segment. -/
theorem extended {b : StoredBatch topic partition} (represents : s.Represents data stored)
    (next : b.batch.baseOffset = s.endOffset) {data' : Bytes}
    (front : s.header.bytes ++ storedBytes stored ++ b.encoded <+: data') :
    (s.extended b.batch b.encoded).Represents data' (stored ++ [b]) := by
  have size := represents.size_eq
  have offsets := b.decoded.valid.end_toNat.1
  have length : (s.header.bytes ++ storedBytes stored ++ b.encoded).length =
      s.size + b.encoded.length := by
    rw [size, List.length_append, List.length_append, SegmentHeader.length_bytes]
  have describes : (batchInfo b.batch s.size b.encoded).Describes b s.endOffset.toNat s.size := by
    rw [← next]
    exact batchInfo_describes b s.size
  refine ⟨represents.header, represents.topic_eq, represents.partition_eq, ?_, ?_, ?_, ?_, ?_,
    represents.hash, ?_⟩
  · rw [Segment.extended, ← length]
    exact front.length_le
  · rw [Segment.extended, ← length, storedBytes_append, ← List.append_assoc]
    simpa using (List.prefix_iff_eq_take.1 front).symm
  · have stop : (s.endOffset + .ofNat b.batch.records.length).toNat =
        s.endOffset.toNat + b.batch.records.length := by
      rw [← next]
      exact offsets
    simp only [Segment.extended, stop]
    exact represents.tiles.snoc describes
  · simp [Segment.extended, represents.records, storedRecords]
  · have raised := represents.maxTime.raise b.batch.records
    simpa [Segment.extended, storedRecords] using raised
  · exact represents.hints.mono fun info mem => List.mem_append_left _ mem

end Segment.Represents

/-! ## Recovery -/

/-- The loop's variables behind the given batches. -/
structure Recovered.Extends (r r' : Recovered) (stored : List (StoredBatch topic partition)) :
    Prop where
  batches : ∃ infos, r'.batches = r.batches ++ infos ∧
    Tiles r'.current.toNat r'.position r.current.toNat r.position infos stored
  records : r'.records = r.records + (storedRecords stored).length
  maxTime : r'.maxTime = raiseMaxTime r.maxTime (storedRecords stored)

theorem Recovered.Extends.refl (r : Recovered) :
    r.Extends r ([] : List (StoredBatch topic partition)) :=
  ⟨⟨[], by simp, rfl, rfl⟩, by simp, rfl⟩

/-- One more decoded batch in front of what follows. -/
theorem Recovered.Extends.cons {r r' : Recovered} {b : StoredBatch topic partition}
    {stored : List (StoredBatch topic partition)} (base : b.batch.baseOffset = r.current)
    (extends' : (r.push b.batch b.encoded).Extends r' stored) : r.Extends r' (b :: stored) := by
  obtain ⟨⟨infos, batches, tiles⟩, records, maxTime⟩ := extends'
  have describes := batchInfo_describes b r.position
  rw [base] at describes
  have offset : (r.push b.batch b.encoded).current.toNat =
      r.current.toNat + b.batch.records.length := by
    simp only [Recovered.push, ← base]
    exact b.decoded.valid.end_toNat.1
  rw [offset] at tiles
  refine ⟨⟨batchInfo b.batch r.position b.encoded :: infos, ?_, describes, tiles⟩, ?_, ?_⟩
  · rw [batches]
    simp [Recovered.push]
  · rw [records]
    simp [Recovered.push, Nat.add_assoc]
  · rw [maxTime, storedRecords_cons, raiseMaxTime_append]
    rfl

/-- The loop reads stored batches; it leaves bytes only to cut them off. -/
theorem recoverBatches_stored {final : Bool} {fuel : Nat} {rest : Bytes} {r r' : Recovered}
    {cut : Bool} (enough : rest.length ≤ fuel)
    (ok : recoverBatches topic partition final fuel rest r = .ok (r', cut)) :
    ∃ (stored : List (StoredBatch topic partition)) (tail : Bytes),
      rest = storedBytes stored ++ tail ∧ (cut = false → tail = []) ∧ r.Extends r' stored := by
  induction fuel generalizing rest r with
  | zero =>
      obtain rfl := List.length_eq_zero_iff.1 (Nat.le_zero.1 enough)
      obtain ⟨rfl, rfl⟩ := Prod.mk.inj (Except.ok.inj ok)
      exact ⟨[], [], rfl, fun _ => rfl, .refl r⟩
  | succ fuel ih =>
      by_cases nonempty : rest = []
      · subst nonempty
        rw [recoverBatches_nil] at ok
        obtain ⟨rfl, rfl⟩ := Prod.mk.inj (Except.ok.inj ok)
        exact ⟨[], [], rfl, fun _ => rfl, .refl r⟩
      obtain ⟨long, ⟨-, -, -, out⟩ | ⟨fits, minimum, batch, decoded, base, later⟩⟩ :=
        recoverBatches_round nonempty ok
      · obtain ⟨rfl, rfl⟩ := Prod.mk.inj out
        exact ⟨[], rest, rfl, by simp, .refl _⟩
      · have shorter : (rest.drop (uint32 (slice rest 8 12)).toNat).length ≤ fuel := by
          rw [List.length_drop]
          omega
        obtain ⟨stored, tail, front, whole, extends'⟩ := ih shorter later
        let b : StoredBatch topic partition := ⟨_, batch, decoded⟩
        refine ⟨b :: stored, tail, ?_, whole, extends'.cons (b := b) base⟩
        rw [storedBytes_cons, List.append_assoc, ← front]
        simp [b, slice]

/-- What recovery reads off a file is represented by the file, also once the rest is
cut off. -/
theorem readSegment_represents {base expected : UInt64} {final cut : Bool} {data : Bytes}
    {header : SegmentHeader} {r : Recovered}
    (ok : readSegment base topic partition final expected data = .ok (header, r, cut)) :
    base = expected ∧ header.baseOffset = expected ∧ (cut = false → r.position = data.length) ∧
      ∃ stored : List (StoredBatch topic partition),
        (r.segment header data).Represents data stored := by
  simp only [readSegment, readSegmentAt, bind_eq_ok, failIf_eq_ok, exists_const, not_or,
    Nat.not_lt, not_not, ne_eq, Name.log.injEq, pure_eq_ok, Except.ok.injEq, Prod.mk.injEq,
    Prod.exists] at ok
  obtain ⟨long, header, decoded, ⟨path, order⟩, r, cut, looped, rfl, rfl, rfl⟩ := ok
  obtain ⟨valid, topicEq, partitionEq, bytes⟩ := SegmentHeader.of_decode decoded
  have limit : segmentHeaderBytes.toNat = 72 := by decide
  rw [limit] at long looped bytes
  have front : slice data 0 72 = header.bytes := by
    rw [← bytes]
    simp [slice, List.take_take]
  obtain ⟨stored, tail, rest, whole, ⟨infos, batches, tiles⟩, records, maxTime⟩ :=
    recoverBatches_stored (by simp) looped
  have split : data = header.bytes ++ (storedBytes stored ++ tail) := by
    rw [← front, ← rest, slice, List.drop_zero]
    exact (List.take_append_drop 72 data).symm
  have position : r.position = 72 + (storedBytes stored).length := tiles.sums.2
  refine ⟨path.trans order, order, ?_, stored, valid, topicEq, partitionEq, ?_, ?_, ?_, ?_,
    ?_, ?_, ?_⟩
  · intro all
    rw [split, whole all, position]
    simp
  · change r.position ≤ data.length
    rw [split, position]
    simp
  · change data.take r.position = _
    rw [split, ← List.append_assoc, position]
    exact List.take_left' (by simp)
  · have none : r.batches = infos := by simpa [recoveryStart] using batches
    change Tiles _ _ _ _ r.batches _
    rw [none]
    exact tiles
  · simpa [recoveryStart, Recovered.segment] using records
  · have latest : LatestTime Int64.minValue ([] : List Record) := .inl ⟨rfl, rfl⟩
    have raised := latest.raise (storedRecords stored)
    change LatestTime r.maxTime _
    rw [maxTime]
    exact raised
  · change segmentHeaderHash (slice data 0 segmentHeaderBytes.toNat) = _
    rw [limit, front]
    rfl
  · simp [HintsOf, Recovered.segment]

end Stored

/-! ## Partitions -/

/-- The file of the segment holds the given batches. -/
def Segment.InDir {topic : TopicID} {partition : UInt32} (d : Dir Name) (s : Segment)
    (stored : List (StoredBatch topic partition)) : Prop :=
  ∃ data, d.read? s.name = some data ∧ s.Represents data stored

/-- A segment with records, and the next one where it ends. -/
def Segment.Precedes (s next : Segment) : Prop :=
  s.records ≠ 0 ∧ next.header.baseOffset = s.endOffset

/-- The batches of the closed segments, oldest first. -/
abbrev StoredSegments (topic : TopicID) (partition : UInt32) :=
  List (List (StoredBatch topic partition))

/-- The records of the batches in closed segments and in the active one. -/
def logRecords {topic : TopicID} {partition : UInt32} (closed : StoredSegments topic partition)
    (last : List (StoredBatch topic partition)) : List Record :=
  closed.flatMap storedRecords ++ storedRecords last

/-- The partition in memory represents the files of its directory: `closed` are the
batches in its closed segments, `last` those in the active one. -/
structure Partition.Represents {topic : TopicID} {partition : UInt32} (p : Partition)
    (d : Dir Name) (closed : StoredSegments topic partition)
    (last : List (StoredBatch topic partition)) : Prop where
  topic_eq : p.topic = topic
  partition_eq : p.partition = partition
  closedFiles : List.Forall₂ (Segment.InDir d) p.closedSegments closed
  activeFile : p.active.InDir d last
  linked : p.segments.IsChain Segment.Precedes
  logEnd : p.logEnd = p.active.endOffset

section Bases

variable {topic : TopicID} {partition : UInt32} {d d' : Dir Name}

/-- A segment depends on its own file only. -/
theorem Segment.InDir.frame {s : Segment} {stored : List (StoredBatch topic partition)}
    (held : s.InDir d stored) (same : d'.read? s.name = d.read? s.name) : s.InDir d' stored := by
  obtain ⟨data, read, represents⟩ := held
  exact ⟨data, same.trans read, represents⟩

/-- A segment in front of another has the smaller base. -/
theorem Segment.InDir.base_lt {s next : Segment} {stored : List (StoredBatch topic partition)}
    (held : s.InDir d stored) (precedes : s.Precedes next) :
    s.header.baseOffset.toNat < next.header.baseOffset.toNat := by
  obtain ⟨data, -, represents⟩ := held
  rw [precedes.2, represents.endOffset_eq]
  have filled := precedes.1
  omega

/-- The bases of linked segments increase. -/
theorem bases_increase {segments : List Segment} {contents : StoredSegments topic partition}
    (files : List.Forall₂ (Segment.InDir d) segments contents)
    (last : Segment) (linked : (segments ++ [last]).IsChain Segment.Precedes) :
    (segments ++ [last]).Pairwise fun s t =>
      s.header.baseOffset.toNat < t.header.baseOffset.toNat := by
  induction files with
  | nil => simp
  | @cons s stored segments contents held _ ih =>
      rw [List.cons_append, List.isChain_cons] at linked
      obtain ⟨next, later⟩ := linked
      have sorted := ih later
      rw [List.cons_append, List.pairwise_cons]
      refine ⟨fun t mem => ?_, sorted⟩
      rcases shape : segments ++ [last] with _ | ⟨head, rest⟩
      · simp at shape
      · rw [shape] at mem sorted next
        have first := held.base_lt (next head (by simp))
        rcases List.mem_cons.1 mem with rfl | later
        · exact first
        · exact first.trans (List.rel_of_pairwise_cons sorted later)

end Bases

namespace Partition.Represents

variable {topic : TopicID} {partition : UInt32} {p : Partition} {d d' : Dir Name}
  {closed : StoredSegments topic partition} {last : List (StoredBatch topic partition)}

/-- Bases go up along the partition. -/
theorem increasing (represents : p.Represents d closed last) :
    p.segments.Pairwise fun s t => s.header.baseOffset.toNat < t.header.baseOffset.toNat :=
  bases_increase represents.closedFiles p.active represents.linked

theorem closed_lt (represents : p.Represents d closed last) {s : Segment}
    (mem : s ∈ p.closedSegments) :
    s.header.baseOffset.toNat < p.active.header.baseOffset.toNat := by
  have sorted := represents.increasing
  rw [Partition.segments, List.pairwise_append] at sorted
  exact sorted.2.2 s mem p.active List.mem_cons_self

theorem closed_ne (represents : p.Represents d closed last) {s : Segment}
    (mem : s ∈ p.closedSegments) : s.header.baseOffset ≠ p.active.header.baseOffset := by
  intro same
  have less := represents.closed_lt mem
  rw [same] at less
  exact Nat.lt_irrefl _ less

/-- The log ends behind the records of the active segment. -/
theorem logEnd_eq (represents : p.Represents d closed last) :
    p.logEnd.toNat = p.active.header.baseOffset.toNat + p.active.records := by
  obtain ⟨data, -, active⟩ := represents.activeFile
  rw [represents.logEnd, active.endOffset_eq]

/-- Behind records of the active segment there is room for a new one. -/
theorem ne_logEnd (represents : p.Represents d closed last) (filled : p.active.records ≠ 0)
    {s : Segment} (mem : s ∈ p.segments) : s.header.baseOffset ≠ p.logEnd := by
  intro same
  have stop := represents.logEnd_eq
  rw [← same] at stop
  rcases List.mem_append.1 mem with inClosed | isActive
  · have less := represents.closed_lt inClosed
    omega
  · obtain rfl := List.mem_singleton.1 isActive
    omega

/-- Only the files of the segments matter. -/
theorem frame (represents : p.Represents d closed last)
    (same : ∀ s ∈ p.segments, d'.read? s.name = d.read? s.name) : p.Represents d' closed last := by
  refine { represents with closedFiles := ?_, activeFile := ?_ }
  · have both := (List.forall₂_and_left _ _).2
      ⟨fun s mem => same s (List.mem_append_left _ mem), represents.closedFiles⟩
    exact both.imp fun s stored found => found.2.frame found.1
  · exact represents.activeFile.frame (same _ (List.mem_append_right _ List.mem_cons_self))

end Partition.Represents

end Immulog
