import Immulog.Offsets
import Immulog.Representation

/-!
Reads of a partition that represents its files.

`Read` and `Fetch` return the records of the represented log one after the other from
the requested offset on.
-/

namespace Immulog

open Lib

section Scans

variable {topic : TopicID} {partition : UInt32}

/-! ## Batches at the front of a scan -/

/-- A stored batch tells its own length. -/
theorem StoredBatch.front (b : StoredBatch topic partition) (rest : Bytes) :
    (uint32 (slice (b.encoded ++ rest) 8 12)).toNat = b.encoded.length ∧
      slice (b.encoded ++ rest) 0 b.encoded.length = b.encoded ∧
      80 ≤ b.encoded.length ∧ b.encoded.length ≤ 67108864 := by
  have bounds := b.decoded.valid.total_bounds
  have total := b.decoded.total
  have field : slice (b.encoded ++ rest) 8 12 = slice b.encoded 8 12 := by
    rw [slice, slice, List.drop_append_of_le_length (by omega),
      List.take_append_of_le_length (by rw [List.length_drop]; omega)]
  rw [field]
  exact ⟨b.decoded.length, slice_zero_append rfl, by omega, by omega⟩

theorem readBatch_stored (b : StoredBatch topic partition) {left : Nat} (rest : Bytes)
    (fits : b.encoded.length ≤ left) :
    readBatch topic partition left (b.encoded ++ rest) = .ok (b.batch, b.encoded.length) := by
  obtain ⟨field, front, low, high⟩ := b.front rest
  have long : ¬ left < batchHeaderBytes.toNat := by
    simp only [batchHeaderBytes, UInt16.reduceToNat]
    omega
  have minimum : (batchHeaderBytes.toUInt32 + 4).toNat = 52 := by decide
  have inside : ¬ (uint32 (slice (b.encoded ++ rest) 8 12) < batchHeaderBytes.toUInt32 + 4 ∨
      left < b.encoded.length) := by
    rw [UInt32.lt_iff_toNat_lt, field, minimum]
    omega
  simp only [readBatch, failIf_of_not long, field, failIf_of_not inside, front, b.decodes, ok_bind,
    pure_eq_ok]

theorem fetchBatch_stored (b : StoredBatch topic partition) {left : Nat} (rest : Bytes)
    (fits : b.encoded.length ≤ left) :
    fetchBatch topic partition left (b.encoded ++ rest) = .ok (b.batch, b.encoded.length) := by
  obtain ⟨field, front, low, high⟩ := b.front rest
  have length : (b.encoded ++ rest).length = b.encoded.length + rest.length := List.length_append
  have long : ¬ (b.encoded ++ rest).length < batchHeaderBytes.toNat := by
    simp only [length, batchHeaderBytes, UInt16.reduceToNat]
    omega
  have minimum : (batchHeaderBytes.toUInt32 + 4).toNat = 52 := by decide
  have limit : maxBatchBytes.toNat = 67108864 := by decide
  have inside : ¬ (uint32 (slice (b.encoded ++ rest) 8 12) < batchHeaderBytes.toUInt32 + 4 ∨
      maxBatchBytes < uint32 (slice (b.encoded ++ rest) 8 12) ∨ left < b.encoded.length) := by
    rw [UInt32.lt_iff_toNat_lt, UInt32.lt_iff_toNat_lt, field, minimum, limit]
    omega
  have body : ¬ (b.encoded ++ rest).length < b.encoded.length := by omega
  simp only [fetchBatch, failIf_of_not long, field, failIf_of_not inside, failIf_of_not body,
    front, b.decodes, ok_bind, pure_eq_ok]

/-! ## The batch map and the records -/

/-- Where a batch of the map stands. -/
theorem Tiles.mem {stop size base position : Nat} {infos : List BatchInfo}
    {stored : List (StoredBatch topic partition)}
    (tiles : Tiles stop size base position infos stored)
    {info : BatchInfo} (listed : info ∈ infos) :
    ∃ before b behind, stored = before ++ b :: behind ∧
      info.base.toNat = base + (storedRecords before).length ∧
      info.position = position + (storedBytes before).length := by
  induction infos generalizing base position stored with
  | nil => cases listed
  | cons first infos ih =>
      cases stored with
      | nil => exact tiles.elim
      | cons b stored =>
          rcases List.mem_cons.1 listed with rfl | later
          · exact ⟨[], b, stored, rfl, tiles.1.base, tiles.1.position⟩
          · obtain ⟨before, b', behind, rfl, offset, place⟩ := ih tiles.2 later
            refine ⟨b :: before, b', behind, rfl, ?_, ?_⟩
            · rw [offset, storedRecords_cons, List.length_append]
              omega
            · rw [place, storedBytes_cons, List.length_append]
              omega

/-- The records of the batches stand one behind the other. -/
theorem Tiles.offsets {stop size base position : Nat} {infos : List BatchInfo}
    {stored : List (StoredBatch topic partition)}
    (tiles : Tiles stop size base position infos stored)
    {index : Nat} {r : Record} (found : (storedRecords stored)[index]? = some r) :
    r.offset.toNat = base + index := by
  induction infos generalizing base position stored index with
  | nil =>
      cases stored with
      | nil => simp at found
      | cons _ _ => exact tiles.elim
  | cons first infos ih =>
      cases stored with
      | nil => exact tiles.elim
      | cons b stored =>
          obtain ⟨describes, later⟩ := tiles
          rw [storedRecords_cons] at found
          have start : b.batch.baseOffset.toNat = base := by rw [describes.batch, describes.base]
          rcases Nat.lt_or_ge index b.batch.records.length with inside | behind
          · rw [List.getElem?_append_left inside] at found
            have here := b.decoded.valid.consecutive index r found
            omega
          · rw [List.getElem?_append_right behind] at found
            have there := ih later found
            omega

namespace Segment.Represents

variable {s : Segment} {data : Bytes} {stored : List (StoredBatch topic partition)}

theorem consecutive (represents : s.Represents data stored) :
    Consecutive s.header.baseOffset (storedRecords stored) :=
  fun _ _ found => represents.tiles.offsets found

theorem split_bytes (represents : s.Represents data stored) :
    data = s.header.bytes ++ storedBytes stored ++ data.drop s.size := by
  rw [← represents.file, List.take_append_drop]

/-- The hint splits the batches into those it passes over, all below the offset, and
those the scan starts with. -/
theorem hint_splits (represents : s.Represents data stored) (offset : UInt64) :
    ∃ before behind, stored = before ++ behind ∧
      hintPosition offset s.offsetIndex segmentHeaderBytes.toNat =
        (s.header.bytes ++ storedBytes before).length ∧
      ∀ r ∈ storedRecords before, r.offset < offset := by
  have header : segmentHeaderBytes.toNat = s.header.bytes.length := by
    rw [SegmentHeader.length_bytes]
    rfl
  rcases hintPosition_cases offset s.offsetIndex segmentHeaderBytes.toNat with
    same | ⟨hint, mem, reached, same⟩
  · exact ⟨[], stored, rfl, by rw [same, header]; simp, by simp⟩
  · obtain ⟨info, found, baseEq, positionEq⟩ := represents.hints hint mem
    obtain ⟨before, b, behind, split, infoBase, infoPosition⟩ := represents.tiles.mem found
    refine ⟨before, b :: behind, split, ?_, fun r inBefore => ?_⟩
    · rw [same, positionEq, infoPosition, header, List.length_append]
    · obtain ⟨index, place⟩ := List.mem_iff_getElem?.1 inBefore
      have inside := (List.getElem?_eq_some_iff.1 place).1
      have whole : (storedRecords stored)[index]? = some r := by
        rw [split, storedRecords_append, List.getElem?_append_left inside]
        exact place
      have offsetEq := represents.tiles.offsets whole
      have le := UInt64.le_iff_toNat_le.1 reached
      rw [baseEq, infoBase] at le
      rw [UInt64.lt_iff_toNat_lt]
      omega

/-- A scan of a segment from the hint on takes the records of the segment. -/
theorem scan {σ : Type} (represents : s.Represents data stored)
    {next : Nat → Bytes → Except GoError (RecordBatch × Nat)}
    {consume : List Record → σ → Except GoError (σ × Bool)}
    (decodes : ∀ (b : StoredBatch topic partition) (left : Nat) (rest : Bytes),
      b.encoded.length ≤ left → next left (b.encoded ++ rest) = .ok (b.batch, b.encoded.length))
    (splits : Splits consume) {offset : UInt64} (skips : Skips offset consume) (acc : σ)
    (rest : Bytes) :
    scanBatches next consume s.size
      (s.size - hintPosition offset s.offsetIndex segmentHeaderBytes.toNat)
      ((s.header.bytes ++ storedBytes stored ++ rest).drop
        (hintPosition offset s.offsetIndex segmentHeaderBytes.toNat)) acc =
        consume (storedRecords stored) acc := by
  obtain ⟨before, behind, rfl, position, below⟩ := represents.hint_splits offset
  have size : s.size =
      (s.header.bytes ++ storedBytes before).length + (storedBytes behind).length := by
    rw [represents.size_eq, storedBytes_append, List.length_append, List.length_append,
      SegmentHeader.length_bytes]
    omega
  have left : s.size - (s.header.bytes ++ storedBytes before).length =
      (storedBytes behind).length := by omega
  have dropped : (s.header.bytes ++ storedBytes (before ++ behind) ++ rest).drop
      (s.header.bytes ++ storedBytes before).length = storedBytes behind ++ rest := by
    rw [storedBytes_append, ← List.append_assoc, List.append_assoc, List.drop_left]
  rw [position, left, dropped, storedRecords_append, splits.skip skips below]
  refine scanBatches_items splits (fun b _ => ⟨b.length_pos, fun left rest fits => ?_⟩) rest acc ?_
  · exact decodes b left rest fits
  · change (storedBytes behind).length ≤ s.size
    omega

/-- Hints lie inside the segment. -/
theorem hint_inside (represents : s.Represents data stored) :
    ∀ hint ∈ s.offsetIndex, hint.position ≤ s.size := by
  intro hint mem
  obtain ⟨info, found, _, positionEq⟩ := represents.hints hint mem
  obtain ⟨before, b, behind, rfl, _, infoPosition⟩ := represents.tiles.mem found
  rw [positionEq, infoPosition, represents.size_eq, storedBytes_append, List.length_append]
  simp only [segmentHeaderBytes, UInt16.reduceToNat]
  omega

end Segment.Represents

end Scans

/-! ## Reads of a partition -/

section Reads

variable {topic : TopicID} {partition : UInt32} {p : Partition} {d : Dir Name}
  {closed : StoredSegments topic partition} {last : List (StoredBatch topic partition)}

theorem readSegmentFile_inDir {s : Segment} {stored : List (StoredBatch topic partition)}
    (held : s.InDir d stored) :
    readSegmentFile d s = .ok (s.header.bytes ++ storedBytes stored) ∧
      (s.header.bytes ++ storedBytes stored).length = s.size := by
  obtain ⟨data, read, represents⟩ := held
  have long : ¬ data.length < s.size := Nat.not_lt.2 represents.inside
  refine ⟨?_, ?_⟩
  · simp only [readSegmentFile, read, failIf_of_not long, ok_bind, represents.file, pure_eq_ok]
  · rw [represents.size_eq, List.length_append, SegmentHeader.length_bytes]

/-- The records of a segment that ends at or before the offset are below it. -/
theorem Segment.InDir.below {s : Segment} {stored : List (StoredBatch topic partition)}
    (held : s.InDir d stored) {offset : UInt64} (passed : s.endOffset ≤ offset) :
    ∀ r ∈ storedRecords stored, r.offset < offset := by
  obtain ⟨data, _, represents⟩ := held
  intro r mem
  have range := (represents.consecutive.range mem).2
  have stop := represents.endOffset_eq
  rw [represents.records] at stop
  rw [UInt64.le_iff_toNat_le] at passed
  rw [UInt64.lt_iff_toNat_lt]
  omega

theorem readSegments_inDir {segments : List Segment} {contents : StoredSegments topic partition}
    (topicEq : p.topic = topic) (partitionEq : p.partition = partition)
    (files : List.Forall₂ (Segment.InDir d) segments contents)
    (offset : UInt64) (maxRecords : UInt32) (acc : List Record) :
    readSegments d p offset maxRecords segments acc =
      (readRecords offset maxRecords (contents.flatMap storedRecords) acc).map Prod.fst := by
  have splits := readRecords_splits offset maxRecords
  have skips := readRecords_skips offset maxRecords
  induction files generalizing acc with
  | nil => rfl
  | @cons s stored segments contents held _ ih =>
      rw [readSegments, List.flatMap_cons]
      split
      · rename_i passed
        rw [splits.skip skips (held.below passed)]
        exact ih acc
      · obtain ⟨file, length⟩ := readSegmentFile_inDir held
        obtain ⟨data, _, represents⟩ := held
        have scan := represents.scan (fun b left rest fits => readBatch_stored b rest fits) splits
          skips acc []
        rw [List.append_nil] at scan
        rw [file, splits.2, topicEq, partitionEq]
        simp only [ok_bind, length, scan]
        cases readRecords offset maxRecords (storedRecords stored) acc with
        | error e => rfl
        | ok taken =>
            obtain ⟨acc', done⟩ := taken
            cases done with
            | true => rfl
            | false => exact ih acc'

theorem fetchSegments_inDir {segments : List Segment} {contents : StoredSegments topic partition}
    (topicEq : p.topic = topic) (partitionEq : p.partition = partition)
    (files : List.Forall₂ (Segment.InDir d) segments contents)
    (offset : UInt64) (options : FetchOptions) (acc : FetchState) :
    fetchSegments d p offset options segments acc =
      (fetchRecords offset options (contents.flatMap storedRecords) acc).map
        fun found => found.1.result := by
  have splits := fetchRecords_splits offset options
  have skips := fetchRecords_skips offset options
  induction files generalizing acc with
  | nil => rfl
  | @cons s stored segments contents held _ ih =>
      rw [fetchSegments, List.flatMap_cons]
      split
      · rename_i passed
        rw [splits.skip skips (held.below passed)]
        exact ih acc
      · obtain ⟨data, read, represents⟩ := held
        have scan := represents.scan (fun b left rest fits => fetchBatch_stored b rest fits) splits
          skips acc (data.drop s.size)
        rw [← represents.split_bytes] at scan
        have scanned : scanSegmentForFetch d p s offset options acc =
            fetchRecords offset options (storedRecords stored) acc := by
          simp only [scanSegmentForFetch, read, topicEq, partitionEq,
            fetchPosition_eq represents.hint_inside, ok_bind, scan]
        rw [scanned, splits.2]
        cases fetchRecords offset options (storedRecords stored) acc with
        | error e => rfl
        | ok taken =>
            obtain ⟨acc', done⟩ := taken
            cases done with
            | true => rfl
            | false => exact ih acc'

namespace Partition.Represents

/-- All segments with their batches. -/
theorem files (represents : p.Represents d closed last) :
    List.Forall₂ (Segment.InDir d) p.segments (closed ++ [last]) :=
  List.rel_append represents.closedFiles (.cons represents.activeFile .nil)

theorem logRecords_eq (closed : StoredSegments topic partition)
    (last : List (StoredBatch topic partition)) :
    (closed ++ [last]).flatMap storedRecords = logRecords closed last := by
  simp [logRecords]

end Partition.Represents

/-- The records of linked segments stand one behind the other. -/
theorem linked_consecutive {segments : List Segment} {contents : StoredSegments topic partition}
    (files : List.Forall₂ (Segment.InDir d) segments contents)
    (linked : segments.IsChain Segment.Precedes) :
    (∀ s ∈ segments.head?, Consecutive s.header.baseOffset (contents.flatMap storedRecords)) ∧
      ∀ s ∈ segments.getLast?, ∀ t ∈ segments.head?,
        s.endOffset.toNat = t.header.baseOffset.toNat +
          (contents.flatMap storedRecords).length := by
  induction files with
  | nil => simp
  | @cons s stored segments contents held files ih =>
      obtain ⟨data, _, represents⟩ := held
      have stop := represents.endOffset_eq
      rw [represents.records] at stop
      cases segments with
      | nil =>
          cases files
          simp only [List.head?_cons, Option.mem_some_iff, List.getLast?_singleton, forall_eq',
            List.flatMap_cons, List.flatMap_nil, List.append_nil]
          exact ⟨represents.consecutive, stop⟩
      | cons t segments =>
          rw [List.isChain_cons_cons] at linked
          obtain ⟨⟨filled, meets⟩, later⟩ := linked
          obtain ⟨behind, ends⟩ := ih later
          have next := behind t rfl
          have start : t.header.baseOffset.toNat =
              s.header.baseOffset.toNat + (storedRecords stored).length := by rw [meets, stop]
          simp only [List.head?_cons, Option.mem_some_iff, forall_eq', List.flatMap_cons]
          refine ⟨represents.consecutive.append next start, fun final isLast => ?_⟩
          have total := ends final (by rwa [List.getLast?_cons_cons] at isLast) t rfl
          rw [total, List.length_append]
          omega

namespace Partition.Represents

/-- The records of the log stand at consecutive offsets from its start to its end. -/
theorem consecutive (represents : p.Represents d closed last) :
    Consecutive p.logStart (logRecords closed last) ∧
      p.logEnd.toNat = p.logStart.toNat + (logRecords closed last).length := by
  obtain ⟨consecutive, ends⟩ := linked_consecutive represents.files represents.linked
  rw [logRecords_eq] at consecutive ends
  have isLast : p.segments.getLast? = some p.active := by simp [Partition.segments]
  cases shape : p.segments with
  | nil => simp [Partition.segments] at shape
  | cons s rest =>
      have head : p.segments.head? = some s := by rw [shape]; rfl
      have start : p.logStart = s.header.baseOffset := by rw [Partition.logStart, head]; rfl
      rw [start, represents.logEnd]
      exact ⟨consecutive s head, ends p.active isLast s head⟩

end Partition.Represents

theorem readRecords_eq (offset : UInt64) (maxRecords : UInt32) (records acc : List Record)
    (room : acc.length ≤ maxRecords.toNat) :
    ∃ done, readRecords offset maxRecords records acc =
      .ok (acc ++ (recordsFrom offset records).take (maxRecords.toNat - acc.length), done) := by
  induction records generalizing acc with
  | nil => exact ⟨false, by simp [readRecords, recordsFrom]⟩
  | cons r records ih =>
      have small := maxRecords.toNat_lt
      have length : (UInt32.ofNat acc.length).toNat = acc.length := toNat_ofNat32 (by omega)
      unfold readRecords
      by_cases below : r.offset < offset
      · rw [if_pos below, recordsFrom, List.filter_cons_of_neg (by simpa using below)]
        exact ih acc room
      rw [if_neg below, recordsFrom, List.filter_cons_of_pos (by simpa using below)]
      by_cases full : maxRecords ≤ .ofNat acc.length
      · rw [if_pos full]
        rw [UInt32.le_iff_toNat_le, length] at full
        have none : maxRecords.toNat - acc.length = 0 := by omega
        exact ⟨true, by rw [none]; simp⟩
      · rw [if_neg full]
        rw [UInt32.le_iff_toNat_le, length] at full
        have grown : (acc ++ [r]).length = acc.length + 1 := by simp
        obtain ⟨done, later⟩ := ih (acc ++ [r]) (by omega)
        have more : maxRecords.toNat - acc.length = maxRecords.toNat - (acc ++ [r]).length + 1 := by
          omega
        refine ⟨done, ?_⟩
        rw [later, more, List.take_succ_cons, List.append_assoc, List.singleton_append]
        rfl

namespace Partition.Represents

/-- `Read` returns the records from the offset on, as many as it is asked for. -/
theorem read_eq (represents : p.Represents d closed last) (isOpen : p.checkOpen = .ok ())
    {offset : UInt64} (low : p.logStart ≤ offset) (high : offset ≤ p.logEnd) {maxRecords : UInt32}
    (positive : maxRecords ≠ 0) :
    read d p offset maxRecords =
      .ok ((recordsFrom offset (logRecords closed last)).take maxRecords.toNat) := by
  obtain ⟨consecutive, stop⟩ := represents.consecutive
  simp only [read, isOpen, ok_bind, failIf_of_not (UInt64.not_lt.2 low),
    failIf_of_not (UInt64.not_lt.2 high), if_neg positive]
  by_cases atEnd : offset = p.logEnd
  · have none : recordsFrom offset (logRecords closed last) = [] := by
      rw [consecutive.recordsFrom_eq low, List.drop_eq_nil_iff, atEnd]
      omega
    rw [if_pos atEnd, none, List.take_nil]
    rfl
  · obtain ⟨done, taken⟩ := readRecords_eq offset maxRecords (logRecords closed last) []
      (Nat.zero_le _)
    rw [if_neg atEnd, readSegments_inDir represents.topic_eq represents.partition_eq
      represents.files, logRecords_eq, taken]
    simp [Except.map]

end Partition.Represents

end Reads

end Immulog
