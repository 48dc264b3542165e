import Immulog.Faults

/-!
The representation invariant of a partition.

What the segments in memory represent holds after every open and is kept by appends,
rolls and retention, also when filesystem operations fail in the middle.
-/

namespace Immulog

open Lib

variable {topic : TopicID} {partition : UInt32} {p q : Partition} {d mid d' : Dir Name}
  {closed : StoredSegments topic partition} {last : List (StoredBatch topic partition)}

/-! ## Files that are written to -/

theorem take_overwrite {data piece : Bytes} {size : Nat} (inside : size ≤ data.length) :
    (Dir.overwrite data size piece).take size = data.take size := by
  rw [Dir.overwrite, List.append_assoc, List.take_append_of_le_length (by simp [inside]),
    List.take_take, Nat.min_self]

theorem length_overwrite_ge {data piece : Bytes} {size : Nat} (inside : size ≤ data.length) :
    size ≤ (Dir.overwrite data size piece).length := by
  rw [Dir.overwrite, List.length_append, List.length_append, List.length_take]
  omega

/-- New indexes leave the contents of a segment as they are. -/
theorem Segment.Represents.reindexed {s s' : Segment} {data : Bytes}
    {stored : List (StoredBatch topic partition)} (represents : s.Represents data stored)
    (reindexed : s.Reindexed s') : s'.Represents data stored := by
  obtain ⟨offsetIndex, timeIndex, indexDirty, rfl, hints⟩ := reindexed
  exact represents.withIndexes (hints represents.hints) timeIndex indexDirty

theorem Segment.Reindexed.same {s s' : Segment} (reindexed : s.Reindexed s') :
    s'.records = s.records ∧ s'.endOffset = s.endOffset ∧ s'.header = s.header ∧
      s'.size = s.size := by
  obtain ⟨offsetIndex, timeIndex, indexDirty, rfl, -⟩ := reindexed
  exact ⟨rfl, rfl, rfl, rfl⟩

theorem Segment.Reindexed.precedes {s s' : Segment} (reindexed : s.Reindexed s') (t : Segment) :
    (s.Precedes t → s'.Precedes t) ∧ (t.Precedes s → t.Precedes s') := by
  obtain ⟨offsetIndex, timeIndex, indexDirty, rfl, -⟩ := reindexed
  exact ⟨id, id⟩

namespace Partition.Represents

/-- A fenced partition represents the same log. -/
theorem fenced (represents : p.Represents d closed last) : p.fenced.Represents d closed last :=
  ⟨represents.topic_eq, represents.partition_eq, represents.closedFiles, represents.activeFile,
    represents.linked, represents.logEnd⟩

/-- The tail cache is no part of the log. -/
theorem publishTail (represents : p.Represents d closed last) (free : Bool)
    (records : List Record) (durableEnd : UInt64) :
    (p.publishTail free records durableEnd).Represents d closed last :=
  ⟨represents.topic_eq, represents.partition_eq, represents.closedFiles, represents.activeFile,
    represents.linked, represents.logEnd⟩

/-- The closed segments do not notice a change of the active file. -/
theorem closed_frame (represents : p.Represents d closed last)
    (others : SameLogsBut p.active.header.baseOffset d d') :
    List.Forall₂ (Segment.InDir d') p.closedSegments closed := by
  have both := (List.forall₂_and_left _ _).2
    ⟨fun s mem => others.read (represents.closed_ne mem), represents.closedFiles⟩
  exact both.imp fun s stored found => found.2.frame found.1

/-- Bytes behind the log part of the active file do not matter. -/
theorem torn {data piece : Bytes} (represents : p.Represents d closed last)
    (others : SameLogsBut p.active.header.baseOffset d d')
    (before : d.read? p.active.name = some data)
    (after : d'.read? p.active.name = some (Dir.overwrite data p.active.size piece)) :
    p.Represents d' closed last := by
  obtain ⟨data', read, active⟩ := represents.activeFile
  obtain rfl := Option.some.inj (before.symm.trans read)
  refine { represents with
    closedFiles := represents.closed_frame others
    activeFile := ⟨_, after, active.of_take (length_overwrite_ge active.inside)
      (take_overwrite active.inside)⟩ }

/-- A written batch is in the active segment. -/
theorem extended {data : Bytes} {b : StoredBatch topic partition}
    (represents : p.Represents d closed last)
    (others : SameLogsBut p.active.header.baseOffset d d')
    (next : b.batch.baseOffset = p.logEnd) (before : d.read? p.active.name = some data)
    (after : d'.read? p.active.name = some (Dir.overwrite data p.active.size b.encoded)) :
    (p.extended b.batch b.encoded).Represents d' closed (last ++ [b]) := by
  obtain ⟨data', read, active⟩ := represents.activeFile
  obtain rfl := Option.some.inj (before.symm.trans read)
  have front : p.active.header.bytes ++ storedBytes last ++ b.encoded <+:
      Dir.overwrite data p.active.size b.encoded := by
    rw [← active.file, Dir.overwrite]
    exact List.prefix_append ..
  have grown := active.extended (next.trans represents.logEnd) front
  refine ⟨represents.topic_eq, represents.partition_eq, represents.closed_frame others, ?_, ?_, rfl⟩
  · exact ⟨_, after, grown.withIndexes (sampleBatchIndexes_hints _ _) _ true⟩
  · have linked := represents.linked
    rw [Partition.segments, List.isChain_append] at linked ⊢
    refine ⟨linked.1, List.isChain_singleton _, fun s mem t isLast => ?_⟩
    obtain rfl := Option.some.inj isLast
    exact linked.2.2 s mem p.active rfl

end Partition.Represents

/-! ## Appends -/

/-- A new segment behind the records of the active one closes it, and the log stays. -/
theorem Partition.Represents.rolled {sealed : Segment} {drawn : SegmentID}
    (represents : p.Represents d closed last) (filled : p.active.records ≠ 0)
    (reindexed : p.active.Reindexed sealed)
    (valid : (drawnHeader drawn p.topic p.partition p.logEnd).Valid)
    (others : SameLogsBut p.logEnd d mid)
    (read : mid.read? (.log p.logEnd) =
      some (drawnHeader drawn p.topic p.partition p.logEnd).bytes) :
    (p.rolled sealed (drawnHeader drawn p.topic p.partition p.logEnd)).Represents mid
      (closed ++ [last]) [] := by
  refine ⟨represents.topic_eq, represents.partition_eq, ?_, ?_, ?_, rfl⟩
  · have same : ∀ s ∈ p.segments, mid.read? s.name = d.read? s.name :=
      fun s mem => others.read (represents.ne_logEnd filled mem)
    have kept := represents.frame same
    obtain ⟨data, found, active⟩ := kept.activeFile
    have name : sealed.name = p.active.name := by
      rw [Segment.name, Segment.name, reindexed.same.2.2.1]
    refine List.rel_append kept.closedFiles (.cons ⟨data, ?_, active.reindexed reindexed⟩ .nil)
    rw [name]
    exact found
  · exact ⟨_, read, .newSegment valid (fun _ => represents.topic_eq) represents.partition_eq⟩
  · have linked := represents.linked
    have next : p.active.Precedes (newSegment
        (drawnHeader drawn p.topic p.partition p.logEnd)) := ⟨filled, represents.logEnd⟩
    rw [Partition.segments, List.isChain_append] at linked
    simp only [Partition.segments, Partition.rolled, List.append_assoc, List.singleton_append]
    rw [List.isChain_append]
    refine ⟨linked.1, List.isChain_cons_cons.2 ⟨(reindexed.precedes _).1 next,
      List.isChain_singleton _⟩, fun s mem t isFirst => ?_⟩
    obtain rfl := Option.some.inj isFirst
    exact (reindexed.precedes s).2 (linked.2.2 s mem _ rfl)

/-- A roll moves no record. -/
theorem logRecords_rolled (closed : StoredSegments topic partition)
    (last : List (StoredBatch topic partition)) :
    logRecords (closed ++ [last]) [] = logRecords closed last := by
  simp [logRecords]

/-- Also when a batch needs a new segment, the log behind it is the old one. -/
theorem RollsTo.represents {encoded : Bytes} {drawn : SegmentID}
    (rolls : RollsTo p d encoded drawn q mid) (represents : p.Represents d closed last) :
    q.logEnd = p.logEnd ∧ ∃ (closed' : StoredSegments topic partition)
      (last' : List (StoredBatch topic partition)), q.Represents mid closed' last' ∧
        closed'.flatten ++ last' = closed.flatten ++ last := by
  cases rolls with
  | fits room => exact ⟨rfl, closed, last, represents, rfl⟩
  | rolled full filled reindexed absent valid others read =>
      exact ⟨rfl, closed ++ [last], [], represents.rolled filled reindexed valid others read,
        by simp⟩

/-- The batch of a formed or given batch that passes the checks. -/
theorem decode_appended {b : RecordBatch} {encoded : Bytes}
    (passed : checkAppend p b encoded = .ok ()) (valid : b.Valid) (topicEq : p.topic = topic)
    (partitionEq : p.partition = partition) : decodeBatch b.bytes topic partition = .ok b := by
  obtain ⟨sameTopic, samePartition, -, -⟩ := checkAppend_passed passed
  rw [← topicEq, ← partitionEq, ← sameTopic, ← samePartition]
  exact RecordBatch.decode_bytes valid

/-- An append, also one that fails in the middle, keeps what the partition represents; an
acknowledged batch stands behind the others. -/
theorem Appends.stored {b : RecordBatch} {drawn : SegmentID} {p' : Partition}
    {outcome : Except GoError UInt64} (appends : Appends p d b b.bytes drawn p' d' outcome)
    (valid : b.Valid) (represents : p.Represents d closed last) :
    p.logEnd ≤ p'.logEnd ∧ ∃ (closed' : StoredSegments topic partition)
      (last' new : List (StoredBatch topic partition)), p'.Represents d' closed' last' ∧
        closed'.flatten ++ last' = closed.flatten ++ last ++ new ∧
        match outcome with
        | .ok _ => b.baseOffset = p.logEnd ∧ storedBytes new = b.bytes ∧
            storedRecords new = b.records
        | .error _ => p'.logEnd = p.logEnd ∧ new = [] := by
  cases appends with
  | refused _ => exact ⟨UInt64.le_refl _, closed, last, [], represents, by simp, rfl, rfl⟩
  | unrolled _ filled others _ =>
      have same : ∀ s ∈ p.segments, d'.read? s.name = d.read? s.name :=
        fun s mem => others.read (represents.ne_logEnd filled mem)
      exact ⟨UInt64.le_refl _, closed, last, [], (represents.frame same).fenced, by simp, rfl, rfl⟩
  | unknown _ rolls others left =>
      obtain ⟨sameEnd, closed', last', rolled, batches⟩ := rolls.represents represents
      refine ⟨UInt64.le_of_eq sameEnd.symm, closed', last', [], ?_, by simp [batches], sameEnd, rfl⟩
      rcases left with rfl | ⟨data, piece, -, before, after⟩
      · exact rolled.fenced
      · exact (rolled.torn others before after).fenced
  | written passed rolls others before after =>
      obtain ⟨sameEnd, closed', last', rolled, batches⟩ := rolls.represents represents
      obtain ⟨-, -, base, -⟩ := checkAppend_passed passed
      have decodes := decode_appended passed valid represents.topic_eq represents.partition_eq
      have grown := rolled.extended (b := ⟨b.bytes, b, decodes⟩) others (base.trans sameEnd.symm)
        before after
      refine ⟨?_, closed', last' ++ [⟨b.bytes, b, decodes⟩], [⟨b.bytes, b, decodes⟩], grown,
        by rw [← List.append_assoc, batches], base, by simp, by simp⟩
      rw [UInt64.le_iff_toNat_le, grown.logEnd_eq, ← sameEnd, rolled.logEnd_eq]
      exact Nat.add_le_add_left (Nat.le_add_right _ b.records.length) _

theorem storedRecords_log (closed : StoredSegments topic partition)
    (last : List (StoredBatch topic partition)) :
    storedRecords (closed.flatten ++ last) = logRecords closed last := by
  induction closed with
  | nil => rfl
  | cons stored closed ih =>
      rw [List.flatten_cons, List.append_assoc, storedRecords_append, ih]
      simp [logRecords]

/-- The log is extended by what is acknowledged. -/
theorem Appends.represents {b : RecordBatch} {drawn : SegmentID} {p' : Partition}
    {outcome : Except GoError UInt64} (appends : Appends p d b b.bytes drawn p' d' outcome)
    (valid : b.Valid) (represents : p.Represents d closed last) :
    p.logEnd ≤ p'.logEnd ∧ ∃ (closed' : StoredSegments topic partition)
      (last' : List (StoredBatch topic partition)), p'.Represents d' closed' last' ∧
        logRecords closed' last' = logRecords closed last ++ acknowledged outcome b.records := by
  obtain ⟨grows, closed', last', new, kept, batches, told⟩ := appends.stored valid represents
  refine ⟨grows, closed', last', kept, ?_⟩
  rw [← storedRecords_log, batches, storedRecords_append, storedRecords_log]
  cases outcome with
  | ok _ => rw [told.2.2, acknowledged]
  | error _ => rw [told.2, acknowledged, storedRecords_nil]

/-! ## The first segment -/

/-- The log starts where its first segment does. -/
theorem Partition.logStart_eq (p : Partition) :
    p.logStart = match p.closedSegments with
      | [] => p.active.header.baseOffset
      | first :: _ => first.header.baseOffset := by
  unfold Partition.logStart Partition.segments
  cases p.closedSegments <;> rfl

theorem Partition.logStart_rolled {p : Partition} {sealed : Segment}
    (reindexed : p.active.Reindexed sealed) (header : SegmentHeader) :
    (p.rolled sealed header).logStart = p.logStart := by
  rw [Partition.logStart_eq, Partition.logStart_eq]
  unfold Partition.rolled
  cases p.closedSegments with
  | nil => exact congrArg SegmentHeader.baseOffset reindexed.same.2.2.1
  | cons first rest => rfl

/-- A roll leaves the start of the log alone. -/
theorem RollsTo.logStart {p q : Partition} {d mid : Dir Name} {encoded : Bytes} {drawn : SegmentID}
    (rolls : RollsTo p d encoded drawn q mid) : q.logStart = p.logStart := by
  cases rolls with
  | fits _ => rfl
  | rolled full filled reindexed absent valid others read =>
      exact Partition.logStart_rolled reindexed _

theorem Partition.logStart_extended (p : Partition) (b : RecordBatch) (encoded : Bytes) :
    (p.extended b encoded).logStart = p.logStart := by
  rw [Partition.logStart_eq, Partition.logStart_eq]
  unfold Partition.extended
  cases p.closedSegments <;> rfl

theorem Partition.logStart_told (p : Partition) (free : Bool) (records : List Record)
    (outcome : Except GoError UInt64) : (p.told free records outcome).logStart = p.logStart := by
  cases outcome <;> rfl

/-- An append does not move the start of the log. -/
theorem Appends.logStart {p p' : Partition} {d d' : Dir Name} {b : RecordBatch} {encoded : Bytes}
    {drawn : SegmentID} {outcome : Except GoError UInt64}
    (appends : Appends p d b encoded drawn p' d' outcome) : p'.logStart = p.logStart := by
  cases appends with
  | refused _ => rfl
  | unrolled _ _ _ _ => rfl
  | unknown _ rolls _ _ => exact rolls.logStart
  | written _ rolls _ _ _ => exact (Partition.logStart_extended _ _ _).trans rolls.logStart

/-! ## What an append keeps -/

/-- What a roll keeps besides the log. -/
theorem RollsTo.same {p q : Partition} {d mid : Dir Name} {encoded : Bytes} {drawn : SegmentID}
    (rolls : RollsTo p d encoded drawn q mid) :
    q.logEnd = p.logEnd ∧ q.options = p.options ∧ q.closed = p.closed ∧
      q.unavailable = p.unavailable ∧
      (p.logEnd = p.active.endOffset → q.logEnd = q.active.endOffset) := by
  cases rolls with
  | fits _ => exact ⟨rfl, rfl, rfl, rfl, id⟩
  | rolled _ _ _ _ _ _ _ => exact ⟨rfl, rfl, rfl, rfl, fun _ => rfl⟩

theorem Appends.same {p p' : Partition} {d d' : Dir Name} {b : RecordBatch} {encoded : Bytes}
    {drawn : SegmentID} {outcome : Except GoError UInt64}
    (appends : Appends p d b encoded drawn p' d' outcome) :
    p'.options = p.options ∧ p'.closed = p.closed := by
  cases appends with
  | refused _ => exact ⟨rfl, rfl⟩
  | unrolled _ _ _ _ => exact ⟨rfl, rfl⟩
  | unknown _ rolls _ _ => exact ⟨rolls.same.2.1, rolls.same.2.2.1⟩
  | written _ rolls _ _ _ => exact ⟨rolls.same.2.1, rolls.same.2.2.1⟩

/-- A refused batch changes neither the partition nor a file. -/
theorem Appends.of_refused {p p' : Partition} {d d' : Dir Name} {b : RecordBatch} {encoded : Bytes}
    {drawn : SegmentID} {outcome : Except GoError UInt64} {e : GoError}
    (appends : Appends p d b encoded drawn p' d' outcome)
    (failed : checkAppend p b encoded = .error e) : p' = p ∧ d' = d ∧ outcome = .error e := by
  cases appends with
  | refused refused =>
      cases failed.symm.trans refused
      exact ⟨rfl, rfl, rfl⟩
  | unrolled passed _ _ _ => cases failed.symm.trans passed
  | unknown passed _ _ _ => cases failed.symm.trans passed
  | written passed _ _ _ _ => cases failed.symm.trans passed

/-- An append that passes the checks is written, or fences the partition. -/
theorem Appends.ends {p p' : Partition} {d d' : Dir Name} {b : RecordBatch} {encoded : Bytes}
    {drawn : SegmentID} {outcome : Except GoError UInt64}
    (appends : Appends p d b encoded drawn p' d' outcome)
    (passed : checkAppend p b encoded = .ok ()) (stop : p.logEnd = p.active.endOffset) :
    (outcome = .ok b.baseOffset ∧ p'.unavailable = p.unavailable ∧
        p'.logEnd = p.logEnd + .ofNat b.records.length) ∨
      ∃ e, outcome = .error e ∧ e.is .errPartitionUnavailable ∧ p'.unavailable = true ∧
        p'.logEnd = p.logEnd := by
  cases appends with
  | refused failed =>
      rw [passed] at failed
      cases failed
  | unrolled _ _ _ _ =>
      exact .inr ⟨_, rfl, List.mem_cons_self, rfl, rfl⟩
  | unknown _ rolls _ _ =>
      exact .inr ⟨_, rfl, List.mem_cons_of_mem _ List.mem_cons_self, rfl, rolls.same.1⟩
  | written _ rolls _ _ _ =>
      obtain ⟨sameEnd, -, -, unavailable, stays⟩ := rolls.same
      refine .inl ⟨rfl, unavailable, ?_⟩
      rw [← sameEnd, stays stop]
      rfl

/-! ## Opening -/

section Opening

variable {final : Bool} {base expected : UInt64}

/-- Truncation leaves the front of one file. -/
theorem runs_truncateIf {cut : Bool} {size : Nat} {data : Bytes}
    (before : d.read? (.log base) = some data) (whole : cut = false → size = data.length)
    (ran : Prog.Runs Dir.device (truncateIf cut (.log base) size) d (.ok ()) d') :
    SameLogsBut base d d' ∧ d'.read? (.log base) = some (data.take size) := by
  cases cut with
  | false =>
      obtain ⟨-, rfl⟩ := Prog.runs_done.1 ran
      rw [whole rfl, List.take_length]
      exact ⟨(KeepsLogs.refl _).but _, before⟩
  | true =>
      obtain ⟨_, mid, truncating, syncing⟩ := Prog.runs_bind_ok.1 ran
      rcases Prog.runs_perform.1 truncating with ⟨-, done⟩ | ⟨wrong, -⟩
      swap
      · cases wrong
      obtain ⟨f, durable, found, rfl⟩ := Dir.modify_eq_some.1 done
      rcases Prog.runs_perform.1 syncing with ⟨-, done⟩ | ⟨wrong, -⟩
      swap
      · cases wrong
      rw [Dir.device_exec, Prog.exec_sync_insert] at done
      obtain rfl := Option.some.inj done
      refine ⟨sameLogsBut_insert _ _ _, ?_⟩
      rw [read?_of_lookup (AList.lookup_insert _)]
      obtain rfl := Option.some.inj ((read?_of_lookup found).symm.trans before)
      rfl

/-- What recovery does with the file of a segment: it reads it, and cuts it behind the
batches it has taken over. -/
structure Recovers (base : UInt64) (topic : TopicID) (partition : UInt32) (final : Bool)
    (expected : UInt64) (d d' : Dir Name) (s : Segment) (data : Bytes) : Prop where
  before : d.read? (.log base) = some data
  reads : ∃ header r cut,
    readSegment base topic partition final expected data = .ok (header, r, cut) ∧
      s = r.segment header data
  filled : final = false → s.records ≠ 0
  others : SameLogsBut base d d'
  after : d'.read? (.log base) = some (data.take s.size)

/-- A recovered segment has the batches that its file is left with. -/
theorem runs_recoverSegment_ok {s : Segment}
    (ran : Prog.Runs Dir.device (recoverSegment base topic partition final expected) d (.ok s) d') :
    ∃ data, Recovers base topic partition final expected d d' s data := by
  obtain ⟨dir, mid, looking, later⟩ := Prog.runs_bind_ok.1 ran
  obtain ⟨looked, rfl⟩ := Prog.runs_get.1 looking
  obtain rfl := Except.ok.inj looked
  obtain ⟨data, mid, reading, later⟩ := Prog.runs_bind_ok.1 later
  obtain ⟨found, rfl⟩ := Prog.runs_ofExcept.1 reading
  have before : d.read? (.log base) = some data := by
    cases read : d.read? (.log base) with
    | none =>
        rw [read] at found
        cases found
    | some data' =>
        rw [read] at found
        rw [Except.ok.inj found]
  obtain ⟨⟨header, r, cut⟩, mid, decoding, later⟩ := Prog.runs_bind_ok.1 later
  obtain ⟨reads, rfl⟩ := Prog.runs_ofExcept.1 decoding
  obtain ⟨-, -, whole, -⟩ := readSegment_represents reads
  obtain ⟨_, mid, truncating, later⟩ := Prog.runs_bind_ok.1 later
  obtain ⟨others, after⟩ := runs_truncateIf before whole truncating
  obtain ⟨_, mid, checking, ending⟩ := Prog.runs_bind_ok.1 later
  obtain ⟨filled, rfl⟩ := Prog.runs_ofExcept.1 checking
  obtain ⟨same, rfl⟩ := Prog.runs_done.1 ending
  obtain rfl := Except.ok.inj same
  have nonempty := failIf_eq_ok.1 filled
  exact ⟨data, before, ⟨header, r, cut, reads, rfl⟩,
    fun notFinal empty => nonempty ⟨notFinal, empty⟩, others, after⟩

/-- A recovered segment represents its file, and the file holds nothing behind it. -/
theorem Recovers.represents {s : Segment} {data : Bytes}
    (recovers : Recovers base topic partition final expected d d' s data) :
    base = expected ∧ s.header.baseOffset = base ∧ (data.take s.size).length = s.size ∧
      ∃ stored : List (StoredBatch topic partition), s.Represents (data.take s.size) stored := by
  obtain ⟨header, r, cut, reads, rfl⟩ := recovers.reads
  obtain ⟨path, order, -, stored, represents⟩ := readSegment_represents reads
  have inside := represents.inside
  have length : (data.take (r.segment header data).size).length = (r.segment header data).size := by
    rw [List.length_take, Nat.min_eq_left inside]
  refine ⟨path, order.trans path.symm, length, stored,
    represents.of_take (Nat.le_of_eq length.symm) ?_⟩
  rw [List.take_take, Nat.min_self]

/-- Every segment file is a beginning of what it was. -/
def Shortens (d d' : Dir Name) : Prop :=
  ∀ base data', d'.read? (.log base) = some data' →
    ∃ data, d.read? (.log base) = some data ∧ data' <+: data

/-- Recoveries one after the other only shorten files. -/
theorem Shortens.trans {a b c : Dir Name} (first : Shortens a b) (second : Shortens b c) :
    Shortens a c := by
  intro base data'' found
  obtain ⟨data', found', front'⟩ := second base data'' found
  obtain ⟨data, found, front⟩ := first base data' found'
  exact ⟨data, found, front'.trans front⟩

theorem Recovers.shortens {s : Segment} {data : Bytes}
    (recovers : Recovers base topic partition final expected d d' s data) : Shortens d d' := by
  intro other data' found
  by_cases here : other = base
  · subst here
    obtain rfl := Option.some.inj (recovers.after.symm.trans found)
    exact ⟨data, recovers.before, List.take_prefix ..⟩
  · rw [recovers.others.read here] at found
    exact ⟨data', found, List.prefix_refl _⟩

/-- Indexes are loaded or built, and the segment is the same. -/
theorem loadOrBuildIndexes_reindexed (dir : Dir Name) (s : Segment) (storeID : StoreID)
    (stride : UInt64) : s.Reindexed (loadOrBuildIndexes dir s storeID stride) := by
  obtain ⟨offsetIndex, timeIndex, indexDirty, same, hints⟩ :=
    loadOrBuildIndexes_spec dir s storeID stride
  exact ⟨offsetIndex, timeIndex, indexDirty, same, fun _ => hints⟩

/-- The file of a segment ends with its last batch. -/
def Segment.Ends (d : Dir Name) (s : Segment) : Prop :=
  (d.read? s.name).map List.length = some s.size

/-- The segments that the opening loop has loaded so far. -/
structure LoadedTo (d : Dir Name) (expected : UInt64) (segments : List Segment)
    (contents : StoredSegments topic partition) : Prop where
  files : List.Forall₂ (Segment.InDir d) segments contents
  ends : ∀ s ∈ segments, s.Ends d
  below : ∀ s ∈ segments, s.header.baseOffset.toNat < expected.toNat
  linked : segments.IsChain Segment.Precedes
  stop : ∀ s ∈ segments.getLast?, s.records ≠ 0 ∧ expected = s.endOffset

theorem Segment.Reindexed.inDir {s s' : Segment} {stored : List (StoredBatch topic partition)}
    (reindexed : s.Reindexed s') (held : s.InDir d stored) : s'.InDir d stored := by
  obtain ⟨data, read, represents⟩ := held
  refine ⟨data, ?_, represents.reindexed reindexed⟩
  rw [Segment.name, reindexed.same.2.2.1]
  exact read

theorem Segment.Reindexed.ends {s s' : Segment} (reindexed : s.Reindexed s') (ends : s.Ends d) :
    s'.Ends d := by
  obtain ⟨-, -, header, size⟩ := reindexed.same
  rw [Segment.Ends, Segment.name, header, size]
  exact ends

theorem Segment.Ends.frame {s : Segment} (ends : s.Ends d)
    (same : d'.read? s.name = d.read? s.name) : s.Ends d' := by
  rw [Segment.Ends, same]
  exact ends

/-- Segments that are loaded already keep their files. -/
theorem LoadedTo.frame {segments : List Segment} {contents : StoredSegments topic partition}
    (loaded : LoadedTo d expected segments contents) (others : SameLogsBut expected d d') :
    List.Forall₂ (Segment.InDir d') segments contents ∧ ∀ s ∈ segments, s.Ends d' := by
  have same : ∀ s ∈ segments, d'.read? s.name = d.read? s.name := by
    intro s mem
    refine others.read fun clash => ?_
    have less := loaded.below s mem
    rw [clash] at less
    exact Nat.lt_irrefl _ less
  have both := (List.forall₂_and_left _ _).2 ⟨same, loaded.files⟩
  exact ⟨both.imp fun s stored found => found.2.frame found.1,
    fun s mem => (loaded.ends s mem).frame (same s mem)⟩

theorem LoadedTo.link {segments : List Segment} {contents : StoredSegments topic partition}
    (loaded : LoadedTo d expected segments contents) {s : Segment}
    (next : s.header.baseOffset = expected) :
    (segments ++ [s]).IsChain Segment.Precedes := by
  rw [List.isChain_append]
  refine ⟨loaded.linked, List.isChain_singleton _, fun before mem t isFirst => ?_⟩
  obtain rfl := Option.some.inj isFirst
  obtain ⟨filled, stop⟩ := loaded.stop before mem
  exact ⟨filled, next.trans stop⟩

/-- The segments that an open has loaded: they represent their files, link up, and end
where their files end. -/
structure LoadedAll (d : Dir Name) (segments : List Segment) (stop : UInt64)
    (closed : StoredSegments topic partition) (last : List (StoredBatch topic partition)) :
    Prop where
  split : ∃ front active, segments = front ++ [active] ∧
    List.Forall₂ (Segment.InDir d) front closed ∧ active.InDir d last ∧ stop = active.endOffset
  linked : segments.IsChain Segment.Precedes
  ends : ∀ s ∈ segments, s.Ends d

/-- The segments of an opened partition are recovered one behind the other, each from its file. -/
theorem runs_recoverSegments {options : PartitionOptions} {storeID : StoreID}
    {bases : List UInt64} {segments : List Segment} {contents : StoredSegments topic partition}
    {found : List Segment × UInt64} (nonempty : bases ≠ [])
    (loaded : LoadedTo d expected segments contents)
    (ran : Prog.Runs Dir.device
      (recoverSegments topic partition options storeID bases expected segments) d (.ok found) d') :
    (∃ (closed : StoredSegments topic partition) (last : List (StoredBatch topic partition)),
      LoadedAll d' found.1 found.2 closed last) ∧
      (found.1.map fun s => s.header.baseOffset) =
        (segments.map fun s => s.header.baseOffset) ++ bases ∧
      (∀ name : Name, name.IsLog → (∀ base ∈ bases, name ≠ .log base) →
        Entry.Settles (d.lookup name) (d'.lookup name)) ∧ Shortens d d' := by
  induction bases generalizing d expected segments contents with
  | nil => exact absurd rfl nonempty
  | cons base rest ih =>
      obtain ⟨_, _, checking, checked⟩ := Prog.runs_bind_ok.1 ran
      obtain ⟨-, rfl⟩ := Prog.runs_ofExcept.1 checking
      obtain ⟨opened, mid, recovering, recovered⟩ := Prog.runs_bind_ok.1 checked
      obtain ⟨whole, recovers⟩ := runs_recoverSegment_ok recovering
      obtain ⟨rfl, header, length, stored, represents⟩ := recovers.represents
      have shortens := recovers.shortens
      obtain ⟨-, -, filled, others, read⟩ := recovers
      obtain ⟨dir, left, looking, later⟩ := Prog.runs_bind_ok.1 recovered
      obtain ⟨looked, rfl⟩ := Prog.runs_get.1 looking
      obtain rfl := Except.ok.inj looked
      have reindexed := loadOrBuildIndexes_reindexed mid opened storeID options.indexStride
      obtain ⟨records, stop, sameHeader, -⟩ := reindexed.same
      generalize loadOrBuildIndexes mid opened storeID options.indexStride = s at *
      have name : opened.name = .log base := by rw [Segment.name, header]
      have sBase : s.header.baseOffset = base := by rw [sameHeader, header]
      have held : s.InDir mid stored := reindexed.inDir ⟨_, by rw [name]; exact read, represents⟩
      have ends : s.Ends mid := reindexed.ends (by
        rw [Segment.Ends, name, read, Option.map_some, length])
      obtain ⟨files, oldEnds⟩ := loaded.frame others
      have allEnds : ∀ t ∈ segments ++ [s], t.Ends mid := by
        intro t mem
        rcases List.mem_append.1 mem with old | new
        · exact oldEnds t old
        · obtain rfl := List.mem_singleton.1 new
          exact ends
      cases rest with
      | nil =>
          obtain ⟨same, rfl⟩ := Prog.runs_done.1 later
          obtain rfl := Except.ok.inj same
          refine ⟨⟨contents, stored, ⟨segments, s, rfl, files, held, stop.symm⟩, loaded.link sBase,
            allEnds⟩, by simp [sBase], fun name isLog differ => ?_, shortens⟩
          exact others name isLog (differ base List.mem_cons_self)
      | cons second rest =>
          have some_records : opened.records ≠ 0 := filled rfl
          have grows : opened.endOffset.toNat = base.toNat + opened.records := by
            rw [represents.endOffset_eq, header]
          have longer : LoadedTo mid opened.endOffset (segments ++ [s]) (contents ++ [stored]) := by
            refine ⟨List.rel_append files (.cons held .nil), allEnds, fun t mem => ?_,
              loaded.link sBase, fun t mem => ?_⟩
            · rcases List.mem_append.1 mem with old | new
              · have less := loaded.below t old
                omega
              · obtain rfl := List.mem_singleton.1 new
                rw [sBase]
                omega
            · rw [List.getLast?_concat] at mem
              obtain rfl := Option.some.inj mem
              exact ⟨by rwa [records], stop.symm⟩
          obtain ⟨all, bases, untouched, shorter⟩ := ih (by simp) longer later
          refine ⟨all, by rw [bases]; simp [sBase], fun name isLog differ => ?_,
            shortens.trans shorter⟩
          have first := others name isLog (differ base List.mem_cons_self)
          exact first.trans (untouched name isLog fun other mem =>
            differ other (List.mem_cons_of_mem _ mem))

/-- The directory holds the files of the partition's segments and nothing behind them. -/
structure Partition.Tidy (p : Partition) (d : Dir Name) : Prop where
  ends : ∀ s ∈ p.segments, s.Ends d
  names : ∀ base data, d.read? (.log base) = some data →
    ∃ s ∈ p.segments, s.header.baseOffset = base
  stray : ∀ text, d.read? (.strayLog text) = none

/-- What every successful open has established, also one in which operations failed. -/
structure OpenedOver (options : PartitionOptions) (d d' : Dir Name) (p : Partition) : Prop where
  options_eq : p.options = options
  available : p.unavailable = false
  start : p.logStart = options.initialOffset
  tidy : p.Tidy d'
  /-- A file is a beginning of what it was, or the new first segment. -/
  files : ∀ base data', d'.read? (.log base) = some data' →
    (∃ data, d.read? (.log base) = some data ∧ data' <+: data) ∨
      ((∀ other, d.read? (.log other) = none) ∧ data'.length = segmentHeaderBytes.toNat)

/-- Every open that succeeds, with any faults in it, leaves a partition that represents its
files. -/
theorem runs_openPartition {drawn : SegmentID} {options : PartitionOptions} {storeID : StoreID}
    (ran : Prog.Runs Dir.device (openPartition drawn topic partition options storeID) d (.ok p)
      d') :
    OpenedOver options d d' p ∧ ∃ (closed : StoredSegments topic partition)
      (last : List (StoredBatch topic partition)), p.Represents d' closed last := by
  obtain ⟨tail, _, making, made⟩ := Prog.runs_bind_ok.1 ran
  obtain ⟨-, rfl⟩ := Prog.runs_ofExcept.1 making
  obtain ⟨dir, _, looking, looked⟩ := Prog.runs_bind_ok.1 made
  obtain ⟨same, rfl⟩ := Prog.runs_get.1 looking
  obtain rfl := Except.ok.inj same
  obtain ⟨bases, _, discovering, discovered⟩ := Prog.runs_bind_ok.1 looked
  obtain ⟨found, rfl⟩ := Prog.runs_ofExcept.1 discovering
  obtain ⟨files, -, stray, -⟩ := discoverSegments_eq_ok.1 found
  cases bases with
  | nil =>
      obtain ⟨created, mid, creating, later⟩ := Prog.runs_bind_ok.1 discovered
      obtain ⟨dir, _, looking, ending⟩ := Prog.runs_bind_ok.1 later
      obtain ⟨same, rfl⟩ := Prog.runs_get.1 looking
      obtain rfl := Except.ok.inj same
      obtain ⟨same, rfl⟩ := Prog.runs_done.1 ending
      obtain rfl := Except.ok.inj same
      obtain ⟨others, ⟨⟨e, wrong⟩, -⟩ | ⟨-, valid, read, same | ⟨e, wrong⟩⟩⟩ :=
        runs_createSegment creating
      · cases wrong
      · obtain rfl := Except.ok.inj same
        have reindexed := loadOrBuildIndexes_reindexed d'
          (newSegment (drawnHeader drawn topic partition options.initialOffset)) storeID
          options.indexStride
        have fresh : (newSegment (drawnHeader drawn topic partition options.initialOffset)).InDir d'
            ([] : List (StoredBatch topic partition)) :=
          ⟨_, read, .newSegment valid (fun _ => rfl) rfl⟩
        have ends :
            (newSegment (drawnHeader drawn topic partition options.initialOffset)).Ends d' := by
          have name : (newSegment (drawnHeader drawn topic partition options.initialOffset)).name =
            .log options.initialOffset := rfl
          rw [Segment.Ends, name, read, Option.map_some, SegmentHeader.length_bytes]
          rfl
        obtain ⟨-, stop, header, -⟩ := reindexed.same
        have noFile : ∀ other, d.read? (.log other) = none := by
          intro other
          cases held : d.read? (.log other) with
          | none => rfl
          | some data => exact absurd ((files other).2 ⟨data, held⟩) List.not_mem_nil
        refine ⟨⟨rfl, rfl, ?_, ⟨?_, ?_, ?_⟩, ?_⟩, [], [], rfl, rfl, .nil, reindexed.inDir fresh,
          List.isChain_singleton _, stop.symm⟩
        · change SegmentHeader.baseOffset _ = _
          exact congrArg SegmentHeader.baseOffset header
        · intro s mem
          obtain rfl := List.mem_singleton.1 mem
          exact reindexed.ends ends
        · intro base data held
          refine ⟨_, List.mem_singleton_self _, ?_⟩
          by_contra differ
          have here : base ≠ options.initialOffset := by
            intro clash
            exact differ ((congrArg SegmentHeader.baseOffset header).trans clash.symm)
          rw [others.read here, noFile] at held
          cases held
        · intro text
          rw [Dir.read?_of_settles (others (.strayLog text) trivial (by simp)), stray]
        · intro base data' held
          refine .inr ⟨noFile, ?_⟩
          by_cases here : base = options.initialOffset
          · subst here
            obtain rfl := Option.some.inj (read.symm.trans held)
            exact SegmentHeader.length_bytes _
          · rw [others.read here, noFile] at held
            cases held
      · cases wrong
  | cons first rest =>
      obtain ⟨_, _, checking, checked⟩ := Prog.runs_bind_ok.1 discovered
      obtain ⟨matches', rfl⟩ := Prog.runs_ofExcept.1 checking
      have start : first = options.initialOffset := not_not.1 (failIf_eq_ok.1 matches')
      obtain ⟨loaded, mid, loading, assembling⟩ := Prog.runs_bind_ok.1 checked
      have none : LoadedTo d first [] ([] : StoredSegments topic partition) :=
        ⟨.nil, by simp, by simp, List.isChain_nil, by simp⟩
      obtain ⟨⟨closed, last, ⟨front, active, split, closedFiles, activeFile, stop⟩, linked, ends⟩,
        bases, untouched, shortens⟩ := runs_recoverSegments (by simp) none loading
      obtain ⟨segments, logEnd⟩ := loaded
      simp only at split linked ends bases stop
      subst split
      rw [assemblePartition, List.getLast?_concat] at assembling
      obtain ⟨same, rfl⟩ := Prog.runs_done.1 assembling
      obtain rfl := Except.ok.inj same
      have segments : (openedPartition topic partition options storeID tail
          (front ++ [active]).dropLast active logEnd).segments = front ++ [active] := by
        rw [Partition.segments, openedPartition, List.dropLast_concat]
      refine ⟨⟨rfl, rfl, ?_, ⟨?_, ?_, ?_⟩, fun base data' held => .inl (shortens base data' held)⟩,
        closed, last, rfl, rfl, ?_, activeFile, ?_, stop⟩
      · have head := congrArg List.head? bases
        rw [List.map_nil, List.nil_append, List.head?_map, List.head?_cons] at head
        obtain ⟨s, isFirst, base⟩ := Option.map_eq_some_iff.1 head
        rw [Partition.logStart, segments, isFirst, Option.getD_some, base, start]
      · rw [segments]
        exact ends
      · intro base data held
        have mem : base ∈ first :: rest := by
          rw [files]
          by_contra absent
          have settles := untouched (.log base) trivial fun other mem clash => by
            rw [Name.log.inj clash] at absent
            exact absent ((files other).1 mem)
          rw [Dir.read?_of_settles settles] at held
          exact absent ⟨data, held⟩
        rw [← List.nil_append (first :: rest), ← List.map_nil (f := fun s : Segment =>
          s.header.baseOffset), ← bases] at mem
        obtain ⟨s, inside, base⟩ := List.mem_map.1 mem
        rw [segments]
        exact ⟨s, inside, base⟩
      · intro text
        rw [Dir.read?_of_settles (untouched (.strayLog text) trivial (by simp)), stray]
      · rw [openedPartition, List.dropLast_concat]
        exact closedFiles
      · rw [segments]
        exact linked

end Opening

end Immulog
