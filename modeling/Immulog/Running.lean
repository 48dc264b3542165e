import Immulog.CrashLog

/-!
Appends and opens of a running partition.
-/

namespace Immulog

open Lib

/-! ## The running partition -/

/-- A partition in memory over a directory that holds its log. -/
structure Running (spec : PartitionSpec) (taken : Taken) (d : Dir Name) (p : Partition)
    (logs : List SegmentLog) : Prop where
  opened : spec.Opened p
  shows : p.Shows logs
  settled : Settled spec taken d logs
  tail : ∀ t ∈ p.tail, TailWithin t (chainRecords logs)

theorem PartitionSpec.Opened.chain {spec : PartitionSpec} {p : Partition}
    {logs : List SegmentLog} (opened : spec.Opened p) (chain : spec.Chain logs) :
    Immulog.Chain p.topic p.partition p.options.initialOffset logs := by
  obtain ⟨topic, partition, options, _⟩ := opened
  rw [topic, partition, options]
  exact chain

/-- The last segment is the active one. -/
theorem Partition.Shows.concat {p : Partition} {logs : List SegmentLog} (shows : p.Shows logs) :
    ∃ closed last, logs = closed ++ [last] ∧
      List.Forall₂ Segment.Shows p.closedSegments closed ∧ p.active.Shows last := by
  have reversed := List.forall₂_reverse_iff.2 shows.segments
  rw [Partition.segments, List.reverse_append, List.reverse_singleton, List.singleton_append]
    at reversed
  generalize backwards : logs.reverse = rest at reversed
  cases reversed with
  | @cons _ last _ rest first later =>
      refine ⟨rest.reverse, last, ?_, ?_, first⟩
      · rw [← List.reverse_cons, ← backwards, List.reverse_reverse]
      · rwa [← List.forall₂_reverse_iff, List.reverse_reverse]

theorem Partition.Shows.split {p : Partition} {closed : List SegmentLog} {last : SegmentLog}
    (shows : p.Shows (closed ++ [last])) :
    List.Forall₂ Segment.Shows p.closedSegments closed ∧ p.active.Shows last := by
  obtain ⟨closed', last', same, front, active⟩ := shows.concat
  obtain ⟨rfl, one⟩ := List.append_inj' same rfl
  obtain rfl := List.singleton_inj.1 one
  exact ⟨front, active⟩

/-- A batch behind the active segment shows in its bookkeeping. -/
theorem Segment.Shows.extended {s : Segment} {log : SegmentLog} (shows : s.Shows log)
    (b : RecordBatch) (stride : UInt64) :
    (refreshSegmentIndexes (s.extended b b.bytes) stride).Shows (log.push b) := by
  obtain ⟨offsetIndex, timeIndex, indexDirty, rfl, _⟩ := shows
  have header : slice (log.push b).bytes 0 segmentHeaderBytes.toNat =
      slice log.bytes 0 segmentHeaderBytes.toNat := by
    simp [slice, SegmentLog.bytes, SegmentLog.push, segmentHeaderBytes]
  have same : (log.shown.withIndexes offsetIndex timeIndex indexDirty).extended b b.bytes =
      (log.push b).shown.withIndexes offsetIndex timeIndex indexDirty := by
    simp only [Segment.extended, Segment.withIndexes, SegmentLog.shown, Recovered.segment,
      SegmentLog.recovered_push, Recovered.push, header]
    rfl
  rw [same]
  exact ⟨_, _, _, rfl, sampleBatchIndexes_hints _ _⟩

section Write

variable {spec : PartitionSpec} {taken : Taken} {d d' : Dir Name} {p : Partition}
  {closed : List SegmentLog} {last : SegmentLog} {b : RecordBatch}

theorem overwrite_end (old data : Bytes) : Dir.overwrite old old.length data = old ++ data := by
  simp [Dir.overwrite]

/-- Writing at the end of the active segment. -/
theorem exec_writeAt_end {f : File} {durable : Bool} {data : Bytes}
    (active : p.active.Shows last)
    (found : d.lookup (.log last.header.baseOffset) = some ⟨some f, durable⟩)
    (holds : f.data = last.bytes) :
    Dir.exec (.writeAt p.active.name p.active.size data) d =
      some (d.insert (.log last.header.baseOffset)
        ⟨some { f with data := last.bytes ++ data }, durable⟩) := by
  rw [Dir.exec, Dir.modify_eq_some]
  refine ⟨f, durable, by rw [active.name]; exact found, ?_⟩
  rw [active.name, active.size, ← holds, overwrite_end]

/-- The batch is written behind the bytes of the active segment, and is synced. -/
theorem run_writeBatch {f : File} {durable : Bool} (active : p.active.Shows last)
    (found : d.lookup (.log last.header.baseOffset) = some ⟨some f, durable⟩)
    (holds : f.data = last.bytes) :
    Prog.run Dir.device (writeBatch p b b.bytes) d =
      (.ok (p.extended b b.bytes, .ok b.baseOffset),
        d.insert (.log last.header.baseOffset)
          ⟨some ⟨(last.push b).bytes, (last.push b).bytes⟩, durable⟩) := by
  have wrote := Prog.run_attempt (D := Dir.device) (Prog.perform (.writeAt p.active.name
    p.active.size b.bytes) (ioError "short write")) d
  rw [Prog.run_perform_some (exec_writeAt_end active found holds)] at wrote
  have synced := Prog.run_attempt (D := Dir.device) (Prog.perform (.sync p.active.name)
    (ioError "sync batch")) (d.insert (.log last.header.baseOffset)
      ⟨some { f with data := last.bytes ++ b.bytes }, durable⟩)
  rw [active.name, Prog.run_perform_some Prog.exec_sync_insert] at synced
  simp only [writeBatch]
  rw [Prog.run_bind_ok wrote]
  simp only [active.name]
  rw [Prog.run_bind_ok synced, SegmentLog.bytes_push]
  rfl

/-- A stop during a write leaves a beginning of the batch. -/
theorem crash_writeBatch {f : File} {durable : Bool} (active : p.active.Shows last)
    (found : d.lookup (.log last.header.baseOffset) = some ⟨some f, durable⟩)
    (holds : f.data = last.bytes) (stop : Prog.Crash Dir.device (writeBatch p b b.bytes) d d') :
    d' = d ∨ ∃ piece disk, piece <+: b.bytes ∧ (disk = f.disk ∨ disk = last.bytes ++ b.bytes) ∧
      d' = d.insert (.log last.header.baseOffset) ⟨some ⟨last.bytes ++ piece, disk⟩, durable⟩ := by
  have whole : Dir.exec (.writeAt p.active.name p.active.size b.bytes) d = some _ :=
    exec_writeAt_end active found holds
  rcases Prog.crash_bind.1 stop with writing | ⟨outcome, mid, wrote, later⟩
  · rw [Prog.crash_attempt] at writing
    rcases Prog.crash_perform.1 writing with same | torn | done
    · exact .inl same
    · cases torn with
      | writeAt count done =>
          rw [exec_writeAt_end active found holds] at done
          refine .inr ⟨b.bytes.take count, f.disk, List.take_prefix .., .inl rfl, ?_⟩
          exact (Option.some.inj done).symm
    · rw [Dir.device_exec, whole] at done
      exact .inr ⟨b.bytes, f.disk, List.prefix_refl _, .inl rfl, (Option.some.inj done).symm⟩
  rw [Prog.run_attempt, Prog.run_perform_some whole] at wrote
  obtain ⟨same, rfl⟩ := Prod.mk.inj wrote
  obtain rfl := Except.ok.inj same
  have synced : Prog.Crash Dir.device (Prog.perform (.sync (.log last.header.baseOffset))
      (ioError "sync batch")) (d.insert (.log last.header.baseOffset)
        ⟨some { f with data := last.bytes ++ b.bytes }, durable⟩) d' := by
    simp only [active.name] at later
    refine Prog.crash_attempt.1 (later.first fun outcome _ _ ending => ?_)
    cases outcome <;> exact Prog.crash_done.1 ending
  rcases Prog.crash_perform.1 synced with same | torn | done
  · exact .inr ⟨b.bytes, f.disk, List.prefix_refl _, .inl rfl, same⟩
  · cases torn
  · rw [Dir.device_exec, Prog.exec_sync_insert] at done
    exact .inr ⟨b.bytes, _, List.prefix_refl _, .inr rfl, (Option.some.inj done).symm⟩

/-- The closed segments have other files than the active one. -/
theorem PartitionSpec.Chain.ne_last (chain : spec.Chain (closed ++ [last])) {log : SegmentLog}
    (mem : log ∈ closed) : Name.log log.header.baseOffset ≠ .log last.header.baseOffset := by
  have sorted := Immulog.Chain.bases_sorted chain
  rw [List.map_append, List.pairwise_append] at sorted
  have less := sorted.2.2 _ (List.mem_map_of_mem mem) _ List.mem_cons_self
  intro same
  rw [Name.log.inj same] at less
  exact absurd less (Nat.lt_irrefl _)

/-- The last segment may be replaced by one at the same base. -/
theorem OnlyLogs.replace_last {last' : SegmentLog} (only : OnlyLogs d (closed ++ [last]))
    (same : last'.header.baseOffset = last.header.baseOffset) : OnlyLogs d (closed ++ [last']) := by
  refine ⟨fun base mem => ?_, only.stray⟩
  obtain ⟨log, inLogs, rfl⟩ := only.names base mem
  rcases List.mem_append.1 inLogs with inClosed | isLast
  · exact ⟨log, List.mem_append_left _ inClosed, rfl⟩
  · obtain rfl := List.mem_singleton.1 isLast
    exact ⟨last', List.mem_append_right _ List.mem_cons_self, same⟩

/-- Changing the file of the last segment leaves the other ones alone. -/
theorem insert_last (chain : spec.Chain (closed ++ [last]))
    (files : ∀ log ∈ closed, ClosedFile taken d log) (only : OnlyLogs d (closed ++ [last]))
    (entry : Entry) :
    (∀ log ∈ closed, ClosedFile taken (d.insert (.log last.header.baseOffset) entry) log) ∧
      OnlyLogs (d.insert (.log last.header.baseOffset) entry) (closed ++ [last]) := by
  refine ⟨fun log mem => ?_, fun base mem => ?_, fun text mem => ?_⟩
  · refine (files log mem).settles (.inl ?_)
    exact AList.lookup_insert_ne (PartitionSpec.Chain.ne_last chain mem)
  · rcases (AList.mem_insert d).1 mem with same | mem
    · exact ⟨last, List.mem_append_right _ List.mem_cons_self, (Name.log.inj same).symm⟩
    · exact only.names base mem
  · rcases (AList.mem_insert d).1 mem with same | mem
    · cases same
    · exact only.stray text mem

/-- Closed segments do not notice what happens to the active file. -/
theorem Settled.insert_last (settled : Settled spec taken d (closed ++ [last])) (entry : Entry) :
    (∀ log ∈ closed, ClosedFile taken (d.insert (.log last.header.baseOffset) entry) log) ∧
      OnlyLogs (d.insert (.log last.header.baseOffset) entry) (closed ++ [last]) :=
  Immulog.insert_last settled.chain
    (fun log mem => settled.files log (List.mem_append_left _ mem)) settled.only entry

/-- A batch that continues the log of the partition. -/
structure Continues (spec : PartitionSpec) (last : SegmentLog) (b : RecordBatch) : Prop where
  valid : b.Valid
  topic_eq : b.topic = spec.topic
  partition_eq : b.partition = spec.partition
  next : b.baseOffset = last.endOffset

/-- A piece of the next batch is a torn write. -/
theorem Continues.torn {piece : Bytes} (continues : Continues spec last b)
    (front : piece <+: b.bytes) : spec.Torn last.endOffset piece :=
  .inr ⟨b, continues.valid, continues.topic_eq, continues.partition_eq, continues.next, front⟩

/-- The next batch keeps the chain. -/
theorem Continues.chain (continues : Continues spec last b)
    (chain : spec.Chain (closed ++ [last])) : spec.Chain (closed ++ [last.push b]) := by
  obtain ⟨closedChain, valid⟩ := chain_concat.1 chain
  exact chain_concat.2 ⟨closedChain, valid.push continues.valid continues.topic_eq
    continues.partition_eq continues.next⟩

theorem Running.chain (running : Running spec taken d p (closed ++ [last])) :
    p.logEnd = last.endOffset := by
  rw [running.shows.logEnd, chainEnd_concat]

theorem TailWithin.mono {t : PartitionTail} {records more : List Record}
    (within : TailWithin t records) : TailWithin t (records ++ more) :=
  PartitionTail.Holds.mono within fun _ inside =>
    inside.trans (List.prefix_append records more).isInfix

/-- Records come in batches, at the end. -/
theorem chainRecords_push (closed : List SegmentLog) (last : SegmentLog) (b : RecordBatch) :
    chainRecords (closed ++ [last.push b]) = chainRecords (closed ++ [last]) ++ b.records := by
  simp [chainRecords]

/-- A written batch extends the log. -/
theorem Running.write (running : Running spec taken d p (closed ++ [last]))
    (continues : Continues spec last b) :
    ∃ d', Prog.run Dir.device (writeBatch p b b.bytes) d =
        (.ok (p.extended b b.bytes, .ok b.baseOffset), d') ∧
      Running spec taken d' (p.extended b b.bytes) (closed ++ [last.push b]) := by
  obtain ⟨front, active⟩ := running.shows.split
  obtain ⟨f, durable, found, data, linked, _⟩ :=
    running.settled.files last (List.mem_append_right _ List.mem_cons_self)
  refine ⟨_, run_writeBatch active found data, running.opened, ?_, ?_, ?_⟩
  · have chain := continues.chain running.settled.chain
    refine ⟨List.rel_append front (.cons (active.extended b _) .nil),
      running.opened.chain chain, ?_⟩
    rw [chainEnd_concat]
    exact (active.extended b p.options.indexStride).endOffset
  · obtain ⟨files, only⟩ := running.settled.insert_last
      ⟨some ⟨(last.push b).bytes, (last.push b).bytes⟩, durable⟩
    refine ⟨continues.chain running.settled.chain, fun log mem => ?_, only.replace_last rfl⟩
    rcases List.mem_append.1 mem with inClosed | isLast
    · exact files log inClosed
    · obtain rfl := List.mem_singleton.1 isLast
      exact ⟨_, durable, AList.lookup_insert d, rfl, linked, .inl rfl⟩
  · intro t mem
    rw [chainRecords_push]
    exact (running.tail t mem).mono

/-- A stop during the write leaves the log and a piece of the batch. -/
theorem Running.crash_write (running : Running spec taken d p (closed ++ [last]))
    (continues : Continues spec last b)
    (stop : Prog.Crash Dir.device (writeBatch p b b.bytes) d d') :
    ∃ piece, OnDisk spec taken d' closed ⟨last, piece, true⟩ := by
  obtain ⟨front, active⟩ := running.shows.split
  obtain ⟨f, durable, found, data, linked, disk⟩ :=
    running.settled.files last (List.mem_append_right _ List.mem_cons_self)
  rcases crash_writeBatch active found data stop with rfl | ⟨piece, disk', within, either, rfl⟩
  · exact ⟨[], running.settled.onDisk⟩
  obtain ⟨files, only⟩ := running.settled.insert_last ⟨some ⟨last.bytes ++ piece, disk'⟩, durable⟩
  refine ⟨piece, running.settled.chain, files, ?_, continues.torn within, (fun h => by simp at h),
    only⟩
  refine ⟨_, durable, AList.lookup_insert d, rfl, fun _ => linked, ?_⟩
  rcases either with rfl | rfl
  · rcases disk with synced | mem
    · exact .inl ⟨[], .inl rfl, by simpa using synced⟩
    · exact .inr ⟨rfl, mem⟩
  · exact .inl ⟨b.bytes, continues.torn (List.prefix_refl _), rfl⟩

end Write

/-! ## Rolling -/

section Roll

variable {spec : PartitionSpec} {taken : Taken} {d d' : Dir Name} {p : Partition}
  {closed : List SegmentLog} {last : SegmentLog} {drawn : SegmentID}

/-- Publishing indexes changes no segment file. -/
theorem sameLogs_run {α : Type} {m : DirM α} (d : Dir Name)
    (only : ∀ name : Name, name.NotIndex → m.Only fun o => name ∉ o.touches) :
    SameLogs d (Prog.run Dir.device m d).2 :=
  .of_settles fun name notIndex => Dir.run_settles (only name notIndex) d

/-- Programs that touch index files only, stopped anywhere. -/
theorem sameLogs_crash {α : Type} {m : DirM α}
    (only : ∀ name : Name, name.NotIndex → m.Only fun o => name ∉ o.touches)
    (stop : Prog.Crash Dir.device m d d') : SameLogs d d' :=
  .of_settles fun name notIndex => Dir.crash_settles (only name notIndex) stop

/-- The segment file that a roll or a first open creates. -/
theorem settled_created {header : SegmentHeader} {logs : List SegmentLog} (tmp : SegmentID)
    (files : ∀ log ∈ logs, ClosedFile taken d log) (only : OnlyLogs d logs)
    (chain : spec.Chain (logs ++ [⟨header, []⟩])) (fresh : .log header.baseOffset ∉ d) :
    Settled spec taken (Prog.renamed d (.segmentTmp tmp) (.log header.baseOffset)
      header.bytes).synced (logs ++ [⟨header, []⟩]) := by
  have others : ∀ name : Name, name ≠ .segmentTmp tmp → name ≠ .log header.baseOffset →
      Entry.Settles (d.lookup name) ((Prog.renamed d (.segmentTmp tmp) (.log header.baseOffset)
        header.bytes).synced.lookup name) := by
    intro name notTmp notNew
    rw [Dir.lookup_synced, Prog.lookup_renamed_of_ne notTmp notNew]
    exact .inr rfl
  refine ⟨chain, fun log mem => ?_, fun base mem => ?_, fun text mem => ?_⟩
  · rcases List.mem_append.1 mem with old | new
    · obtain ⟨f, durable, found, _⟩ := files log old
      have differ : Name.log log.header.baseOffset ≠ .log header.baseOffset := by
        intro same
        rw [same] at found
        exact fresh (AList.lookup_isSome.1 (by rw [found]; rfl))
      exact (files log old).settles (others _ (by simp) differ)
    · obtain rfl := List.mem_singleton.1 new
      refine ⟨⟨header.bytes, header.bytes⟩, true, ?_, by simp [SegmentLog.bytes], .inl rfl,
        .inl (by simp [SegmentLog.bytes])⟩
      rw [Dir.lookup_synced, Prog.lookup_renamed]
      rfl
  · by_cases new : base = header.baseOffset
    · exact ⟨⟨header, []⟩, List.mem_append_right _ List.mem_cons_self, new.symm⟩
    · have old := mem_of_settles (others (.log base) (by simp) (by simpa using new)) mem
      obtain ⟨log, inLogs, same⟩ := only.names base old
      exact ⟨log, List.mem_append_left _ inLogs, same⟩
  · exact only.stray text (mem_of_settles (others (.strayLog text) (by simp) (by simp)) mem)

/-- A stop while a segment is created leaves the old segments, or the new one behind them. -/
theorem crash_created (spec : PartitionSpec) {logs : List SegmentLog} {topic : TopicID}
    {partition : UInt32} {base : UInt64} (files : ∀ log ∈ logs, ClosedFile taken d log)
    (only : OnlyLogs d logs)
    (stop : Prog.Crash Dir.device (createSegment drawn topic partition base) d d') :
    SameLogs d d' ∨
      ((∀ log ∈ logs, ClosedFile taken d' log) ∧
        OnlyLogs d' (logs ++ [⟨drawnHeader drawn topic partition base, []⟩]) ∧
        (drawnHeader drawn topic partition base).Valid ∧
        LastFile spec taken d' ⟨⟨drawnHeader drawn topic partition base, []⟩, [], false⟩) := by
  have others : ∀ name : Name, name ≠ .segmentTmp (segmentID drawn) → name ≠ .log base →
      Entry.Settles (d.lookup name) (d'.lookup name) :=
    fun name notTmp notNew => Dir.crash_settles (only_createSegment notTmp notNew) stop
  have stray : ∀ text, .strayLog text ∉ d → .strayLog text ∉ d' :=
    fun text absent mem => absent (mem_of_settles (others _ (by simp) (by simp)) mem)
  rcases crash_createSegment stop with same | ⟨fresh, valid, durable, found⟩
  · refine .inl ⟨fun other => ?_, stray⟩
    by_cases new : other = base
    · rw [new]
      exact same
    · exact others _ (by simp) (by simpa using new)
  refine .inr ⟨fun log mem => ?_, ⟨fun other mem => ?_, fun text => stray text (only.stray text)⟩,
    valid, ?_⟩
  · obtain ⟨f, durable, here, _⟩ := files log mem
    have differ : Name.log log.header.baseOffset ≠ .log base := by
      intro same
      rw [same] at here
      exact fresh (AList.lookup_isSome.1 (by rw [here]; rfl))
    exact (files log mem).settles (others _ (by simp) differ)
  · by_cases new : other = base
    · exact ⟨_, List.mem_append_right _ List.mem_cons_self, new.symm⟩
    · have old := mem_of_settles (others (.log other) (by simp) (by simpa using new)) mem
      obtain ⟨log, inLogs, same⟩ := only.names other old
      exact ⟨log, List.mem_append_left _ inLogs, same⟩
  · exact ⟨_, durable, found, by simp [SegmentLog.bytes], (fun h => by simp at h),
      .inl ⟨[], .inl rfl, by simp [SegmentLog.bytes]⟩⟩

/-- Index files are no part of a running log. -/
theorem Running.same (running : Running spec taken d p (closed ++ [last])) (same : SameLogs d d') :
    Running spec taken d' p (closed ++ [last]) :=
  ⟨running.opened, running.shows, running.settled.same same, running.tail⟩

theorem Running.fenced {logs : List SegmentLog} (running : Running spec taken d p logs) :
    Running spec taken d p.fenced logs :=
  ⟨running.opened, ⟨running.shows.segments, running.shows.chain, running.shows.logEnd⟩,
    running.settled, running.tail⟩

theorem chainRecords_empty (logs : List SegmentLog) (header : SegmentHeader) :
    chainRecords (logs ++ [⟨header, []⟩]) = chainRecords logs := by
  simp [chainRecords, SegmentLog.records]

/-- The chain with a fresh segment at its end. -/
theorem Running.chain_roll (running : Running spec taken d p (closed ++ [last]))
    (filled : last.batches ≠ []) (valid : (drawnHeader drawn p.topic p.partition p.logEnd).Valid) :
    spec.Chain (closed ++ [last] ++ [⟨drawnHeader drawn p.topic p.partition p.logEnd, []⟩]) := by
  obtain ⟨topic, partition, _, _⟩ := running.opened
  obtain ⟨closedChain, lastValid⟩ := chain_concat.1 running.settled.chain
  refine chain_concat.2 ⟨closedChain_concat.2 ⟨closedChain, lastValid, filled⟩, valid, topic,
    partition, ?_, trivial⟩
  rw [chainEnd_concat]
  exact running.chain

/-- The partition behind a roll. -/
def Partition.rolled (p : Partition) (sealed : Segment) (header : SegmentHeader) : Partition :=
  { p with closedSegments := p.closedSegments ++ [sealed], active := newSegment header }

theorem run_installSegmentIndexes_shows (active : p.active.Shows last) {segment : Segment}
    (ran : Prog.run Dir.device (installSegmentIndexes p.active p.storeID p.options.indexStride)
      d = (.ok segment, d')) : segment.Shows last := by
  obtain ⟨_, _, _, later⟩ := Prog.run_bind_eq_ok.1 ran
  obtain ⟨_, _, _, last⟩ := Prog.run_bind_eq_ok.1 later
  obtain rfl := Except.ok.inj (Prod.mk.inj last).1
  exact active.withIndexes _ false (sampleBatchIndexes_hints _ _)

/-- A roll makes an empty file behind the log; index files may come with it. -/
theorem run_rollSegment (active : p.active.Shows last)
    (valid : (drawnHeader drawn p.topic p.partition p.logEnd).Valid)
    (freshTmp : .segmentTmp (segmentID drawn) ∉ d) (fresh : .log p.logEnd ∉ d) :
    ∃ sealed d', sealed.Shows last ∧
      SameLogs (Prog.renamed d (.segmentTmp (segmentID drawn)) (.log p.logEnd)
        (drawnHeader drawn p.topic p.partition p.logEnd).bytes).synced d' ∧
      Prog.run Dir.device (rollSegment p drawn) d =
        (.ok (p.rolled sealed (drawnHeader drawn p.topic p.partition p.logEnd), .ok ()), d') := by
  have created := Prog.run_attempt (D := Dir.device)
    (createSegment drawn p.topic p.partition p.logEnd) d
  rw [run_createSegment valid freshTmp fresh] at created
  generalize (Prog.renamed d (.segmentTmp (segmentID drawn)) (.log p.logEnd)
    (drawnHeader drawn p.topic p.partition p.logEnd).bytes).synced = mid at created ⊢
  have installed := Prog.run_attempt (D := Dir.device)
    (installSegmentIndexes p.active p.storeID p.options.indexStride) mid
  have same : SameLogs mid (Prog.run Dir.device
      (installSegmentIndexes p.active p.storeID p.options.indexStride) mid).2 :=
    sameLogs_run mid fun name notIndex => only_installSegmentIndexes notIndex
  unfold rollSegment
  rw [Prog.run_bind_ok created, Prog.run_bind_ok installed]
  rcases ran : Prog.run Dir.device
    (installSegmentIndexes p.active p.storeID p.options.indexStride) mid with ⟨result, d'⟩
  rw [ran] at same
  cases result with
  | ok segment => exact ⟨segment, d', run_installSegmentIndexes_shows active ran, same, rfl⟩
  | error e => exact ⟨p.active, d', active, same, rfl⟩

/-- A roll opens a new segment behind the log, or fences the partition. -/
theorem Running.roll (running : Running spec taken d p (closed ++ [last]))
    (filled : last.batches ≠ []) (drawn : SegmentID) :
    (∃ p' d' header, Prog.run Dir.device (rollSegment p drawn) d = (.ok (p', .ok ()), d') ∧
      Running spec taken d' p' (closed ++ [last] ++ [⟨header, []⟩])) ∨
    ∃ e d', Prog.run Dir.device (rollSegment p drawn) d = (.ok (p.fenced, .error e), d') ∧
      Running spec taken d' p.fenced (closed ++ [last]) := by
  obtain ⟨front, active⟩ := running.shows.split
  rcases run_createSegment_cases drawn p.topic p.partition p.logEnd d with
    ⟨valid, freshTmp, fresh⟩ | ⟨e, left, refused, either⟩
  · obtain ⟨sealed, d', shows, same, ran⟩ := run_rollSegment active valid freshTmp fresh
    have chain := running.chain_roll filled valid
    have settled := settled_created (segmentID drawn) running.settled.files running.settled.only
      chain fresh
    refine .inl ⟨_, d', _, ran, running.opened, ?_, settled.same same, ?_⟩
    · have fresh : (newSegment (drawnHeader drawn p.topic p.partition p.logEnd)).Shows
          ⟨drawnHeader drawn p.topic p.partition p.logEnd, []⟩ :=
        ⟨[], [], true, newSegment_shown _, by simp [HintsOf]⟩
      refine ⟨List.rel_append (List.rel_append front (.cons shows .nil)) (.cons fresh .nil),
        running.opened.chain chain, ?_⟩
      rw [chainEnd_concat]
      rfl
    · intro t mem
      rw [chainRecords_empty]
      exact running.tail t mem
  · have created := Prog.run_attempt (D := Dir.device)
      (createSegment drawn p.topic p.partition p.logEnd) d
    rw [refused] at created
    have same : SameLogs d left := by
      rcases either with rfl | ⟨entry, rfl⟩
      · exact .refl _
      · refine ⟨fun base => .inl (AList.lookup_insert_ne (by simp)), fun text absent mem => ?_⟩
        rcases (AList.mem_insert d).1 mem with other | old
        · cases other
        · exact absent old
    refine .inr ⟨.join [.ofKind .errPartitionUnavailable, e], left, ?_,
      (running.same same).fenced⟩
    unfold rollSegment
    rw [Prog.run_bind_ok created]
    rfl

/-- A stop during a roll leaves the log, and perhaps a fresh segment behind it. -/
theorem Running.crash_roll (running : Running spec taken d p (closed ++ [last]))
    (filled : last.batches ≠ []) (stop : Prog.Crash Dir.device (rollSegment p drawn) d d') :
    Stopped spec taken d' (chainRecords (closed ++ [last])) := by
  have creating : ∀ {d'}, Prog.Crash Dir.device
      (createSegment drawn p.topic p.partition p.logEnd) d d' →
      Stopped spec taken d' (chainRecords (closed ++ [last])) := by
    intro d' stop
    rcases crash_created spec running.settled.files running.settled.only stop with
      same | ⟨files, only, valid, file⟩
    · exact .log (running.settled.same same).onDisk rfl
    · have onDisk : OnDisk spec taken d' (closed ++ [last])
          ⟨⟨drawnHeader drawn p.topic p.partition p.logEnd, []⟩, [], false⟩ :=
        ⟨running.chain_roll filled valid, files, file, .inl rfl, fun _ => rfl, only⟩
      exact .log onDisk (chainRecords_empty _ _).symm
  rcases Prog.crash_bind.1 stop with first | ⟨outcome, mid, created, later⟩
  · exact creating (Prog.crash_attempt.1 first)
  have ends := Prog.Crash.atEnd (D := Dir.device)
    (createSegment drawn p.topic p.partition p.logEnd).attempt d
  rw [created, Prog.crash_attempt] at ends
  have after := creating ends
  cases outcome with
  | error e => rwa [Prog.crash_done.1 later]
  | ok rolled =>
      have same : SameLogs mid d' := by
        rcases Prog.crash_bind.1 later with installing | ⟨installed, mid', ran, later⟩
        · exact sameLogs_crash (fun name notIndex => only_installSegmentIndexes notIndex)
            (Prog.crash_attempt.1 installing)
        · have whole : SameLogs mid (Prog.run Dir.device (installSegmentIndexes p.active
              p.storeID p.options.indexStride).attempt mid).2 :=
            sameLogs_run mid fun name notIndex => (only_installSegmentIndexes notIndex).attempt
          rw [ran] at whole
          rwa [Prog.crash_done.1 later]
      exact after.same same

end Roll

/-! ## Appending -/

section Append

variable {spec : PartitionSpec} {taken : Taken} {d d' : Dir Name} {p : Partition}
  {logs : List SegmentLog} {b : RecordBatch} {drawn : SegmentID}

/-- A segment that counts records has batches. -/
theorem Segment.Shows.filled {s : Segment} {log : SegmentLog} (shows : s.Shows log)
    (nonempty : s.records ≠ 0) : log.batches ≠ [] := by
  intro empty
  refine nonempty ?_
  rw [shows.records, records_of_unwanted empty]
  rfl

/-- What an append has checked. -/
theorem checkAppend_passed {encoded : Bytes} (passed : checkAppend p b encoded = .ok ()) :
    b.topic = p.topic ∧ b.partition = p.partition ∧ b.baseOffset = p.logEnd ∧
      (p.options.segmentBytes.toNat < encoded.length + p.active.size → p.active.records ≠ 0) := by
  simp only [checkAppend, bind_eq_ok, failIf_eq_ok, exists_const, not_or, not_not, not_and]
    at passed
  obtain ⟨_, _, ⟨topic, partition, base⟩, _, _, _, fits⟩ := passed
  exact ⟨topic, partition, base, fits⟩

/-- A new batch continues the log when the checks have passed. -/
theorem Running.continues {closed : List SegmentLog} {last : SegmentLog}
    (running : Running spec taken d p (closed ++ [last])) (valid : b.Valid)
    (topic : b.topic = p.topic) (partition : b.partition = p.partition)
    (base : b.baseOffset = p.logEnd) : Continues spec last b :=
  ⟨valid, topic.trans running.opened.1, partition.trans running.opened.2.1,
    base.trans running.chain⟩

/-- The batch continues the new segment, as it would have continued the old one. -/
theorem Running.continues_roll {closed : List SegmentLog} {last : SegmentLog}
    {header : SegmentHeader} (running : Running spec taken d p (closed ++ [last] ++ [⟨header, []⟩]))
    (continues : Continues spec last b) : Continues spec ⟨header, []⟩ b := by
  have base := (chain_concat.1 running.settled.chain).2.base_eq
  rw [chainEnd_concat] at base
  exact { continues with next := continues.next.trans base.symm }

/-- An append extends the log by the batch, or fails and leaves the log as it was. -/
theorem Running.append (running : Running spec taken d p logs) (valid : b.Valid)
    (drawn : SegmentID) :
    ∃ p' outcome d', Prog.run Dir.device (appendEncodedLocked p b b.bytes drawn) d =
        (.ok (p', outcome), d') ∧
      ((outcome = .ok b.baseOffset ∧ ∃ logs', Running spec taken d' p' logs' ∧
          chainRecords logs' = chainRecords logs ++ b.records) ∨
        (∃ e, outcome = .error e) ∧ Running spec taken d' p' logs) := by
  unfold appendEncodedLocked
  cases checked : checkAppend p b b.bytes with
  | error e => exact ⟨p, .error e, d, rfl, .inr ⟨⟨e, rfl⟩, running⟩⟩
  | ok _ =>
      obtain ⟨topic, partition, base, room⟩ := checkAppend_passed checked
      obtain ⟨closed, last, rfl, front, active⟩ := running.shows.concat
      have continues := running.continues valid topic partition base
      by_cases full : p.options.segmentBytes.toNat < b.bytes.length + p.active.size
      · have filled := active.filled (room full)
        simp only [rollIfFull, if_pos full]
        rcases running.roll filled drawn with
          ⟨p', d', header, rolled, running'⟩ | ⟨e, d', refused, running'⟩
        · obtain ⟨d'', wrote, written⟩ := running'.write (running'.continues_roll continues)
          rw [Prog.run_bind_ok rolled]
          refine ⟨_, _, d'', wrote, .inl ⟨rfl, _, written, ?_⟩⟩
          rw [chainRecords_push, chainRecords_empty]
        · rw [Prog.run_bind_ok refused]
          exact ⟨_, _, _, rfl, .inr ⟨⟨e, rfl⟩, running'⟩⟩
      · obtain ⟨d', wrote, running'⟩ := running.write continues
        simp only [rollIfFull, if_neg full]
        rw [Prog.run_bind_ok (Prog.run_pure ..)]
        refine ⟨_, _, d', wrote, .inl ⟨rfl, _, running', ?_⟩⟩
        rw [chainRecords_push]

/-- A stop during an append leaves the log, with perhaps a piece of the batch behind it. -/
theorem Running.crash_append (running : Running spec taken d p logs) (valid : b.Valid)
    (stop : Prog.Crash Dir.device (appendEncodedLocked p b b.bytes drawn) d d') :
    Stopped spec taken d' (chainRecords logs) := by
  obtain ⟨closed, last, rfl, front, active⟩ := running.shows.concat
  have idle : Stopped spec taken d (chainRecords (closed ++ [last])) :=
    .log running.settled.onDisk rfl
  unfold appendEncodedLocked at stop
  cases checked : checkAppend p b b.bytes with
  | error e =>
      rw [checked] at stop
      rwa [Prog.crash_done.1 stop]
  | ok _ =>
      rw [checked] at stop
      obtain ⟨topic, partition, base, room⟩ := checkAppend_passed checked
      have continues := running.continues valid topic partition base
      by_cases full : p.options.segmentBytes.toNat < b.bytes.length + p.active.size
      · have filled := active.filled (room full)
        simp only [rollIfFull, if_pos full] at stop
        rcases Prog.crash_bind.1 stop with rolling | ⟨outcome, mid, ran, later⟩
        · exact running.crash_roll filled rolling
        rcases running.roll filled drawn with
          ⟨p', d₁, header, rolled, running'⟩ | ⟨e, d₁, refused, running'⟩
        · rw [rolled] at ran
          obtain ⟨same, rfl⟩ := Prod.mk.inj ran
          obtain rfl := Except.ok.inj same
          obtain ⟨piece, onDisk⟩ := running'.crash_write (running'.continues_roll continues) later
          exact .log onDisk (chainRecords_empty _ _).symm
        · rw [refused] at ran
          obtain ⟨same, rfl⟩ := Prod.mk.inj ran
          obtain rfl := Except.ok.inj same
          rw [Prog.crash_done.1 later]
          exact .log running'.settled.onDisk rfl
      · simp only [rollIfFull, if_neg full] at stop
        rcases Prog.crash_bind.1 stop with rolling | ⟨outcome, mid, ran, later⟩
        · rwa [Prog.crash_done.1 rolling]
        obtain ⟨same, rfl⟩ := Prod.mk.inj ran
        obtain rfl := Except.ok.inj same
        obtain ⟨piece, onDisk⟩ := running.crash_write continues later
        exact .log onDisk rfl

/-- What an acknowledged append makes known. -/
def acknowledged {α : Type} (outcome : Except GoError α) (records : List Record) : List Record :=
  match outcome with
  | .ok _ => records
  | .error _ => []

/-- What an append with its publication does. -/
structure Appended (spec : PartitionSpec) (taken : Taken) (logs : List SegmentLog)
    (b : RecordBatch) (p' : Partition) (outcome : Except GoError UInt64) (d' : Dir Name) :
    Prop where
  acked : ∀ offset, outcome = .ok offset → offset = b.baseOffset ∧
    ∃ logs', Running spec taken d' p' logs' ∧ chainRecords logs' = chainRecords logs ++ b.records
  failed : ∀ e, outcome = .error e → Running spec taken d' p' logs

/-- Publishing an acknowledged batch keeps the log running. -/
theorem Running.publish (running : Running spec taken d p logs) {records before : List Record}
    (offered : chainRecords logs = before ++ records) (free : Bool) (durableEnd : UInt64) :
    Running spec taken d (p.publishTail free records durableEnd) logs := by
  refine ⟨running.opened, ⟨running.shows.segments, running.shows.chain, running.shows.logEnd⟩,
    running.settled, fun t mem => ?_⟩
  obtain ⟨old, inTail, rfl⟩ := Option.mem_map.1 mem
  refine PartitionTail.offer_holds (running.tail old inTail) fun batch same => ?_
  rw [same, offered]
  exact (List.suffix_append before records).isInfix

/-- An append ends with the batch in the log, or with the log as it was. -/
theorem Running.appendAndPublish (running : Running spec taken d p logs) (valid : b.Valid)
    (drawn : SegmentID) (free : Bool) :
    ∃ p' outcome d', Prog.run Dir.device (appendAndPublish p b b.bytes drawn free) d =
        (.ok (p', outcome), d') ∧ Appended spec taken logs b p' outcome d' := by
  obtain ⟨p', outcome, d', ran, either⟩ := running.append valid drawn
  unfold Immulog.appendAndPublish
  rw [Prog.run_bind_ok ran]
  rcases either with ⟨rfl, logs', running', same⟩ | ⟨⟨e, rfl⟩, running'⟩
  · refine ⟨_, _, d', rfl, fun offset ok => ?_, (fun e failed => by cases failed)⟩
    exact ⟨(Except.ok.inj ok).symm, logs', running'.publish same free _, same⟩
  · exact ⟨_, _, d', rfl, (fun offset ok => by cases ok), fun _ _ => running'⟩

/-- An append that is stopped leaves what can be opened again. -/
theorem Running.crash_appendAndPublish (running : Running spec taken d p logs) (valid : b.Valid)
    {free : Bool}
    (stop : Prog.Crash Dir.device (Immulog.appendAndPublish p b b.bytes drawn free) d d') :
    Stopped spec taken d' (chainRecords logs) := by
  refine running.crash_append valid (stop.first fun outcome mid after later => ?_)
  obtain ⟨p', outcome⟩ := outcome
  cases outcome with
  | error e => exact Prog.crash_done.1 later
  | ok offset => exact Prog.crash_done.1 later

end Append

/-! ## The public appends -/

section Public

variable {spec : PartitionSpec} {taken : Taken} {d d' : Dir Name} {p : Partition}
  {logs : List SegmentLog} {drawn : SegmentID} {free : Bool}

/-- Admitted batches are valid and encoded. -/
theorem admitBatch_valid {b : RecordBatch} {encoded : Bytes}
    (admitted : admitBatch p b = .ok encoded) : b.Valid ∧ b.bytes = encoded := by
  simp only [admitBatch, bind_eq_ok, failIf_eq_ok, exists_const] at admitted
  obtain ⟨_, _, _, _, _, encodes⟩ := admitted
  exact RecordBatch.encode_eq_ok.1 encodes

theorem encodeFormed_valid {b : RecordBatch} {encoded : Bytes}
    (formed : encodeFormed p b = .ok encoded) : b.Valid ∧ b.bytes = encoded := by
  simp only [encodeFormed, bind_eq_ok, failIf_eq_ok, exists_const, pure_eq_ok, Except.ok.injEq]
    at formed
  obtain ⟨_, bytes, encodes, _, rfl⟩ := formed
  exact RecordBatch.encode_eq_ok.1 encodes

/-- The same for `AppendBatch`, which admits the batch first. -/
theorem Running.appendBatch (running : Running spec taken d p logs) (b : RecordBatch)
    (drawn : SegmentID) (free : Bool) :
    ∃ p' outcome d', Prog.run Dir.device (appendBatch p b drawn free) d =
        (.ok (p', outcome), d') ∧ Appended spec taken logs b p' outcome d' := by
  unfold Immulog.appendBatch
  cases admitted : admitBatch p b with
  | error e => exact ⟨p, .error e, d, rfl, (fun offset ok => by cases ok), fun _ _ => running⟩
  | ok encoded =>
      obtain ⟨valid, rfl⟩ := admitBatch_valid admitted
      exact running.appendAndPublish valid drawn free

theorem Running.crash_appendBatch (running : Running spec taken d p logs) {b : RecordBatch}
    (stop : Prog.Crash Dir.device (Immulog.appendBatch p b drawn free) d d') :
    Stopped spec taken d' (chainRecords logs) := by
  obtain ⟨closed, last, rfl, _⟩ := running.shows.concat
  unfold Immulog.appendBatch at stop
  cases admitted : admitBatch p b with
  | error e =>
      rw [admitted] at stop
      rw [Prog.crash_done.1 stop]
      exact .log running.settled.onDisk rfl
  | ok encoded =>
      rw [admitted] at stop
      obtain ⟨valid, rfl⟩ := admitBatch_valid admitted
      exact running.crash_appendAndPublish valid stop

/-- A group of requests is appended as one batch; the records it is told are those of
the log. -/
theorem Running.writeRequests (running : Running spec taken d p logs) (records : List Record)
    (drawn : SegmentID) (free : Bool) :
    ∃ p' outcome d', Prog.run Dir.device (writeRequests p records drawn free) d =
        (.ok (p', outcome), d') ∧
      (∀ told, outcome = .ok told → ∃ logs', Running spec taken d' p' logs' ∧
        chainRecords logs' = chainRecords logs ++ told) ∧
      ∀ e, outcome = .error e → Running spec taken d' p' logs := by
  unfold Immulog.writeRequests
  cases formed : encodeFormed p (formBatch p records) with
  | error e =>
      exact ⟨p, .error (requestError e), d, by simp only [formed]; rfl,
        (fun told ok => by cases ok), fun _ _ => running⟩
  | ok encoded =>
      obtain ⟨valid, rfl⟩ := encodeFormed_valid formed
      obtain ⟨p', outcome, d', ran, appended⟩ := running.appendAndPublish valid drawn free
      simp only [formed]
      rw [Prog.run_bind_ok ran]
      cases outcome with
      | ok offset =>
          refine ⟨_, _, d', rfl, fun told ok => ?_, (fun e failed => by cases failed)⟩
          obtain rfl := Except.ok.inj ok
          exact (appended.acked offset rfl).2
      | error e =>
          exact ⟨_, _, d', rfl, (fun told ok => by cases ok), fun _ _ => appended.failed e rfl⟩

theorem Running.crash_writeRequests (running : Running spec taken d p logs) {records : List Record}
    (stop : Prog.Crash Dir.device (Immulog.writeRequests p records drawn free) d d') :
    Stopped spec taken d' (chainRecords logs) := by
  obtain ⟨closed, last, rfl, _⟩ := running.shows.concat
  unfold Immulog.writeRequests at stop
  cases formed : encodeFormed p (formBatch p records) with
  | error e =>
      simp only [formed] at stop
      rw [Prog.crash_done.1 stop]
      exact .log running.settled.onDisk rfl
  | ok encoded =>
      obtain ⟨valid, rfl⟩ := encodeFormed_valid formed
      simp only [formed] at stop
      exact running.crash_appendAndPublish valid
        (stop.first fun _ _ _ later => Prog.crash_done.1 later)

end Public

/-! ## Opening -/

/-- Base and size of the segments of a partition. -/
def Partition.takenOver (p : Partition) : Taken :=
  p.segments.map fun s => (s.header.baseOffset, s.size)

section Open

variable {spec : PartitionSpec} {taken : Taken} {d d' : Dir Name} {p : Partition}
  {records : List Record} {drawn : SegmentID}

/-- The sizes in memory are the sizes of the files. -/
theorem Segment.Shows.keys {segments : List Segment} {logs : List SegmentLog}
    (shows : List.Forall₂ Segment.Shows segments logs) :
    segments.map (fun s => (s.header.baseOffset, s.size)) = logs.map SegmentLog.key := by
  induction shows with
  | nil => rfl
  | cons first _ ih =>
      rw [List.map_cons, List.map_cons, ih, first.header, first.size]
      rfl

/-- The segments of an open are taken over by it. -/
theorem Partition.Shows.takenOver {logs : List SegmentLog} (shows : p.Shows logs)
    {log : SegmentLog} (mem : log ∈ logs) : log.key ∈ p.takenOver := by
  rw [Partition.takenOver, Segment.Shows.keys shows.segments]
  exact List.mem_map_of_mem mem

/-- Once everything has been taken over, a directory that holds a log is settled. -/
theorem settled_takenOver {logs : List SegmentLog} (chain : spec.Chain logs)
    (files : ∀ log ∈ logs, d.read? (.log log.header.baseOffset) = some log.bytes)
    (only : OnlyLogs d logs) (all : ∀ log ∈ logs, log.key ∈ taken) : Settled spec taken d logs := by
  refine ⟨chain, fun log mem => ?_, only⟩
  obtain ⟨f, durable, found, data⟩ := lookup_of_read? (files log mem)
  exact ⟨f, durable, found, data, .inr ⟨_, all log mem⟩, .inr (all log mem)⟩

theorem PartitionSpec.tail_within (spec : PartitionSpec) (records : List Record) :
    ∀ t ∈ spec.tail, TailWithin t records := by
  intro t mem
  have made := spec.tail_eq
  rw [Option.mem_def.1 mem] at made
  exact PartitionTail.new_holds made

/-- The partition of an open that has loaded a log. -/
theorem running_loaded {closed : List SegmentLog} {last : SegmentLog}
    (holds : HoldsLog spec d' closed last []) (d : Dir Name) :
    Running spec (spec.loaded d d' closed last).takenOver d' (spec.loaded d d' closed last)
      (closed ++ [last]) := by
  have shows := loaded_shows spec d d' holds.chain
  refine ⟨⟨rfl, rfl, rfl, rfl⟩, shows, ?_, spec.tail_within _⟩
  refine settled_takenOver holds.chain (fun log mem => ?_) ⟨holds.names, holds.stray⟩
    fun log mem => shows.takenOver mem
  rcases List.mem_append.1 mem with inClosed | isLast
  · exact holds.closed_files log inClosed
  · obtain rfl := List.mem_singleton.1 isLast
    simpa using holds.last_file

/-- The last segment ends with a piece of a batch that is shorter than its header, and
nothing at or behind the offset of the batch is among the records. -/
def CutInHeader (spec : PartitionSpec) (d : Dir Name) (records : List Record) : Prop :=
  ∃ (log : SegmentLog) (b : RecordBatch) (piece : Bytes),
    d.read? (.log log.header.baseOffset) = some (log.bytes ++ piece) ∧
    (∀ base, .log base ∈ d → base ≤ log.header.baseOffset) ∧
    b.Valid ∧ b.topic = spec.topic ∧ b.partition = spec.partition ∧
    b.baseOffset = log.endOffset ∧ piece <+: b.bytes ∧ piece ≠ [] ∧ piece.length < 48 ∧
    ∀ r ∈ records, r.offset < b.baseOffset

theorem Chain.le_last {closed : List SegmentLog} {last : SegmentLog}
    (chain : spec.Chain (closed ++ [last])) {log : SegmentLog} (mem : log ∈ closed ++ [last]) :
    log.header.baseOffset ≤ last.header.baseOffset := by
  rcases List.mem_append.1 mem with inClosed | isLast
  · have sorted := Immulog.Chain.bases_sorted chain
    rw [List.map_append, List.pairwise_append] at sorted
    have less := sorted.2.2 _ (List.mem_map_of_mem inClosed) _ List.mem_cons_self
    exact UInt64.le_iff_toNat_le.2 (Nat.le_of_lt less)
  · obtain rfl := List.mem_singleton.1 isLast
    exact UInt64.le_refl _

/-- All records are in front of the end. -/
theorem Chain.lt_end {closed : List SegmentLog} {last : SegmentLog}
    (chain : spec.Chain (closed ++ [last])) {r : Record}
    (mem : r ∈ chainRecords (closed ++ [last])) : r.offset < last.endOffset := by
  obtain ⟨consecutive, length⟩ := Immulog.Chain.consecutive chain
  have range := (consecutive.range mem).2
  rw [chainEnd_concat] at length
  rw [UInt64.lt_iff_toNat_lt]
  omega

/-- A new partition is a chain of one empty segment. -/
theorem PartitionSpec.fresh_chain (spec : PartitionSpec) (drawn : SegmentID) :
    spec.Chain ([] ++ [⟨spec.firstHeader drawn, []⟩]) :=
  (fresh_shows spec ∅ drawn).chain

/-- Opening a stopped directory takes over all its records, or is refused because of a
piece of a batch header. -/
theorem Stopped.reopen (stopped : Stopped spec taken d records)
    (unused : .segmentTmp (segmentID drawn) ∉ d) :
    (∃ p d' logs, Prog.run Dir.device (spec.reopen drawn) d = (.ok p, d') ∧
      Running spec p.takenOver d' p logs ∧ records <+: chainRecords logs) ∨
    ∃ e, Prog.run Dir.device (spec.reopen drawn) d = (.error e, d) ∧
      CutInHeader spec d records := by
  cases stopped with
  | nothing empty none =>
      have settled : Settled spec (spec.fresh d drawn).takenOver (spec.created d drawn)
          ([] ++ [⟨spec.firstHeader drawn, []⟩]) :=
        settled_created (segmentID drawn) (fun log mem => absurd mem List.not_mem_nil)
          ⟨fun base mem => absurd mem (empty.names base), empty.stray⟩
          (spec.fresh_chain drawn) (empty.names _)
      refine .inl ⟨_, _, _, run_open_empty empty unused, ⟨⟨rfl, rfl, rfl, rfl⟩,
        fresh_shows spec d drawn, settled, spec.tail_within _⟩, ?_⟩
      rw [none]
      exact List.nil_prefix
  | @log closed last onDisk same =>
      have holds := onDisk.holds
      have piece := onDisk.torn.piece
      subst same
      generalize last.tail = tail at holds piece
      cases piece with
      | empty =>
          exact .inl ⟨_, d, _, run_open_whole holds drawn, running_loaded holds d,
            List.prefix_refl _⟩
      | @whole b valid topic partition base =>
          have continues : Continues spec last.log b := ⟨valid, topic, partition, base⟩
          have only : OnlyLogs d (closed ++ [last.log.push b]) := onDisk.only.replace_last rfl
          have pushed : HoldsLog spec d closed (last.log.push b) [] := by
            refine ⟨continues.chain holds.chain, holds.closed_files, ?_, .inl rfl, only.names,
              only.stray⟩
            rw [List.append_nil, SegmentLog.bytes_push]
            exact holds.last_file
          refine .inl ⟨_, d, _, run_open_whole pushed drawn, running_loaded pushed d, ?_⟩
          rw [chainRecords_push]
          exact List.prefix_append ..
      | @cut b _ valid topic partition base front long less =>
          obtain ⟨f, durable, found, _⟩ := onDisk.last_file
          obtain ⟨files, only⟩ := insert_last onDisk.chain onDisk.files onDisk.only
            ⟨some ⟨last.log.bytes, last.log.bytes⟩, durable⟩
          refine .inl ⟨_, _, _, run_open_cut holds drawn valid base front long less found,
            running_loaded ⟨holds.chain, fun log mem => (files log mem).read, ?_, .inl rfl,
              only.names, only.stray⟩ d, List.prefix_refl _⟩
          rw [List.append_nil, read?_of_lookup (AList.lookup_insert d)]
      | @short b _ valid topic partition base front nonempty short =>
          refine .inr ⟨_, run_open_short holds drawn nonempty short, last.log, b, tail,
            holds.last_file, fun other mem => ?_, valid, topic, partition, base, front, nonempty,
            short, fun r mem => ?_⟩
          · obtain ⟨x, inLogs, rfl⟩ := holds.names other mem
            exact Chain.le_last holds.chain inLogs
          · rw [base]
            exact Chain.lt_end holds.chain mem

/-- A stop while a stopped directory is opened loses nothing. -/
theorem Stopped.crash_reopen (stopped : Stopped spec taken d records)
    (stop : Prog.Crash Dir.device (spec.reopen drawn) d d') : Stopped spec taken d' records := by
  cases stopped with
  | nothing empty none =>
      rcases crash_open_empty empty stop with rfl | creating
      · exact .nothing empty none
      have files : ∀ log ∈ ([] : List SegmentLog), ClosedFile taken d log :=
        fun log mem => absurd mem List.not_mem_nil
      rcases crash_created spec files ⟨fun base mem => absurd mem (empty.names base),
        empty.stray⟩ creating with same | ⟨files, only, _, file⟩
      · exact .nothing (empty.same same) none
      · have onDisk : OnDisk spec taken d' [] ⟨⟨spec.firstHeader drawn, []⟩, [], false⟩ :=
          ⟨spec.fresh_chain drawn, files, file, .inl rfl, fun _ => rfl, only⟩
        exact .log onDisk none
  | @log closed last onDisk same =>
      obtain ⟨f, durable, found, data, linked, disk⟩ := onDisk.last_file
      rcases onDisk.holds.crash_open_cases stop found with rfl | ⟨disk', either, rfl⟩
      · exact .log onDisk same
      obtain ⟨files, only⟩ := insert_last onDisk.chain onDisk.files onDisk.only
        ⟨some ⟨last.log.bytes, disk'⟩, durable⟩
      have cut : OnDisk spec taken (d.insert (.log last.log.header.baseOffset)
          ⟨some ⟨last.log.bytes, disk'⟩, durable⟩) closed { last with tail := [] } := by
        refine ⟨onDisk.chain, files, ?_, .inl rfl, onDisk.unwanted, only⟩
        refine ⟨_, durable, AList.lookup_insert d, by simp, linked, ?_⟩
        rcases either with rfl | rfl
        · exact disk
        · exact .inl ⟨[], .inl rfl, by simp⟩
      exact .log cut same

/-- Opening, after the directory has been synced or not: `OpenPartition` and the consumers
sync the partition directory first, the other callers do not. -/
def PartitionSpec.openDir (spec : PartitionSpec) (syncFirst : Bool) (drawn : SegmentID) :
    DirM Partition := do
  if syncFirst then .perform .syncDir (ioError "sync partition directory")
  spec.reopen drawn

theorem sameLogs_synced (d : Dir Name) : SameLogs d d.synced :=
  .of_settles fun name _ => .inr (Dir.lookup_synced d name)

theorem run_open_sync (spec : PartitionSpec) (syncFirst : Bool) (drawn : SegmentID) (d : Dir Name) :
    Prog.run Dir.device (spec.openDir syncFirst drawn) d =
      Prog.run Dir.device (spec.reopen drawn) (if syncFirst then d.synced else d) := by
  cases syncFirst with
  | false => rfl
  | true => exact Prog.run_bind_ok (Prog.run_perform_some rfl)

/-- An open that syncs first and is stopped. -/
theorem crash_open_sync {syncFirst : Bool}
    (stop : Prog.Crash Dir.device (spec.openDir syncFirst drawn) d d') :
    d' = d ∨ ∃ mid, SameLogs d mid ∧ Prog.Crash Dir.device (spec.reopen drawn) mid d' := by
  cases syncFirst with
  | false => exact .inr ⟨d, .refl d, stop⟩
  | true =>
      rcases Prog.crash_bind.1 stop with syncing | ⟨_, mid, ran, later⟩
      · rcases Prog.crash_perform.1 syncing with same | torn | done
        · exact .inl same
        · cases torn
        · obtain rfl := Option.some.inj done
          exact .inr ⟨_, sameLogs_synced d, .now⟩
      · rw [Prog.run_perform_some rfl] at ran
        obtain rfl := (Prod.mk.inj ran).2
        exact .inr ⟨_, sameLogs_synced d, later⟩

end Open

/-! ## Closing -/

theorem only_installDirty {storeID : StoreID} {stride : UInt64} {segments : List Segment}
    {name : Name} (notIndex : name.NotIndex) :
    (installDirty storeID stride segments).Only fun o => name ∉ o.touches := by
  induction segments with
  | nil => exact Prog.only_pure
  | cons segment rest ih =>
      unfold installDirty
      by_cases dirty : segment.indexDirty = true
      · rw [if_pos dirty]
        exact (only_installSegmentIndexes notIndex).attempt.bind fun _ => ih
      · rw [if_neg dirty]
        exact ih

/-! ## Appends that fit -/

section Room

variable {p : Partition} {b : RecordBatch} {drawn : SegmentID} {free : Bool} {d : Dir Name}
  {last : SegmentLog} {f : File} {durable : Bool}

/-- An admitted batch that fits into the active segment is written. -/
theorem appendBatch_room (admitted : (admitBatch p b).toBool = true)
    (checked : (checkAppend p b b.bytes).toBool = true)
    (room : ¬ p.options.segmentBytes.toNat < b.bytes.length + p.active.size) :
    appendBatch p b drawn free = (do
      let (p, outcome) ← writeBatch p b b.bytes
      match outcome with
      | .error e => return (p, .error e)
      | .ok offset => return (p.publishTail free b.records p.logEnd, .ok offset)) := by
  cases encodes : admitBatch p b with
  | error e => rw [encodes] at admitted; cases admitted
  | ok encoded =>
      obtain ⟨_, rfl⟩ := admitBatch_valid encodes
      cases passes : checkAppend p b b.bytes with
      | error e => rw [passes] at checked; cases checked
      | ok _ =>
          simp only [appendBatch, encodes, appendAndPublish, appendEncodedLocked, passes,
            rollIfFull, if_neg room]
          rfl

/-- With room in the active segment an admitted batch is written there. -/
theorem run_appendBatch_room (admitted : (admitBatch p b).toBool = true)
    (checked : (checkAppend p b b.bytes).toBool = true)
    (room : ¬ p.options.segmentBytes.toNat < b.bytes.length + p.active.size)
    (active : p.active.Shows last)
    (found : d.lookup (.log last.header.baseOffset) = some ⟨some f, durable⟩)
    (holds : f.data = last.bytes) :
    Prog.run Dir.device (appendBatch p b drawn free) d =
      (.ok ((p.extended b b.bytes).publishTail free b.records (p.extended b b.bytes).logEnd,
          .ok b.baseOffset),
        d.insert (.log last.header.baseOffset)
          ⟨some ⟨(last.push b).bytes, (last.push b).bytes⟩, durable⟩) := by
  rw [appendBatch_room admitted checked room,
    Prog.run_bind_ok (run_writeBatch active found holds)]
  rfl

end Room

end Immulog
