import Immulog.Running
import Mathlib.Logic.Relation

/-!
Stability of the log across crashes.

A run of one partition is a sequence of appends, reads, fetches, closes, crashes at any
instant, losses after a crash of the machine, and opens with the same options.  Besides
the directory and the memory the state carries the records that were acknowledged or
returned so far, and what the last open has taken over.  The log is stable along every
run in which a machine crash finds everything durable that the last open took over; one
run that loses a record it has returned is given at the end.
-/

namespace Immulog

open Lib

/-! ## Runs -/

structure LogState where
  dir : Dir Name
  memory : Option Partition
  /-- Acknowledged by an append or returned by a read or fetch. -/
  observed : List Record
  /-- Segments of the last successful open. -/
  taken : Taken

def LogState.start : LogState :=
  ⟨∅, none, [], []⟩

/-- The partition after a fetch that failed. -/
def fenceAfter (p : Partition) (e : GoError) : Partition :=
  if shouldFenceFetchError e then p.fenced else p

/-- One step; `safe` is what a loss asks of the state before it.  A machine crash is a
crash followed by a loss. -/
inductive LogStep (spec : PartitionSpec) (safe : LogState → Prop) : LogState → LogState → Prop where
  | appendBatch {s : LogState} {p p' : Partition} {b : RecordBatch} {drawn : SegmentID}
      {free : Bool} {outcome : Except GoError UInt64} {d : Dir Name} :
      s.memory = some p →
      Prog.run Dir.device (appendBatch p b drawn free) s.dir = (.ok (p', outcome), d) →
      LogStep spec safe s { s with
        dir := d, memory := some p', observed := s.observed ++ acknowledged outcome b.records }
  | append {s : LogState} {p p' : Partition} {records : List Record} {drawn : SegmentID}
      {free : Bool} {outcome : Except GoError (List Record)} {d : Dir Name} :
      s.memory = some p →
      Prog.run Dir.device (writeRequests p records drawn free) s.dir = (.ok (p', outcome), d) →
      LogStep spec safe s { s with
        dir := d, memory := some p', observed := s.observed ++ outcome.toOption.getD [] }
  | read {s : LogState} {p : Partition} {offset : UInt64} {maxRecords : UInt32}
      {result : List Record} :
      s.memory = some p → read s.dir p offset maxRecords = .ok result →
      LogStep spec safe s { s with observed := s.observed ++ result }
  | fetch {s : LogState} {p : Partition} {free : Bool} {offset : UInt64} {options : FetchOptions}
      {result : FetchResult} :
      s.memory = some p → fetch s.dir p free offset options = .ok result →
      LogStep spec safe s { s with observed := s.observed ++ result.records }
  | fetchError {s : LogState} {p : Partition} {free : Bool} {offset : UInt64}
      {options : FetchOptions} {e : GoError} :
      s.memory = some p → fetch s.dir p free offset options = .error e →
      LogStep spec safe s { s with memory := some (fenceAfter p e) }
  | close {s : LogState} {p : Partition} {d : Dir Name} :
      s.memory = some p → Prog.run Dir.device (closePartition p) s.dir = (.ok (), d) →
      LogStep spec safe s { s with dir := d, memory := none }
  | crash {s : LogState} : LogStep spec safe s { s with memory := none }
  | crashAppendBatch {s : LogState} {p : Partition} {b : RecordBatch} {drawn : SegmentID}
      {free : Bool} {d : Dir Name} :
      s.memory = some p → Prog.Crash Dir.device (appendBatch p b drawn free) s.dir d →
      LogStep spec safe s { s with dir := d, memory := none }
  | crashAppend {s : LogState} {p : Partition} {records : List Record} {drawn : SegmentID}
      {free : Bool} {d : Dir Name} :
      s.memory = some p → Prog.Crash Dir.device (writeRequests p records drawn free) s.dir d →
      LogStep spec safe s { s with dir := d, memory := none }
  | crashClose {s : LogState} {p : Partition} {d : Dir Name} :
      s.memory = some p → Prog.Crash Dir.device (closePartition p) s.dir d →
      LogStep spec safe s { s with dir := d, memory := none }
  | crashOpen {s : LogState} {syncFirst : Bool} {drawn : SegmentID} {d : Dir Name} :
      s.memory = none → Prog.Crash Dir.device (spec.openDir syncFirst drawn) s.dir d →
      LogStep spec safe s { s with dir := d }
  | lose {s : LogState} {d : Dir Name} :
      s.memory = none → safe s → s.dir.Loses d →
      LogStep spec safe s { s with dir := d, taken := [] }
  | reopen {s : LogState} {p : Partition} {syncFirst : Bool} {drawn : SegmentID} {d : Dir Name} :
      s.memory = none → .segmentTmp (segmentID drawn) ∉ s.dir →
      Prog.run Dir.device (spec.openDir syncFirst drawn) s.dir = (.ok p, d) →
      LogStep spec safe s { s with dir := d, memory := some p, taken := p.takenOver }
  | refused {s : LogState} {syncFirst : Bool} {drawn : SegmentID} {e : GoError} {d : Dir Name} :
      s.memory = none → .segmentTmp (segmentID drawn) ∉ s.dir →
      Prog.run Dir.device (spec.openDir syncFirst drawn) s.dir = (.error e, d) →
      LogStep spec safe s { s with dir := d }

/-- Runs of any length. -/
abbrev LogRun (spec : PartitionSpec) (safe : LogState → Prop) : LogState → LogState → Prop :=
  Relation.ReflTransGen (LogStep spec safe)

/-- What the last open took over is durable. -/
def LogState.TakenDurable (s : LogState) : Prop :=
  AllDurable s.dir s.taken

/-! ## Stability -/

/-- The log of a state is stable with respect to all that was observed. -/
structure LogState.Stable (spec : PartitionSpec) (s : LogState) : Prop where
  /-- No two records were observed at one offset. -/
  unique : ∀ r ∈ s.observed, ∀ r' ∈ s.observed, r.offset = r'.offset → r = r'
  /-- An open partition still has every observed record at its offset. -/
  present : ∀ p, s.memory = some p → p.checkOpen = .ok () →
    ∀ r ∈ s.observed, read s.dir p r.offset 1 = .ok [r]
  /-- An open is refused only for a piece of a batch header behind what was observed. -/
  refusals : s.memory = none → ∀ syncFirst drawn e d, .segmentTmp (segmentID drawn) ∉ s.dir →
    Prog.run Dir.device (spec.openDir syncFirst drawn) s.dir = (.error e, d) →
    CutInHeader spec s.dir s.observed

/-! ## The invariant -/

/-- The records of the log, in memory or on the disk. -/
def LogState.Holds (spec : PartitionSpec) (s : LogState) (records : List Record) : Prop :=
  match s.memory with
  | some p => ∃ logs, Running spec s.taken s.dir p logs ∧ records = chainRecords logs
  | none => Stopped spec s.taken s.dir records

/-- All that was observed is in the log. -/
def LogState.Inv (spec : PartitionSpec) (s : LogState) : Prop :=
  ∃ records, s.Holds spec records ∧ ∀ r ∈ s.observed, r ∈ records

/-- The empty directory holds the empty log. -/
theorem LogState.inv_start (spec : PartitionSpec) : LogState.start.Inv spec := by
  refine ⟨[], ?_, by simp [LogState.start]⟩
  exact Stopped.nothing ⟨fun base => AList.notMem_empty _, fun text => AList.notMem_empty _⟩ rfl

section Invariant

variable {spec : PartitionSpec} {s s' : LogState} {records : List Record}

/-- While the partition is in memory, its files are those of a running log. -/
theorem LogState.Holds.running (holds : s.Holds spec records) {p : Partition}
    (open_ : s.memory = some p) :
    ∃ logs, Running spec s.taken s.dir p logs ∧ records = chainRecords logs := by
  unfold LogState.Holds at holds
  rwa [open_] at holds

/-- Without a partition in memory, the files can be opened again. -/
theorem LogState.Holds.stopped (holds : s.Holds spec records) (gone : s.memory = none) :
    Stopped spec s.taken s.dir records := by
  unfold LogState.Holds at holds
  rwa [gone] at holds

theorem Running.stopped {taken : Taken} {d : Dir Name} {p : Partition} {logs : List SegmentLog}
    (running : Running spec taken d p logs) : Stopped spec taken d (chainRecords logs) := by
  obtain ⟨closed, last, rfl, _⟩ := running.shows.concat
  exact .log running.settled.onDisk rfl

theorem Running.filesHold {taken : Taken} {d : Dir Name} {p : Partition} {logs : List SegmentLog}
    (running : Running spec taken d p logs) : FilesHold d logs :=
  fun log mem => (running.settled.files log mem).read

/-- A crash of a partition that is not in use. -/
theorem LogState.Holds.crash (holds : s.Holds spec records) :
    Stopped spec s.taken s.dir records := by
  cases open_ : s.memory with
  | none => exact holds.stopped open_
  | some p =>
      obtain ⟨logs, running, rfl⟩ := holds.running open_
      exact running.stopped

/-- Observations stay within the log as it grows. -/
theorem within_append {old new records : List Record} (within : ∀ r ∈ old, r ∈ records)
    (more : ∀ r ∈ new, r ∈ records) : ∀ r ∈ old ++ new, r ∈ records := by
  intro r mem
  exact (List.mem_append.1 mem).elim (within r) (more r)

theorem mem_of_recordsFrom {offset : UInt64} {result : List Record}
    (front : result <+: recordsFrom offset records) : ∀ r ∈ result, r ∈ records :=
  fun _ mem => (List.mem_filter.1 (front.subset mem)).1

/-- Syncing a directory does not repair a header. -/
theorem CutInHeader.of_synced {d : Dir Name} (cut : CutInHeader spec d.synced records) :
    CutInHeader spec d records := by
  obtain ⟨log, b, piece, read, names, rest⟩ := cut
  have entry : Entry.Settles (d.lookup (.log log.header.baseOffset))
      (d.synced.lookup (.log log.header.baseOffset)) := .inr (Dir.lookup_synced ..)
  have same : d.synced.read? (.log log.header.baseOffset) =
      d.read? (.log log.header.baseOffset) := congrArg (Option.map File.data) entry.file
  exact ⟨log, b, piece, same ▸ read, fun base mem => names base (Dir.mem_synced.2 mem), rest⟩

theorem CutInHeader.mono {d : Dir Name} {fewer : List Record} (cut : CutInHeader spec d records)
    (within : ∀ r ∈ fewer, r ∈ records) : CutInHeader spec d fewer := by
  obtain ⟨log, b, piece, read, names, valid, topic, partition, base, front, nonempty, short,
    below⟩ := cut
  exact ⟨log, b, piece, read, names, valid, topic, partition, base, front, nonempty, short,
    fun r mem => below r (within r mem)⟩

/-- Opening a stopped directory, synced first or not. -/
theorem Stopped.openDir {taken : Taken} {d : Dir Name} {drawn : SegmentID}
    (stopped : Stopped spec taken d records) (syncFirst : Bool)
    (unused : .segmentTmp (segmentID drawn) ∉ d) :
    (∃ p d' logs, Prog.run Dir.device (spec.openDir syncFirst drawn) d = (.ok p, d') ∧
      Running spec p.takenOver d' p logs ∧ records <+: chainRecords logs) ∨
    ∃ e d', Prog.run Dir.device (spec.openDir syncFirst drawn) d = (.error e, d') ∧
      SameLogs d d' ∧ CutInHeader spec d records := by
  rw [run_open_sync]
  cases syncFirst with
  | false =>
      rcases stopped.reopen unused with opened | ⟨e, failed, cut⟩
      · exact .inl opened
      · exact .inr ⟨e, d, failed, .refl d, cut⟩
  | true =>
      have same := sameLogs_synced d
      have unused' : .segmentTmp (segmentID drawn) ∉ d.synced := by simpa using unused
      rcases (stopped.same same).reopen unused' with opened | ⟨e, failed, cut⟩
      · exact .inl opened
      · exact .inr ⟨e, _, failed, same, cut.of_synced⟩

/-- One step keeps all that was observed in the log. -/
theorem LogStep.inv (step : LogStep spec LogState.TakenDurable s s') (inv : s.Inv spec) :
    s'.Inv spec := by
  obtain ⟨records, holds, within⟩ := inv
  cases step with
  | @appendBatch p p' b drawn free outcome d open_ ran =>
      obtain ⟨logs, running, rfl⟩ := holds.running open_
      obtain ⟨p'', outcome', d', ran', appended⟩ := running.appendBatch b drawn free
      rw [ran] at ran'
      obtain ⟨same, rfl⟩ := Prod.mk.inj ran'
      obtain ⟨rfl, rfl⟩ := Prod.mk.inj (Except.ok.inj same)
      cases outcome with
      | ok offset =>
          obtain ⟨_, logs', running', same⟩ := appended.acked offset rfl
          refine ⟨chainRecords logs', ⟨logs', running', rfl⟩, ?_⟩
          rw [same]
          exact within_append (fun r mem => List.mem_append_left _ (within r mem))
            fun r mem => List.mem_append_right _ mem
      | error e =>
          refine ⟨_, ⟨logs, appended.failed e rfl, rfl⟩, ?_⟩
          simpa [acknowledged] using within
  | @append p p' requests drawn free outcome d open_ ran =>
      obtain ⟨logs, running, rfl⟩ := holds.running open_
      obtain ⟨p'', outcome', d', ran', acked, failed⟩ := running.writeRequests requests drawn free
      rw [ran] at ran'
      obtain ⟨same, rfl⟩ := Prod.mk.inj ran'
      obtain ⟨rfl, rfl⟩ := Prod.mk.inj (Except.ok.inj same)
      cases outcome with
      | ok told =>
          obtain ⟨logs', running', same⟩ := acked told rfl
          refine ⟨chainRecords logs', ⟨logs', running', rfl⟩, ?_⟩
          rw [same]
          exact within_append (fun r mem => List.mem_append_left _ (within r mem))
            fun r mem => List.mem_append_right _ mem
      | error e =>
          refine ⟨_, ⟨logs, failed e rfl, rfl⟩, ?_⟩
          simpa [Except.toOption] using within
  | read open_ ok =>
      obtain ⟨logs, running, rfl⟩ := holds.running open_
      have front := read_prefix running.shows running.filesHold ok
      exact ⟨_, holds, within_append within (mem_of_recordsFrom front)⟩
  | fetch open_ ok =>
      obtain ⟨logs, running, rfl⟩ := holds.running open_
      have front := (fetch_spec running.shows running.filesHold running.tail ok).1
      exact ⟨_, holds, within_append within (mem_of_recordsFrom front)⟩
  | @fetchError p free offset options e open_ failed =>
      obtain ⟨logs, running, rfl⟩ := holds.running open_
      refine ⟨_, ⟨logs, ?_, rfl⟩, within⟩
      by_cases fences : shouldFenceFetchError e
      · simpa [fenceAfter, fences] using running.fenced
      · simpa [fenceAfter, fences] using running
  | @close p d open_ ran =>
      obtain ⟨logs, running, rfl⟩ := holds.running open_
      have same : SameLogs s.dir (Prog.run Dir.device (closePartition p) s.dir).2 :=
        sameLogs_run s.dir fun name notIndex => only_installDirty notIndex
      rw [ran] at same
      exact ⟨_, running.stopped.same same, within⟩
  | crash => exact ⟨records, holds.crash, within⟩
  | crashAppendBatch open_ stop =>
      obtain ⟨logs, running, rfl⟩ := holds.running open_
      exact ⟨_, running.crash_appendBatch stop, within⟩
  | crashAppend open_ stop =>
      obtain ⟨logs, running, rfl⟩ := holds.running open_
      exact ⟨_, running.crash_writeRequests stop, within⟩
  | crashClose open_ stop =>
      have same := sameLogs_crash (fun name notIndex => only_installDirty notIndex) stop
      exact ⟨_, holds.crash.same same, within⟩
  | @crashOpen syncFirst drawn d gone stop =>
      refine ⟨records, ?_, within⟩
      have stopped := holds.stopped gone
      have left : Stopped spec s.taken d records := by
        rcases crash_open_sync stop with same | ⟨mid, same, later⟩
        · rw [same]
          exact stopped
        · exact (stopped.same same).crash_reopen later
      unfold LogState.Holds
      simp only [gone]
      exact left
  | lose gone durable loses =>
      refine ⟨records, ?_, within⟩
      unfold LogState.Holds
      simp only [gone]
      exact (holds.stopped gone).loses durable loses
  | @reopen p syncFirst drawn d gone unused ran =>
      rcases (holds.stopped gone).openDir syncFirst unused with
        ⟨p', d', logs, ran', running, front⟩ | ⟨e, d', failed, _⟩
      · rw [ran] at ran'
        obtain ⟨same, rfl⟩ := Prod.mk.inj ran'
        obtain rfl := Except.ok.inj same
        exact ⟨_, ⟨logs, running, rfl⟩, fun r mem => front.subset (within r mem)⟩
      · rw [ran] at failed
        cases (Prod.mk.inj failed).1
  | @refused syncFirst drawn e d gone unused ran =>
      rcases (holds.stopped gone).openDir syncFirst unused with
        ⟨p', d', logs, ran', _, _⟩ | ⟨e', d', failed, same, _⟩
      · rw [ran] at ran'
        cases (Prod.mk.inj ran').1
      · rw [ran] at failed
        obtain ⟨_, rfl⟩ := Prod.mk.inj failed
        refine ⟨records, ?_, within⟩
        unfold LogState.Holds
        simp only [gone]
        exact (holds.stopped gone).same same

/-- What was observed stays in the log along every run. -/
theorem LogRun.inv (run : LogRun spec LogState.TakenDurable s s') (inv : s.Inv spec) :
    s'.Inv spec := by
  induction run with
  | refl => exact inv
  | tail _ step ih => exact step.inv ih

/-- Steps only add observations. -/
theorem LogStep.observed {safe : LogState → Prop} (step : LogStep spec safe s s') :
    s.observed <+: s'.observed := by
  cases step <;> first | exact List.prefix_refl _ | exact List.prefix_append ..

theorem LogRun.observed {safe : LogState → Prop} (run : LogRun spec safe s s') :
    s.observed <+: s'.observed := by
  induction run with
  | refl => exact List.prefix_refl _
  | tail _ step ih => exact ih.trans step.observed

/-- A read of one record stops behind it. -/
theorem readRecords_one (offset : UInt64) (r : Record) (records : List Record) :
    ∃ done, readRecords offset 1 records [r] = .ok ([r], done) := by
  induction records with
  | nil => exact ⟨false, rfl⟩
  | cons x records ih =>
      unfold readRecords
      by_cases below : x.offset < offset
      · rw [if_pos below]
        exact ih
      · have full : (1 : UInt32) ≤ .ofNat [r].length := UInt32.le_refl 1
        rw [if_neg below, if_pos full]
        exact ⟨true, rfl⟩

/-- Every record of the log can be read at its offset. -/
theorem Running.read_one {taken : Taken} {d : Dir Name} {p : Partition} {logs : List SegmentLog}
    (running : Running spec taken d p logs) (open_ : p.checkOpen = .ok ()) {r : Record}
    (mem : r ∈ chainRecords logs) : read d p r.offset 1 = .ok [r] := by
  obtain ⟨consecutive, length⟩ := running.shows.chain.consecutive
  have range := consecutive.range mem
  have start : ¬ r.offset < p.logStart := by
    rw [running.shows.logStart, UInt64.lt_iff_toNat_lt]
    omega
  have last : ¬ p.logEnd < r.offset := by
    rw [running.shows.logEnd, UInt64.lt_iff_toNat_lt]
    omega
  have inside : ¬ r.offset = p.logEnd := by
    rw [running.shows.logEnd, ← UInt64.toNat_inj]
    omega
  obtain ⟨before, behind, split⟩ := List.append_of_mem mem
  have below : ∀ x ∈ before, x.offset < r.offset := by
    intro x inBefore
    have front : before <+: chainRecords logs := by
      rw [split]
      exact List.prefix_append ..
    have early := ((consecutive.of_isPrefix front).range inBefore).2
    have here := consecutive before.length r (by rw [split]; simp)
    rw [UInt64.lt_iff_toNat_lt]
    omega
  have found : ∃ done, readRecords r.offset 1 (chainRecords logs) [] = .ok ([r], done) := by
    rw [split, (readRecords_splits r.offset 1).skip (readRecords_skips r.offset 1) below]
    unfold readRecords
    rw [if_neg (UInt64.lt_irrefl _), if_neg (by decide)]
    exact readRecords_one r.offset r behind
  obtain ⟨done, found⟩ := found
  have one : ¬ (1 : UInt32) = 0 := by decide
  simp only [Immulog.read, open_, failIf_of_not start, failIf_of_not last, ok_bind, if_neg inside,
    if_neg one, readSegments_eq running.shows.segments running.shows.chain running.filesHold, found]
  rfl

/-- The records of the log have consecutive offsets. -/
theorem LogState.Holds.consecutive (holds : s.Holds spec records) :
    ∃ base, Consecutive base records := by
  cases holds.crash with
  | nothing _ none =>
      rw [none]
      exact ⟨0, .nil 0⟩
  | log onDisk same =>
      rw [same]
      exact ⟨_, (Chain.consecutive onDisk.chain).1⟩

/-- An invariant state is stable. -/
theorem LogState.Inv.stable (inv : s.Inv spec) : s.Stable spec := by
  obtain ⟨records, holds, within⟩ := inv
  obtain ⟨base, consecutive⟩ := holds.consecutive
  refine ⟨fun r mem r' mem' same => ?_, fun p open_ checked r mem => ?_,
    fun gone syncFirst drawn e d unused failed => ?_⟩
  · exact consecutive.unique (within r mem) (within r' mem') same
  · obtain ⟨logs, running, rfl⟩ := holds.running open_
    exact running.read_one checked (within r mem)
  · rcases (holds.stopped gone).openDir syncFirst unused with
      ⟨p, d', logs, ran, _⟩ | ⟨e', d', _, _, cut⟩
    · rw [failed] at ran
      cases (Prod.mk.inj ran).1
    · exact cut.mono within

end Invariant

/-! ## A small partition -/

section Room

variable {p : Partition} {b : RecordBatch} {drawn : SegmentID} {free : Bool} {d : Dir Name}
  {last : SegmentLog} {f : File} {durable : Bool}

/-- An append can be stopped between the write of its batch and the sync. -/
theorem crash_unsynced (admitted : (admitBatch p b).toBool = true)
    (checked : (checkAppend p b b.bytes).toBool = true)
    (room : ¬ p.options.segmentBytes.toNat < b.bytes.length + p.active.size)
    (active : p.active.Shows last)
    (found : d.lookup (.log last.header.baseOffset) = some ⟨some f, durable⟩)
    (holds : f.data = last.bytes) :
    Prog.Crash Dir.device (appendBatch p b drawn free) d
      (d.insert (.log last.header.baseOffset)
        ⟨some { f with data := last.bytes ++ b.bytes }, durable⟩) := by
  have wrote := Prog.run_attempt (D := Dir.device) (Prog.perform (.writeAt p.active.name
    p.active.size b.bytes) (ioError "short write")) d
  rw [Prog.run_perform_some (exec_writeAt_end active found holds)] at wrote
  rw [appendBatch_room admitted checked room]
  exact Prog.crash_bind.2 (.inl (Prog.crash_bind.2 (.inr ⟨_, _, wrote, .now⟩)))

end Room

namespace SmallLog

/-- A partition with the options of a small log and no cache. -/
def spec : PartitionSpec where
  topic := 2
  partition := 0
  options :=
    { segmentBytes := 1048576, initialOffset := 0, indexStride := 4096, batchBytes := 65536
      batchRecords := 16, recordBytes := 65536, tailSlots := 0, tailBytes := 0 }
  storeID := 1
  topic_ne_zero := by decide
  partition_le := by decide
  initialOffset_le := by decide
  tail := none
  tail_eq := by decide +kernel

def record : Record :=
  { topic := 2, partition := 0, offset := 0, timestamp := 0, key := none, value := some [1]
    headers := [] }

def batch : RecordBatch :=
  { topic := 2, partition := 0, baseOffset := 0, records := [record] }

/-- The empty segment of the first open. -/
def log : SegmentLog :=
  ⟨spec.firstHeader 1, []⟩

/-- The directory of the first open, with other bytes in its segment. -/
def dirWith (data disk : Bytes) : Dir Name :=
  (spec.created ∅ 1).insert (.log 0) ⟨some ⟨data, disk⟩, true⟩

theorem lookup_created : (spec.created ∅ 1).lookup (.log 0) =
    some ⟨some ⟨log.bytes, log.bytes⟩, true⟩ := by
  have bytes : log.bytes = (spec.firstHeader 1).bytes := by simp [log, SegmentLog.bytes]
  rw [PartitionSpec.created, Dir.lookup_synced, bytes]
  exact congrArg _ (Prog.lookup_renamed ..)

theorem lookup_created_other {name : Name} (other : name ≠ .log 0) :
    (spec.created ∅ 1).lookup name = none :=
  spec.lookup_created_other 1 other

theorem lookup_dirWith (data disk : Bytes) :
    (dirWith data disk).lookup (.log 0) = some ⟨some ⟨data, disk⟩, true⟩ :=
  AList.lookup_insert _

theorem lookup_dirWith_other {data disk : Bytes} {name : Name} (other : name ≠ .log 0) :
    (dirWith data disk).lookup name = none := by
  rw [dirWith, AList.lookup_insert_ne other, lookup_created_other other]

theorem notMem_dirWith {data disk : Bytes} {name : Name} (other : name ≠ .log 0) :
    name ∉ dirWith data disk := by
  rw [← AList.lookup_isSome, lookup_dirWith_other other]
  simp

theorem batch_valid : batch.Valid := by
  have encoded : ∃ bs, encodeBatch batch = .ok bs := by
    have ok : (encodeBatch batch).toBool = true := by decide +kernel
    cases found : encodeBatch batch with
    | ok bs => exact ⟨bs, rfl⟩
    | error e => rw [found] at ok; cases ok
  obtain ⟨bs, encoded⟩ := encoded
  exact (RecordBatch.encode_eq_ok.1 encoded).1

theorem chain_log : spec.Chain ([] ++ [log]) :=
  spec.fresh_chain 1

theorem continues : Continues spec log batch :=
  ⟨batch_valid, rfl, rfl, rfl⟩

/-- The segment with or without the batch. -/
theorem holds {x : SegmentLog} (chain : spec.Chain ([] ++ [x])) (base : x.header.baseOffset = 0)
    (disk : Bytes) : HoldsLog spec (dirWith x.bytes disk) [] x [] := by
  refine ⟨chain, fun log mem => absurd mem List.not_mem_nil, ?_, .inl rfl, fun base' mem => ?_,
    fun text => notMem_dirWith (by simp)⟩
  · rw [base, List.append_nil, read?_of_lookup (lookup_dirWith ..)]
  · by_cases same : base' = 0
    · exact ⟨x, List.mem_cons_self, base.trans same.symm⟩
    · exact absurd mem (notMem_dirWith (by simpa using same))

theorem opened_first : Prog.run Dir.device (spec.openDir false 1) ∅ =
    (.ok (spec.fresh ∅ 1), spec.created ∅ 1) :=
  run_open_empty ⟨fun _ => AList.notMem_empty _, fun _ => AList.notMem_empty _⟩
    (AList.notMem_empty _)

theorem opened_shows : (spec.fresh ∅ 1).Shows ([] ++ [log]) :=
  fresh_shows spec ∅ 1

/-- The partition after its first append. -/
def appended : Partition :=
  ((spec.fresh ∅ 1).extended batch batch.bytes).publishTail true batch.records
    ((spec.fresh ∅ 1).extended batch batch.bytes).logEnd

/-- After an acknowledged append, a machine crash that loses nothing, and an open. -/
def recovered : LogState :=
  ⟨dirWith (log.push batch).bytes (log.push batch).bytes,
    some (spec.loaded (dirWith (log.push batch).bytes (log.push batch).bytes)
      (dirWith (log.push batch).bytes (log.push batch).bytes) [] (log.push batch)), [record],
    (spec.loaded (dirWith (log.push batch).bytes (log.push batch).bytes)
      (dirWith (log.push batch).bytes (log.push batch).bytes) [] (log.push batch)).takenOver⟩

/-- Open, append, crash without a loss, and open again. -/
theorem run_recovered : LogRun spec LogState.TakenDurable LogState.start recovered := by
  have wrote : Prog.run Dir.device (appendBatch (spec.fresh ∅ 1) batch 1 true)
      (spec.created ∅ 1) = (.ok (appended, .ok 0),
        dirWith (log.push batch).bytes (log.push batch).bytes) :=
    run_appendBatch_room (by decide +kernel) (by decide +kernel) (by decide +kernel)
      opened_shows.split.2 lookup_created rfl
  have again : Prog.run Dir.device (spec.openDir false 1)
      (dirWith (log.push batch).bytes (log.push batch).bytes) = (.ok _, dirWith _ _) :=
    run_open_whole (holds (continues.chain chain_log) rfl _) 1
  have durable : AllDurable (dirWith (log.push batch).bytes (log.push batch).bytes)
      (spec.fresh ∅ 1).takenOver := by
    intro key mem
    rw [Partition.takenOver, Segment.Shows.keys opened_shows.segments] at mem
    obtain rfl := List.mem_singleton.1 mem
    refine ⟨_, lookup_dirWith .., ?_, List.prefix_refl _⟩
    rw [SegmentLog.bytes_push, List.length_append]
    exact Nat.le_add_right ..
  have kept : (dirWith (log.push batch).bytes (log.push batch).bytes).Loses
      (dirWith (log.push batch).bytes (log.push batch).bytes) := by
    intro name
    by_cases here : name = .log 0
    · rw [here, lookup_dirWith]
      exact .file ⟨.inl (List.prefix_refl _), fun bs inData _ => inData, rfl⟩
    · rw [lookup_dirWith_other here]
      exact .absent
  refine Relation.ReflTransGen.head (.reopen rfl (AList.notMem_empty _) opened_first) ?_
  refine Relation.ReflTransGen.head (.appendBatch rfl wrote) ?_
  refine Relation.ReflTransGen.head .crash ?_
  refine Relation.ReflTransGen.head (.lose rfl durable kept) ?_
  exact Relation.ReflTransGen.single (.reopen rfl (notMem_dirWith (by simp)) again)

end SmallLog

/-! ## Stability along runs -/

/-- In every run in which a machine crash finds everything durable that the last open took
over, all that was observed stays in the log at its offset. -/
theorem log_stable (spec : PartitionSpec) {s s' : LogState}
    (before : LogRun spec LogState.TakenDurable LogState.start s)
    (later : LogRun spec LogState.TakenDurable s s') :
    s.observed <+: s'.observed ∧ s'.Stable spec :=
  ⟨later.observed, (later.inv (before.inv (LogState.inv_start spec))).stable⟩

namespace SmallLog

/-- After recovery the acknowledged record is still there. -/
theorem recovered_stable : recovered.observed = [record] ∧ recovered.Stable spec :=
  ⟨rfl, (log_stable spec .refl run_recovered).2⟩

/-! ### A record that is returned and then lost -/

/-- A machine crash may take everything behind the synced bytes. -/
theorem loses (more : Bytes) :
    (dirWith (log.bytes ++ more) log.bytes).Loses (dirWith log.bytes log.bytes) := by
  intro name
  by_cases here : name = .log 0
  · rw [here, lookup_dirWith, lookup_dirWith]
    exact .file ⟨.inr (List.prefix_refl _), fun bs _ onDisk => onDisk, rfl⟩
  · rw [lookup_dirWith_other here, lookup_dirWith_other here]
    exact .absent

/-- After the first open and an append that stops between write and sync. -/
def written : LogState :=
  ⟨dirWith (log.push batch).bytes log.bytes, none, [], (spec.fresh ∅ 1).takenOver⟩

/-- The open that takes the unsynced batch over. -/
def takenOver : Partition :=
  spec.loaded written.dir written.dir [] (log.push batch)

/-- After the machine crash and the next open. -/
def reopened : LogState :=
  ⟨dirWith log.bytes log.bytes,
    some (spec.loaded (dirWith log.bytes log.bytes) (dirWith log.bytes log.bytes) [] log), [record],
    (spec.loaded (dirWith log.bytes log.bytes) (dirWith log.bytes log.bytes) [] log).takenOver⟩

/-- The process stops between the write and the sync. -/
theorem run_written : LogRun spec (fun _ => True) LogState.start written := by
  have stopped : Prog.Crash Dir.device (appendBatch (spec.fresh ∅ 1) batch 1 true)
      (spec.created ∅ 1) written.dir := by
    rw [written, SegmentLog.bytes_push]
    exact crash_unsynced (by decide +kernel) (by decide +kernel) (by decide +kernel)
      opened_shows.split.2 lookup_created rfl
  have first : LogStep spec (fun _ => True) LogState.start
      ⟨spec.created ∅ 1, some (spec.fresh ∅ 1), [], (spec.fresh ∅ 1).takenOver⟩ :=
    .reopen rfl (AList.notMem_empty _) opened_first
  exact (Relation.ReflTransGen.single first).tail (.crashAppendBatch rfl stopped)

theorem read_takenOver : read written.dir takenOver record.offset 1 = .ok [record] := by
  have running := running_loaded (holds (continues.chain chain_log) rfl log.bytes) written.dir
  have mem : record ∈ chainRecords ([] ++ [log.push batch]) := by
    rw [chainRecords_push]
    exact List.mem_append_right _ List.mem_cons_self
  exact running.read_one rfl mem

/-- The unsynced batch is taken over, read, and lost with the machine. -/
theorem run_reopened : LogRun spec (fun _ => True) written reopened := by
  have opened : Prog.run Dir.device (spec.openDir false 1) written.dir =
      (.ok takenOver, written.dir) :=
    run_open_whole (holds (continues.chain chain_log) rfl log.bytes) 1
  have again : Prog.run Dir.device (spec.openDir false 1) (dirWith log.bytes log.bytes) =
      (.ok _, dirWith log.bytes log.bytes) :=
    run_open_whole (holds chain_log rfl log.bytes) 1
  have lost : written.dir.Loses (dirWith log.bytes log.bytes) := by
    rw [written, SegmentLog.bytes_push]
    exact loses batch.bytes
  have read : LogStep spec (fun _ => True)
      ⟨written.dir, some takenOver, [], takenOver.takenOver⟩
      ⟨written.dir, some takenOver, [record], takenOver.takenOver⟩ :=
    .read rfl read_takenOver
  refine Relation.ReflTransGen.head (.reopen rfl (notMem_dirWith (by simp)) opened) ?_
  refine Relation.ReflTransGen.head read ?_
  refine Relation.ReflTransGen.head .crash ?_
  refine Relation.ReflTransGen.head (.lose rfl trivial lost) ?_
  exact Relation.ReflTransGen.single (.reopen rfl (notMem_dirWith (by simp)) again)

/-- The next open finds an empty log. -/
theorem read_reopened :
    read reopened.dir (spec.loaded (dirWith log.bytes log.bytes)
      (dirWith log.bytes log.bytes) [] log)
      record.offset 1 = .ok [] := by
  have running := running_loaded (holds chain_log rfl log.bytes) (dirWith log.bytes log.bytes)
  have start : ¬ record.offset < (spec.loaded (dirWith log.bytes log.bytes)
      (dirWith log.bytes log.bytes) [] log).logStart := by
    rw [running.shows.logStart]
    decide
  have inside : ¬ (spec.loaded (dirWith log.bytes log.bytes)
      (dirWith log.bytes log.bytes) [] log).logEnd < record.offset := by
    decide
  have atEnd : record.offset = (spec.loaded (dirWith log.bytes log.bytes)
      (dirWith log.bytes log.bytes) [] log).logEnd := rfl
  simp only [Immulog.read, failIf_of_not start, failIf_of_not inside, if_pos atEnd]
  rfl

/-- A record that a read has returned is gone after a machine crash. -/
theorem returned_record_lost :
    ∃ s, LogRun spec (fun _ => True) LogState.start s ∧ ¬ s.Stable spec := by
  refine ⟨reopened, run_written.trans run_reopened, fun stable => ?_⟩
  have kept := stable.present _ rfl rfl record List.mem_cons_self
  have gone := read_reopened
  rw [kept] at gone
  cases gone

end SmallLog

end Immulog
