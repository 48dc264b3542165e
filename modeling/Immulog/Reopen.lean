import Immulog.Options
import Immulog.PartitionLog

/-!
Opening a partition directory.

`HoldsLog` says that the segment files of a directory hold a chain and, behind its last
segment, a piece of one more batch.  Such a directory is opened as it is, or with the
piece cut off, or refused when the piece is shorter than a batch header; an empty
directory gets its first segment.  The crash lemmas say what a stop during the open
leaves.
-/

namespace Immulog

open Lib

/-- What a partition is opened with, as `OpenPartition` accepts it. -/
structure PartitionSpec where
  topic : TopicID
  partition : UInt32
  options : PartitionOptions
  storeID : StoreID
  topic_ne_zero : topic ≠ 0
  partition_le : partition ≤ int32Max
  initialOffset_le : options.initialOffset ≤ maxOffset
  tail : Option PartitionTail
  tail_eq : newPartitionTail options.tailSlots options.tailBytes = .ok tail

/-- How a partition is opened with a configuration. -/
def firstSpec (key : TopicKey) (valid : key.Valid) (config : PartitionConfigV1) :
    PartitionSpec where
  topic := key.topic
  partition := key.partition
  options := config.options.toPartitionOptions
  storeID := 1
  topic_ne_zero := valid.1
  partition_le := valid.2
  initialOffset_le := UInt64.zero_le
  tail := none
  tail_eq := rfl

namespace PartitionSpec

variable (spec : PartitionSpec)

def reopen (drawn : SegmentID) : DirM Partition :=
  openPartition drawn spec.topic spec.partition spec.options spec.storeID

/-- A partition opened with these values. -/
def Opened (p : Partition) : Prop :=
  p.topic = spec.topic ∧ p.partition = spec.partition ∧ p.options = spec.options ∧
    p.storeID = spec.storeID

/-- The segments follow each other from the initial offset on. -/
def Chain (logs : List SegmentLog) : Prop :=
  Immulog.Chain spec.topic spec.partition spec.options.initialOffset logs

/-- A piece of a batch that may stand behind the log. -/
def Torn (offset : UInt64) (tail : Bytes) : Prop :=
  tail = [] ∨ ∃ b : RecordBatch, b.Valid ∧ b.topic = spec.topic ∧ b.partition = spec.partition ∧
    b.baseOffset = offset ∧ tail <+: b.bytes

end PartitionSpec

/-- The four kinds of pieces. -/
inductive PartitionSpec.Piece (spec : PartitionSpec) (offset : UInt64) : Bytes → Prop where
  | empty : Piece spec offset []
  | whole {b : RecordBatch} : b.Valid → b.topic = spec.topic → b.partition = spec.partition →
      b.baseOffset = offset → Piece spec offset b.bytes
  | cut {b : RecordBatch} {tail : Bytes} : b.Valid → b.topic = spec.topic →
      b.partition = spec.partition → b.baseOffset = offset → tail <+: b.bytes →
      48 ≤ tail.length → tail.length < b.bytes.length → Piece spec offset tail
  | short {b : RecordBatch} {tail : Bytes} : b.Valid → b.topic = spec.topic →
      b.partition = spec.partition → b.baseOffset = offset → tail <+: b.bytes → tail ≠ [] →
      tail.length < 48 → Piece spec offset tail

/-- What remains of a torn write is a front of something that could have been written. -/
theorem PartitionSpec.Torn.piece {spec : PartitionSpec} {offset : UInt64} {tail : Bytes}
    (torn : spec.Torn offset tail) : spec.Piece offset tail := by
  rcases torn with rfl | ⟨b, valid, topic, partition, base, front⟩
  · exact .empty
  by_cases whole : tail.length = b.bytes.length
  · rw [front.eq_of_length whole]
    exact .whole valid topic partition base
  have less : tail.length < b.bytes.length := Nat.lt_of_le_of_ne front.length_le whole
  by_cases empty : tail = []
  · subst empty
    exact .empty
  by_cases header : 48 ≤ tail.length
  · exact .cut valid topic partition base front header less
  · exact .short valid topic partition base front empty (Nat.lt_of_not_le header)

section ChainFacts

variable {topic : TopicID} {partition : UInt32} {base : UInt64} {logs : List SegmentLog}

/-- A filled segment ends behind its base. -/
theorem SegmentLog.Valid.lt_endOffset {s : SegmentLog} (valid : s.Valid topic partition base)
    (filled : s.batches ≠ []) : base.toNat < s.endOffset.toNat := by
  obtain ⟨_, length, _⟩ := valid.consecutive
  have follows := valid.follows
  cases h : s.batches with
  | nil => exact absurd h filled
  | cons b rest =>
      rw [h] at follows
      have positive := follows.1.nonempty
      have records : s.records.length =
          b.records.length + (rest.flatMap RecordBatch.records).length := by
        simp [SegmentLog.records, h]
      omega

/-- Later segments have greater bases. -/
theorem Chain.base_le (chain : Chain topic partition base logs) :
    ∀ log ∈ logs, base.toNat ≤ log.header.baseOffset.toNat := by
  induction logs generalizing base with
  | nil => simp
  | cons s rest ih =>
      obtain ⟨valid, _, later⟩ := chain
      intro log mem
      rcases List.mem_cons.1 mem with rfl | mem
      · rw [valid.base_eq]
      · have here := ih later log mem
        obtain ⟨_, length, _⟩ := valid.consecutive
        omega

/-- So the bases of a chain are sorted. -/
theorem Chain.bases_sorted (chain : Chain topic partition base logs) :
    (logs.map fun log => log.header.baseOffset).Pairwise fun a b => a.toNat < b.toNat := by
  induction logs generalizing base with
  | nil => exact List.Pairwise.nil
  | cons s rest ih =>
      obtain ⟨valid, filled, later⟩ := chain
      refine List.Pairwise.cons ?_ (ih later)
      intro b mem
      obtain ⟨log, inRest, rfl⟩ := List.mem_map.1 mem
      have nonempty : rest ≠ [] := List.ne_nil_of_mem inRest
      have low := later.base_le log inRest
      have less := valid.lt_endOffset (filled nonempty)
      change s.header.baseOffset.toNat < log.header.baseOffset.toNat
      rw [valid.base_eq]
      omega

theorem Chain.base_le_maxOffset (chain : Chain topic partition base logs) :
    ∀ log ∈ logs, log.header.baseOffset ≤ maxOffset := by
  induction logs generalizing base with
  | nil => simp
  | cons s rest ih =>
      obtain ⟨valid, _, later⟩ := chain
      intro log mem
      rcases List.mem_cons.1 mem with rfl | mem
      · exact valid.header.baseOffset
      · exact ih later log mem

/-- Segments of a chain in front of its last one. -/
def ClosedChain (topic : TopicID) (partition : UInt32) : UInt64 → List SegmentLog → Prop
  | _, [] => True
  | base, s :: rest =>
      s.Valid topic partition base ∧ s.batches ≠ [] ∧ ClosedChain topic partition s.endOffset rest

/-- A chain is closed segments and a last one. -/
theorem chain_concat {last : SegmentLog} :
    Chain topic partition base (logs ++ [last]) ↔
      ClosedChain topic partition base logs ∧ last.Valid topic partition (chainEnd base logs) := by
  induction logs generalizing base with
  | nil => simp [Chain, ClosedChain, chainEnd]
  | cons s rest ih =>
      rw [List.cons_append, Chain, ClosedChain, chainEnd, ih]
      simp [and_assoc]

theorem chainEnd_concat {last : SegmentLog} :
    chainEnd base (logs ++ [last]) = last.endOffset := by
  induction logs generalizing base with
  | nil => rfl
  | cons s rest ih => exact ih

/-- The next batch keeps a segment valid. -/
theorem SegmentLog.Valid.push {s : SegmentLog} {b : RecordBatch}
    (valid : s.Valid topic partition base) (batch : b.Valid) (topicEq : b.topic = topic)
    (partitionEq : b.partition = partition) (next : b.baseOffset = s.endOffset) :
    (s.push b).Valid topic partition base := by
  refine ⟨valid.header, valid.topic_eq, valid.partition_eq, valid.base_eq, ?_⟩
  have start : nextOffset base s.batches = b.baseOffset := by
    rw [next, SegmentLog.endOffset, valid.base_eq]
  refine follows_append.2 ⟨valid.follows, batch, topicEq, partitionEq, start.symm, trivial⟩

end ChainFacts

/-! ## Directories that hold a log -/

/-- The segment files of the directory hold a chain and then a piece of a batch. -/
structure HoldsLog (spec : PartitionSpec) (d : Dir Name) (closed : List SegmentLog)
    (last : SegmentLog) (tail : Bytes) : Prop where
  chain : spec.Chain (closed ++ [last])
  closed_files : ∀ log ∈ closed, d.read? (.log log.header.baseOffset) = some log.bytes
  last_file : d.read? (.log last.header.baseOffset) = some (last.bytes ++ tail)
  torn : spec.Torn last.endOffset tail
  names : ∀ base, .log base ∈ d → ∃ log ∈ closed ++ [last], log.header.baseOffset = base
  stray : ∀ text, .strayLog text ∉ d

theorem lookup_of_read? {d : Dir Name} {name : Name} {data : Bytes}
    (read : d.read? name = some data) :
    ∃ f durable, d.lookup name = some ⟨some f, durable⟩ ∧ f.data = data := by
  simp only [Dir.read?, Dir.file?, Option.map_eq_some_iff, Option.bind_eq_some_iff] at read
  obtain ⟨f, ⟨⟨file, durable⟩, found, rfl⟩, rfl⟩ := read
  exact ⟨f, durable, found, rfl⟩

namespace HoldsLog

variable {spec : PartitionSpec} {d : Dir Name} {closed : List SegmentLog} {last : SegmentLog}
  {tail : Bytes}

/-- Every segment of the log has its file. -/
theorem file_of_mem (holds : HoldsLog spec d closed last tail) {log : SegmentLog}
    (mem : log ∈ closed ++ [last]) :
    ∃ f durable, d.lookup (.log log.header.baseOffset) = some ⟨some f, durable⟩ := by
  rcases List.mem_append.1 mem with mem | mem
  · obtain ⟨f, durable, found, _⟩ := lookup_of_read? (holds.closed_files log mem)
    exact ⟨f, durable, found⟩
  · obtain rfl := List.mem_singleton.1 mem
    obtain ⟨f, durable, found, _⟩ := lookup_of_read? holds.last_file
    exact ⟨f, durable, found⟩

/-- An open finds the segments of the log in order. -/
theorem discover (holds : HoldsLog spec d closed last tail) :
    discoverSegments d = .ok ((closed ++ [last]).map fun log => log.header.baseOffset) := by
  refine discoverSegments_eq_ok.2 ⟨fun base => ?_, fun base mem => ?_,
    fun text => read?_eq_none (holds.stray text), holds.chain.bases_sorted⟩
  · rw [exists_read?]
    constructor
    · intro mem
      obtain ⟨log, inChain, rfl⟩ := List.mem_map.1 mem
      exact holds.file_of_mem inChain
    · intro found
      obtain ⟨f, durable, found⟩ := found
      have mem : .log base ∈ d := AList.lookup_isSome.1 (by rw [found]; rfl)
      obtain ⟨log, inChain, rfl⟩ := holds.names base mem
      exact List.mem_map_of_mem inChain
  · obtain ⟨log, inChain, rfl⟩ := List.mem_map.1 mem
    exact holds.chain.base_le_maxOffset log inChain

end HoldsLog

/-! ## Opening -/

/-- The segment that is loaded for a log. -/
def loadedSegment (spec : PartitionSpec) (d : Dir Name) (log : SegmentLog) : Segment :=
  loadOrBuildIndexes d log.shown spec.storeID spec.options.indexStride

/-- A segment that is loaded shows its log, with whatever index. -/
theorem loadedSegment_shows (spec : PartitionSpec) (d : Dir Name) (log : SegmentLog) :
    (loadedSegment spec d log).Shows log := by
  obtain ⟨offsetIndex, timeIndex, indexDirty, same, hints⟩ :=
    loadOrBuildIndexes_spec d log.shown spec.storeID spec.options.indexStride
  exact ⟨offsetIndex, timeIndex, indexDirty, same, hints⟩

section Opening

variable {spec : PartitionSpec} {d : Dir Name} {closed : List SegmentLog} {last : SegmentLog}
  {tail : Bytes}

/-- The loop of `openPartition` with the values of a partition. -/
abbrev PartitionSpec.recover (spec : PartitionSpec) (bases : List UInt64) (expected : UInt64)
    (segments : List Segment) : DirM (List Segment × UInt64) :=
  recoverSegments spec.topic spec.partition spec.options spec.storeID bases expected segments

/-- One round of the loop: a segment is recovered and its indexes are loaded. -/
theorem run_recoverSegments_cons {topic : TopicID} {partition : UInt32} {options : PartitionOptions}
    {storeID : StoreID} {base expected : UInt64} {rest : List UInt64} {opened : Segment}
    {d' : Dir Name} {final : Bool} (order : base = expected)
    (recovered : Prog.run Dir.device (recoverSegment base topic partition final expected) d =
      (.ok opened, d')) (ending : rest.isEmpty = final) (segments : List Segment) :
    Prog.run Dir.device
        (recoverSegments topic partition options storeID (base :: rest) expected segments) d =
      Prog.run Dir.device (recoverSegments topic partition options storeID rest opened.endOffset
        (segments ++ [loadOrBuildIndexes d' opened storeID options.indexStride])) d' := by
  rw [recoverSegments, Prog.run_bind_ok (by rw [failIf_of_not (not_not.2 order)]; rfl), ending,
    Prog.run_bind_ok recovered, Prog.run_bind_ok (Prog.run_get ..)]

/-- Closed segments are recovered without a change. -/
theorem run_recoverSegments_closed {expected : UInt64} {rest : List UInt64} (more : rest ≠ [])
    (chain : ClosedChain spec.topic spec.partition expected closed)
    (files : ∀ log ∈ closed, d.read? (.log log.header.baseOffset) = some log.bytes)
    (segments : List Segment) :
    Prog.run Dir.device (spec.recover
        (closed.map (fun log => log.header.baseOffset) ++ rest) expected segments) d =
      Prog.run Dir.device (spec.recover rest (chainEnd expected closed)
        (segments ++ closed.map (loadedSegment spec d))) d := by
  induction closed generalizing expected segments with
  | nil => simp [chainEnd]
  | cons log closed ih =>
      obtain ⟨valid, filled, later⟩ := chain
      obtain ⟨f, durable, found, holds⟩ := lookup_of_read? (files log List.mem_cons_self)
      rw [valid.base_eq] at found
      have notFinal : (closed.map (fun log => log.header.baseOffset) ++ rest).isEmpty = false := by
        cases closed with
        | nil => simpa using more
        | cons _ _ => rfl
      have recovered : Prog.run Dir.device
          (recoverSegment log.header.baseOffset spec.topic spec.partition false expected) d =
            (.ok log.shown, d) := by
        rw [valid.base_eq]
        exact run_recoverSegment_whole false valid found holds fun _ => filled
      have next : log.shown.endOffset = log.endOffset := log.recovered_current
      rw [List.map_cons, List.cons_append, PartitionSpec.recover,
        run_recoverSegments_cons valid.base_eq recovered notFinal, next]
      have files' := fun x mem => files x (List.mem_cons_of_mem _ mem)
      have step := ih later files' (segments ++ [loadedSegment spec d log])
      rw [List.append_assoc] at step
      exact step

/-- The last round of the loop, once its segment has been recovered. -/
theorem run_recoverSegments_last {d' : Dir Name} {expected : UInt64} (segments : List Segment)
    (recovered : Prog.run Dir.device
      (recoverSegment expected spec.topic spec.partition true expected) d = (.ok last.shown, d')) :
    Prog.run Dir.device (spec.recover [expected] expected segments) d =
      (.ok (segments ++ [loadedSegment spec d' last], last.endOffset), d') := by
  have next : last.shown.endOffset = last.endOffset := last.recovered_current
  rw [PartitionSpec.recover, run_recoverSegments_cons rfl recovered List.isEmpty_nil, next]
  rfl

/-- The partition in memory after an open that loaded from the given directory states. -/
def PartitionSpec.loaded (spec : PartitionSpec) (d d' : Dir Name) (closed : List SegmentLog)
    (last : SegmentLog) : Partition :=
  openedPartition spec.topic spec.partition spec.options spec.storeID spec.tail
    (closed.map (loadedSegment spec d)) (loadedSegment spec d' last) last.endOffset

theorem HoldsLog.lastValid (holds : HoldsLog spec d closed last tail) :
    last.Valid spec.topic spec.partition last.header.baseOffset := by
  have valid := (chain_concat.1 holds.chain).2
  have same := valid.base_eq
  rwa [← same] at valid

/-- The first base is that of the partition. -/
theorem HoldsLog.first_base (holds : HoldsLog spec d closed last tail) :
    ∃ rest, closed.map (fun log => log.header.baseOffset) ++ [last.header.baseOffset] =
      spec.options.initialOffset :: rest := by
  obtain ⟨closedChain, lastValid⟩ := chain_concat.1 holds.chain
  cases closed with
  | nil => exact ⟨[], by rw [lastValid.base_eq]; rfl⟩
  | cons log closed => exact ⟨_, by rw [List.map_cons, closedChain.1.base_eq]; rfl⟩

/-- The partition over the segments of the loop. -/
abbrev PartitionSpec.assemble (spec : PartitionSpec) (found : List Segment × UInt64) :
    DirM Partition :=
  assemblePartition spec.topic spec.partition spec.options spec.storeID spec.tail found

/-- Opening a directory that holds a log is the loop over its segments. -/
theorem HoldsLog.run_open (holds : HoldsLog spec d closed last tail) (drawn : SegmentID) :
    Prog.run Dir.device (spec.reopen drawn) d =
      Prog.run Dir.device (spec.recover (closed.map (fun log => log.header.baseOffset) ++
        [last.header.baseOffset]) spec.options.initialOffset [] >>= spec.assemble) d := by
  have bases := holds.discover
  simp only [List.map_append, List.map_cons, List.map_nil] at bases
  obtain ⟨rest, split⟩ := holds.first_base
  rw [split] at bases ⊢
  have start : ¬ spec.options.initialOffset ≠ spec.options.initialOffset := not_not.2 rfl
  simp only [PartitionSpec.reopen, openPartition, spec.tail_eq]
  rw [Prog.run_bind_ok (Prog.run_ofExcept ..), Prog.run_bind_ok (Prog.run_get ..), bases,
    Prog.run_bind_ok (Prog.run_ofExcept ..)]
  simp only [failIf_of_not start]
  rw [Prog.run_bind_ok (Prog.run_ofExcept ..)]

/-- An open that is stopped has changed nothing, or it was recovering. -/
theorem HoldsLog.crash_open (holds : HoldsLog spec d closed last tail) {drawn : SegmentID}
    {d' : Dir Name} (stop : Prog.Crash Dir.device (spec.reopen drawn) d d') :
    d' = d ∨ Prog.Crash Dir.device (spec.recover
      (closed.map (fun log => log.header.baseOffset) ++ [last.header.baseOffset])
      spec.options.initialOffset []) d d' := by
  have bases := holds.discover
  simp only [List.map_append, List.map_cons, List.map_nil] at bases
  obtain ⟨rest, split⟩ := holds.first_base
  rw [split] at bases ⊢
  have start : ¬ spec.options.initialOffset ≠ spec.options.initialOffset := not_not.2 rfl
  simp only [PartitionSpec.reopen, openPartition, spec.tail_eq] at stop
  rcases Prog.crash_bind.1 stop with checking | ⟨t, mid, ran, later⟩
  · exact .inl (Prog.crash_done.1 checking)
  obtain ⟨same, rfl⟩ := Prod.mk.inj ran
  rcases Prog.crash_bind.1 later with looking | ⟨dir, mid, ran, later⟩
  · exact .inl (Prog.crash_get looking)
  obtain ⟨same, rfl⟩ := Prod.mk.inj ran
  obtain rfl := Except.ok.inj same
  rw [bases] at later
  rcases Prog.crash_bind.1 later with discovering | ⟨found, mid, ran, later⟩
  · exact .inl (Prog.crash_done.1 discovering)
  obtain ⟨same, rfl⟩ := Prod.mk.inj ran
  obtain rfl := Except.ok.inj same
  simp only [failIf_of_not start] at later
  rcases Prog.crash_bind.1 later with checking | ⟨_, mid, ran, later⟩
  · exact .inl (Prog.crash_done.1 checking)
  obtain ⟨_, rfl⟩ := Prod.mk.inj ran
  refine .inr (later.first fun found mid after assembling => ?_)
  unfold assemblePartition at assembling
  split at assembling
  · exact Prog.crash_done.1 assembling
  · exact Prog.crash_done.1 assembling

/-- Opening comes down to recovering the last segment. -/
theorem run_open_of_recovered (holds : HoldsLog spec d closed last tail) (drawn : SegmentID)
    {d' : Dir Name} (recovered : Prog.run Dir.device (recoverSegment last.header.baseOffset
      spec.topic spec.partition true last.header.baseOffset) d = (.ok last.shown, d')) :
    Prog.run Dir.device (spec.reopen drawn) d = (.ok (spec.loaded d d' closed last), d') := by
  obtain ⟨closedChain, lastValid⟩ := chain_concat.1 holds.chain
  rw [holds.run_open drawn, Prog.run_bind,
    run_recoverSegments_closed (List.cons_ne_nil _ _) closedChain holds.closed_files,
    ← lastValid.base_eq, run_recoverSegments_last _ recovered]
  simp [PartitionSpec.loaded, assemblePartition]

/-- A stop while segments are recovered is a stop in the recovery of the last one. -/
theorem crash_recoverSegments {expected : UInt64} {segments : List Segment} {d' : Dir Name}
    (chain : ClosedChain spec.topic spec.partition expected closed)
    (files : ∀ log ∈ closed, d.read? (.log log.header.baseOffset) = some log.bytes)
    (follows : last.header.baseOffset = chainEnd expected closed)
    (stop : Prog.Crash Dir.device (spec.recover
      (closed.map (fun log => log.header.baseOffset) ++ [last.header.baseOffset]) expected
      segments) d d') :
    d' = d ∨ Prog.Crash Dir.device (recoverSegment last.header.baseOffset spec.topic
      spec.partition true last.header.baseOffset) d d' := by
  induction closed generalizing expected segments with
  | nil =>
      have order : ¬ last.header.baseOffset ≠ expected := not_not.2 follows
      simp only [List.map_nil, List.nil_append, PartitionSpec.recover, recoverSegments,
        failIf_of_not order, List.isEmpty_nil] at stop
      rcases Prog.crash_bind.1 stop with checking | ⟨_, mid, ran, later⟩
      · exact .inl (Prog.crash_done.1 checking)
      obtain ⟨_, rfl⟩ := Prod.mk.inj ran
      have here : expected = last.header.baseOffset := follows.symm
      rw [here] at later
      refine .inr (later.first fun opened mid after looking => ?_)
      exact Prog.crash_get (looking.first fun _ _ _ ending => Prog.crash_done.1 ending)
  | cons log closed ih =>
      obtain ⟨valid, filled, later⟩ := chain
      obtain ⟨f, durable, found, data⟩ := lookup_of_read? (files log List.mem_cons_self)
      rw [valid.base_eq] at found
      have notFinal : (closed.map (fun log => log.header.baseOffset) ++
          [last.header.baseOffset]).isEmpty = false := by
        cases closed <;> rfl
      have order : ¬ log.header.baseOffset ≠ expected := not_not.2 valid.base_eq
      have whole := run_recoverSegment_whole false valid found data fun _ => filled
      simp only [List.map_cons, List.cons_append, PartitionSpec.recover, recoverSegments,
        failIf_of_not order, notFinal] at stop
      rcases Prog.crash_bind.1 stop with checking | ⟨_, mid, ran, later'⟩
      · exact .inl (Prog.crash_done.1 checking)
      obtain ⟨_, rfl⟩ := Prod.mk.inj ran
      rw [valid.base_eq] at later'
      rcases Prog.crash_bind.1 later' with recovering | ⟨opened, mid, ran, later''⟩
      · rcases crash_recoverSegment found recovering with same | ⟨header, recovered, cut, _⟩
        · exact .inl same
        · rw [data, readSegment_whole valid] at cut
          simp at cut
      rw [whole] at ran
      obtain ⟨same, rfl⟩ := Prod.mk.inj ran
      obtain rfl := Except.ok.inj same
      rcases Prog.crash_bind.1 later'' with looking | ⟨dir, mid', ran', rest⟩
      · exact .inl (Prog.crash_get looking)
      obtain ⟨_, rfl⟩ := Prod.mk.inj ran'
      have next : log.shown.endOffset = log.endOffset := log.recovered_current
      rw [next] at rest
      exact ih later (fun x mem => files x (List.mem_cons_of_mem _ mem)) follows rest

/-- A stop while a log is opened leaves the directory as it was, or with the tail of the
last segment cut off. -/
theorem HoldsLog.crash_open_cases (holds : HoldsLog spec d closed last tail) {drawn : SegmentID}
    {d' : Dir Name} (stop : Prog.Crash Dir.device (spec.reopen drawn) d d') {f : File}
    {durable : Bool} (found : d.lookup (.log last.header.baseOffset) = some ⟨some f, durable⟩) :
    d' = d ∨ ∃ disk, (disk = f.disk ∨ disk = last.bytes) ∧
      d' = d.insert (.log last.header.baseOffset) ⟨some ⟨last.bytes, disk⟩, durable⟩ := by
  obtain ⟨closedChain, lastValid⟩ := chain_concat.1 holds.chain
  rcases holds.crash_open stop with same | looping
  · exact .inl same
  rcases crash_recoverSegments closedChain holds.closed_files lastValid.base_eq looping with
    same | recovering
  · exact .inl same
  rcases crash_recoverSegment found recovering with
    same | ⟨header, recovered, cut, disk, either, rfl⟩
  · exact .inl same
  have data : f.data = last.bytes ++ tail :=
    Option.some.inj ((read?_of_lookup found).symm.trans holds.last_file)
  have position : recovered = last.recovered := by
    rw [data] at cut
    cases holds.torn.piece with
    | empty =>
        rw [List.append_nil, readSegment_whole holds.lastValid] at cut
        simp at cut
    | @whole b valid topic partition base =>
        have pushed : (last.push b).Valid spec.topic spec.partition last.header.baseOffset :=
          holds.lastValid.push valid topic partition base
        rw [← SegmentLog.bytes_push, readSegment_whole pushed] at cut
        simp at cut
    | @cut b _ valid topic partition base front long less =>
        rw [readSegment_cut holds.lastValid valid base front long less] at cut
        exact (Prod.mk.inj (Prod.mk.inj (Except.ok.inj cut)).2).1.symm
    | short _ _ _ _ _ nonempty short =>
        rw [readSegment_short holds.lastValid nonempty short] at cut
        cases cut
  have kept : f.data.take recovered.position = last.bytes := by
    rw [position, SegmentLog.recovered_position, data, List.take_left]
  rw [kept] at either ⊢
  exact .inr ⟨disk, either, rfl⟩

/-- A loaded partition shows the log that it was loaded from. -/
theorem loaded_shows (spec : PartitionSpec) (d d' : Dir Name) {closed : List SegmentLog}
    {last : SegmentLog} (chain : spec.Chain (closed ++ [last])) :
    (spec.loaded d d' closed last).Shows (closed ++ [last]) := by
  refine ⟨?_, chain, ?_⟩
  · have front : List.Forall₂ Segment.Shows (closed.map (loadedSegment spec d)) closed := by
      rw [List.forall₂_map_left_iff]
      exact List.forall₂_same.2 fun log _ => loadedSegment_shows spec d log
    exact List.rel_append front (.cons (loadedSegment_shows spec d' last) .nil)
  · exact chainEnd_concat.symm

/-- A directory that holds exactly a log is opened as it is. -/
theorem run_open_whole (holds : HoldsLog spec d closed last []) (drawn : SegmentID) :
    Prog.run Dir.device (spec.reopen drawn) d = (.ok (spec.loaded d d closed last), d) := by
  obtain ⟨f, durable, found, data⟩ := lookup_of_read? holds.last_file
  rw [List.append_nil] at data
  refine run_open_of_recovered holds drawn ?_
  exact run_recoverSegment_whole true holds.lastValid found data fun h => by cases h

/-- An incomplete batch that contains its header is cut off. -/
theorem run_open_cut (holds : HoldsLog spec d closed last tail) (drawn : SegmentID)
    {b : RecordBatch} (valid : b.Valid) (next : b.baseOffset = last.endOffset)
    (front : tail <+: b.bytes) (header : 48 ≤ tail.length) (cut : tail.length < b.bytes.length)
    {f : File} {durable : Bool}
    (found : d.lookup (.log last.header.baseOffset) = some ⟨some f, durable⟩) :
    Prog.run Dir.device (spec.reopen drawn) d =
      (.ok (spec.loaded d (d.insert (.log last.header.baseOffset)
        ⟨some ⟨last.bytes, last.bytes⟩, durable⟩) closed last),
        d.insert (.log last.header.baseOffset) ⟨some ⟨last.bytes, last.bytes⟩, durable⟩) := by
  have data : f.data = last.bytes ++ tail :=
    Option.some.inj ((read?_of_lookup found).symm.trans holds.last_file)
  refine run_open_of_recovered holds drawn ?_
  exact run_recoverSegment_cut holds.lastValid found data valid next front header cut

/-- A batch cut inside its header makes the open fail and changes nothing. -/
theorem run_open_short (holds : HoldsLog spec d closed last tail) (drawn : SegmentID)
    (nonempty : tail ≠ []) (short : tail.length < 48) :
    Prog.run Dir.device (spec.reopen drawn) d =
      (.error (corrupt .errInvalidBatch "partial batch header"), d) := by
  obtain ⟨closedChain, lastValid⟩ := chain_concat.1 holds.chain
  obtain ⟨f, durable, found, data⟩ := lookup_of_read? holds.last_file
  have refused := run_recoverSegment_short true holds.lastValid found data nonempty short
  have order : ¬ last.header.baseOffset ≠ last.header.baseOffset := not_not.2 rfl
  rw [holds.run_open drawn, Prog.run_bind,
    run_recoverSegments_closed (List.cons_ne_nil _ _) closedChain holds.closed_files,
    ← lastValid.base_eq]
  simp only [PartitionSpec.recover, recoverSegments, failIf_of_not order, List.isEmpty_nil]
  rw [Prog.run_bind_ok (Prog.run_ofExcept ..), Prog.run_bind_error refused]

/-! ### Empty directories -/

/-- No segment file and no stray name. -/
structure HoldsNothing (d : Dir Name) : Prop where
  names : ∀ base, .log base ∉ d
  stray : ∀ text, .strayLog text ∉ d

/-- Nothing is found in an empty directory. -/
theorem HoldsNothing.discover (empty : HoldsNothing d) : discoverSegments d = .ok [] := by
  refine discoverSegments_eq_ok.2 ⟨fun base => ?_, by simp,
    fun text => read?_eq_none (empty.stray text), List.Pairwise.nil⟩
  simp [read?_eq_none (empty.names base)]

/-- The header of the first segment. -/
def PartitionSpec.firstHeader (spec : PartitionSpec) (drawn : SegmentID) : SegmentHeader :=
  drawnHeader drawn spec.topic spec.partition spec.options.initialOffset

theorem PartitionSpec.firstHeader_valid (spec : PartitionSpec) (drawn : SegmentID) :
    (spec.firstHeader drawn).Valid :=
  drawnHeader_valid spec.topic_ne_zero spec.partition_le spec.initialOffset_le

/-- The directory with its first segment. -/
def PartitionSpec.created (spec : PartitionSpec) (d : Dir Name) (drawn : SegmentID) : Dir Name :=
  (Prog.renamed d (.segmentTmp (segmentID drawn)) (.log spec.options.initialOffset)
    (spec.firstHeader drawn).bytes).synced

theorem PartitionSpec.lookup_created_other (spec : PartitionSpec) (drawn : SegmentID) {name : Name}
    (other : name ≠ .log spec.options.initialOffset) :
    (spec.created ∅ drawn).lookup name = none := by
  rw [PartitionSpec.created, Dir.lookup_synced, Option.map_eq_none_iff]
  by_cases tmp : name = .segmentTmp (segmentID drawn)
  · rw [tmp]
    exact Prog.lookup_renamed_tmp (by simp)
  · exact Prog.lookup_renamed_of_ne tmp other

/-- A fresh segment in memory is what recovery would find in its file. -/
theorem newSegment_shown (header : SegmentHeader) :
    newSegment header = (SegmentLog.shown ⟨header, []⟩).withIndexes [] [] true := by
  have whole : slice (SegmentLog.bytes ⟨header, []⟩) 0 segmentHeaderBytes.toNat = header.bytes := by
    exact slice_zero_append (by simp [segmentHeaderBytes])
  simp only [newSegment, SegmentLog.shown, Recovered.segment, Segment.withIndexes, whole]
  rfl

theorem load_newSegment_shows (d : Dir Name) (header : SegmentHeader) (storeID : StoreID)
    (stride : UInt64) :
    (loadOrBuildIndexes d (newSegment header) storeID stride).Shows ⟨header, []⟩ := by
  obtain ⟨offsetIndex, timeIndex, indexDirty, same, hints⟩ :=
    loadOrBuildIndexes_spec d (newSegment header) storeID stride
  rw [same]
  refine Segment.Shows.withIndexes ?_ timeIndex indexDirty hints
  exact ⟨[], [], true, newSegment_shown header, by simp [HintsOf]⟩

/-- The partition over a fresh first segment. -/
def PartitionSpec.fresh (spec : PartitionSpec) (d : Dir Name) (drawn : SegmentID) : Partition :=
  openedPartition spec.topic spec.partition spec.options spec.storeID spec.tail []
    (loadOrBuildIndexes (spec.created d drawn) (newSegment (spec.firstHeader drawn)) spec.storeID
      spec.options.indexStride) spec.options.initialOffset

/-- The first open makes an empty segment. -/
theorem run_open_empty (empty : HoldsNothing d) {drawn : SegmentID}
    (unused : .segmentTmp (segmentID drawn) ∉ d) :
    Prog.run Dir.device (spec.reopen drawn) d =
      (.ok (spec.fresh d drawn), spec.created d drawn) := by
  have created := run_createSegment (spec.firstHeader_valid drawn) unused
    (empty.names spec.options.initialOffset)
  simp only [PartitionSpec.reopen, openPartition, spec.tail_eq]
  rw [Prog.run_bind_ok (Prog.run_ofExcept ..), Prog.run_bind_ok (Prog.run_get ..),
    empty.discover, Prog.run_bind_ok (Prog.run_ofExcept ..), Prog.run_bind_ok created,
    Prog.run_bind_ok (Prog.run_get ..)]
  rfl

/-- A fresh partition shows one empty segment. -/
theorem fresh_shows (spec : PartitionSpec) (d : Dir Name) (drawn : SegmentID) :
    (spec.fresh d drawn).Shows [⟨spec.firstHeader drawn, []⟩] := by
  refine ⟨.cons (load_newSegment_shows ..) .nil, ?_, rfl⟩
  exact ⟨⟨spec.firstHeader_valid drawn, rfl, rfl, rfl, trivial⟩, fun h => absurd rfl h, trivial⟩

/-- A first open that is stopped was making its segment. -/
theorem crash_open_empty (empty : HoldsNothing d) {drawn : SegmentID} {d' : Dir Name}
    (stop : Prog.Crash Dir.device (spec.reopen drawn) d d') :
    d' = d ∨ Prog.Crash Dir.device (createSegment drawn spec.topic spec.partition
      spec.options.initialOffset) d d' := by
  simp only [PartitionSpec.reopen, openPartition, spec.tail_eq] at stop
  rcases Prog.crash_bind.1 stop with checking | ⟨t, mid, ran, later⟩
  · exact .inl (Prog.crash_done.1 checking)
  obtain ⟨same, rfl⟩ := Prod.mk.inj ran
  rcases Prog.crash_bind.1 later with looking | ⟨dir, mid, ran, later⟩
  · exact .inl (Prog.crash_get looking)
  obtain ⟨same, rfl⟩ := Prod.mk.inj ran
  obtain rfl := Except.ok.inj same
  rw [empty.discover] at later
  rcases Prog.crash_bind.1 later with discovering | ⟨found, mid, ran, later⟩
  · exact .inl (Prog.crash_done.1 discovering)
  obtain ⟨same, rfl⟩ := Prod.mk.inj ran
  obtain rfl := Except.ok.inj same
  refine .inr (later.first fun segment mid after looking => ?_)
  exact Prog.crash_get (looking.first fun _ _ _ ending => Prog.crash_done.1 ending)

end Opening

end Immulog
