import Immulog.FetchReference

/-!
The digest of a system log (`src/storage/snapshot.go`).

A system log keeps the running hash of its batches next to the partition, so that a
snapshot need not read the whole log again.  The running hash of SHA-256 is what has been
written to it so far; a clone of it is the same value.
-/

namespace Immulog

open Lib

/-! ## The running hash -/

/-- `hash.Cloner` of a SHA-256: the bytes written to it. -/
structure RunningHash where
  input : Bytes
  deriving DecidableEq, Repr

def RunningHash.write (running : RunningHash) (data : Bytes) : RunningHash :=
  ⟨running.input ++ data⟩

def RunningHash.sum (running : RunningHash) : Hash :=
  sha256 running.input

structure PrefixDigestState where
  hash : RunningHash
  storeID : StoreID
  covered : UInt64
  deriving DecidableEq, Repr

/-- What the digest of a log starts with. -/
def prefixPrelude (storeID : StoreID) (topic : TopicID) (partition : UInt32) : Bytes :=
  ascii ['I', 'E', 'L', '-', 'P', 'R', 'O', 'J', 'E', 'C', 'T', 'I', 'O', 'N', '-', 'P', 'R', 'E',
    'F', 'I', 'X', '-', 'V', '1', '\x00'] ++ putID storeID ++ putID topic ++ putUint32 partition

def newPrefixDigest (storeID : StoreID) (topic : TopicID) (partition : UInt32) : RunningHash :=
  ⟨prefixPrelude storeID topic partition⟩

/-- A copy of the running hash is sealed with the end offset. -/
def finishPrefixDigest (running : RunningHash) (next : UInt64) : Hash :=
  (running.write (putUint64 next)).sum

/-! ## The log with its running hash -/

structure DigestedPartition where
  log : Partition
  prefixDigest : Option PrefixDigestState

/-- `isSystemPartition` -/
def Partition.isSystem (p : Partition) : Bool :=
  p.topic = clusterMetadataTopicID ∨ p.topic = consumerOffsetsTopicID

namespace DigestedPartition

/-- The caller has already moved the end of the log. -/
def extendPrefixDigestLocked (s : DigestedPartition) (base : UInt64) (encoded : Bytes) :
    DigestedPartition :=
  match s.prefixDigest with
  | none => s
  | some cached =>
      if cached.covered ≠ base then { s with prefixDigest := none }
      else
        let extended := { cached with hash := cached.hash.write encoded, covered := s.log.logEnd }
        { s with prefixDigest := some extended }

/-- `appendEncodedLocked` extends the running hash behind a synced batch. -/
def appendEncodedLocked (s : DigestedPartition) (batch : RecordBatch) (encoded : Bytes)
    (drawn : SegmentID) : DirM (DigestedPartition × Except GoError UInt64) := do
  let (log, outcome) ← Immulog.appendEncodedLocked s.log batch encoded drawn
  match outcome with
  | .error e => return ({ s with log }, .error e)
  | .ok offset =>
      return ({ s with log }.extendPrefixDigestLocked batch.baseOffset encoded, .ok offset)

def appendBatch (s : DigestedPartition) (batch : RecordBatch) (drawn : SegmentID) (free : Bool) :
    DirM (DigestedPartition × Except GoError UInt64) :=
  match admitBatch s.log batch with
  | .error e => return (s, .error e)
  | .ok encoded => do
      let (s, outcome) ← s.appendEncodedLocked batch encoded drawn
      match outcome with
      | .error e => return (s, .error e)
      | .ok offset =>
          return ({ s with log := s.log.publishTail free batch.records s.log.logEnd }, .ok offset)

end DigestedPartition

/-! ## Digest requests -/

/-- The bytes of a batch, read from the segment's file; `fails` are the failures that
reads meet. -/
def readBatchBytes (fails : BatchInfo → Option GoError) (dir : Dir Name) (segment : Segment)
    (batch : BatchInfo) : Except GoError Bytes :=
  match fails batch with
  | some e => throw e
  | none =>
      match dir.read? segment.name with
      | none => throw (ioError "open segment")
      | some data => do
          let read := slice data batch.position (batch.position + batch.bytes.toNat)
          failIf (read.length ≠ batch.bytes.toNat) (.new "unexpected EOF")
          return read

/-- One batch of the loop over the log. -/
def digestBatch (fails : BatchInfo → Option GoError) (dir : Dir Name) (next : UInt64)
    (segment : Segment) (state : RunningHash × UInt64) (batch : BatchInfo) :
    Except GoError (RunningHash × UInt64) :=
  let (running, covered) := state
  let stop := batch.base + batch.records.toUInt64
  if next < stop then do
    failIf (batch.base < next) (.new "snapshot offset is not a batch boundary")
    return (running, covered)
  else if stop ≤ covered then return (running, covered)
  else do
    failIf (batch.base ≠ covered) (.new "snapshot prefix has a gap")
    let read ← readBatchBytes fails dir segment batch
    return (running.write read, stop)

/-- The loop of `projectionPrefixDigest` over the segments and their batches. -/
def digestSegments (fails : BatchInfo → Option GoError) (dir : Dir Name) (next : UInt64)
    (segments : List Segment) (state : RunningHash × UInt64) :
    Except GoError (RunningHash × UInt64) :=
  segments.foldlM
    (fun state segment => segment.batches.foldlM (digestBatch fails dir next segment) state) state

/-- The digest of the log up to `next`, from the running hash or by reading the log. -/
def projectionPrefixDigest (fails : BatchInfo → Option GoError) (dir : Dir Name)
    (s : DigestedPartition) (storeID : StoreID) (next : UInt64) :
    DigestedPartition × Except GoError Hash :=
  if s.log.logEnd < next then (s, throw (.new "snapshot offset is beyond log end"))
  else
    match s.prefixDigest.filter fun cached =>
        cached.storeID = storeID ∧ cached.covered = next with
    | some cached => (s, .ok (finishPrefixDigest cached.hash next))
    | none =>
        match digestSegments fails dir next s.log.segments
            (newPrefixDigest storeID s.log.topic s.log.partition, s.log.logStart) with
        | .error e => (s, .error e)
        | .ok (running, covered) =>
            if covered ≠ next then (s, throw (.new "snapshot prefix is incomplete"))
            else if s.log.isSystem ∧ covered = s.log.logEnd then
              ({ s with prefixDigest := some ⟨running, storeID, covered⟩ },
                .ok (finishPrefixDigest running next))
            else (s, .ok (finishPrefixDigest running next))

/-! ## Reading the log again -/

section Reading

variable {topic : TopicID} {partition : UInt32} {d : Dir Name} {next : UInt64}

/-- Without failures. -/
def noFailure : BatchInfo → Option GoError :=
  fun _ => none

/-- The loop passes over a batch that continues what it has covered. -/
theorem digestBatch_stored {segment : Segment} {data before rest : Bytes} {info : BatchInfo}
    {b : StoredBatch topic partition} {base : Nat} (running : RunningHash) {covered : UInt64}
    (read : d.read? segment.name = some data) (file : data = before ++ (b.encoded ++ rest))
    (describes : info.Describes b base before.length) (here : covered.toNat = base)
    (inside : base + b.batch.records.length ≤ next.toNat) :
    ∃ covered', covered'.toNat = base + b.batch.records.length ∧
      digestBatch noFailure d next segment (running, covered) info =
        .ok (running.write b.encoded, covered') := by
  have filled := b.decoded.valid.nonempty
  have bound := next.toNat_lt
  have stop : (info.base + info.records.toUInt64).toNat = base + b.batch.records.length := by
    rw [UInt64.toNat_add, UInt32.toNat_toUInt64, describes.base, describes.records]
    exact Nat.mod_eq_of_lt (by omega)
  have reached : ¬ next < info.base + info.records.toUInt64 := by
    rw [UInt64.lt_iff_toNat_lt, stop]
    omega
  have beyond : ¬ info.base + info.records.toUInt64 ≤ covered := by
    rw [UInt64.le_iff_toNat_le, stop]
    omega
  have meets : ¬ info.base ≠ covered :=
    not_not.2 (UInt64.toNat_inj.1 (describes.base.trans here.symm))
  have bytes : slice data info.position (info.position + info.bytes.toNat) = b.encoded := by
    rw [describes.position, describes.bytes, file, slice, List.drop_left, Nat.add_sub_cancel_left,
      List.take_left]
  have whole : ¬ b.encoded.length ≠ info.bytes.toNat := not_not.2 describes.bytes.symm
  refine ⟨_, stop, ?_⟩
  simp only [digestBatch, if_neg reached, if_neg beyond, failIf_of_not meets, ok_bind,
    readBatchBytes, noFailure, read, bytes, failIf_of_not whole, pure_eq_ok]

/-- The loop over the batches of a segment. -/
theorem digestBatches_tiles {segment : Segment} {data before rest : Bytes} {infos : List BatchInfo}
    {stored : List (StoredBatch topic partition)} {stop size base : Nat} (running : RunningHash)
    {covered : UInt64} (read : d.read? segment.name = some data)
    (file : data = before ++ (storedBytes stored ++ rest))
    (tiles : Tiles stop size base before.length infos stored) (here : covered.toNat = base)
    (inside : stop ≤ next.toNat) :
    ∃ covered', covered'.toNat = stop ∧
      infos.foldlM (digestBatch noFailure d next segment) (running, covered) =
        .ok (running.write (storedBytes stored), covered') := by
  induction infos generalizing before stored base running covered with
  | nil =>
      cases stored with
      | nil => exact ⟨covered, here.trans tiles.1, by simp [RunningHash.write]⟩
      | cons _ _ => exact tiles.elim
  | cons info infos ih =>
      cases stored with
      | nil => exact tiles.elim
      | cons b stored =>
          obtain ⟨describes, later⟩ := tiles
          have behind := later.sums.1
          rw [storedBytes_cons, List.append_assoc] at file
          have within : base + b.batch.records.length ≤ next.toNat := by omega
          obtain ⟨mid, reached, first⟩ := digestBatch_stored running read file describes here within
          rw [← List.append_assoc] at file
          rw [← List.length_append] at later
          obtain ⟨covered', done, loop⟩ := ih (running.write b.encoded) file later reached
          refine ⟨covered', done, ?_⟩
          rw [List.foldlM_cons, first, ok_bind, loop]
          simp [RunningHash.write]

/-- The loop over linked segments. -/
theorem digestSegments_linked {segments : List Segment} {contents : StoredSegments topic partition}
    (files : List.Forall₂ (Segment.InDir d) segments contents)
    (linked : segments.IsChain Segment.Precedes) (running : RunningHash) {covered : UInt64}
    (here : ∀ s ∈ segments.head?, s.header.baseOffset = covered)
    (inside : covered.toNat + (storedRecords contents.flatten).length ≤ next.toNat) :
    ∃ covered', covered'.toNat = covered.toNat + (storedRecords contents.flatten).length ∧
      digestSegments noFailure d next segments (running, covered) =
        .ok (running.write (storedBytes contents.flatten), covered') := by
  induction files generalizing running covered with
  | nil => exact ⟨covered, by simp, by simp [digestSegments, RunningHash.write]⟩
  | @cons s stored segments contents held files ih =>
      obtain ⟨data, read, represents⟩ := held
      obtain rfl := here s rfl
      rw [List.flatten_cons, storedRecords_append, List.length_append] at inside ⊢
      have stop : s.endOffset.toNat = s.header.baseOffset.toNat + (storedRecords stored).length :=
        represents.tiles.sums.1
      have file : data = s.header.bytes ++ (storedBytes stored ++ data.drop s.size) := by
        rw [← List.append_assoc]
        exact represents.split_bytes
      have tiles := represents.tiles
      rw [show segmentHeaderBytes.toNat = s.header.bytes.length by
        rw [SegmentHeader.length_bytes]; rfl] at tiles
      have within : s.endOffset.toNat ≤ next.toNat := by omega
      obtain ⟨mid, reached, first⟩ := digestBatches_tiles running read file tiles rfl within
      obtain rfl := UInt64.toNat_inj.1 reached
      have behind : segments.IsChain Segment.Precedes ∧
          ∀ t ∈ segments.head?, t.header.baseOffset = s.endOffset := by
        cases segments with
        | nil => exact ⟨List.isChain_nil, by simp⟩
        | cons t segments =>
            rw [List.isChain_cons_cons] at linked
            refine ⟨linked.2, fun u isFirst => ?_⟩
            obtain rfl := Option.some.inj isFirst
            exact linked.1.2
      obtain ⟨covered', done, loop⟩ := ih behind.1 (running.write (storedBytes stored)) behind.2
        (by omega)
      refine ⟨covered', by omega, ?_⟩
      rw [digestSegments, List.foldlM_cons, first, ok_bind]
      refine loop.trans ?_
      simp [RunningHash.write]

theorem digestBatch_of_fails {fails : BatchInfo → Option GoError} {segment : Segment}
    {state state' : RunningHash × UInt64} {batch : BatchInfo}
    (ok : digestBatch fails d next segment state batch = .ok state') :
    digestBatch noFailure d next segment state batch = .ok state' := by
  have bytes : ∀ read, readBatchBytes fails d segment batch = .ok read →
      readBatchBytes noFailure d segment batch = .ok read := by
    intro read found
    unfold readBatchBytes at found ⊢
    cases met : fails batch with
    | some e =>
        rw [met] at found
        cases found
    | none =>
        rw [met] at found
        exact found
  unfold digestBatch at ok ⊢
  dsimp only at ok ⊢
  split at ok
  · rwa [if_pos ‹_›]
  · rw [if_neg ‹_›]
    split at ok
    · rwa [if_pos ‹_›]
    · simp only [if_neg ‹_›, bind_eq_ok] at ok ⊢
      obtain ⟨_, meets, read, found, done⟩ := ok
      exact ⟨_, meets, read, bytes read found, done⟩

/-- Reads that fail change only whether there is a result. -/
theorem digestSegments_of_fails {fails : BatchInfo → Option GoError} {segments : List Segment}
    {state state' : RunningHash × UInt64}
    (ok : digestSegments fails d next segments state = .ok state') :
    digestSegments noFailure d next segments state = .ok state' :=
  foldlM_ok_mono (fun _ _ _ => foldlM_ok_mono fun _ _ _ => digestBatch_of_fails) ok

/-- Reading the whole log again. -/
theorem Partition.Represents.digestSegments_eq {p : Partition}
    {closed : StoredSegments topic partition} {last : List (StoredBatch topic partition)}
    (represents : p.Represents d closed last) (running : RunningHash) :
    digestSegments noFailure d p.logEnd p.segments (running, p.logStart) =
      .ok (running.write (storedBytes (closed.flatten ++ last)), p.logEnd) := by
  have records : storedRecords (closed ++ [last]).flatten = logRecords closed last := by
    rw [List.flatten_concat, storedRecords_log]
  have total := represents.consecutive.2
  rw [← records] at total
  have start : ∀ s ∈ p.segments.head?, s.header.baseOffset = p.logStart := by
    intro s isFirst
    rw [Partition.logStart, Option.mem_def.1 isFirst, Option.getD_some]
  obtain ⟨covered, done, loop⟩ := digestSegments_linked represents.files represents.linked running
    start total.ge
  obtain rfl := UInt64.toNat_inj.1 (done.trans total.symm)
  rw [loop, List.flatten_concat]

end Reading

/-- What a digest request can do. -/
inductive Digests (fails : BatchInfo → Option GoError) (d : Dir Name) (s : DigestedPartition)
    (storeID : StoreID) (next : UInt64) : DigestedPartition → Except GoError Hash → Prop
  | cached {cached : PrefixDigestState} : cached ∈ s.prefixDigest → cached.storeID = storeID →
      cached.covered = next →
        Digests fails d s storeID next s (.ok (finishPrefixDigest cached.hash next))
  | failed {e : GoError} : Digests fails d s storeID next s (.error e)
  | read {running : RunningHash} {s' : DigestedPartition} :
      digestSegments fails d next s.log.segments
        (newPrefixDigest storeID s.log.topic s.log.partition, s.log.logStart) =
          .ok (running, next) →
      s' = s ∨ next = s.log.logEnd ∧ s' = { s with prefixDigest := some ⟨running, storeID, next⟩ } →
      Digests fails d s storeID next s' (.ok (finishPrefixDigest running next))

theorem projectionPrefixDigest_digests (fails : BatchInfo → Option GoError) (d : Dir Name)
    (s : DigestedPartition) (storeID : StoreID) (next : UInt64) :
    Digests fails d s storeID next (projectionPrefixDigest fails d s storeID next).1
      (projectionPrefixDigest fails d s storeID next).2 := by
  unfold projectionPrefixDigest
  by_cases beyond : s.log.logEnd < next
  · rw [if_pos beyond]
    exact .failed
  rw [if_neg beyond]
  cases found : s.prefixDigest.filter fun cached =>
      cached.storeID = storeID ∧ cached.covered = next with
  | some cached =>
      obtain ⟨mem, same⟩ := Option.filter_eq_some_iff.1 found
      obtain ⟨store, covered⟩ := of_decide_eq_true same
      exact .cached mem store covered
  | none =>
      cases loop : digestSegments fails d next s.log.segments
          (newPrefixDigest storeID s.log.topic s.log.partition, s.log.logStart) with
      | error e => exact .failed
      | ok reached =>
          obtain ⟨running, covered⟩ := reached
          by_cases complete : covered = next
          · subst complete
            by_cases kept : s.log.isSystem ∧ covered = s.log.logEnd
            · simp only [ne_eq, not_true_eq_false, if_false, if_pos kept]
              exact .read loop (.inr ⟨kept.2, rfl⟩)
            · simp only [ne_eq, not_true_eq_false, if_false, if_neg kept]
              exact .read loop (.inl rfl)
          · simp only [ne_eq, complete, not_false_eq_true, if_true]
            exact .failed

/-! ## The running hash is the hash of the log -/

/-- The hash of the prelude, of the encoded batches and of the end offset. -/
def logDigest (storeID : StoreID) (topic : TopicID) (partition : UInt32) (batches : Bytes)
    (next : UInt64) : Hash :=
  sha256 (prefixPrelude storeID topic partition ++ batches ++ putUint64 next)

namespace DigestedPartition

variable {topic : TopicID} {partition : UInt32} {s s' : DigestedPartition} {d d' : Dir Name}
  {closed : StoredSegments topic partition} {last : List (StoredBatch topic partition)}

/-- The partition represents its files, and the running hash is that of its batches. -/
structure Exact (s : DigestedPartition) (d : Dir Name) (closed : StoredSegments topic partition)
    (last : List (StoredBatch topic partition)) : Prop where
  represents : s.log.Represents d closed last
  cached : ∀ cached ∈ s.prefixDigest, cached.covered = s.log.logEnd ∧
    cached.hash = (newPrefixDigest cached.storeID topic partition).write
      (storedBytes (closed.flatten ++ last))

namespace Exact

/-- A running hash over the whole log is sealed into its digest. -/
theorem finish_eq (storeID : StoreID) (batches : Bytes) (next : UInt64) :
    finishPrefixDigest ((newPrefixDigest storeID topic partition).write batches) next =
      logDigest storeID topic partition batches next := by
  simp only [finishPrefixDigest, RunningHash.sum, RunningHash.write, newPrefixDigest, logDigest]

theorem digestSegments_eq (exact : s.Exact d closed last) (storeID : StoreID) :
    digestSegments noFailure d s.log.logEnd s.log.segments
        (newPrefixDigest storeID s.log.topic s.log.partition, s.log.logStart) =
      .ok ((newPrefixDigest storeID topic partition).write (storedBytes (closed.flatten ++ last)),
        s.log.logEnd) := by
  rw [exact.represents.topic_eq, exact.represents.partition_eq]
  exact exact.represents.digestSegments_eq _

/-- A request at the end of the log has one result, whatever it is taken from. -/
theorem digest_unique (exact : s.Exact d closed last) {fails : BatchInfo → Option GoError}
    {storeID : StoreID} {result : Except GoError Hash}
    (digests : Digests fails d s storeID s.log.logEnd s' result) {digest : Hash}
    (ok : result = .ok digest) :
    digest = logDigest storeID topic partition (storedBytes (closed.flatten ++ last))
      s.log.logEnd := by
  cases digests with
  | cached mem store _ =>
      rw [← Except.ok.inj ok, (exact.cached _ mem).2, store, finish_eq]
  | failed => cases ok
  | read loop _ =>
      obtain ⟨rfl, -⟩ := Prod.mk.inj (Except.ok.inj
        ((digestSegments_of_fails loop).symm.trans (exact.digestSegments_eq storeID)))
      rw [← Except.ok.inj ok, finish_eq]

/-- Without failures a request at the end of the log succeeds. -/
theorem digest_total (exact : s.Exact d closed last) (storeID : StoreID) :
    ∃ digest, (projectionPrefixDigest noFailure d s storeID s.log.logEnd).2 = .ok digest := by
  have reached : ¬ s.log.logEnd < s.log.logEnd := UInt64.lt_irrefl _
  unfold projectionPrefixDigest
  rw [if_neg reached]
  split
  · exact ⟨_, rfl⟩
  · rw [exact.digestSegments_eq storeID]
    dsimp only
    rw [if_neg (not_not.2 rfl)]
    split
    · exact ⟨_, rfl⟩
    · exact ⟨_, rfl⟩

/-- A request at the end of a system log leaves a running hash. -/
theorem caches (exact : s.Exact d closed last) (system : s.log.isSystem = true)
    (storeID : StoreID) :
    (projectionPrefixDigest noFailure d s storeID s.log.logEnd).1.prefixDigest.isSome = true := by
  unfold projectionPrefixDigest
  rw [if_neg (UInt64.lt_irrefl _)]
  split
  · rename_i cached found
    exact Option.isSome_of_eq_some (Option.filter_eq_some_iff.1 found).1
  · rw [exact.digestSegments_eq storeID]
    dsimp only
    rw [if_neg (not_not.2 rfl), if_pos ⟨system, rfl⟩]
    rfl

/-- A request leaves the running hash that of the log. -/
theorem requested (exact : s.Exact d closed last) {fails : BatchInfo → Option GoError}
    {storeID : StoreID} {next : UInt64} {result : Except GoError Hash}
    (digests : Digests fails d s storeID next s' result) : s'.Exact d closed last := by
  cases digests with
  | cached => exact exact
  | failed => exact exact
  | read loop kept =>
      rcases kept with rfl | ⟨rfl, rfl⟩
      · exact exact
      · obtain ⟨rfl, -⟩ := Prod.mk.inj (Except.ok.inj
          ((digestSegments_of_fails loop).symm.trans (exact.digestSegments_eq storeID)))
        refine ⟨exact.represents, fun cached mem => ?_⟩
        obtain rfl := Option.some.inj mem
        exact ⟨rfl, rfl⟩

end Exact

/-! ## Appends -/

/-- The log and its running hash behind an append. -/
def told (s : DigestedPartition) (log : Partition) (free : Bool) (b : RecordBatch) :
    Except GoError UInt64 → DigestedPartition
  | .error _ => { s with log }
  | .ok _ =>
      let extended := { s with log }.extendPrefixDigestLocked b.baseOffset b.bytes
      { extended with log := extended.log.publishTail free b.records extended.log.logEnd }

theorem runs_appendBatch {b : RecordBatch} {drawn : SegmentID} {free : Bool}
    {outcome : Except GoError UInt64}
    (ran : Prog.Runs Dir.device (s.appendBatch b drawn free) d (.ok (s', outcome)) d') :
    s' = s ∧ d' = d ∨
      (b.Valid ∧ ∃ log, Appends s.log d b b.bytes drawn log d' outcome ∧
        s' = s.told log free b outcome) := by
  unfold appendBatch at ran
  cases admitted : admitBatch s.log b with
  | error e =>
      rw [admitted] at ran
      obtain ⟨same, rfl⟩ := Prog.runs_done.1 ran
      exact .inl ⟨(Prod.mk.inj (Except.ok.inj same)).1, rfl⟩
  | ok encoded =>
      rw [admitted] at ran
      obtain ⟨valid, rfl⟩ := admitBatch_valid admitted
      obtain ⟨⟨extended, outcome'⟩, mid, appending, publishing⟩ := Prog.runs_bind_ok.1 ran
      obtain ⟨⟨log, told⟩, _, writing, extending⟩ := Prog.runs_bind_ok.1 appending
      obtain ⟨log', outcome'', same, appends⟩ := runs_appendEncodedLocked writing
      obtain ⟨rfl, rfl⟩ := Prod.mk.inj (Except.ok.inj same)
      refine .inr ⟨valid, log, ?_⟩
      cases told with
      | error e =>
          obtain ⟨same, rfl⟩ := Prog.runs_done.1 extending
          obtain ⟨rfl, rfl⟩ := Prod.mk.inj (Except.ok.inj same)
          obtain ⟨same, rfl⟩ := Prog.runs_done.1 publishing
          obtain ⟨rfl, rfl⟩ := Prod.mk.inj (Except.ok.inj same)
          exact ⟨appends, rfl⟩
      | ok offset =>
          obtain ⟨same, rfl⟩ := Prog.runs_done.1 extending
          obtain ⟨rfl, rfl⟩ := Prod.mk.inj (Except.ok.inj same)
          obtain ⟨same, rfl⟩ := Prog.runs_done.1 publishing
          obtain ⟨rfl, rfl⟩ := Prod.mk.inj (Except.ok.inj same)
          exact ⟨appends, rfl⟩

/-- The log behaves as without the running hash. -/
theorem runs_appendBatch_log {b : RecordBatch} {drawn : SegmentID} {free : Bool} {p : Partition}
    {outcome : Except GoError UInt64}
    (ran : Prog.Runs Dir.device (Immulog.appendBatch s.log b drawn free) d (.ok (p, outcome)) d') :
    ∃ s', Prog.Runs Dir.device (s.appendBatch b drawn free) d (.ok (s', outcome)) d' ∧
      s'.log = p := by
  unfold Immulog.appendBatch at ran
  unfold appendBatch
  cases admitted : admitBatch s.log b with
  | error e =>
      rw [admitted] at ran
      obtain ⟨same, rfl⟩ := Prog.runs_done.1 ran
      obtain ⟨rfl, rfl⟩ := Prod.mk.inj (Except.ok.inj same)
      exact ⟨s, Prog.runs_done.2 ⟨rfl, rfl⟩, rfl⟩
  | ok encoded =>
      rw [admitted] at ran
      obtain ⟨⟨log, outcome'⟩, mid, writing, publishing⟩ := Prog.runs_bind_ok.1 ran
      cases outcome' with
      | error e =>
          obtain ⟨same, rfl⟩ := Prog.runs_done.1 publishing
          obtain ⟨rfl, rfl⟩ := Prod.mk.inj (Except.ok.inj same)
          exact ⟨_, Prog.runs_bind_ok.2 ⟨_, _, Prog.runs_bind_ok.2 ⟨_, _, writing,
            Prog.runs_done.2 ⟨rfl, rfl⟩⟩, Prog.runs_done.2 ⟨rfl, rfl⟩⟩, rfl⟩
      | ok offset =>
          obtain ⟨same, rfl⟩ := Prog.runs_done.1 publishing
          obtain ⟨rfl, rfl⟩ := Prod.mk.inj (Except.ok.inj same)
          have kept : ({ s with log }.extendPrefixDigestLocked b.baseOffset encoded).log = log := by
            unfold extendPrefixDigestLocked
            split
            · rfl
            · split <;> rfl
          refine ⟨_, Prog.runs_bind_ok.2 ⟨_, _, Prog.runs_bind_ok.2 ⟨_, _, writing,
            Prog.runs_done.2 ⟨rfl, rfl⟩⟩, Prog.runs_done.2 ⟨rfl, rfl⟩⟩, ?_⟩
          dsimp only
          rw [kept]

/-- An append that is acknowledged extends the running hash by its batch, any other one
leaves it as it is; none of them drops it. -/
theorem Exact.appended (exact : s.Exact d closed last) {b : RecordBatch} {drawn : SegmentID}
    {free : Bool} {outcome : Except GoError UInt64}
    (ran : Prog.Runs Dir.device (s.appendBatch b drawn free) d (.ok (s', outcome)) d') :
    ∃ (closed' : StoredSegments topic partition) (last' : List (StoredBatch topic partition)),
      s'.Exact d' closed' last' ∧ s'.prefixDigest.isSome = s.prefixDigest.isSome := by
  rcases runs_appendBatch ran with ⟨rfl, rfl⟩ | ⟨valid, log, appends, rfl⟩
  · exact ⟨closed, last, exact, rfl⟩
  obtain ⟨-, closed', last', new, kept, batches, result⟩ :=
    appends.stored valid exact.represents
  refine ⟨closed', last', ?_⟩
  cases outcome with
  | error e =>
      obtain ⟨stop, rfl⟩ := result
      refine ⟨⟨kept, fun cached mem => ?_⟩, rfl⟩
      rw [batches, List.append_nil]
      obtain ⟨covered, hash⟩ := exact.cached cached mem
      exact ⟨covered.trans stop.symm, hash⟩
  | ok offset =>
      obtain ⟨base, bytes, -⟩ := result
      cases found : s.prefixDigest with
      | none =>
          simp only [told, extendPrefixDigestLocked, found]
          exact ⟨⟨kept.publishTail free _ _, by simp⟩, trivial⟩
      | some cached =>
          obtain ⟨covered, hash⟩ := exact.cached cached found
          have continues : ¬ cached.covered ≠ b.baseOffset := not_not.2 (covered.trans base.symm)
          simp only [told, extendPrefixDigestLocked, found, if_neg continues]
          refine ⟨⟨kept.publishTail free _ _, fun extended mem => ?_⟩, rfl⟩
          obtain rfl := Option.some.inj mem
          refine ⟨rfl, ?_⟩
          rw [hash, batches]
          simp [RunningHash.write, bytes]

end DigestedPartition

/-! ## Runs -/

/-- Appends, digest requests and restarts of a log in its directory; a restart may find
any directory, and what it opens has no running hash. -/
inductive DigestRun (topic : TopicID) (partition : UInt32) : DigestedPartition → Dir Name → Prop
  | opened {drawn : SegmentID} {options : PartitionOptions} {storeID : StoreID}
      {found d : Dir Name} {p : Partition} :
      Prog.Runs Dir.device (openPartition drawn topic partition options storeID) found (.ok p) d →
      DigestRun topic partition ⟨p, none⟩ d
  | append {s s' : DigestedPartition} {d d' : Dir Name} {b : RecordBatch} {drawn : SegmentID}
      {free : Bool} {outcome : Except GoError UInt64} : DigestRun topic partition s d →
      Prog.Runs Dir.device (s.appendBatch b drawn free) d (.ok (s', outcome)) d' →
      DigestRun topic partition s' d'
  | digest {s : DigestedPartition} {d : Dir Name} {fails : BatchInfo → Option GoError}
      {storeID : StoreID} {next : UInt64} : DigestRun topic partition s d →
      DigestRun topic partition (projectionPrefixDigest fails d s storeID next).1 d

theorem DigestRun.exact {topic : TopicID} {partition : UInt32} {s : DigestedPartition}
    {d : Dir Name} (run : DigestRun topic partition s d) :
    ∃ (closed : StoredSegments topic partition) (last : List (StoredBatch topic partition)),
      s.Exact d closed last := by
  induction run with
  | opened ran =>
      obtain ⟨-, closed, last, represents⟩ := runs_openPartition ran
      exact ⟨closed, last, represents, by simp⟩
  | append _ ran ih =>
      obtain ⟨closed, last, exact⟩ := ih
      obtain ⟨closed', last', exact', -⟩ := exact.appended ran
      exact ⟨closed', last', exact'⟩
  | digest _ ih =>
      obtain ⟨closed, last, exact⟩ := ih
      exact ⟨closed, last, exact.requested (projectionPrefixDigest_digests _ _ _ _ _)⟩

/-- At the end of the log the digest is the hash of the prelude, of all batches and of the
end offset, from the running hash as well as from the files.  A running hash covers the log to
its end; a request at the end of a system log leaves one, and appends neither drop it nor leave
it behind. -/
theorem prefix_digest_exact {topic : TopicID} {partition : UInt32} {s : DigestedPartition}
    {d : Dir Name} (run : DigestRun topic partition s d) :
    ∃ (closed : StoredSegments topic partition) (last : List (StoredBatch topic partition)),
      s.log.Represents d closed last ∧ (∀ storeID,
        (projectionPrefixDigest noFailure d s storeID s.log.logEnd).2 =
            .ok (logDigest storeID topic partition (storedBytes (closed.flatten ++ last))
              s.log.logEnd) ∧
          (projectionPrefixDigest noFailure d { s with prefixDigest := none } storeID
              s.log.logEnd).2 =
            .ok (logDigest storeID topic partition (storedBytes (closed.flatten ++ last))
              s.log.logEnd) ∧
          ∀ fails digest, (projectionPrefixDigest fails d s storeID s.log.logEnd).2 = .ok digest →
            digest = logDigest storeID topic partition (storedBytes (closed.flatten ++ last))
              s.log.logEnd) ∧
      (∀ cached ∈ s.prefixDigest, cached.covered = s.log.logEnd) ∧
      (s.log.isSystem = true → ∀ storeID,
        (projectionPrefixDigest noFailure d s storeID s.log.logEnd).1.prefixDigest.isSome = true) ∧
      ∀ b drawn free outcome s' d',
        Prog.Runs Dir.device (s.appendBatch b drawn free) d (.ok (s', outcome)) d' →
        s'.prefixDigest.isSome = s.prefixDigest.isSome ∧
          ∀ cached ∈ s'.prefixDigest, cached.covered = s'.log.logEnd := by
  obtain ⟨closed, last, exact⟩ := run.exact
  have fresh : DigestedPartition.Exact { s with prefixDigest := none } d closed last :=
    ⟨exact.represents, by simp⟩
  refine ⟨closed, last, exact.represents, fun storeID => ⟨?_, ?_, ?_⟩, ?_, ?_, ?_⟩
  · obtain ⟨digest, ok⟩ := exact.digest_total storeID
    rw [ok, exact.digest_unique (projectionPrefixDigest_digests _ _ _ _ _) ok]
  · obtain ⟨digest, ok⟩ := fresh.digest_total storeID
    refine ok.trans ?_
    rw [fresh.digest_unique (projectionPrefixDigest_digests _ _ _ _ _) ok]
  · intro fails digest ok
    exact exact.digest_unique (projectionPrefixDigest_digests _ _ _ _ _) ok
  · intro cached mem
    exact (exact.cached cached mem).1
  · intro system storeID
    exact exact.caches system storeID
  · intro b drawn free outcome s' d' ran
    obtain ⟨closed', last', extended, kept⟩ := exact.appended ran
    exact ⟨kept, fun cached mem => (extended.cached cached mem).1⟩

namespace SmallLog

set_option maxRecDepth 10000 in
/-- The offsets log is asked for its digest and appended to twice, the second time behind a roll;
the running hash covers both records. -/
theorem appended_digest : ∃ (s : DigestedPartition) (d : Dir Name),
    DigestRun consumerOffsetsTopicID 0 s d ∧ s.log.segments.length = 2 ∧
      (∃ cached ∈ s.prefixDigest, cached.covered = 2) ∧
      ∃ (closed : StoredSegments consumerOffsetsTopicID 0)
        (last : List (StoredBatch consumerOffsetsTopicID 0)),
        s.log.Represents d closed last ∧
          (projectionPrefixDigest noFailure d s 1 2).2 =
            .ok (logDigest 1 consumerOffsetsTopicID 0
              (storedBytes (closed.flatten ++ last)) 2) := by
  have found : ∃ x ∈ Prog.run? Dir.device (narrow 1) ∅,
      ∃ y ∈ Prog.run? Dir.device
        ((projectionPrefixDigest noFailure x.2 ⟨x.1, none⟩ 1 0).1.appendBatch
        (batchAt 0) 2 true) x.2,
      y.1.1.prefixDigest.isSome ∧
      ∃ z ∈ Prog.run? Dir.device (y.1.1.appendBatch (batchAt 1) 3 true) y.2,
        z.1.1.log.segments.length = 2 ∧ z.1.1.log.logEnd = 2 := by
    decide +kernel
  obtain ⟨⟨p, d⟩, opens, ⟨⟨s, first⟩, d₁⟩, appends, hashed, ⟨⟨s', second⟩, d₂⟩, rolls, two, stop⟩ :=
    found
  have opened : DigestRun consumerOffsetsTopicID 0 ⟨p, none⟩ d :=
    .opened (.of_run (Prog.run?_eq_some.1 opens))
  have appended : DigestRun consumerOffsetsTopicID 0 s d₁ :=
    opened.digest.append (.of_run (Prog.run?_eq_some.1 appends))
  have rolled := Prog.Runs.of_run (Prog.run?_eq_some.1 rolls)
  obtain ⟨-, -, -, -, -, -, extends'⟩ := prefix_digest_exact appended
  obtain ⟨kept, covers⟩ := extends' _ _ _ _ _ _ rolled
  obtain ⟨cached, found⟩ := Option.isSome_iff_exists.1 (kept.trans hashed)
  obtain ⟨closed, last, represents, digests, -⟩ := prefix_digest_exact (appended.append rolled)
  rw [stop] at covers digests
  exact ⟨s', d₂, appended.append rolled, two, ⟨cached, found, covers cached found⟩, closed, last,
    represents, (digests 1).1⟩

end SmallLog

end Immulog
