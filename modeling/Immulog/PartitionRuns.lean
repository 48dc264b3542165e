import Immulog.Calls
import Immulog.FetchReference

/-!
The partition's representation invariant over whole runs.

A `CachedLog` takes one step for each critical section on an open partition.  The public
calls are runs of such steps: an append is one with its publication behind it, a retention
pass plans, adopts its proposal once the catalog has the event, and removes files.  So what
every step keeps holds for the calls in any order, and also where their sections interleave.
-/

namespace Immulog

open Lib Proc

namespace CachedLog

/-- Critical sections one after the other. -/
abbrev Run : CachedLog → CachedLog → Prop :=
  Relation.ReflTransGen Step

/-- The partition under a key of a store, with its directory. -/
structure At (s : CachedLog) (key : TopicKey) (w : World) : Prop where
  partition : w.1.partitions[key]? = some s.partition
  dir : w.2 (userPath key) = some s.dir

variable {topic : TopicID} {partition : UInt32} {s s' : CachedLog}

theorem Reachable.run (reachable : Reachable topic partition s) (run : Run s s') :
    Reachable topic partition s' := by
  induction run with
  | refl => exact reachable
  | tail _ step ih => exact ih.step step

/-! ## The end of the log -/

theorem Step.logEnd_le (step : Step s s') (inv : Inv topic partition s) :
    s.partition.logEnd ≤ s'.partition.logEnd := by
  obtain ⟨start, gone, closed, last, holds⟩ := inv
  cases step with
  | append encodes ran =>
      obtain ⟨valid, rfl⟩ := RecordBatch.encode_eq_ok.1 encodes
      obtain ⟨_, _, same, appends⟩ := runs_appendEncodedLocked ran
      obtain ⟨rfl, rfl⟩ := Prod.mk.inj (Except.ok.inj same)
      exact (appends.stored valid holds.represents).1
  | plan ran =>
      obtain ⟨_, _, same, keeps, -⟩ := runs_planRetentionLocked ran
      obtain ⟨rfl, rfl⟩ := Prod.mk.inj (Except.ok.inj same)
      exact UInt64.le_of_eq keeps.logEnd.symm
  | retain ran =>
      obtain ⟨_, _, same, keeps, -⟩ := runs_planRetentionLocked ran
      obtain ⟨rfl, rfl⟩ := Prod.mk.inj (Except.ok.inj same)
      exact UInt64.le_of_eq keeps.logEnd.symm
  | publish | clean | fence | closing | closeTail | closed => exact UInt64.le_refl _

theorem Reachable.logEnd_le (reachable : Reachable topic partition s) (run : Run s s') :
    s.partition.logEnd ≤ s'.partition.logEnd := by
  induction run with
  | refl => exact UInt64.le_refl _
  | tail run step ih => exact UInt64.le_trans ih (step.logEnd_le (reachable.run run).inv)

/-! ## Appends -/

/-- An append and the publication of what it has acknowledged. -/
theorem run_appendAndPublish {b : RecordBatch} {encoded : Bytes} {drawn : SegmentID} {free : Bool}
    {result : Except GoError (Partition × Except GoError UInt64)} {d : Dir Name}
    (encodes : encodeBatch b = .ok encoded)
    (ran : Prog.Runs Dir.device (appendAndPublish s.partition b encoded drawn free) s.dir result
      d) :
    ∃ p outcome, result = .ok (p, outcome) ∧ Run s { s with partition := p, dir := d } := by
  rcases Prog.runs_bind.1 ran with ⟨⟨q, outcome⟩, mid, appending, later⟩ | ⟨e, -, failed⟩
  · have wrote := Step.append encodes appending
    cases outcome with
    | error e =>
        obtain ⟨rfl, rfl⟩ := Prog.runs_done.1 later
        exact ⟨_, _, rfl, .single wrote⟩
    | ok offset =>
        obtain ⟨rfl, rfl⟩ := Prog.runs_done.1 later
        exact ⟨_, _, rfl, .tail (.single wrote) (.publish free (.refl _))⟩
  · obtain ⟨_, _, wrong, -⟩ := runs_appendEncodedLocked failed
    cases wrong

/-- `AppendBatch` and `writeRequests` are runs. -/
theorem run_of_append {call : AppendCall} {outcome : Except GoError (List Record)} {p : Partition}
    {d : Dir Name} (steps : call.Steps (s.partition, s.dir) outcome (p, d)) :
    Run s { s with partition := p, dir := d } := by
  obtain ⟨drawn, free, ran⟩ := steps
  cases call with
  | batch given =>
      obtain ⟨⟨q, result⟩, mid, appending, ending⟩ := Prog.runs_bind_ok.1 ran
      obtain ⟨same, rfl⟩ := Prog.runs_done.1 ending
      obtain ⟨rfl, rfl⟩ := Prod.mk.inj (Except.ok.inj same)
      unfold appendBatch at appending
      cases admitted : admitBatch s.partition given with
      | error e =>
          rw [admitted] at appending
          obtain ⟨same, rfl⟩ := Prog.runs_done.1 appending
          obtain ⟨rfl, rfl⟩ := Prod.mk.inj (Except.ok.inj same)
          exact .refl
      | ok encoded =>
          rw [admitted] at appending
          have encodes := RecordBatch.encode_eq_ok.2 (admitBatch_valid admitted)
          obtain ⟨_, _, same, run⟩ := run_appendAndPublish encodes appending
          obtain ⟨rfl, rfl⟩ := Prod.mk.inj (Except.ok.inj same)
          exact run
  | requests records =>
      simp only [AppendCall.run, writeRequests] at ran
      cases formed : encodeFormed s.partition (formBatch s.partition records) with
      | error e =>
          rw [formed] at ran
          obtain ⟨same, rfl⟩ := Prog.runs_done.1 ran
          obtain ⟨rfl, rfl⟩ := Prod.mk.inj (Except.ok.inj same)
          exact .refl
      | ok encoded =>
          rw [formed] at ran
          have encodes := RecordBatch.encode_eq_ok.2 (encodeFormed_valid formed)
          obtain ⟨⟨q, result⟩, mid, appending, ending⟩ := Prog.runs_bind_ok.1 ran
          obtain ⟨same, rfl⟩ := Prog.runs_done.1 ending
          obtain ⟨rfl, rfl⟩ := Prod.mk.inj (Except.ok.inj same)
          obtain ⟨_, _, same, run⟩ := run_appendAndPublish encodes appending
          obtain ⟨rfl, rfl⟩ := Prod.mk.inj (Except.ok.inj same)
          exact run

/-! ## Retention -/

section Retention

variable {key : TopicKey} {w w' : World}

theorem At.update (held : s.At key w) (p : Partition) {q : Store}
    (partitions : q.partitions = w.1.partitions.insert key p) :
    At { s with partition := p } key (q, w.2) := by
  refine ⟨?_, held.dir⟩
  rw [partitions]
  exact Std.ExtTreeMap.getElem?_insert_self

/-- A program in the partition's directory, and the partition it leaves. -/
theorem At.moved {α : Type} (held : s.At key w) {m : DirM α} {result : Except GoError α}
    {fs : FS Name} (ran : Prog.Runs FS.device (m.atPath (userPath key)) w.2 result fs) :
    ∃ d, Prog.Runs Dir.device m s.dir result d ∧ At { s with dir := d } key (w.1, fs) := by
  obtain ⟨d, inner, rfl⟩ := (Prog.runs_atPath held.dir).1 ran
  exact ⟨d, inner, held.partition, FS.set_self ..⟩

theorem catalogPath_ne (s : Store) (key : TopicKey) : userPath key ≠ s.catalogPath := by
  intro same
  refine userPath_head key ?_
  rw [same, Store.catalogPath]
  split <;> rfl

theorem At.appendCatalog (held : s.At key w) {value : Bytes} {drawn : SegmentID}
    {r : Except GoError UInt64} (steps : Steps FS.device (appendCatalog value drawn) w r w') :
    s.At key w' := by
  obtain ⟨catalog, memory⟩ := memory_appendCatalog steps
  refine ⟨?_, ?_⟩
  · rw [memory]
    exact held.partition
  · have untouched : ∀ {fs : FS Name} {result : Except GoError (Partition × Except GoError UInt64)},
        Prog.Runs FS.device ((appendBatch w.1.catalog (systemBatch clusterMetadataTopicID
          w.1.catalog.logEnd value) drawn true).atPath w.1.catalogPath) w.2 result fs →
        fs (userPath key) = some s.dir := by
      intro fs result ran
      refine (FS.runs_frame (Prog.only_atPath fun o mem => ?_) ran).trans held.dir
      exact catalogPath_ne w.1 key (List.mem_singleton.1 mem)
    rcases steps_lift_bind.1 (steps_read_bind.1 steps) with
      ⟨⟨q, outcome⟩, fs, ran, later⟩ | ⟨e, fs, ran, -, rfl⟩
    · obtain ⟨-, rfl⟩ := steps_check.1 (steps_update_bind.1 later)
      exact untouched ran
    · exact untouched ran

/-- Once the catalog has the event the proposal is adopted; otherwise the partition stays as
it was planned, or is fenced. -/
theorem At.advanceStart (held : s.At key w) {store : Store} {proposal : RetentionProposal}
    {value : Bytes} {drawn : SegmentID} {r : Except GoError (List Segment)}
    (steps : Steps FS.device (advanceStart key store s.partition proposal value drawn) w r w') :
    (∃ p, (p = s.partition ∨ p = s.partition.fenced) ∧ At { s with partition := p } key w' ∧
        ∃ e, r = .error e) ∨
      (At { s with partition := s.partition.retain proposal } key w' ∧
        r = .ok proposal.retired) := by
  obtain ⟨outcome, mid, appending, later⟩ := steps_attempt_bind.1 steps
  have stays := held.appendCatalog appending
  cases outcome with
  | error e =>
      dsimp only at later
      split at later
      · unfold setPartition at later
        rw [steps_update_bind, steps_update_bind] at later
        obtain ⟨rfl, rfl⟩ := steps_fail.1 later
        exact .inl ⟨_, .inr rfl, stays.update _ rfl, _, rfl⟩
      · obtain ⟨rfl, rfl⟩ := steps_fail.1 later
        exact .inl ⟨_, .inl rfl, stays, _, rfl⟩
  | ok _ =>
      obtain ⟨applied, mid', applying, ending⟩ := steps_attempt_bind.1 later
      have kept : s.At key mid' := by
        rcases steps_applyCatalog applying with ⟨_, -, rfl, -⟩ | ⟨_, -, rfl, -⟩
        · exact stays
        · exact ⟨stays.partition, stays.dir⟩
      unfold setPartition at ending
      cases applied with
      | error e =>
          dsimp only at ending
          rw [steps_update_bind, steps_update_bind] at ending
          obtain ⟨rfl, rfl⟩ := steps_fail.1 ending
          exact .inl ⟨_, .inr rfl, kept.update _ rfl, _, rfl⟩
      | ok _ =>
          dsimp only at ending
          rw [steps_update_bind] at ending
          obtain ⟨rfl, rfl⟩ := steps_pure.1 ending
          exact .inr ⟨kept.update _ rfl, rfl⟩

/-- A pass under the locks is a run, and the segments whose files may go are retired in it. -/
theorem run_of_retainLocked (held : s.At key w) {nowMillis : Int64}
    {drawn catalogDrawn : SegmentID} {r : Except GoError (List Segment)}
    (steps : Steps FS.device (retainLocked key nowMillis drawn catalogDrawn) w r w') :
    ∃ s', Run s s' ∧ s'.At key w' ∧
      ∀ retired, r = .ok retired → ∀ segment ∈ retired, segment.header.baseOffset ∈ s'.retired := by
  rcases steps_retainLocked steps with ⟨stops, none⟩ |
    ⟨mid, before, after, descriptor, proposal, value, plans, -, advancing⟩
  · have nothing : ∀ t : CachedLog, ∀ retired, r = .ok retired → ∀ segment ∈ retired,
        segment.header.baseOffset ∈ t.retired := by
      intro t retired done segment mem
      rw [none retired done] at mem
      cases mem
    cases stops with
    | refused => exact ⟨s, .refl, held, nothing s⟩
    | fenced found =>
        obtain rfl := Option.some.inj (held.partition.symm.trans found)
        exact ⟨_, .single .fence, held.update _ rfl, nothing _⟩
    | failed found ran =>
        obtain ⟨d, inner, -⟩ := held.moved ran
        obtain ⟨_, _, wrong, -⟩ := runs_planRetentionLocked inner
        cases wrong
    | planned found ran =>
        obtain rfl := Option.some.inj (held.partition.symm.trans found)
        obtain ⟨d, inner, moved⟩ := held.moved ran
        exact ⟨_, .single (.plan inner), moved.update _ rfl, nothing _⟩
  · obtain ⟨fs, ran, rfl⟩ := plans.planned
    obtain rfl := Option.some.inj (held.partition.symm.trans plans.partition)
    obtain ⟨d, inner, moved⟩ := held.moved ran
    have planned := moved.update after
      (q := { w.1 with partitions := w.1.partitions.insert key after }) rfl
    rcases planned.advanceStart advancing with ⟨p, rfl | rfl, left, e, rfl⟩ | ⟨left, rfl⟩
    · exact ⟨_, .single (.plan inner), left, fun _ wrong => by cases wrong⟩
    · exact ⟨_, .tail (.single (.plan inner)) .fence, left, fun _ wrong => by cases wrong⟩
    · refine ⟨_, .single (.retain inner), ⟨left.partition, left.dir⟩, fun retired done => ?_⟩
      obtain rfl := Except.ok.inj done
      exact fun segment mem => List.mem_append_left _ (List.mem_map_of_mem mem)

/-- `retainPartitionAt` is a run: a pass under the locks, and the removal of the files that it
has retired. -/
theorem run_of_retainPartitionAt (held : s.At key w) {nowMillis : Int64}
    {drawn catalogDrawn : SegmentID} {r : Except GoError Unit}
    (steps : Steps FS.device (retainPartitionAt key nowMillis drawn catalogDrawn) w r w') :
    ∃ s', Run s s' ∧ s'.At key w' := by
  rcases steps_bind.1 steps with ⟨retired, mid, retaining, cleaning⟩ | ⟨e, -, failed⟩
  · obtain ⟨s', run, left, known⟩ := run_of_retainLocked held retaining
    split at cleaning
    · obtain ⟨memory, ran⟩ := steps_lift.1 cleaning
      obtain ⟨d, inner, moved⟩ := left.moved ran
      have bases : ∀ base ∈ retired.map (fun segment => segment.header.baseOffset),
          base ∈ s'.retired := by
        intro base mem
        obtain ⟨segment, inside, rfl⟩ := List.mem_map.1 mem
        exact known retired rfl segment inside
      refine ⟨_, run.tail (.clean bases inner), ?_, moved.dir⟩
      rw [memory]
      exact moved.partition
    · obtain ⟨-, rfl⟩ := steps_pure.1 cleaning
      exact ⟨s', run, left⟩
  · obtain ⟨s', run, left, -⟩ := run_of_retainLocked held failed
    exact ⟨s', run, left⟩

end Retention

/-! ## The invariant -/

/-- The segments link up, and their files hold the batches that the partition has in memory. -/
def Represented (topic : TopicID) (partition : UInt32) (p : Partition) (d : Dir Name) : Prop :=
  ∃ (closed : StoredSegments topic partition) (last : List (StoredBatch topic partition)),
    p.Represents d closed last

/-- Whatever directory a partition was opened over: its segments represent their files in every
state that it reaches, and the end of the log does not move back.  Appends, rolls and
retention passes with any faults are among the ways to go on. -/
theorem partition_represented (reachable : Reachable topic partition s) :
    (∀ s', Run s s' → Represented topic partition s'.partition s'.dir ∧
      s.partition.logEnd ≤ s'.partition.logEnd) ∧
    (∀ call outcome p d, AppendCall.Steps call (s.partition, s.dir) outcome (p, d) →
      Run s { s with partition := p, dir := d }) ∧
    (∀ drawn p outcome d, s.partition.active.records ≠ 0 →
      Prog.Runs Dir.device (rollSegment s.partition drawn) s.dir (.ok (p, outcome)) d →
      Represented topic partition p d ∧ p.logEnd = s.partition.logEnd) ∧
    (∀ key nowMillis drawn catalogDrawn w r w', s.At key w →
      Steps FS.device (retainPartitionAt key nowMillis drawn catalogDrawn) w r w' →
      ∃ s', Run s s' ∧ s'.At key w') := by
  refine ⟨fun s' run => ⟨?_, reachable.logEnd_le run⟩, fun call outcome p d => run_of_append, ?_,
    fun key nowMillis drawn catalogDrawn w r w' held => run_of_retainPartitionAt held⟩
  · obtain ⟨_, _, closed, last, holds⟩ := (reachable.run run).inv
    exact ⟨closed, last, holds.represents⟩
  · intro drawn p outcome d filled ran
    obtain ⟨_, _, closed, last, holds⟩ := reachable.inv
    obtain ⟨_, _, same, keeps⟩ := runs_rollSegment_keeps filled ran
    obtain ⟨rfl, rfl⟩ := Prod.mk.inj (Except.ok.inj same)
    obtain ⟨closed', last', represents, -⟩ := keeps.represents holds.represents
    exact ⟨⟨closed', last', represents⟩, keeps.logEnd⟩

/-! ## Reading again -/

/-- The state with one more record to publish. -/
abbrev holding (r : Record) (s : CachedLog) : CachedLog :=
  { s with publications := s.publications ++ [([r], 0)] }

theorem Step.holding (step : Step s s') (r : Record) : Step (s.holding r) (s'.holding r) := by
  cases step with
  | append encodes ran =>
      simp only [CachedLog.holding, List.append_assoc]
      exact .append encodes ran
  | publish free chosen => exact .publish free (chosen.append_right _)
  | plan ran => exact .plan ran
  | retain ran => exact .retain ran
  | clean known ran => exact .clean known ran
  | fence => exact .fence
  | closing => exact .closing
  | closeTail => exact .closeTail
  | closed ran => exact .closed ran

/-- What was read once is read again at its offset, after any critical sections with any faults
in them, until retention has passed it. -/
theorem reads_again (reachable : Reachable topic partition s) (run : Run s s')
    {offset : UInt64} {maxRecords : UInt32} {records : List Record} {r : Record}
    (found : read s.dir s.partition offset maxRecords = .ok records) (mem : r ∈ records)
    (isOpen : s'.partition.checkOpen = .ok ()) (low : s'.partition.logStart ≤ r.offset) :
    read s'.dir s'.partition r.offset 1 = .ok [r] := by
  obtain ⟨start, gone, closed, last, holds⟩ := reachable.inv
  have inLog : r ∈ logRecords closed last := by
    have passed := found
    simp only [read, bind_eq_ok, failIf_eq_ok, exists_const, UInt64.not_lt] at passed
    obtain ⟨_, opened, low, high, -⟩ := passed
    rw [holds.represents.readsSlice opened low high] at found
    rw [← Except.ok.inj found] at mem
    exact List.mem_of_mem_filter (List.mem_of_mem_take mem)
  -- The invariant speaks of the record as long as it waits to be published.
  have waits : Inv topic partition (s.holding r) :=
    ⟨start, gone, closed, last,
      { holds with underWay := List.forall_mem_append.2 ⟨holds.underWay, by simp [inLog]⟩ }⟩
  have later : Inv topic partition (s'.holding r) := by
    clear isOpen low
    induction run with
    | refl => exact waits
    | tail _ step ih => exact (step.holding r).inv ih
  obtain ⟨_, _, closed', last', held⟩ := later
  have kept := held.underWay ([r], 0) (by simp) r (List.mem_singleton_self r)
  have represents : s'.partition.Represents s'.dir closed' last' := held.represents
  have meets : s'.partition.logStart.toNat = _ := held.meets
  obtain ⟨consecutive, stop⟩ := represents.consecutive
  have above := UInt64.le_iff_toNat_le.1 low
  have stays : r ∈ logRecords closed' last' := by
    refine (List.mem_append.1 kept).resolve_left fun expired => ?_
    have early := (held.expired.range expired).2
    omega
  obtain ⟨index, inside, rfl⟩ := List.getElem_of_mem stays
  have place := consecutive index _ (List.getElem?_eq_getElem inside)
  have high : (logRecords closed' last')[index].offset ≤ s'.partition.logEnd :=
    UInt64.le_iff_toNat_le.2 (by omega)
  rw [represents.readsSlice isOpen low high, consecutive.recordsFrom_eq low, place,
    Nat.add_sub_cancel_left]
  exact congrArg _ (List.take_one_drop_eq_of_lt_length inside)

end CachedLog

/-- Also an operation that failed leaves the record of the log where it was. -/
theorem SmallLog.fencedLog_represented :
    CachedLog.Represented 2 0 cachedLog.partition.fenced cachedLog.dir ∧
      cachedLog.partition.logEnd ≤ cachedLog.partition.fenced.logEnd :=
  (CachedLog.partition_represented cachedLog_reachable).1 _ (.single .fence)

namespace SmallLog

/-- The partition of two segments, opened with a tail. -/
def tailed : DirM Partition :=
  openPartition 4 spec.topic spec.partition
    { spec.options with segmentBytes := 200, tailSlots := 1, tailBytes := 4096 } spec.storeID

/-- A limit that three segments with a record each are beyond. -/
def limited : PartitionConfigV1 :=
  { systemPartitionConfig with
    retentionMask := 2, retentionBytes := 400, retentionCheckMillis := 1 }

set_option maxRecDepth 10000 in
/-- Two records are read.  An append rolls and is published to the tail, and retention drops the
first segment and removes its files: the other record is read again. -/
theorem retained_reads_again : ∃ s s' : CachedLog,
    CachedLog.Reachable spec.topic spec.partition s ∧ CachedLog.Run s s' ∧
      read s.dir s.partition 0 0 = .ok [recordAt 0, recordAt 1] ∧
      s'.partition.logStart = 1 ∧ s'.partition.logEnd = 3 ∧ s'.dir.lookup (.log 0) = none ∧
      read s'.dir s'.partition 1 1 = .ok [recordAt 1] := by
  have found : ∃ x ∈ Prog.run? Dir.device tailed rolledDir,
      read x.2 x.1 0 0 = .ok [recordAt 0, recordAt 1] ∧
      ∃ y ∈ Prog.run? Dir.device
        (appendEncodedLocked x.1 (batchAt 2) (batchAt 2).bytes 5) x.2, y.1.2 = .ok 2 ∧
      ∃ z ∈ Prog.run? Dir.device (planRetentionLocked
        (y.1.1.publishTail true [recordAt 2] y.1.1.logEnd) limited 0 6) y.2,
      ∃ proposal ∈ z.1.2.toOption.join,
        proposal.retired.map (fun segment => segment.header.baseOffset) = [0] ∧
        (z.1.1.retain proposal).checkOpen = .ok () ∧ (z.1.1.retain proposal).logStart = 1 ∧
        (z.1.1.retain proposal).logEnd = 3 ∧
      ∃ u ∈ Prog.run? Dir.device (cleanupBases [0]) z.2, (u.2.lookup (.log 0)).isNone := by
    decide +kernel
  obtain ⟨⟨p, d⟩, opens, all, ⟨⟨q, outcome⟩, d₁⟩, appends, told, ⟨⟨q', planned⟩, d₂⟩, plans,
    proposal, proposed, retired, isOpen, start, stop, ⟨_, d₃⟩, cleans, gone⟩ := found
  have opened := CachedLog.Reachable.opened (.of_run (Prog.run?_eq_some.1 opens))
  have encodes : encodeBatch (batchAt 2) = .ok (batchAt 2).bytes := by decide +kernel
  have planned : planned = .ok (some proposal) := by
    cases planned with
    | error e => cases proposed
    | ok found => exact congrArg _ proposed
  subst planned
  obtain rfl : outcome = .ok 2 := told
  have appended : CachedLog.Step ⟨p, d, [], []⟩ ⟨q, d₁, [([recordAt 2], q.logEnd)], []⟩ :=
    .append (s := ⟨p, d, [], []⟩) encodes (.of_run (Prog.run?_eq_some.1 appends))
  have published : CachedLog.Step ⟨q, d₁, [([recordAt 2], q.logEnd)], []⟩
      ⟨q.publishTail true [recordAt 2] q.logEnd, d₁, [], []⟩ :=
    .publish true (List.Perm.refl _)
  have retained : CachedLog.Step ⟨q.publishTail true [recordAt 2] q.logEnd, d₁, [], []⟩
      ⟨q'.retain proposal, d₂, [], [0]⟩ := by
    have step := CachedLog.Step.retain (s := ⟨q.publishTail true [recordAt 2] q.logEnd, d₁, [], []⟩)
      (.of_run (Prog.run?_eq_some.1 plans))
    rwa [retired] at step
  have cleaned : CachedLog.Step ⟨q'.retain proposal, d₂, [], [0]⟩
      ⟨q'.retain proposal, d₃, [], [0]⟩ :=
    .clean (fun base mem => mem) (.of_run (Prog.run?_eq_some.1 cleans))
  have run : CachedLog.Run ⟨p, d, [], []⟩ ⟨q'.retain proposal, d₃, [], [0]⟩ :=
    (((Relation.ReflTransGen.single appended).tail published).tail retained).tail cleaned
  have low : (q'.retain proposal).logStart ≤ (recordAt 1).offset := UInt64.le_of_eq start
  exact ⟨_, _, opened, run, all, start, stop, Option.isNone_iff_eq_none.1 gone,
    CachedLog.reads_again opened run all (by simp) isOpen low⟩

end SmallLog

end Immulog
