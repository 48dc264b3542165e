import Immulog.ReadBack
import Immulog.Invariant
import Immulog.Retention

/-!
What retention does to the log of a partition.

Planning may close the active segment; adopting a proposal drops closed segments at the front,
and the log then starts where they end.  The files go afterwards, and no other file with them.
-/

namespace Immulog

open Lib

variable {topic : TopicID} {partition : UInt32} {p q : Partition} {d d' : Dir Name}
  {closed : StoredSegments topic partition} {last : List (StoredBatch topic partition)}

/-! ## Planning -/

/-- Retention selects from the front of the log. -/
theorem selectRetired_front {config : PartitionConfigV1} {nowMillis : Int64} {limit : Nat}
    {segments retired : List Segment} {reason reason' : UInt8} {total total' : UInt64}
    (selected : selectRetired config nowMillis limit segments reason total =
      .ok (retired, reason', total')) : retired <+: segments := by
  induction limit generalizing segments retired reason reason' total total' with
  | zero =>
      obtain ⟨rfl, -⟩ := Prod.mk.inj (Except.ok.inj selected)
      exact List.nil_prefix
  | succ limit ih =>
      cases segments with
      | nil =>
          obtain ⟨rfl, -⟩ := Prod.mk.inj (Except.ok.inj selected)
          exact List.nil_prefix
      | cons segment rest =>
          unfold selectRetired at selected
          dsimp only at selected
          split at selected
          · obtain ⟨rfl, -⟩ := Prod.mk.inj (Except.ok.inj selected)
            exact List.nil_prefix
          · simp only [bind_eq_ok, failIf_eq_ok, exists_const, pure_eq_ok, Except.ok.injEq,
              Prod.exists, Prod.mk.injEq] at selected
            obtain ⟨-, later, _, _, found, rfl, -⟩ := selected
            exact List.cons_prefix_cons.2 ⟨rfl, ih found⟩

/-- What a proposal retires is the front of the closed segments, and the rest stays. -/
structure RetentionProposal.Splits (proposal : RetentionProposal) (p : Partition) : Prop where
  nonempty : proposal.retired ≠ []
  split : p.closedSegments = proposal.retired ++ proposal.retained

/-- A proposal splits the segments in those that go and those that stay. -/
theorem proposeRetention_splits {config : PartitionConfigV1} {nowMillis : Int64} {total : UInt64}
    {proposal : RetentionProposal}
    (proposed : proposeRetention p config nowMillis total = .ok (some proposal)) :
    proposal.Splits p := by
  simp only [proposeRetention, bind_eq_ok, Prod.exists] at proposed
  obtain ⟨retired, reason, remaining, selected, proposed⟩ := proposed
  cases final : retired.getLast? with
  | none =>
      rw [final] at proposed
      cases proposed
  | some last =>
      rw [final] at proposed
      simp only [pure_eq_ok, Except.ok.injEq, Option.some.injEq] at proposed
      subst proposed
      obtain ⟨rest, split⟩ := selectRetired_front selected
      refine ⟨?_, ?_⟩
      · rintro rfl
        cases final
      · simp [← split]

/-- The partition goes on with the same log and the same cache, perhaps over other segments. -/
structure Partition.KeepsLog (p : Partition) (d : Dir Name) (q : Partition) (d' : Dir Name) :
    Prop where
  logStart : q.logStart = p.logStart
  logEnd : q.logEnd = p.logEnd
  tail : q.tail = p.tail
  represents : ∀ {topic : TopicID} {partition : UInt32} {closed : StoredSegments topic partition}
    {last : List (StoredBatch topic partition)}, p.Represents d closed last →
    ∃ (closed' : StoredSegments topic partition) (last' : List (StoredBatch topic partition)),
      q.Represents d' closed' last' ∧ logRecords closed' last' = logRecords closed last

theorem Partition.KeepsLog.refl (p : Partition) (d : Dir Name) : p.KeepsLog d p d :=
  ⟨rfl, rfl, rfl, fun represents => ⟨_, _, represents, rfl⟩⟩

/-- A roll behind records keeps the log, also when it fails. -/
theorem runs_rollSegment_keeps {drawn : SegmentID}
    {result : Except GoError (Partition × Except GoError Unit)} (filled : p.active.records ≠ 0)
    (ran : Prog.Runs Dir.device (rollSegment p drawn) d result d') :
    ∃ q outcome, result = .ok (q, outcome) ∧ p.KeepsLog d q d' := by
  obtain ⟨others, ⟨e, failed, -⟩ | ⟨sealed, reindexed, made, -, valid, read⟩⟩ :=
    runs_rollSegment ran
  · refine ⟨_, _, failed, rfl, rfl, rfl, fun represents =>
      ⟨_, _, Partition.Represents.fenced ?_, rfl⟩⟩
    exact represents.frame fun s mem => others.read (represents.ne_logEnd filled mem)
  · refine ⟨_, _, made, Partition.logStart_rolled reindexed _, rfl, rfl, fun represents => ?_⟩
    exact ⟨_, _, represents.rolled filled reindexed valid others read, logRecords_rolled _ _⟩

/-- Rolling for retention keeps the records. -/
theorem runs_rollForRetention {config : PartitionConfigV1} {nowMillis : Int64} {total : UInt64}
    {drawn : SegmentID} {result : Except GoError (Partition × Except GoError UInt64)}
    (ran : Prog.Runs Dir.device (rollForRetention p config nowMillis total drawn) d result d') :
    ∃ q outcome, result = .ok (q, outcome) ∧ p.KeepsLog d q d' := by
  unfold rollForRetention at ran
  split at ran
  · rename_i needed
    rcases Prog.runs_bind.1 ran with ⟨⟨q, status⟩, mid, rolling, later⟩ | ⟨e, -, failed⟩
    · obtain ⟨q, status, same, kept⟩ := runs_rollSegment_keeps needed.1 rolling
      obtain ⟨rfl, rfl⟩ := Prod.mk.inj (Except.ok.inj same)
      cases status with
      | error e =>
          obtain ⟨rfl, rfl⟩ := Prog.runs_done.1 later
          exact ⟨_, _, rfl, kept⟩
      | ok _ =>
          dsimp only at later
          split at later
          all_goals
            obtain ⟨rfl, rfl⟩ := Prog.runs_done.1 later
            exact ⟨_, _, rfl, kept⟩
    · obtain ⟨_, _, wrong, -⟩ := runs_rollSegment_keeps needed.1 failed
      cases wrong
  · obtain ⟨rfl, rfl⟩ := Prog.runs_done.1 ran
    exact ⟨_, _, rfl, .refl _ _⟩

/-- Planning keeps the log, also when the roll in it fails. -/
theorem runs_planRetentionLocked {config : PartitionConfigV1} {nowMillis : Int64}
    {drawn : SegmentID}
    {result : Except GoError (Partition × Except GoError (Option RetentionProposal))}
    (ran : Prog.Runs Dir.device (planRetentionLocked p config nowMillis drawn) d result d') :
    ∃ q planned, result = .ok (q, planned) ∧ p.KeepsLog d q d' ∧
      ∀ proposal, planned = .ok (some proposal) → proposal.Splits q := by
  unfold planRetentionLocked at ran
  cases summed : retainedSegmentBytes p.segments 0 with
  | error e =>
      rw [summed] at ran
      obtain ⟨rfl, rfl⟩ := Prog.runs_done.1 ran
      exact ⟨_, _, rfl, .refl _ _, fun _ wrong => by cases wrong⟩
  | ok total =>
      rw [summed] at ran
      rcases Prog.runs_bind.1 ran with ⟨⟨q, status⟩, mid, rolling, later⟩ | ⟨e, -, failed⟩
      · obtain ⟨q, status, same, kept⟩ := runs_rollForRetention rolling
        obtain ⟨rfl, rfl⟩ := Prod.mk.inj (Except.ok.inj same)
        cases status with
        | error e =>
            obtain ⟨rfl, rfl⟩ := Prog.runs_done.1 later
            exact ⟨_, _, rfl, kept, fun _ wrong => by cases wrong⟩
        | ok total =>
            obtain ⟨rfl, rfl⟩ := Prog.runs_done.1 later
            exact ⟨_, _, rfl, kept, fun _ proposed => proposeRetention_splits proposed⟩
      · obtain ⟨_, _, wrong, -⟩ := runs_rollForRetention failed
        cases wrong

/-! ## Adopting a proposal -/

/-- The retained segments hold what is left of the log. -/
theorem Partition.Represents.retain (represents : p.Represents d closed last)
    {proposal : RetentionProposal} (splits : proposal.Splits p) :
    ∃ left : StoredSegments topic partition, (p.retain proposal).Represents d left last ∧
      logRecords left last <:+ logRecords closed last := by
  have kept := List.forall₂_drop proposal.retired.length represents.closedFiles
  rw [splits.split, List.drop_left] at kept
  refine ⟨_, ⟨represents.topic_eq, represents.partition_eq, kept, represents.activeFile, ?_,
    represents.logEnd⟩, (closed.take proposal.retired.length).flatMap storedRecords, ?_⟩
  · have linked := represents.linked
    rw [Partition.segments, splits.split, List.append_assoc, List.isChain_append] at linked
    exact linked.2.1
  · rw [logRecords, logRecords, ← List.append_assoc, ← List.flatMap_append, List.take_append_drop]

/-- The log starts behind every segment that is retired. -/
theorem Partition.Represents.retired_lt (represents : p.Represents d closed last)
    {proposal : RetentionProposal} (splits : proposal.Splits p) {s : Segment}
    (mem : s ∈ proposal.retired) :
    s.header.baseOffset.toNat < (p.retain proposal).logStart.toNat := by
  have sorted := represents.increasing
  rw [Partition.segments, splits.split, List.append_assoc, List.pairwise_append] at sorted
  rw [Partition.logStart_eq]
  unfold Partition.retain
  dsimp only
  cases shape : proposal.retained with
  | nil => exact sorted.2.2 s mem p.active (by simp)
  | cons first rest => exact sorted.2.2 s mem first (by simp [shape])

/-- No segment lies below the log start. -/
theorem Partition.Represents.logStart_le (represents : p.Represents d closed last) {s : Segment}
    (mem : s ∈ p.segments) : p.logStart.toNat ≤ s.header.baseOffset.toNat := by
  have sorted := represents.increasing
  unfold Partition.logStart
  cases shape : p.segments with
  | nil => simp [shape] at mem
  | cons first rest =>
      rw [shape] at mem sorted
      rcases List.mem_cons.1 mem with rfl | later
      · exact Nat.le_refl _
      · exact Nat.le_of_lt (List.rel_of_pairwise_cons sorted later)

/-- Retention only moves the log start up. -/
theorem Partition.Represents.logStart_retain (represents : p.Represents d closed last)
    {proposal : RetentionProposal} (splits : proposal.Splits p) :
    p.logStart.toNat ≤ (p.retain proposal).logStart.toNat := by
  obtain ⟨first, rest, shape⟩ := List.exists_cons_of_ne_nil splits.nonempty
  have mem : first ∈ proposal.retired := by simp [shape]
  have inside : first ∈ p.segments := by
    rw [Partition.segments, splits.split]
    simp [mem]
  exact (represents.logStart_le inside).trans (represents.retired_lt splits mem).le

/-! ## Removing the files -/

theorem only_removeArtifacts {name : Name} {names : List Name} (other : name ∉ names)
    (errors : List GoError) : (removeArtifacts names errors).Only fun o => name ∉ o.touches := by
  induction names generalizing errors with
  | nil => exact Prog.only_pure
  | cons first rest ih =>
      rw [List.mem_cons, not_or] at other
      obtain ⟨differs, others⟩ := other
      have removing : (removeRetiredArtifact first).Only fun o => name ∉ o.touches := by
        unfold removeRetiredArtifact
        refine Prog.only_get.bind fun dir => ?_
        split
        · exact Prog.only_perform (by simpa [DirOp.touches] using differs)
        · exact Prog.only_pure
      unfold removeArtifacts
      refine removing.attempt.bind fun outcome => ?_
      cases outcome with
      | error e => exact ih others _
      | ok _ => exact ih others _

/-- Removing the files of retired segments leaves the other logs. -/
theorem runs_cleanupBases {bases : List UInt64} {result : Except GoError Unit}
    (ran : Prog.Runs Dir.device (cleanupBases bases) d result d') {base : UInt64}
    (other : base ∉ bases) : d'.read? (.log base) = d.read? (.log base) := by
  have absent : Name.log base ∉ bases.flatMap segmentArtifacts := by
    simpa [segmentArtifacts] using other
  have only : (cleanupBases bases).Only fun o => Name.log base ∉ o.touches := by
    unfold cleanupBases
    refine (only_removeArtifacts absent []).bind fun errors => ?_
    refine (Prog.Only.attempt (Prog.only_perform (by simp [DirOp.touches]))).bind fun synced => ?_
    exact Prog.only_ofExcept
  exact Dir.read?_of_settles (Dir.runs_settles only ran)

/-- Files below the log start can be removed. -/
theorem Partition.Represents.cleanup (represents : p.Represents d closed last)
    {bases : List UInt64} (below : ∀ base ∈ bases, base.toNat < p.logStart.toNat)
    {result : Except GoError Unit}
    (ran : Prog.Runs Dir.device (cleanupBases bases) d result d') :
    p.Represents d' closed last := by
  refine represents.frame fun s mem => runs_cleanupBases ran fun retired => ?_
  have low := represents.logStart_le mem
  have high := below _ retired
  omega

end Immulog
