import Immulog.Appending
import Immulog.Topics
import Mathlib.Logic.Relation

/-!
The size of segment files.

A batch that does not fit into the active segment goes into a new one.  Whether it fits
into an empty segment is asked only where the active segment has no records, so that a
larger batch behind records is written as well.  A topic's configuration leaves room for
its largest batch; the options of a partition outside of the catalog need not.
-/

namespace Immulog

open Lib

/-- No segment file is longer than the bound. -/
def LogsWithin (bound : Nat) (d : Dir Name) : Prop :=
  ∀ base data, d.read? (.log base) = some data → data.length ≤ bound

/-- An empty segment has room for the batch. -/
def Partition.Fits (p : Partition) (b : RecordBatch) : Prop :=
  segmentHeaderBytes.toNat + b.bytes.length ≤ p.options.segmentBytes.toNat

/-- The checks of `appendEncodedLocked` in front of the segment limit. -/
structure Partition.Takes (p : Partition) (b : RecordBatch) : Prop where
  isOpen : p.closed = false
  available : p.unavailable = false
  placed : b.topic = p.topic ∧ b.partition = p.partition ∧ b.baseOffset = p.logEnd
  limits : b.records.length ≠ 0 ∧ b.records.length ≤ p.options.batchRecords.toNat ∧
    b.bytes.length ≤ p.options.batchBytes.toNat
  records : checkRecordLimits p.options.recordBytes b.records = .ok ()

def segmentLimitError : GoError :=
  .join [.ofKind .errRecordTooLarge, .new "batch cannot fit in configured segment"]

variable {p p' : Partition} {b : RecordBatch} {d d' : Dir Name}

theorem Partition.Takes.check (takes : p.Takes b) :
    checkAppend p b b.bytes =
      failIf (p.options.segmentBytes.toNat < b.bytes.length + p.active.size ∧ p.active.records = 0)
        segmentLimitError := by
  obtain ⟨isOpen, available, ⟨topic, partition, base⟩, ⟨some, few, small⟩, records⟩ := takes
  have placed : ¬ (b.topic ≠ p.topic ∨ b.partition ≠ p.partition ∨ b.baseOffset ≠ p.logEnd) := by
    simp [topic, partition, base]
  have limits : ¬ (b.records.length = 0 ∨ p.options.batchRecords.toNat < b.records.length ∨
      p.options.batchBytes.toNat < b.bytes.length) := by
    omega
  rw [checkAppend, failIf_of_not (by simp [isOpen]), failIf_of_not (by simp [available]),
    failIf_of_not placed, failIf_of_not limits, records]
  rfl

theorem takes_of_check (passed : checkAppend p b b.bytes = .ok ()) : p.Takes b := by
  simp only [checkAppend, bind_eq_ok, failIf_eq_ok, exists_const, not_or, not_not, Nat.not_lt,
    Bool.not_eq_true, ne_eq] at passed
  obtain ⟨isOpen, available, placed, limits, _, records, -⟩ := passed
  exact ⟨isOpen, available, placed, limits, records⟩

/-! ## One append -/

theorem LogsWithin.mono {bound : Nat} (within : LogsWithin bound d) {base : UInt64}
    (others : SameLogsBut base d d')
    (here : ∀ data, d'.read? (.log base) = some data → data.length ≤ bound) :
    LogsWithin bound d' := by
  intro other data found
  by_cases same : other = base
  · exact here data (same ▸ found)
  · rw [others.read same] at found
    exact within other data found

theorem length_overwrite_le {bound position : Nat} {data piece : Bytes}
    (inside : data.length ≤ bound) (fits : position + piece.length ≤ bound) :
    (Dir.overwrite data position piece).length ≤ bound := by
  simp only [Dir.overwrite, List.length_append, List.length_take, List.length_drop]
  omega

/-- After the roll, if there is one, the batch has room. -/
theorem RollsTo.room {q : Partition} {mid : Dir Name} {drawn : SegmentID}
    (rolls : RollsTo p d b.bytes drawn q mid)
    (fits : p.active.records ≠ 0 → p.Fits b)
    (within : LogsWithin p.options.segmentBytes.toNat d) :
    LogsWithin p.options.segmentBytes.toNat mid ∧
      q.active.size + b.bytes.length ≤ p.options.segmentBytes.toNat := by
  cases rolls with
  | fits room => exact ⟨within, by omega⟩
  | rolled full filled reindexed absent valid others read =>
      have room := fits filled
      have header : segmentHeaderBytes.toNat = 72 := rfl
      rw [Partition.Fits, header] at room
      refine ⟨within.mono others fun data found => ?_, room⟩
      obtain rfl := Option.some.inj (read.symm.trans found)
      rw [SegmentHeader.length_bytes]
      omega

/-- An append whose batch has room in an empty segment keeps the bound, also when it fails. -/
theorem Appends.within {drawn : SegmentID} {outcome : Except GoError UInt64}
    (appends : Appends p d b b.bytes drawn p' d' outcome)
    (fits : p.active.records ≠ 0 → p.Takes b → p.Fits b)
    (within : LogsWithin p.options.segmentBytes.toNat d) :
    LogsWithin p.options.segmentBytes.toNat d' := by
  have wrote : ∀ {q : Partition} {mid : Dir Name}, RollsTo p d b.bytes drawn q mid →
      p.Takes b → SameLogsBut q.active.header.baseOffset mid d' →
      (d' = mid ∨ ∃ data piece, piece <+: b.bytes ∧ mid.read? q.active.name = some data ∧
        d'.read? q.active.name = some (Dir.overwrite data q.active.size piece)) →
      LogsWithin p.options.segmentBytes.toNat d' := by
    intro q mid rolls takes others left
    obtain ⟨within, room⟩ := rolls.room (fun filled => fits filled takes) within
    rcases left with rfl | ⟨data, piece, front, before, after⟩
    · exact within
    · refine within.mono others fun data' found => ?_
      obtain rfl := Option.some.inj (after.symm.trans found)
      have short := front.length_le
      exact length_overwrite_le (within _ _ before) (by omega)
  cases appends with
  | refused _ => exact within
  | unrolled passed filled others left =>
      have room := fits filled (takes_of_check passed)
      have header : segmentHeaderBytes.toNat = 72 := rfl
      rw [Partition.Fits, header] at room
      refine within.mono others fun data found => ?_
      rcases left with settles | ⟨-, -, read⟩
      · exact within _ _ ((Dir.read?_of_settles settles).symm.trans found)
      · obtain rfl := Option.some.inj (read.symm.trans found)
        rw [SegmentHeader.length_bytes]
        omega
  | unknown passed rolls others left => exact wrote rolls (takes_of_check passed) others left
  | written passed rolls others before after =>
      exact wrote rolls (takes_of_check passed) others
        (.inr ⟨_, _, List.prefix_refl _, before, after⟩)

/-! ## One call -/

namespace AppendCall

/-- The call gets as far as the segment limit. -/
structure Arrives (call : AppendCall) (p : Partition) : Prop where
  admitted : ∀ e, ¬ call.Refuses p e
  taken : p.Takes (call.offered p)

/-- The batch has room in an empty segment, or meets one. -/
def KeepsBound (call : AppendCall) (p : Partition) : Prop :=
  call.Arrives p → p.Fits (call.offered p) ∨ p.active.records = 0

/-- No segment file outgrows the configured size, and a batch without room in an empty
segment is refused. -/
structure Bounded (call : AppendCall) (w : Partition × Dir Name)
    (outcome : Except GoError (List Record)) (w' : Partition × Dir Name) : Prop where
  within : LogsWithin w.1.options.segmentBytes.toNat w'.2
  refused : call.Arrives w.1 → ¬ w.1.Fits (call.offered w.1) →
    (∃ e, outcome = .error e ∧ e.is .errRecordTooLarge) ∧ w' = w

variable {call : AppendCall} {outcome : Except GoError (List Record)} {topic : TopicID}
  {partition : UInt32} {closed : StoredSegments topic partition}
  {last : List (StoredBatch topic partition)}

theorem told_segmentLimitError (call : AppendCall) (p : Partition) :
    call.told p (.error segmentLimitError) = .error segmentLimitError := by
  cases call <;> rfl

/-- A call keeps to the bound exactly when its batch has room in an empty segment or meets
one. -/
theorem Steps.bounded_iff (steps : call.Steps (p, d) outcome (p', d'))
    (represents : p.Represents d closed last)
    (within : LogsWithin p.options.segmentBytes.toNat d) :
    call.Bounded (p, d) outcome (p', d') ↔ call.KeepsBound p := by
  rcases steps.cases with ⟨e, refuses, rfl, rfl, rfl⟩ |
    ⟨admitted, valid, drawn, free, q, result, appends, rfl, rfl⟩
  · have stops : ¬ call.Arrives p' := fun arrives => arrives.admitted e refuses
    exact ⟨fun _ arrives => absurd arrives stops,
      fun _ => ⟨within, fun arrives => absurd arrives stops⟩⟩
  constructor
  · intro bounded arrives
    by_contra neither
    rw [not_or] at neither
    obtain ⟨⟨e, refused, -⟩, same⟩ := bounded.refused arrives neither.1
    have passed : checkAppend p (call.offered p) (call.offered p).bytes = .ok () := by
      rw [arrives.taken.check]
      exact failIf_of_not fun both => neither.2 both.2
    rcases appends.ends passed represents.logEnd with ⟨rfl, -⟩ | ⟨e', rfl, -, unavailable, -⟩
    · cases call <;> cases refused
    · obtain rfl : q = p := (Prod.mk.inj same).1
      exact absurd (arrives.taken.available.symm.trans unavailable) Bool.false_ne_true
  · intro keeps
    refine ⟨appends.within (fun filled takes => ?_) within, fun arrives large => ?_⟩
    · exact (keeps ⟨admitted, takes⟩).resolve_right filled
    · have empty : p.active.records = 0 := (keeps arrives).resolve_left large
      obtain ⟨data, -, active⟩ := represents.activeFile
      have size := (active.size_of_empty empty).1
      have full : p.options.segmentBytes.toNat < (call.offered p).bytes.length + p.active.size := by
        have header : segmentHeaderBytes.toNat = 72 := rfl
        have none : ¬ segmentHeaderBytes.toNat + (call.offered p).bytes.length ≤
          p.options.segmentBytes.toNat := large
        omega
      have failed : checkAppend p (call.offered p) (call.offered p).bytes =
          .error segmentLimitError := by
        rw [arrives.taken.check]
        exact failIf_of ⟨full, empty⟩
      obtain ⟨rfl, rfl, rfl⟩ := appends.of_refused failed
      rw [told_segmentLimitError]
      exact ⟨⟨_, rfl, by decide⟩, rfl⟩

end AppendCall

/-! ## Runs -/

/-- Calls whose batches have room in an empty segment, or meet one. -/
abbrev BoundedRun : Partition × Dir Name → Partition × Dir Name → Prop :=
  Relation.ReflTransGen fun w w' => ∃ (call : AppendCall) (outcome : Except GoError (List Record)),
    call.KeepsBound w.1 ∧ call.Steps w outcome w'

theorem BoundedRun.within {topic : TopicID} {partition : UInt32} {w w' : Partition × Dir Name}
    (run : BoundedRun w w') {closed : StoredSegments topic partition}
    {last : List (StoredBatch topic partition)} (represents : w.1.Represents w.2 closed last)
    (within : LogsWithin w.1.options.segmentBytes.toNat w.2) :
    w'.1.options = w.1.options ∧ LogsWithin w.1.options.segmentBytes.toNat w'.2 ∧
      ∃ (closed' : StoredSegments topic partition) (last' : List (StoredBatch topic partition)),
        w'.1.Represents w'.2 closed' last' := by
  induction run with
  | refl => exact ⟨rfl, within, closed, last, represents⟩
  | tail _ step ih =>
      obtain ⟨same, within, closed', last', kept⟩ := ih
      obtain ⟨call, outcome, keeps, steps⟩ := step
      rw [← same] at within ⊢
      exact ⟨steps.options_eq, ((steps.bounded_iff kept within).2 keeps).within,
        steps.represents kept⟩

/-- The options that a partition may be opened with. -/
inductive OpenableOptions : PartitionOptions → Prop where
  | openPartition {key : TopicKey} {given : OpenOptions} :
      checkOpenArguments key given = .ok () → given.normalize.validateWriter = .ok () →
      OpenableOptions given.normalize.toPartitionOptions
  | createTopic {name : Bytes} {partitions : UInt32} {given : OpenOptions}
      {config : PartitionConfigV1} : checkTopicArguments name partitions given = .ok config →
      OpenableOptions given.normalize.toPartitionOptions

/-- The configuration of a topic leaves room for its largest batch. -/
theorem checkTopicArguments_room {name : Bytes} {partitions : UInt32} {given : OpenOptions}
    {config : PartitionConfigV1}
    (checked : checkTopicArguments name partitions given = .ok config) :
    segmentHeaderBytes.toNat + given.normalize.batchBytes.toNat ≤
      given.normalize.segmentBytes.toNat := by
  simp only [checkTopicArguments, configFromOptions, bind_eq_ok, failIf_eq_ok, exists_const,
    pure_eq_ok, Except.ok.injEq] at checked
  obtain ⟨-, -, -, -, -, linger, -, millis, -, age, -, check, -, -, _, valid, -⟩ := checked
  have bounds := (PartitionConfigV1.segment_bounds valid).1
  have segment : given.normalize.normalize.segmentBytes = given.normalize.segmentBytes :=
    if_neg (orDefault_ne_zero (by decide))
  have batch : given.normalize.normalize.batchBytes = given.normalize.batchBytes :=
    if_neg (orDefault_ne_zero (by decide))
  rwa [segment, batch] at bounds

theorem OpenableOptions.header_le {options : PartitionOptions}
    (openable : OpenableOptions options) :
    segmentHeaderBytes.toNat ≤ options.segmentBytes.toNat := by
  cases openable with
  | @openPartition key given checked _ =>
      simp only [checkOpenArguments, bind_eq_ok, failIf_eq_ok, exists_const, not_and] at checked
      obtain ⟨-, -, -, large, -⟩ := checked
      change _ ≤ (orDefault given.segmentBytes defaultSegmentBytes).toNat
      unfold orDefault
      split
      · decide
      · rename_i chosen
        have least := UInt64.le_iff_toNat_le.1 (UInt64.not_lt.1 (large chosen))
        exact Nat.le_trans (by decide) least
  | createTopic checked => exact Nat.le_of_add_right_le (checkTopicArguments_room checked)

/-- Over files within the configured size, calls whose batches have room in an empty
segment or meet one keep every segment file within it; for any further call this is what it
takes, and on a partition made by `createTopic` it is always so. -/
theorem segments_bounded {drawn : SegmentID} {topic : TopicID} {partition : UInt32}
    {options : PartitionOptions} {storeID : StoreID} {before d : Dir Name}
    {w : Partition × Dir Name}
    (openable : OpenableOptions options)
    (opened : Prog.Runs Dir.device (openPartition drawn topic partition options storeID) before
      (.ok p) d)
    (within : LogsWithin options.segmentBytes.toNat before) (run : BoundedRun (p, d) w) :
    LogsWithin options.segmentBytes.toNat w.2 ∧
      (∀ (call : AppendCall) outcome w', call.Steps w outcome w' →
        (call.Bounded w outcome w' ↔ call.KeepsBound w.1)) ∧
      ∀ name partitions given config, checkTopicArguments name partitions given = .ok config →
        options = given.normalize.toPartitionOptions →
          ∀ call : AppendCall, call.KeepsBound w.1 := by
  obtain ⟨first, closed, last, represents⟩ := runs_openPartition opened
  obtain rfl := first.options_eq
  have start : LogsWithin p.options.segmentBytes.toNat d := by
    intro base data found
    rcases first.files base data found with ⟨whole, held, front⟩ | ⟨-, length⟩
    · exact front.length_le.trans (within base whole held)
    · exact length ▸ openable.header_le
  obtain ⟨same, stays, closed', last', kept⟩ := run.within represents start
  refine ⟨stays, fun call outcome w' steps => ?_,
    fun name partitions given config checked given' => ?_⟩
  · exact steps.bounded_iff kept (same ▸ stays)
  · intro call arrives
    have room := checkTopicArguments_room checked
    have small := arrives.taken.limits.2.2
    have sizes : w.1.options = given.normalize.toPartitionOptions := same.trans given'
    rw [sizes] at small
    left
    rw [Partition.Fits, sizes]
    omega

/-! ## A partition outside of the catalog -/

namespace NarrowSegments

/-- Segments of 160 bytes; the batches have the default limit of 64 MiB. -/
def given : OpenOptions :=
  { systemPartitionConfig.options with segmentBytes := 160 }

def options : PartitionOptions := given.normalize.toPartitionOptions

theorem accepted : checkOpenArguments ⟨7, 0⟩ given = .ok () ∧
    given.normalize.validateWriter = .ok () := by
  decide +kernel

def batch (offset : UInt64) (value : Bytes) : RecordBatch :=
  { topic := 7, partition := 0, baseOffset := offset
    records := [{ topic := 7, partition := 0, offset, timestamp := 0, key := none
                  value := some value, headers := [] }] }

def call (offset : UInt64) (value : Bytes) : AppendCall :=
  .batch (batch offset value)

/-- Open the partition, append a record without bytes and then one with the value. -/
def appends (value : Bytes) :
    DirM (Except GoError (List Record) × Except GoError (List Record)) := do
  let p ← openPartition 1 7 0 options 1
  let (p, first) ← (call 0 []).run p 3 true
  let (_, second) ← (call 1 value).run p 2 true
  return (first, second)

/-- What both appends told, and the length of the second segment. -/
def observed (value : Bytes) : Option (Bool × Bool) × Option Nat :=
  let (told, d) := Prog.run Dir.device (appends value) ∅
  (told.toOption.map fun told => (told.1.toBool, told.2.toBool), (d.read? (.log 1)).map List.length)

theorem steps_of_observed {value : Bytes} {length : Nat}
    (saw : observed value = (some (true, true), some length)) :
    ∃ p d p₁ d₁ p₂ d₂ first second,
      Prog.Runs Dir.device (openPartition 1 7 0 options 1) ∅ (.ok p) d ∧
      (call 0 []).Steps (p, d) (.ok first) (p₁, d₁) ∧
      (call 1 value).Steps (p₁, d₁) (.ok second) (p₂, d₂) ∧
      ∃ data, d₂.read? (.log 1) = some data ∧ data.length = length := by
  rw [observed] at saw
  rcases ran : Prog.run Dir.device (appends value) ∅ with ⟨result, stop⟩
  rw [ran] at saw
  obtain ⟨told, size⟩ := Prod.mk.inj saw
  cases result with
  | error e => cases told
  | ok both =>
      obtain ⟨p, d, opened, ran⟩ := Prog.run_bind_eq_ok.1 ran
      obtain ⟨⟨p₁, first⟩, d₁, wrote, ran⟩ := Prog.run_bind_eq_ok.1 ran
      obtain ⟨⟨p₂, second⟩, d₂, wrote', ending⟩ := Prog.run_bind_eq_ok.1 ran
      obtain ⟨same, rfl⟩ := Prod.mk.inj ending
      obtain rfl : (first, second) = both := Except.ok.inj same
      obtain ⟨acked, acked'⟩ := Prod.mk.inj (Option.some.inj told)
      cases first with
      | error e => cases acked
      | ok first =>
          cases second with
          | error e => cases acked'
          | ok second =>
              exact ⟨p, d, p₁, d₁, p₂, d₂, first, second, .of_run opened,
                ⟨3, true, .of_run wrote⟩, ⟨2, true, .of_run wrote'⟩, Option.map_eq_some_iff.1 size⟩

/-- A batch that no empty segment has room for is acknowledged behind another one: its file has
224 bytes. -/
theorem oversized_segment :
    checkOpenArguments ⟨7, 0⟩ given = .ok () ∧ given.normalize.validateWriter = .ok () ∧
      ∃ p d p₁ d₁ p₂ d₂ first second,
        Prog.Runs Dir.device (openPartition 1 7 0 options 1) ∅ (.ok p) d ∧
        (call 0 []).Steps (p, d) (.ok first) (p₁, d₁) ∧
        (call 1 (List.replicate 64 7)).Steps (p₁, d₁) (.ok second) (p₂, d₂) ∧
        ¬ LogsWithin options.segmentBytes.toNat d₂ := by
  have saw : observed (List.replicate 64 7) = (some (true, true), some 224) := by decide +kernel
  obtain ⟨p, d, p₁, d₁, p₂, d₂, first, second, opened, steps, steps', data, held, length⟩ :=
    steps_of_observed saw
  refine ⟨accepted.1, accepted.2, p, d, p₁, d₁, p₂, d₂, first, second, opened, steps, steps',
    fun within => ?_⟩
  have small := within 1 data held
  have limit : options.segmentBytes.toNat = 160 := rfl
  omega

/-- Two batches that just have room are acknowledged, the second one behind a roll, and all
files are within the configured size. -/
theorem rolled_within : ∃ p d p₁ d₁ p₂ d₂ first second,
    Prog.Runs Dir.device (openPartition 1 7 0 options 1) ∅ (.ok p) d ∧
      (call 0 []).Steps (p, d) (.ok first) (p₁, d₁) ∧
      (call 1 []).Steps (p₁, d₁) (.ok second) (p₂, d₂) ∧
      (∃ data, d₂.read? (.log 1) = some data ∧ data.length = 160) ∧
      LogsWithin options.segmentBytes.toNat d₂ := by
  have saw : observed [] = (some (true, true), some 160) := by decide +kernel
  obtain ⟨p, d, p₁, d₁, p₂, d₂, first, second, opened, steps, steps', held⟩ :=
    steps_of_observed saw
  refine ⟨p, d, p₁, d₁, p₂, d₂, first, second, opened, steps, steps', held, ?_⟩
  have same : p.options = options := (runs_openPartition opened).1.options_eq
  have same' : p₁.options = options := steps.options_eq.trans same
  have keeps {q : Partition} {offset : UInt64} (same : q.options = options)
      (small : segmentHeaderBytes.toNat + (batch offset []).bytes.length ≤
        options.segmentBytes.toNat) : (call offset []).KeepsBound q := by
    refine fun _ => .inl ?_
    rw [Partition.Fits, same]
    exact small
  have run : BoundedRun (p, d) (p₂, d₂) :=
    (Relation.ReflTransGen.single ⟨_, _, keeps same (by decide +kernel), steps⟩).tail
      ⟨_, _, keeps same' (by decide +kernel), steps'⟩
  exact (segments_bounded (.openPartition accepted.1 accepted.2) opened
    (fun base data held => by cases held) run).1

end NarrowSegments

end Immulog
