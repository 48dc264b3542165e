import Immulog.Durability

/-!
Recovery of a segment behind which a write was cut.

A write that stops leaves some of the bytes of its batch behind the log.  Where the cut
lies decides what recovery does: nothing or all of the batch is taken as it is, a piece
that holds the batch header is cut off, and a shorter piece stops recovery.
-/

namespace Immulog

open Lib

section TornTail

variable {topic : TopicID} {partition : UInt32} {base : UInt64} {s : SegmentLog} {b : RecordBatch}
  {d : Dir Name} {f : File} {durable : Bool} {k : Nat}

/-- An incomplete batch in a closed segment stops recovery. -/
theorem recoverBatches_incomplete {rest : Bytes} {r : Recovered} {fuel : Nat} (valid : b.Valid)
    (front : rest <+: b.bytes) (header : 48 ≤ rest.length) (cut : rest.length < b.bytes.length)
    (enough : rest.length ≤ fuel) :
    recoverBatches topic partition false fuel rest r =
      .error (corrupt .errInvalidBatch "incomplete batch body") := by
  obtain ⟨fuel, rfl⟩ : ∃ n, fuel = n + 1 := ⟨fuel - 1, by omega⟩
  have nonempty : rest ≠ [] := List.ne_nil_of_length_pos (by omega)
  have long : ¬ rest.length < batchHeaderBytes.toNat := Nat.not_lt.2 header
  have field := RecordBatch.length_field valid (.inl front) (by omega)
  have short : rest.length < b.total := by simpa using cut
  rw [recoverBatches, if_neg nonempty, if_neg long]
  simp only [field, if_pos short, Bool.false_eq_true, false_and, if_false, throw_eq_error]

/-- A segment that cannot be read is left as it is. -/
theorem run_recoverSegment_refused {final : Bool} {expected : UInt64} {data : Bytes} {e : GoError}
    (read : d.read? (.log base) = some data)
    (refused : readSegment base topic partition final expected data = .error e) :
    Prog.run Dir.device (recoverSegment base topic partition final expected) d = (.error e, d) := by
  simp only [recoverSegment, recoverSegmentAt, readSegmentAt_log]
  rw [Prog.run_bind_ok (Prog.run_get ..), read]
  simp only [Option.elim_some, pure_eq_ok]
  rw [Prog.run_bind_ok (Prog.run_ofExcept ..), refused]
  exact Prog.run_bind_error (Prog.run_ofExcept ..)

/-- A piece that has its header but not its end is cut off when the segment is the last one. -/
theorem run_recoverSegment_incomplete (valid : s.Valid topic partition base) {tail : Bytes}
    (found : d.lookup (.log base) = some ⟨some f, durable⟩) (holds : f.data = s.bytes ++ tail)
    (batch : b.Valid) (front : tail <+: b.bytes) (header : 48 ≤ tail.length)
    (cut : tail.length < b.bytes.length) :
    Prog.run Dir.device (recoverSegment base topic partition false base) d =
      (.error (corrupt .errInvalidBatch "incomplete batch body"), d) := by
  have read : d.read? (.log base) = some (s.bytes ++ tail) := by
    rw [read?_of_lookup found, holds]
  obtain ⟨fuel, enough, same⟩ := readSegment_holds valid false tail
  refine run_recoverSegment_refused read ?_
  rw [same, recoverBatches_incomplete batch front header cut enough]
  rfl

/-- What recovery makes of a segment file that holds a log and the first `k` bytes of the batch
that was to follow. -/
structure RecoversCut (s : SegmentLog) (b : RecordBatch) (topic : TopicID) (partition : UInt32)
    (base : UInt64) (d : Dir Name) (k : Nat) : Prop where
  untouched : k = 0 →
    Prog.run Dir.device (recoverSegment base topic partition true base) d = (.ok s.shown, d)
  refused : 1 ≤ k → k ≤ 47 → ∃ e,
    Prog.run Dir.device (recoverSegment base topic partition true base) d = (.error e, d)
  truncated : 48 ≤ k → k < b.bytes.length → ∃ d',
    Prog.run Dir.device (recoverSegment base topic partition true base) d = (.ok s.shown, d') ∧
      d'.read? (.log base) = some s.bytes ∧
      ∀ name, name ≠ .log base → d'.lookup name = d.lookup name
  complete : k = b.bytes.length →
    Prog.run Dir.device (recoverSegment base topic partition true base) d =
      (.ok (s.push b).shown, d)
  /-- Recovery is done once and for all. -/
  again : ∀ result d',
    Prog.run Dir.device (recoverSegment base topic partition true base) d = (result, d') →
      Prog.run Dir.device (recoverSegment base topic partition true base) d' = (result, d')
  /-- In a segment that another one follows, no piece of a batch is accepted. -/
  closed : 0 < k → k < b.bytes.length → ∃ e,
    Prog.run Dir.device (recoverSegment base topic partition false base) d = (.error e, d)

/-- Recovery of a segment whose last batch was cut at `k` bytes, at every `k`: a piece of the batch
header is refused, a longer piece is cut off, and the whole batch is kept. -/
theorem recoverSegment_cut_exact (valid : s.Valid topic partition base) (batch : b.Valid)
    (topicEq : b.topic = topic) (partitionEq : b.partition = partition)
    (next : b.baseOffset = s.endOffset) (inside : k ≤ b.bytes.length)
    (found : d.lookup (.log base) = some ⟨some f, durable⟩)
    (holds : f.data = s.bytes ++ b.bytes.take k) :
    RecoversCut s b topic partition base d k := by
  have front : b.bytes.take k <+: b.bytes := List.take_prefix k _
  have size : (b.bytes.take k).length = k := List.length_take_of_le inside
  have untouched : k = 0 → Prog.run Dir.device (recoverSegment base topic partition true base) d =
      (.ok s.shown, d) := by
    intro none
    rw [none, List.take_zero, List.append_nil] at holds
    exact run_recoverSegment_whole true valid found holds fun wrong => by cases wrong
  have refused : ∀ final, 1 ≤ k → k ≤ 47 →
      Prog.run Dir.device (recoverSegment base topic partition final base) d =
        (.error (corrupt .errInvalidBatch "partial batch header"), d) := by
    intro final some short
    exact run_recoverSegment_short final valid found holds (List.ne_nil_of_length_pos (by omega))
      (by omega)
  have truncated : 48 ≤ k → k < b.bytes.length →
      Prog.run Dir.device (recoverSegment base topic partition true base) d =
        (.ok s.shown, d.insert (.log base) ⟨some ⟨s.bytes, s.bytes⟩, durable⟩) := fun header cut =>
    run_recoverSegment_cut valid found holds batch next front (by omega) (by omega)
  have complete : k = b.bytes.length →
      Prog.run Dir.device (recoverSegment base topic partition true base) d =
        (.ok (s.push b).shown, d) := by
    intro all
    rw [all, List.take_length, ← SegmentLog.bytes_push] at holds
    exact run_recoverSegment_whole true (valid.push batch topicEq partitionEq next) found holds
      fun wrong => by cases wrong
  refine ⟨untouched, fun some short => ⟨_, refused true some short⟩, fun header cut => ?_, complete,
    fun result d' ran => ?_, fun some cut => ?_⟩
  · refine ⟨_, truncated header cut, ?_, fun name other => AList.lookup_insert_ne other⟩
    exact read?_of_lookup (AList.lookup_insert _)
  · -- the four places of the cut
    rcases Nat.eq_zero_or_pos k with none | some
    · rw [untouched none] at ran
      obtain ⟨rfl, rfl⟩ := Prod.mk.inj ran
      exact untouched none
    · rcases Nat.lt_or_ge k 48 with short | header
      · rw [refused true some (by omega)] at ran
        obtain ⟨rfl, rfl⟩ := Prod.mk.inj ran
        exact refused true some (by omega)
      · rcases Nat.lt_or_ge k b.bytes.length with cut | all
        · rw [truncated header cut] at ran
          obtain ⟨rfl, rfl⟩ := Prod.mk.inj ran
          exact run_recoverSegment_whole true valid (AList.lookup_insert _) rfl
            fun wrong => by cases wrong
        · rw [complete (Nat.le_antisymm inside all)] at ran
          obtain ⟨rfl, rfl⟩ := Prod.mk.inj ran
          exact complete (Nat.le_antisymm inside all)
  · rcases Nat.lt_or_ge k 48 with short | header
    · exact ⟨_, refused false some (by omega)⟩
    · exact ⟨_, run_recoverSegment_incomplete valid found holds batch front (by omega) (by omega)⟩

end TornTail

/-- A small log behind which two bytes of a batch body were written. -/
theorem SmallLog.torn_batch_recovered :
    log.Valid 2 0 0 ∧ batch.Valid ∧ 50 < batch.bytes.length ∧
      RecoversCut log batch 2 0 0 (dirWith (log.bytes ++ batch.bytes.take 50) []) 50 := by
  have valid : log.Valid 2 0 0 := (chain_concat.1 chain_log).2
  have long : 50 < batch.bytes.length := by
    have bounds := batch_valid.total_bounds
    rw [RecordBatch.length_bytes]
    omega
  exact ⟨valid, batch_valid, long, recoverSegment_cut_exact valid batch_valid rfl rfl rfl long.le
    (lookup_dirWith _ _) rfl⟩

end Immulog
