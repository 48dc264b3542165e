import Immulog.Recovery

/-!
Read-only validation of topic storage (`src/storage/preflight.go`).

`validateSegmentReadOnly` walks over a segment file as `recoverSegment` does, and cuts
nothing off.
-/

namespace Immulog

open Lib

/-! ## One segment -/

/-- The loop over the batches: the offset behind them and their records. -/
def validateBatches (topic : TopicID) (partition : UInt32) (final : Bool) :
    Nat → Bytes → UInt64 → Nat → Except GoError (UInt64 × Nat)
  | 0, _, current, records => return (current, records)
  | fuel + 1, rest, current, records =>
      if rest = [] then return (current, records)
      else if rest.length < batchHeaderBytes.toNat then
        throw (corrupt .errInvalidBatch "partial batch header")
      else
        let batchLength := uint32 (slice rest 8 12)
        if rest.length < batchLength.toNat then
          if final = true ∧ canTruncateTail rest current then return (current, records)
          else throw (corrupt .errInvalidBatch "incomplete batch body")
        else do
          failIf (batchLength < batchHeaderBytes.toUInt32 + 4)
            (corrupt .errInvalidBatch "invalid batch length")
          let batch ← decodeBatch (slice rest 0 batchLength.toNat) topic partition
          failIf (batch.baseOffset ≠ current)
            (corrupt .errInvalidBatch "batch base offset is not the expected next offset")
          validateBatches topic partition final fuel (rest.drop batchLength.toNat)
            (current + .ofNat batch.records.length) (records + batch.records.length)

/-- The offset behind the segment and the bytes of its header. -/
def validateSegmentAt (dir : Dir Name) (name : Name) (topic : TopicID) (partition : UInt32)
    (final : Bool) (expected : UInt64) (maxBytes : UInt64) : Except GoError (UInt64 × Bytes) := do
  let data ← (dir.read? name).elim (throw (ioError "open segment")) pure
  failIf (data.length < segmentHeaderBytes.toNat ∨ maxBytes.toNat < data.length)
    (corrupt .errInvalidSegment "segment size is outside configured limits")
  let headerBytes := slice data 0 segmentHeaderBytes.toNat
  let header ← decodeSegmentHeader headerBytes topic partition
  failIf (name ≠ .log header.baseOffset ∨ header.baseOffset ≠ expected)
    (corrupt .errInvalidSegment "segment header/path/order mismatch")
  let (current, records) ← validateBatches topic partition final data.length
    (data.drop segmentHeaderBytes.toNat) header.baseOffset 0
  failIf (final = false ∧ records = 0)
    (corrupt .errInvalidSegment "non-final segment is empty")
  return (current, headerBytes)

def validateSegmentReadOnly (dir : Dir Name) (base : UInt64) : TopicID → UInt32 → Bool → UInt64 →
    UInt64 → Except GoError (UInt64 × Bytes) :=
  validateSegmentAt dir (.log base)

/-- The loop is the one of recovery, without what recovery collects. -/
theorem validateBatches_eq {topic : TopicID} {partition : UInt32} {final : Bool} {fuel : Nat}
    {rest : Bytes} {r : Recovered} :
    validateBatches topic partition final fuel rest r.current r.records =
      (recoverBatches topic partition final fuel rest r).map fun found =>
        (found.1.current, found.1.records) := by
  induction fuel generalizing rest r with
  | zero => rfl
  | succ fuel ih =>
      unfold validateBatches recoverBatches
      by_cases empty : rest = []
      · rw [if_pos empty, if_pos empty]
        rfl
      rw [if_neg empty, if_neg empty]
      by_cases short : rest.length < batchHeaderBytes.toNat
      · rw [if_pos short, if_pos short]
        rfl
      rw [if_neg short, if_neg short]
      by_cases cut : rest.length < (uint32 (slice rest 8 12)).toNat
      · simp only [if_pos cut]
        split <;> rfl
      simp only [if_neg cut]
      by_cases small : uint32 (slice rest 8 12) < batchHeaderBytes.toUInt32 + 4
      · rw [failIf_of small]
        rfl
      simp only [failIf_of_not small, ok_bind]
      cases decodeBatch (slice rest 0 (uint32 (slice rest 8 12)).toNat) topic partition with
      | error e => rfl
      | ok batch =>
          simp only [ok_bind]
          by_cases order : batch.baseOffset ≠ r.current
          · rw [failIf_of order]
            rfl
          · simp only [failIf_of_not order, ok_bind]
            exact ih (r := r.push batch (slice rest 0 (uint32 (slice rest 8 12)).toNat))

/-- Validation accepts the files that recovery reads and that are not too large. -/
theorem validateSegmentReadOnly_eq_ok {dir : Dir Name} {base : UInt64} {topic : TopicID}
    {partition : UInt32} {final : Bool} {expected maxBytes next : UInt64} {headerBytes : Bytes} :
    validateSegmentReadOnly dir base topic partition final expected maxBytes =
        .ok (next, headerBytes) ↔
      ∃ data header recovered cut, dir.read? (.log base) = some data ∧
        data.length ≤ maxBytes.toNat ∧
        readSegment base topic partition final expected data = .ok (header, recovered, cut) ∧
        ¬ (final = false ∧ recovered.records = 0) ∧ recovered.current = next ∧
        slice data 0 segmentHeaderBytes.toNat = headerBytes := by
  have loop : ∀ (header : SegmentHeader) (data : Bytes),
      validateBatches topic partition final data.length (data.drop segmentHeaderBytes.toNat)
          header.baseOffset 0 =
        (recoverBatches topic partition final data.length (data.drop segmentHeaderBytes.toNat)
          (recoveryStart header)).map fun found => (found.1.current, found.1.records) :=
    fun header data => validateBatches_eq (r := recoveryStart header)
  unfold validateSegmentReadOnly validateSegmentAt readSegment readSegmentAt
  cases read : dir.read? (.log base) with
  | none => simp
  | some data =>
      simp only [Option.elim_some, pure_eq_ok, ok_bind, bind_eq_ok, failIf_eq_ok, exists_const,
        not_or, Nat.not_lt, loop, map_eq_ok, Prod.exists, Except.ok.injEq, Prod.mk.injEq,
        Option.some.injEq]
      constructor
      · rintro ⟨⟨long, small⟩, header, decoded, order, _, _, ⟨recovered, cut, looped, rfl, rfl⟩,
          filled, rfl, rfl⟩
        exact ⟨data, header, recovered, cut, rfl, small,
          ⟨long, header, decoded, order, recovered, cut, looped, rfl, rfl, rfl⟩, filled, rfl, rfl⟩
      · rintro ⟨_, header, recovered, cut, rfl, small,
          ⟨long, header', decoded, order, recovered', cut', looped, rfl, rfl, rfl⟩, filled,
            rfl, rfl⟩
        exact ⟨⟨long, small⟩, header', decoded, order, _, _, ⟨recovered', cut', looped, rfl, rfl⟩,
          filled, rfl, rfl⟩

end Immulog
