import Immulog.Lib.Longest
import Immulog.RetainedLog

/-!
Retention meets its policy.

The policy speaks about ages and sizes as integers: a segment expires by time when its
newest record is old enough, and by size when it and all later segments together exceed
the limit.  A pass retires the longest run of expiring segments from the front, without
the active one and at most as many as one event lists.  The code computes ages from
wrapped 64-bit words and keeps the bytes of the remaining segments in a counter; both
come to the integers of the policy.
-/

namespace Immulog

open Lib

/-! ## The policy -/

/-- The bytes of segments. -/
def segmentBytes (segments : List Segment) : Nat :=
  (segments.map Segment.size).sum

/-- The newest record is known, not in the future, and at least that old. -/
def AgedBy (nowMillis maxTime : Int64) (durationMillis : UInt64) : Prop :=
  maxTime ≠ Int64.minValue ∧ maxTime.toInt ≤ nowMillis.toInt ∧
    (durationMillis.toNat : Int) ≤ nowMillis.toInt - maxTime.toInt

def TimeExpired (config : PartitionConfigV1) (nowMillis : Int64) (s : Segment) : Prop :=
  config.retentionMask &&& retentionReasonTime ≠ 0 ∧
    AgedBy nowMillis s.maxTime config.retentionMillis

/-- The segments together are larger than the configured size. -/
def SizeExceeded (config : PartitionConfigV1) (segments : List Segment) : Prop :=
  config.retentionMask &&& retentionReasonSize ≠ 0 ∧
    config.retentionBytes.toNat < segmentBytes segments

/-- The segment at the index has expired by time. -/
def ExpiresByTime (config : PartitionConfigV1) (nowMillis : Int64) (segments : List Segment)
    (index : Nat) : Prop :=
  ∃ s, segments[index]? = some s ∧ TimeExpired config nowMillis s

/-- The segments from the index on exceed the size. -/
def ExpiresBySize (config : PartitionConfigV1) (segments : List Segment) (index : Nat) : Prop :=
  SizeExceeded config (segments.drop index)

def Expires (config : PartitionConfigV1) (nowMillis : Int64) (segments : List Segment)
    (index : Nat) : Prop :=
  ExpiresByTime config nowMillis segments index ∨ ExpiresBySize config segments index

/-- The policy asks for the active segment to be closed. -/
def RollDue (config : PartitionConfigV1) (nowMillis : Int64) (p : Partition) : Prop :=
  p.active.records ≠ 0 ∧
    (SizeExceeded config p.segments ∨
      (config.retentionMask &&& retentionReasonTime ≠ 0 ∧
        AgedBy nowMillis p.active.maxTime config.maxSegmentAgeMillis))

/-! ## Ages -/

/-- The age is exact although it is computed from words. -/
theorem elapsedAtLeast_iff {nowMillis timestampMillis : Int64} {durationMillis : UInt64} :
    elapsedAtLeast nowMillis timestampMillis durationMillis = true ↔
      AgedBy nowMillis timestampMillis durationMillis := by
  unfold elapsedAtLeast AgedBy
  split
  · rename_i early
    simp only [Bool.false_eq_true, false_iff, not_and]
    intro known past
    rcases early with unknown | future
    · exact absurd unknown known
    · exact absurd (Int64.lt_iff_toInt_lt.1 future) (by omega)
  · rename_i late
    rw [not_or] at late
    have past : timestampMillis.toInt ≤ nowMillis.toInt := by
      have := late.2
      rw [Int64.lt_iff_toInt_lt] at this
      omega
    have words : ∀ t : Int64, t.toInt = (t.toUInt64.toNat : Int) ∨
        t.toInt = (t.toUInt64.toNat : Int) - 2 ^ 64 := by
      intro t
      have := BitVec.toInt_eq_toNat_cond t.toBitVec
      change t.toInt = (if 2 * t.toUInt64.toNat < 2 ^ 64 then _ else _) at this
      split at this
      · exact .inl this
      · exact .inr this
    have age : ((nowMillis.toUInt64 - timestampMillis.toUInt64).toNat : Int) =
        nowMillis.toInt - timestampMillis.toInt := by
      have nowWord := words nowMillis
      have thenWord := words timestampMillis
      have nowSmall := nowMillis.toUInt64.toNat_lt
      have thenSmall := timestampMillis.toUInt64.toNat_lt
      have lower := Int64.le_toInt timestampMillis
      have upper := Int64.toInt_lt nowMillis
      rw [UInt64.toNat_sub]
      omega
    rw [decide_eq_true_iff, UInt64.le_iff_toNat_le, ← age]
    constructor
    · intro aged
      exact ⟨late.1, past, by exact_mod_cast aged⟩
    · intro aged
      exact_mod_cast aged.2.2

/-- The source's test by age is the policy's. -/
theorem timeEligible_iff {config : PartitionConfigV1} {nowMillis : Int64} {s : Segment} :
    timeEligible config nowMillis s.maxTime = true ↔ TimeExpired config nowMillis s := by
  rw [timeEligible, decide_eq_true_iff, elapsedAtLeast_iff, TimeExpired]

/-- The test by size compares the total that is left. -/
theorem sizeEligible_iff {config : PartitionConfigV1} {segments : List Segment} {total : UInt64}
    (counted : total.toNat = segmentBytes segments) :
    sizeEligible config total = true ↔ SizeExceeded config segments := by
  rw [sizeEligible, decide_eq_true_iff, SizeExceeded, ← counted, UInt64.lt_iff_toNat_lt]

/-! ## Reasons -/

theorem or_and_mask (a b mask : UInt8) : (a ||| b) &&& mask = (a &&& mask) ||| (b &&& mask) := by
  apply UInt8.toBitVec_inj.1
  rw [UInt8.toBitVec_and, UInt8.toBitVec_or, UInt8.toBitVec_or, UInt8.toBitVec_and,
    UInt8.toBitVec_and]
  ext index
  simp [Bool.and_or_distrib_right]

/-- The bits of a mask with the reasons of one segment joined to it. -/
theorem joined_bits (mask : UInt8) (byTime bySize : Bool) :
    let joined := mask ||| (if byTime then retentionReasonTime else 0) |||
      (if bySize then retentionReasonSize else 0)
    (joined &&& retentionReasonTime ≠ 0 ↔ mask &&& retentionReasonTime ≠ 0 ∨ byTime = true) ∧
      (joined &&& retentionReasonSize ≠ 0 ↔ mask &&& retentionReasonSize ≠ 0 ∨ bySize = true) ∧
      joined &&& ~~~3 = mask &&& ~~~3 := by
  have apart : (2 : UInt8) &&& 1 = 0 ∧ (1 : UInt8) &&& 2 = 0 ∧ (1 : UInt8) &&& ~~~3 = 0 ∧
      (2 : UInt8) &&& ~~~3 = 0 := by decide
  simp only [or_and_mask, ne_eq, UInt8.or_eq_zero_iff, retentionReasonTime, retentionReasonSize]
  cases byTime <;> cases bySize <;> simp [apart]

/-- The reasons of the first `n` segments have been joined to the mask. -/
structure JoinsReasons (config : PartitionConfigV1) (nowMillis : Int64) (segments : List Segment)
    (n : Nat) (mask mask' : UInt8) : Prop where
  time : mask' &&& retentionReasonTime ≠ 0 ↔
    mask &&& retentionReasonTime ≠ 0 ∨ ∃ i < n, ExpiresByTime config nowMillis segments i
  size : mask' &&& retentionReasonSize ≠ 0 ↔
    mask &&& retentionReasonSize ≠ 0 ∨ ∃ i < n, ExpiresBySize config segments i
  other : mask' &&& ~~~3 = mask &&& ~~~3

section Selecting

variable {config : PartitionConfigV1} {nowMillis : Int64}

theorem JoinsReasons.zero (segments : List Segment) (mask : UInt8) :
    JoinsReasons config nowMillis segments 0 mask mask :=
  ⟨by simp, by simp, rfl⟩

theorem exists_lt_succ {P : Nat → Prop} {n : Nat} :
    (∃ i < n + 1, P i) ↔ P 0 ∨ ∃ i < n, P (i + 1) := by
  constructor
  · intro found
    obtain ⟨i, inside, holds⟩ := found
    cases i with
    | zero => exact .inl holds
    | succ i => exact .inr ⟨i, Nat.lt_of_succ_lt_succ inside, holds⟩
  · intro found
    rcases found with first | ⟨i, inside, holds⟩
    · exact ⟨0, Nat.succ_pos n, first⟩
    · exact ⟨i + 1, Nat.succ_lt_succ inside, holds⟩

/-- One more expired segment joins its reasons to the mask. -/
theorem JoinsReasons.succ {s : Segment} {segments : List Segment} {n : Nat} {mask mask' : UInt8}
    {byTime bySize : Bool} (time : byTime = true ↔ TimeExpired config nowMillis s)
    (size : bySize = true ↔ SizeExceeded config (s :: segments))
    (later : JoinsReasons config nowMillis segments n
      (mask ||| (if byTime then retentionReasonTime else 0) |||
        (if bySize then retentionReasonSize else 0)) mask') :
    JoinsReasons config nowMillis (s :: segments) (n + 1) mask mask' := by
  obtain ⟨timeBit, sizeBit, otherBits⟩ := joined_bits mask byTime bySize
  have firstTime : ExpiresByTime config nowMillis (s :: segments) 0 ↔ byTime = true := by
    rw [time]
    simp [ExpiresByTime]
  have firstSize : ExpiresBySize config (s :: segments) 0 ↔ bySize = true := by
    rw [size]
    simp [ExpiresBySize]
  refine ⟨?_, ?_, later.other.trans otherBits⟩
  · rw [later.time, timeBit, exists_lt_succ, firstTime, or_assoc]
    rfl
  · rw [later.size, sizeBit, exists_lt_succ, firstSize, or_assoc]
    rfl

/-! ## The loop over the segments -/

theorem segmentBytes_cons (s : Segment) (segments : List Segment) :
    segmentBytes (s :: segments) = s.size + segmentBytes segments := by
  simp [segmentBytes]

/-- The loop retires the longest run of expiring segments; it cannot fail when the counter
starts with the bytes of all segments. -/
theorem selectRetired_longest (config : PartitionConfigV1) (nowMillis : Int64) (limit : Nat)
    (mask : UInt8) {closed later : List Segment} {total : UInt64}
    (counted : total.toNat = segmentBytes (closed ++ later)) :
    ∃ n mask' total',
      selectRetired config nowMillis limit closed mask total =
        .ok (closed.take n, mask', total') ∧
      LongestRun (Expires config nowMillis (closed ++ later)) (min limit closed.length) n ∧
      JoinsReasons config nowMillis (closed ++ later) n mask mask' ∧
      total'.toNat = segmentBytes ((closed ++ later).drop n) := by
  induction limit generalizing closed mask total with
  | zero =>
      exact ⟨0, mask, total, rfl, .of_stops (Nat.zero_le _) (by simp) (.inl (by simp)), .zero _ _,
        counted⟩
  | succ limit ih =>
      cases closed with
      | nil =>
          exact ⟨0, mask, total, rfl, .of_stops (Nat.zero_le _) (by simp) (.inl (by simp)),
            .zero _ _, counted⟩
      | cons s rest =>
          have time : timeEligible config nowMillis s.maxTime = true ↔ _ := timeEligible_iff
          have size : sizeEligible config total = true ↔ _ := sizeEligible_iff counted
          have first : Expires config nowMillis (s :: rest ++ later) 0 ↔
              ¬ (timeEligible config nowMillis s.maxTime = false ∧
                sizeEligible config total = false) := by
            rw [not_and_or, Bool.not_eq_false, Bool.not_eq_false, time, size]
            simp [Expires, ExpiresByTime, ExpiresBySize]
          by_cases stays : timeEligible config nowMillis s.maxTime = false ∧
              sizeEligible config total = false
          · refine ⟨0, mask, total, ?_, .of_stops (Nat.zero_le _) (by simp)
              (.inr fun expires => first.1 expires stays), .zero _ _, counted⟩
            simp only [selectRetired, if_pos stays, pure_eq_ok, List.take_zero]
          · have fits : s.size ≤ total.toNat := by
              rw [counted, List.cons_append, segmentBytes_cons]
              exact Nat.le_add_right ..
            have small : (UInt64.ofNat s.size).toNat = s.size :=
              toNat_ofNat64 (Nat.lt_of_le_of_lt fits total.toNat_lt)
            have left : (total - .ofNat s.size).toNat = segmentBytes (rest ++ later) := by
              rw [UInt64.toNat_sub_of_le _ _ (by rw [UInt64.le_iff_toNat_le, small]; exact fits),
                small, counted, List.cons_append, segmentBytes_cons]
              exact Nat.add_sub_cancel_left ..
            obtain ⟨n, mask', total', selected, longest, reasons, remaining⟩ := ih _ left
            refine ⟨n + 1, mask', total', ?_, ?_, .succ time size reasons, remaining⟩
            · simp only [selectRetired, if_neg stays, failIf_of_not (Nat.not_lt.2 fits), ok_bind,
                selected, pure_eq_ok, List.take_succ_cons]
            · rw [List.length_cons, Nat.succ_min_succ]
              exact .succ (first.2 stays) longest

end Selecting

/-! ## Counting the bytes -/

/-- Sums within 64 bits are computed exactly. -/
theorem retainedSegmentBytes_fits {segments : List Segment} {total : UInt64}
    (fits : total.toNat + segmentBytes segments < 2 ^ 64) :
    ∃ sum, retainedSegmentBytes segments total = .ok sum ∧
      sum.toNat = total.toNat + segmentBytes segments := by
  induction segments generalizing total with
  | nil => exact ⟨total, rfl, by simp [segmentBytes]⟩
  | cons s rest ih =>
      rw [segmentBytes_cons] at fits ⊢
      have small : (UInt64.ofNat s.size).toNat = s.size := toNat_ofNat64 (by omega)
      have step : (total + .ofNat s.size).toNat = total.toNat + s.size := by
        rw [UInt64.toNat_add, small]
        exact Nat.mod_eq_of_lt (by omega)
      have inside : ¬ maxUint64 < total.toNat + s.size := by
        rw [maxUint64]
        omega
      obtain ⟨sum, summed, value⟩ := ih (by rw [step]; omega)
      refine ⟨sum, ?_, by rw [value, step]; omega⟩
      rw [retainedSegmentBytes, failIf_of_not inside, ok_bind, summed]

/-- A sum beyond 64 bits is reported as a damaged segment. -/
theorem retainedSegmentBytes_overflows {segments : List Segment} {total : UInt64}
    (wraps : 2 ^ 64 ≤ total.toNat + segmentBytes segments) :
    retainedSegmentBytes segments total =
      .error (corrupt .errInvalidSegment "retained segment has invalid logical size") := by
  induction segments generalizing total with
  | nil =>
      have := total.toNat_lt
      simp only [segmentBytes, List.map_nil, List.sum_nil, Nat.add_zero] at wraps
      omega
  | cons s rest ih =>
      rw [retainedSegmentBytes]
      by_cases first : maxUint64 < total.toNat + s.size
      · rw [failIf_of first, error_bind]
      · rw [maxUint64] at first
        have small : (UInt64.ofNat s.size).toNat = s.size := toNat_ofNat64 (by omega)
        have step : (total + .ofNat s.size).toNat = total.toNat + s.size := by
          rw [UInt64.toNat_add, small]
          exact Nat.mod_eq_of_lt (by omega)
        rw [failIf_of_not (by rw [maxUint64]; exact first), ok_bind]
        refine ih ?_
        rw [segmentBytes_cons] at wraps
        rw [step]
        omega

/-! ## Planning -/

/-- Each segment ends where the next one begins, and the last one where the log does. -/
structure Partition.Contiguous (p : Partition) : Prop where
  linked : p.segments.IsChain fun s next => next.header.baseOffset = s.endOffset
  logEnd : p.logEnd = p.active.endOffset

/-- A proposal retires the first `n` segments. -/
structure RetentionProposal.Meets (proposal : RetentionProposal) (config : PartitionConfigV1)
    (nowMillis : Int64) (q : Partition) (n : Nat) : Prop where
  retired : proposal.retired = q.segments.take n
  retained : proposal.retained ++ [q.active] = q.segments.drop n
  anchor : q.segments[n]? = some proposal.anchor
  /-- `L` moves to the end of the last retired segment, -/
  newL_eq : proposal.retired.getLast?.map Segment.endOffset = some proposal.newL
  /-- which is the base of the first retained one. -/
  anchored : proposal.anchor.header.baseOffset = proposal.newL
  reasons : JoinsReasons config nowMillis q.segments n 0 proposal.reasonMask
  remaining : proposal.remainingBytes.toNat = segmentBytes (q.segments.drop n)

/-- There is a proposal exactly when some segment is retired. -/
inductive PlanMeets (config : PartitionConfigV1) (nowMillis : Int64) (q : Partition) :
    Nat → Option RetentionProposal → Prop
  | nothing : PlanMeets config nowMillis q 0 none
  | retires {n : Nat} {proposal : RetentionProposal} (some_retired : 0 < n)
      (proposes : proposal.Meets config nowMillis q n) :
      PlanMeets config nowMillis q n (some proposal)

section Planning

variable {config : PartitionConfigV1} {nowMillis : Int64} {p q : Partition} {d d' : Dir Name}
  {drawn : SegmentID}

theorem maxRetiredSegmentsPerEvent_eq : maxRetiredSegmentsPerEvent = 65536 := by
  decide

/-- The proposal retires the longest expired run of closed segments, up to the limit of an event. -/
theorem proposeRetention_meets (contiguous : q.Contiguous) {total : UInt64}
    (counted : total.toNat = segmentBytes q.segments) :
    ∃ n plan, proposeRetention q config nowMillis total = .ok plan ∧
      LongestRun (Expires config nowMillis q.segments) (min 65536 q.closedSegments.length) n ∧
      PlanMeets config nowMillis q n plan := by
  obtain ⟨n, mask, total', selected, longest, reasons, remaining⟩ :=
    selectRetired_longest config nowMillis maxRetiredSegmentsPerEvent 0 counted
  rw [maxRetiredSegmentsPerEvent_eq] at longest
  have inside : n ≤ q.closedSegments.length := longest.le_bound.trans (Nat.min_le_right ..)
  have size : (q.closedSegments.take n).length = n := List.length_take_of_le inside
  have front : q.segments.take n = q.closedSegments.take n :=
    List.take_append_of_le_length inside
  cases n with
  | zero =>
      refine ⟨0, none, ?_, longest, .nothing⟩
      simp [proposeRetention, selected]
  | succ n =>
      obtain ⟨s, next, here, after⟩ : ∃ s next, q.segments[n]? = some s ∧
          q.segments[n + 1]? = some next := by
        have long : q.segments.length = q.closedSegments.length + 1 := by
          simp [Partition.segments]
        exact ⟨_, _, List.getElem?_eq_getElem (by omega), List.getElem?_eq_getElem (by omega)⟩
      have last : (q.closedSegments.take (n + 1)).getLast? = some s := by
        rw [← front, List.getLast?_eq_getElem?, front, size, ← front,
          List.getElem?_take_of_lt (by omega)]
        exact here
      have rest : q.segments.drop (n + 1) = q.closedSegments.drop (n + 1) ++ [q.active] :=
        List.drop_append_of_le_length inside
      have anchor : (q.closedSegments.drop (n + 1)).head?.getD q.active = next := by
        rw [← List.head?_drop, rest] at after
        cases shape : q.closedSegments.drop (n + 1) with
        | nil => simpa [shape] using after
        | cons first _ => simpa [shape] using after
      let proposal : RetentionProposal :=
        { retired := q.closedSegments.take (n + 1)
          retained := q.closedSegments.drop (n + 1)
          newL := s.endOffset
          anchor := next
          reasonMask := mask
          remainingBytes := total' }
      refine ⟨n + 1, some proposal, ?_, longest, .retires (Nat.succ_pos n) ?_⟩
      · simp only [proposeRetention, selected, ok_bind, last, size, anchor, pure_eq_ok, proposal]
      · refine ⟨front.symm, rest.symm, after, ?_, ?_, reasons, remaining⟩
        · simp only [proposal, last, Option.map_some]
        · obtain ⟨inRange, rfl⟩ := List.getElem?_eq_some_iff.1 here
          obtain ⟨nextInRange, rfl⟩ := List.getElem?_eq_some_iff.1 after
          exact List.isChain_iff_getElem.1 contiguous.linked n nextInRange

/-- How the roll before a plan ends. -/
inductive RollsForRetention (config : PartitionConfigV1) (nowMillis : Int64) (p : Partition) :
    Partition → Except GoError UInt64 → Prop
  | stays {total : UInt64} (counted : total.toNat = segmentBytes p.segments) :
      RollsForRetention config nowMillis p p (.ok total)
  | fails (due : RollDue config nowMillis p) (e : GoError) :
      RollsForRetention config nowMillis p p.fenced (.error e)
  | rolls (due : RollDue config nowMillis p) {sealed : Segment} {header : SegmentHeader}
      {total : UInt64} (reindexed : p.active.Reindexed sealed) (base : header.baseOffset = p.logEnd)
      (counted : total.toNat = segmentBytes (p.rolled sealed header).segments) :
      RollsForRetention config nowMillis p (p.rolled sealed header) (.ok total)
  | overflows (due : RollDue config nowMillis p) {sealed : Segment} {header : SegmentHeader}
      (reindexed : p.active.Reindexed sealed) (base : header.baseOffset = p.logEnd)
      (wraps : 2 ^ 64 ≤ segmentBytes (p.rolled sealed header).segments) (e : GoError) :
      RollsForRetention config nowMillis p (p.rolled sealed header) (.error e)

/-- The roll of a retention pass adds an empty segment. -/
theorem segmentBytes_rolled {sealed : Segment} (reindexed : p.active.Reindexed sealed)
    (header : SegmentHeader) : segmentBytes (p.rolled sealed header).segments =
      segmentBytes p.segments + (p.rolled sealed header).active.size := by
  simp [segmentBytes, Partition.segments, Partition.rolled, reindexed.same.2.2.2, Nat.add_assoc]

/-- A roll is due when the active segment itself has expired. -/
theorem retentionNeedsRoll_iff {total : UInt64}
    (counted : total.toNat = segmentBytes p.segments) :
    (p.active.records ≠ 0 ∧ retentionNeedsRoll p.active total config nowMillis = true) ↔
      RollDue config nowMillis p := by
  rw [RollDue, retentionNeedsRoll, decide_eq_true_iff, sizeEligible_iff counted, elapsedAtLeast_iff]

/-- A pass rolls, fences the partition, or leaves it as it is. -/
theorem rollForRetention_outcome {total : UInt64}
    {result : Except GoError (Partition × Except GoError UInt64)}
    (counted : total.toNat = segmentBytes p.segments)
    (ran : Prog.Runs Dir.device (rollForRetention p config nowMillis total drawn) d result d') :
    ∃ q outcome, result = .ok (q, outcome) ∧
      RollsForRetention config nowMillis p q outcome := by
  unfold rollForRetention at ran
  split at ran
  · rename_i needed
    have due := (retentionNeedsRoll_iff counted).1 needed
    rcases Prog.runs_bind.1 ran with ⟨rolling, mid, rolled, later⟩ | ⟨e, -, failed⟩
    · obtain ⟨-, ⟨e, same, -⟩ | ⟨sealed, reindexed, same, -⟩⟩ := runs_rollSegment rolled
      · obtain rfl := Except.ok.inj same
        obtain ⟨rfl, -⟩ := Prog.runs_done.1 later
        exact ⟨_, _, rfl, .fails due _⟩
      · obtain rfl := Except.ok.inj same
        have grown := segmentBytes_rolled reindexed
          (drawnHeader drawn p.topic p.partition p.logEnd)
        dsimp only at later
        split at later
        · rename_i wraps
          obtain ⟨rfl, -⟩ := Prog.runs_done.1 later
          refine ⟨_, _, rfl, .overflows due reindexed rfl ?_ _⟩
          rw [maxUint64] at wraps
          omega
        · rename_i fits
          obtain ⟨rfl, -⟩ := Prog.runs_done.1 later
          refine ⟨_, _, rfl, .rolls due reindexed rfl ?_⟩
          rw [maxUint64] at fits
          rw [UInt64.toNat_add, toNat_ofNat64 (by omega), Nat.mod_eq_of_lt (by omega)]
          omega
    · obtain ⟨-, ⟨_, wrong, -⟩ | ⟨_, -, wrong, -⟩⟩ := runs_rollSegment failed
      all_goals cases wrong
  · obtain ⟨rfl, -⟩ := Prog.runs_done.1 ran
    exact ⟨_, _, rfl, .stays counted⟩

/-- A roll keeps the segments contiguous. -/
theorem Partition.Contiguous.rolled (contiguous : p.Contiguous) {sealed : Segment}
    {header : SegmentHeader} (reindexed : p.active.Reindexed sealed)
    (base : header.baseOffset = p.logEnd) : (p.rolled sealed header).Contiguous := by
  obtain ⟨-, ends, starts, -⟩ := reindexed.same
  refine ⟨?_, base.symm⟩
  have linked := contiguous.linked
  simp only [Partition.segments, List.isChain_append, List.isChain_singleton, List.head?_cons,
    Option.mem_some_iff, true_and] at linked
  simp only [Partition.segments, Partition.rolled, List.isChain_append, List.isChain_singleton,
    List.head?_cons, List.getLast?_append, Option.mem_some_iff, true_and]
  refine ⟨⟨linked.1, ?_⟩, ?_⟩
  · intro s last next same
    subst same
    rw [starts]
    exact linked.2 s last _ rfl
  · intro s last next same
    subst same
    obtain rfl : sealed = s := by simpa using last
    rw [ends, ← contiguous.logEnd]
    exact base

/-- How planning ends for the partition: the segments it then has, and the plan. -/
structure RetentionPlanned (config : PartitionConfigV1) (nowMillis : Int64) (p q : Partition)
    (planned : Except GoError (Option RetentionProposal)) : Prop where
  /-- A roll is made, or tried, only when it is due. -/
  rolls : q = p ∨ RollDue config nowMillis p ∧ (q = p.fenced ∨
    ∃ sealed header, p.active.Reindexed sealed ∧ header.baseOffset = p.logEnd ∧
      q = p.rolled sealed header)
  plans : ∀ plan, planned = .ok plan → ∃ n,
    LongestRun (Expires config nowMillis q.segments) (min 65536 q.closedSegments.length) n ∧
      n < q.segments.length ∧ PlanMeets config nowMillis q n plan ∧
      (config.retentionMask = retentionReasonSize → q.closedSegments.length < 65536 →
        segmentBytes (q.segments.drop n) ≤ config.retentionBytes.toNat ∨
          (q.segments.drop n).length = 1)
  refuses : ∀ e, planned = .error e →
    (RollDue config nowMillis p ∧ q = p.fenced) ∨ 2 ^ 64 ≤ segmentBytes q.segments

/-- Retention by size alone goes on until the rest is small enough. -/
theorem within_size {n : Nat}
    (longest : LongestRun (Expires config nowMillis q.segments)
      (min 65536 q.closedSegments.length) n)
    (sized : config.retentionMask = retentionReasonSize)
    (few : q.closedSegments.length < 65536) :
    segmentBytes (q.segments.drop n) ≤ config.retentionBytes.toNat ∨
      (q.segments.drop n).length = 1 := by
  have enabled : config.retentionMask &&& retentionReasonSize ≠ 0 := by
    rw [sized]
    decide
  rcases longest.stops with all | stays
  · refine .inr ?_
    rw [List.length_drop, all, Nat.min_eq_right few.le]
    simp [Partition.segments]
  · refine .inl (Nat.le_of_not_lt fun wraps => stays (.inr ⟨enabled, wraps⟩))

/-- With the sum at hand, the pass has planned what the policy asks for. -/
theorem RetentionPlanned.of_counted (contiguous : q.Contiguous) {total : UInt64}
    (counted : total.toNat = segmentBytes q.segments)
    (rolls : q = p ∨ RollDue config nowMillis p ∧ (q = p.fenced ∨
      ∃ sealed header, p.active.Reindexed sealed ∧ header.baseOffset = p.logEnd ∧
        q = p.rolled sealed header)) :
    RetentionPlanned config nowMillis p q (proposeRetention q config nowMillis total) := by
  obtain ⟨n, plan, proposed, longest, meets⟩ := proposeRetention_meets contiguous counted
  rw [proposed]
  refine ⟨rolls, fun plan' same => ?_, fun e wrong => by cases wrong⟩
  obtain rfl := Except.ok.inj same
  refine ⟨n, longest, ?_, meets, within_size longest⟩
  have inside := longest.le_bound.trans (Nat.min_le_right ..)
  simp only [Partition.segments, List.length_append, List.length_singleton]
  omega

/-- A pass that returns an error has retired nothing. -/
theorem RetentionPlanned.refused
    (rolls : q = p ∨ RollDue config nowMillis p ∧ (q = p.fenced ∨
      ∃ sealed header, p.active.Reindexed sealed ∧ header.baseOffset = p.logEnd ∧
        q = p.rolled sealed header))
    (why : (RollDue config nowMillis p ∧ q = p.fenced) ∨ 2 ^ 64 ≤ segmentBytes q.segments)
    (e : GoError) : RetentionPlanned config nowMillis p q (.error e) :=
  ⟨rolls, fun plan wrong => (by cases wrong), fun _ _ => why⟩

/-- Every pass over a chain of segments retires what the policy says, as long as the bytes of
the chain can be counted in 64 bits. -/
theorem planRetentionLocked_meets_policy (contiguous : p.Contiguous)
    {result : Except GoError (Partition × Except GoError (Option RetentionProposal))}
    (ran : Prog.Runs Dir.device (planRetentionLocked p config nowMillis drawn) d result d') :
    ∃ q planned, result = .ok (q, planned) ∧ RetentionPlanned config nowMillis p q planned := by
  unfold planRetentionLocked at ran
  by_cases wraps : 2 ^ 64 ≤ segmentBytes p.segments
  · rw [retainedSegmentBytes_overflows (by simpa using wraps)] at ran
    obtain ⟨rfl, -⟩ := Prog.runs_done.1 ran
    exact ⟨p, _, rfl, .refused (.inl rfl) (.inr wraps) _⟩
  · have fits : (0 : UInt64).toNat + segmentBytes p.segments < 2 ^ 64 := by simpa using wraps
    obtain ⟨total, summed, counted⟩ := retainedSegmentBytes_fits fits
    replace counted : total.toNat = segmentBytes p.segments := by simpa using counted
    rw [summed] at ran
    rcases Prog.runs_bind.1 ran with ⟨rolling, mid, rolled, later⟩ | ⟨e, rfl, failed⟩
    · obtain ⟨q, outcome, same, rolls⟩ := rollForRetention_outcome counted rolled
      obtain rfl := Except.ok.inj same
      cases rolls with
      | stays counted =>
          obtain ⟨rfl, -⟩ := Prog.runs_done.1 later
          exact ⟨p, _, rfl, .of_counted contiguous counted (.inl rfl)⟩
      | fails due e =>
          obtain ⟨rfl, -⟩ := Prog.runs_done.1 later
          exact ⟨_, _, rfl, .refused (.inr ⟨due, .inl rfl⟩) (.inl ⟨due, rfl⟩) _⟩
      | rolls due reindexed base counted =>
          obtain ⟨rfl, -⟩ := Prog.runs_done.1 later
          exact ⟨_, _, rfl, .of_counted (contiguous.rolled reindexed base) counted
            (.inr ⟨due, .inr ⟨_, _, reindexed, base, rfl⟩⟩)⟩
      | overflows due reindexed base wraps e =>
          obtain ⟨rfl, -⟩ := Prog.runs_done.1 later
          exact ⟨_, _, rfl, .refused (.inr ⟨due, .inr ⟨_, _, reindexed, base, rfl⟩⟩) (.inr wraps) _⟩
    · obtain ⟨q, outcome, wrong, -⟩ := rollForRetention_outcome counted failed
      cases wrong

end Planning

/-! ## Two chains -/

namespace RetainedChain

def segment (base : UInt64) (size : Nat) : Segment :=
  { newSegment (drawnHeader 1 2 0 base) with
    endOffset := base + 1, size, records := 1, maxTime := 0 }

/-- Three segments of one size with a record each. -/
def chain (size : Nat) : Partition where
  topic := 2
  partition := 0
  options :=
    { segmentBytes := 1048576, initialOffset := 0, indexStride := 4096, batchBytes := 65536
      batchRecords := 16, recordBytes := 65536, tailSlots := 0, tailBytes := 0 }
  storeID := 1
  tail := none
  closedSegments := [segment 0 size, segment 1 size]
  active := segment 2 size
  logEnd := 3
  closed := false
  closing := false
  unavailable := false

/-- Records expire after a second, and segments are closed after a day. -/
def config : PartitionConfigV1 where
  maxRecordBytes := 65536
  maxBatchBytes := 131072
  maxBatchRecords := 16
  segmentMaxBytes := 1048576
  batchLinger := 0
  retentionMask := 1
  retentionMillis := 1000
  retentionBytes := 0
  maxSegmentAgeMillis := 86400000
  retentionCheckMillis := 1000

theorem contiguous (size : Nat) : (chain size).Contiguous :=
  ⟨by simp [Partition.segments, chain, segment, newSegment, drawnHeader], rfl⟩

theorem aged : AgedBy 5000 0 config.retentionMillis := by
  refine ⟨?_, ?_, ?_⟩ <;> decide

theorem expires (size : Nat) {index : Nat} (inside : index < 2) :
    Expires config 5000 (chain size).segments index := by
  have enabled : config.retentionMask &&& retentionReasonTime ≠ 0 := by decide
  refine .inl ?_
  rcases Nat.lt_succ_iff_lt_or_eq.1 inside with first | rfl
  · obtain rfl := Nat.lt_one_iff.1 first
    exact ⟨_, rfl, enabled, aged⟩
  · exact ⟨_, rfl, enabled, aged⟩

/-- Both closed segments of a small chain go. -/
def proposal : RetentionProposal where
  retired := [segment 0 100, segment 1 100]
  retained := []
  newL := 2
  anchor := segment 2 100
  reasonMask := 1
  remainingBytes := 100

/-- Two of three segments are old enough, and both of them are retired. -/
theorem small_chain_retired :
    (chain 100).Contiguous ∧
      Prog.run Dir.device (planRetentionLocked (chain 100) config 5000 1) ∅ =
        (.ok (chain 100, .ok (some proposal)), ∅) ∧
      RetentionPlanned config 5000 (chain 100) (chain 100) (.ok (some proposal)) := by
  have ran := Prog.Runs.faultFree (D := Dir.device)
    (planRetentionLocked (chain 100) config 5000 1) ∅
  have selected (limit : Nat) : selectRetired config 5000 (limit + 3) (chain 100).closedSegments 0
      300 = .ok ([segment 0 100, segment 1 100], 1, 100) := rfl
  have proposes : proposeRetention (chain 100) config 5000 300 = .ok (some proposal) := by
    rw [proposeRetention, show maxRetiredSegmentsPerEvent = 65533 + 3 by decide, selected]
    rfl
  have planned : Prog.run Dir.device (planRetentionLocked (chain 100) config 5000 1) ∅ =
      (.ok (chain 100, .ok (some proposal)), ∅) := by
    rw [← proposes]
    rfl
  rw [planned] at ran
  obtain ⟨q, planned', same, meets⟩ := planRetentionLocked_meets_policy (contiguous 100) ran
  obtain ⟨rfl, rfl⟩ := Prod.mk.inj (Except.ok.inj same)
  exact ⟨contiguous 100, planned, meets⟩

/-- A chain of three segments of the largest size is too large to be counted: nothing is
retired, although two segments have expired. -/
theorem oversized_chain_refused :
    (chain (2 ^ 63 - 1)).Contiguous ∧ config.validate false = .ok () ∧
      LongestRun (Expires config 5000 (chain (2 ^ 63 - 1)).segments) (min 65536 2) 2 ∧
      Prog.run Dir.device (planRetentionLocked (chain (2 ^ 63 - 1)) config 5000 1) ∅ =
        (.ok (chain (2 ^ 63 - 1), .error
          (corrupt .errInvalidSegment "retained segment has invalid logical size")), ∅) := by
  refine ⟨contiguous _, rfl,
    .of_stops (by decide) (fun i inside => expires _ inside) (.inl rfl), ?_⟩
  rfl

end RetainedChain

end Immulog
