import Immulog.Lib.Longest
import Immulog.Sidecars
import Immulog.TailCache
import Mathlib.Algebra.Order.BigOperators.Group.List

/-!
`Fetch`, `Read` and `Reader` against the log.

The reference is the list of the records from the requested offset to the end of the log.
A fetch returns its longest front that both limits allow, and a read its first records.  A
reader that fetches again and again, with any limits and any failures in between, has
returned the records from its start to its cursor.
-/

namespace Immulog

open Lib

/-! ## Encoded sizes -/

/-- Records whose sizes are computed as they are encoded, in a scan from the offset on. -/
def Sized (offset : UInt64) (records : List Record) : Prop :=
  ∀ r ∈ records, offset ≤ r.offset ∧ recordEncodedBytes r = .ok (.ofNat r.encodedBytes) ∧
    r.encodedBytes < 2 ^ 64

section Log

variable {topic : TopicID} {partition : UInt32}

theorem sized_recordsFrom (closed : StoredSegments topic partition)
    (last : List (StoredBatch topic partition)) (offset : UInt64) :
    Sized offset (recordsFrom offset (logRecords closed last)) := by
  intro r mem
  obtain ⟨inLog, above⟩ := List.mem_filter.1 mem
  rw [← Partition.Represents.logRecords_eq] at inLog
  obtain ⟨stored, -, inStored⟩ := List.mem_flatMap.1 inLog
  obtain ⟨b, -, inBatch⟩ := List.mem_flatMap.1 inStored
  have valid := b.decoded.valid.records_valid inBatch
  have size : 4 + (r.tail b.batch.baseOffset).length ≤ 16777216 := valid.size
  have encoded := recordEncodedBytes_of_valid valid
  rw [Record.length_bytes_eq] at encoded
  refine ⟨of_decide_eq_true above, encoded, ?_⟩
  rw [← Record.length_bytes_eq r b.batch.baseOffset, Record.length_bytes]
  omega

end Log

/-! ## The loop of a fetch -/

/-- The front of so many records that both limits allow. -/
def Allowed (limits : FetchOptions) (records : List Record) (n : Nat) : Prop :=
  n ≤ records.length ∧ n ≤ limits.maxRecords.toNat ∧
    encodedBytes (records.take n) ≤ limits.maxBytes.toNat

/-- The loop takes the longest run of records that fit behind what it has. -/
theorem Sized.scan {offset : UInt64} {records : List Record} (sized : Sized offset records)
    {limits : FetchOptions} {s : FetchState}
    (few : s.result.records.length ≤ limits.maxRecords.toNat)
    (small : s.bytes.toNat ≤ limits.maxBytes.toNat)
    (first : s.result.records ≠ [] ∨
      ∀ r ∈ records.head?, s.bytes.toNat + r.encodedBytes ≤ limits.maxBytes.toNat) :
    ∃ n s' done, fetchRecords offset limits records s = .ok (s', done) ∧
      s'.result = s.result.extend (records.take n) ∧
      LongestRun (fun i => s.result.records.length + i < limits.maxRecords.toNat ∧
        s.bytes.toNat + encodedBytes (records.take (i + 1)) ≤ limits.maxBytes.toNat)
        records.length n := by
  induction records generalizing s with
  | nil => exact ⟨0, s, false, rfl, by simp, .of_stops (Nat.le_refl _) (by simp) (.inl rfl)⟩
  | cons r records ih =>
      obtain ⟨above, size, bound⟩ := sized r List.mem_cons_self
      have later : Sized offset records := fun x mem => sized x (List.mem_cons_of_mem _ mem)
      have words := limits.maxRecords.toNat_lt
      have count : (UInt32.ofNat s.result.records.length).toNat = s.result.records.length :=
        toNat_ofNat32 (by omega)
      have recordBytes : (UInt64.ofNat r.encodedBytes).toNat = r.encodedBytes := toNat_ofNat64 bound
      have left : (limits.maxBytes - s.bytes).toNat = limits.maxBytes.toNat - s.bytes.toNat :=
        UInt64.toNat_sub_of_le _ _ (UInt64.le_iff_toNat_le.2 small)
      have alone : encodedBytes ((r :: records).take (0 + 1)) = r.encodedBytes := by simp
      unfold fetchRecords
      rw [if_neg (UInt64.not_lt.2 above), size]
      by_cases full : limits.maxRecords ≤ .ofNat s.result.records.length
      · rw [if_pos full]
        rw [UInt32.le_iff_toNat_le, count] at full
        exact ⟨0, s, true, rfl, by simp, .of_stops (Nat.zero_le _) (by simp) (.inr (by omega))⟩
      rw [if_neg full, ok_bind]
      rw [UInt32.le_iff_toNat_le, count] at full
      by_cases large : limits.maxBytes - s.bytes < .ofNat r.encodedBytes
      · rw [if_pos large]
        rw [UInt64.lt_iff_toNat_lt, left, recordBytes] at large
        have nonempty : s.result.records ≠ [] := by
          rcases first with nonempty | fits
          · exact nonempty
          · have fits := fits r rfl
            omega
        rw [if_neg nonempty]
        refine ⟨0, s, true, rfl, by simp, .of_stops (Nat.zero_le _) (by simp) (.inr ?_)⟩
        rw [alone]
        omega
      · rw [if_neg large]
        rw [UInt64.lt_iff_toNat_lt, left, recordBytes] at large
        have grown : (s.push r (.ofNat r.encodedBytes)).result.records.length =
            s.result.records.length + 1 := by simp [FetchState.push]
        have bytes : (s.push r (.ofNat r.encodedBytes)).bytes.toNat =
            s.bytes.toNat + r.encodedBytes := by
          have := limits.maxBytes.toNat_lt
          rw [FetchState.push, UInt64.toNat_add, recordBytes, Nat.mod_eq_of_lt (by omega)]
        obtain ⟨n, s', done, scanned, taken, longest⟩ := ih later
          (s := s.push r (.ofNat r.encodedBytes)) (by omega) (by omega)
          (.inl (by simp [FetchState.push]))
        refine ⟨n + 1, s', done, scanned, ?_, ?_⟩
        · rw [taken, List.take_succ_cons, FetchState.push_extend]
        · refine .succ ?_ ?_
          · rw [alone]
            omega
          · simp only [grown, bytes] at longest
            simpa only [List.take_succ_cons, encodedBytes_cons, Nat.add_assoc,
              Nat.add_comm 1] using longest

/-- The run of records that fit is the longest front that the limits allow. -/
theorem allowed_of_longestRun {limits : FetchOptions} {records : List Record} {n : Nat}
    (longest : LongestRun (fun i => i < limits.maxRecords.toNat ∧
      encodedBytes (records.take (i + 1)) ≤ limits.maxBytes.toNat) records.length n) :
    IsGreatest {k | Allowed limits records k} n := by
  have mono : ∀ {i k : Nat}, i ≤ k →
      encodedBytes (records.take i) ≤ encodedBytes (records.take k) := by
    intro i k le
    exact List.Sublist.sum_le_sum ((List.take_sublist_take_left le).map _) fun _ _ => Nat.zero_le _
  refine ⟨⟨longest.le_bound, ?_, ?_⟩, fun k allowed => ?_⟩
  · cases n with
    | zero => exact Nat.zero_le _
    | succ n => exact (longest.holds (Nat.lt_succ_self n)).1
  · cases n with
    | zero => exact Nat.zero_le _
    | succ n => exact (longest.holds (Nat.lt_succ_self n)).2
  · obtain ⟨inside, few, small⟩ := allowed
    refine longest.2 ⟨inside, fun i less => ⟨by omega, ?_⟩⟩
    exact (mono less).trans small

/-! ## Fetches and reads -/

section Partition

variable {topic : TopicID} {partition : UInt32} {p : Partition} {d : Dir Name}
  {closed : StoredSegments topic partition} {last : List (StoredBatch topic partition)}

/-- The longest front of the slice that the limits allow, and the offset behind it. -/
structure FetchResult.LongestOf (result : FetchResult) (offset : UInt64) (slice : List Record)
    (limits : FetchOptions) : Prop where
  longest : ∃ n, IsGreatest {k | Allowed limits slice k} n ∧ result.records = slice.take n
  next : result.nextOffset = result.records.getLast?.elim offset fun r => r.offset + 1

/-- The first record is larger than the limit. -/
def TooSmall (limits : FetchOptions) (slice : List Record) : Prop :=
  ∃ first ∈ slice.head?, limits.maxBytes.toNat < first.encodedBytes

/-- Fetches at an offset return what the slice of the log from it on says. -/
structure FetchesSlice (d : Dir Name) (p : Partition) (free : Bool) (offset : UInt64)
    (options limits : FetchOptions) (slice : List Record) : Prop where
  outside : offset < p.logStart ∨ p.logEnd < offset →
    fetch d p free offset options = .error (.ofKind .errOffsetOutOfRange)
  /-- The slice has the records from the offset to the end of the log. -/
  records : p.logStart ≤ offset → offset ≤ p.logEnd →
    Consecutive offset slice ∧ p.logEnd.toNat = offset.toNat + slice.length
  tooSmall : p.logStart ≤ offset → offset ≤ p.logEnd →
    ((∃ e, fetch d p free offset options = .error e ∧ e.is .errFetchLimitTooSmall) ↔
      offset < p.logEnd ∧ TooSmall limits slice)
  result : p.logStart ≤ offset → offset ≤ p.logEnd → ¬ TooSmall limits slice →
    ∃ result, fetch d p free offset options = .ok result ∧ result.LongestOf offset slice limits

/-- A fetch takes records from its offset on, up to its limits. -/
theorem Sized.fetch {offset : UInt64} {slice : List Record} (sized : Sized offset slice)
    {limits : FetchOptions} (fits : ¬ TooSmall limits slice) :
    ∃ n s done, fetchRecords offset limits slice (.start offset) = .ok (s, done) ∧
      s.result = (FetchState.start offset).result.extend (slice.take n) ∧
      IsGreatest {k | Allowed limits slice k} n := by
  have zero : (FetchState.start offset).bytes.toNat = 0 := rfl
  have none : (FetchState.start offset).result.records.length = 0 := rfl
  have first : ∀ r ∈ slice.head?,
      (FetchState.start offset).bytes.toNat + r.encodedBytes ≤ limits.maxBytes.toNat := by
    intro r isFirst
    rw [zero, Nat.zero_add]
    exact Nat.le_of_not_lt fun large => fits ⟨r, isFirst, large⟩
  obtain ⟨n, s, done, scanned, taken, longest⟩ :=
    sized.scan (s := .start offset) (Nat.zero_le _) (Nat.zero_le _) (.inr first)
  simp only [zero, none, Nat.zero_add] at longest
  exact ⟨n, s, done, scanned, taken, allowed_of_longestRun longest⟩

/-- A first record beyond the limit is an error. -/
theorem Sized.fetch_tooSmall {offset : UInt64} {slice : List Record} (sized : Sized offset slice)
    {limits : FetchOptions} (positive : limits.maxRecords ≠ 0) (large : TooSmall limits slice) :
    ∃ e, fetchRecords offset limits slice (.start offset) = .error e ∧
      e.is .errFetchLimitTooSmall := by
  obtain ⟨first, isFirst, large⟩ := large
  obtain ⟨rest, rfl⟩ : ∃ rest, slice = first :: rest := by
    cases slice with
    | nil => cases isFirst
    | cons r rest => exact ⟨rest, by rw [Option.mem_some_iff.1 isFirst]⟩
  obtain ⟨above, size, bound⟩ := sized first List.mem_cons_self
  have room : ¬ limits.maxRecords ≤ .ofNat (FetchState.start offset).result.records.length :=
    fun full => positive (UInt32.le_zero_iff.1 full)
  have tooLarge : limits.maxBytes - (FetchState.start offset).bytes <
      .ofNat first.encodedBytes := by
    change limits.maxBytes - 0 < _
    rw [UInt64.sub_zero, UInt64.lt_iff_toNat_lt, toNat_ofNat64 bound]
    exact large
  refine ⟨fetchLimitTooSmall first.offset (.ofNat first.encodedBytes) limits.maxBytes, ?_,
    List.mem_cons_self⟩
  rw [fetchRecords, if_neg (UInt64.not_lt.2 above), if_neg room, size, ok_bind, if_pos tooLarge]
  rfl

theorem Partition.Represents.fetchesSlice (represents : p.Represents d closed last)
    (isOpen : p.checkOpen = .ok ()) (uncached : p.tail = none) (free : Bool) (offset : UInt64)
    {options limits : FetchOptions} (accepted : normalizeFetchOptions options = .ok limits) :
    FetchesSlice d p free offset options limits (recordsFrom offset (logRecords closed last)) := by
  obtain ⟨consecutive, stop⟩ := represents.consecutive
  have sized := sized_recordsFrom closed last offset
  have same : p.withoutTail = p := by
    rw [Partition.withoutTail, ← uncached]
  have scan (low : p.logStart ≤ offset) (high : offset ≤ p.logEnd) :
      fetch d p free offset options =
        (fetchRecords offset limits (recordsFrom offset (logRecords closed last))
          (.start offset)).map fun found => found.1.result := by
    rw [← represents.fetch_withoutTail accepted isOpen low high, same]
  have length (low : p.logStart ≤ offset) (high : offset ≤ p.logEnd) :
      p.logEnd.toNat = offset.toNat + (recordsFrom offset (logRecords closed last)).length := by
    rw [UInt64.le_iff_toNat_le] at low high
    rw [consecutive.recordsFrom_eq (UInt64.le_iff_toNat_le.2 low), List.length_drop]
    omega
  refine ⟨fun outside => ?_, fun low high => ⟨consecutive.recordsFrom low, length low high⟩,
    fun low high => ⟨fun failed => ?_, fun large => ?_⟩, fun low high fits => ?_⟩
  · simp only [Immulog.fetch, accepted, isOpen, ok_bind, failIf_of outside]
    rfl
  · obtain ⟨e, failed, -⟩ := failed
    have large : TooSmall limits (recordsFrom offset (logRecords closed last)) := by
      by_contra fits
      obtain ⟨n, s, done, scanned, -⟩ := sized.fetch fits
      rw [scan low high, scanned] at failed
      cases failed
    refine ⟨?_, large⟩
    obtain ⟨first, isFirst, -⟩ := large
    have nonempty := List.length_pos_of_mem (List.mem_of_mem_head? isFirst)
    have ends := length low high
    rw [UInt64.lt_iff_toNat_lt]
    omega
  · obtain ⟨e, failed, kind⟩ := sized.fetch_tooSmall (normalizeFetchOptions_maxRecords accepted)
      large.2
    exact ⟨e, by rw [scan low high, failed]; rfl, kind⟩
  · obtain ⟨n, s, done, scanned, taken, longest⟩ := sized.fetch fits
    refine ⟨s.result, by rw [scan low high, scanned]; rfl, ⟨n, longest, ?_⟩, ?_⟩
    · rw [taken]
      rfl
    · rw [taken]
      rfl

/-- Reads at an offset return the first records of the slice; zero asks for as many as a batch
has at most. -/
theorem Partition.Represents.readsSlice (represents : p.Represents d closed last)
    (isOpen : p.checkOpen = .ok ()) {offset : UInt64} (low : p.logStart ≤ offset)
    (high : offset ≤ p.logEnd) (maxRecords : UInt32) :
    read d p offset maxRecords = .ok ((recordsFrom offset (logRecords closed last)).take
      (orDefault maxRecords maxBatchRecords).toNat) := by
  by_cases zero : maxRecords = 0
  · have some : maxBatchRecords ≠ 0 := by decide
    rw [zero]
    exact represents.read_eq isOpen low high some
  · rw [orDefault, if_neg zero]
    exact represents.read_eq isOpen low high zero

end Partition

/-! ## Readers -/

structure Reader where
  next : UInt64
  closed : Bool

/-- `Reader.Fetch`: `busy` tells that another operation of the reader is under way, and
`attempt` is what the fetch of the partition comes to. -/
def Reader.fetch (reader : Reader) (busy : Bool)
    (attempt : UInt64 → Except GoError FetchResult) : Except GoError FetchResult × Reader :=
  if busy then (.error (.ofKind .errConcurrentOperation), reader)
  else if reader.closed then (.error (.ofKind .errClosed), reader)
  else match attempt reader.next with
    | .error e => (.error e, reader)
    | .ok result => (.ok result, { reader with next := result.nextOffset })

/-- What a successful fetch of a reader did. -/
theorem Reader.fetch_eq_ok {reader reader' : Reader} {busy : Bool}
    {attempt : UInt64 → Except GoError FetchResult} {result : FetchResult} :
    reader.fetch busy attempt = (.ok result, reader') ↔
      busy = false ∧ reader.closed = false ∧ attempt reader.next = .ok result ∧
        reader' = { reader with next := result.nextOffset } := by
  unfold Reader.fetch
  split_ifs with taken shut
  · simp [taken]
  · simp [shut]
  · cases attempt reader.next with
    | error e => simp
    | ok found =>
        simp only [Prod.mk.injEq, Except.ok.injEq, taken, shut, true_and]
        constructor
        · rintro ⟨rfl, rfl⟩
          exact ⟨rfl, rfl⟩
        · rintro ⟨rfl, rfl⟩
          exact ⟨rfl, rfl⟩

/-- A failed fetch does not move the reader. -/
theorem Reader.fetch_error {reader reader' : Reader} {busy : Bool}
    {attempt : UInt64 → Except GoError FetchResult} {e : GoError}
    (failed : reader.fetch busy attempt = (.error e, reader')) : reader' = reader := by
  unfold Reader.fetch at failed
  split_ifs at failed
  · exact (Prod.mk.inj failed).2.symm
  · exact (Prod.mk.inj failed).2.symm
  · split at failed
    · exact (Prod.mk.inj failed).2.symm
    · cases (Prod.mk.inj failed).1

/-- `NewReader` -/
def Partition.newReader (p : Partition) (start : UInt64) : Except GoError Reader := do
  p.checkOpen
  failIf (start < p.logStart ∨ p.logEnd < start) (.ofKind .errOffsetOutOfRange)
  return ⟨start, false⟩

/-- A partition with a reader, and the records that the reader has returned so far. -/
structure ReaderState where
  partition : Partition
  dir : Dir Name
  reader : Reader
  returned : List Record

/-- The fetch of the partition is made, or an I/O error or its context stops it. -/
inductive ReaderState.Attempts (s : ReaderState) :
    (UInt64 → Except GoError FetchResult) → Prop where
  | made (free : Bool) (options : FetchOptions) :
      s.Attempts fun offset => Immulog.fetch s.dir s.partition free offset options
  | stopped (e : GoError) : s.Attempts fun _ => .error e

/-- One step of the partition or of the reader. -/
inductive ReaderStep : ReaderState → ReaderState → Prop where
  /-- An append, with any faults. -/
  | append {s : ReaderState} {call : AppendCall} {outcome : Except GoError (List Record)}
      {p : Partition} {d : Dir Name} :
      call.Steps (s.partition, s.dir) outcome (p, d) →
      ReaderStep s { s with partition := p, dir := d }
  /-- The roll of a retention pass, with any faults. -/
  | roll {s : ReaderState} {config : PartitionConfigV1} {nowMillis : Int64} {total : UInt64}
      {drawn : SegmentID} {outcome : Except GoError UInt64} {p : Partition} {d : Dir Name} :
      Prog.Runs Dir.device (rollForRetention s.partition config nowMillis total drawn) s.dir
        (.ok (p, outcome)) d →
      ReaderStep s { s with partition := p, dir := d }
  /-- The partition is fenced, is being closed or has been closed. -/
  | stop {s : ReaderState} (closed closing unavailable : Bool) :
      ReaderStep s { s with partition := { s.partition with closed, closing, unavailable } }
  | fetch {s : ReaderState} {busy : Bool} {attempt : UInt64 → Except GoError FetchResult}
      {answer : Except GoError FetchResult} {reader : Reader} :
      s.Attempts attempt → s.reader.fetch busy attempt = (answer, reader) →
      ReaderStep s { s with reader, returned := s.returned ++
        answer.toOption.elim [] FetchResult.records }
  | close {s : ReaderState} : ReaderStep s { s with reader := { s.reader with closed := true } }

theorem ReaderStep.of_fetch {p : Partition} {d : Dir Name} {free : Bool} {options : FetchOptions}
    {next : UInt64} {result : FetchResult}
    (found : Immulog.fetch d p free next options = .ok result) (returned : List Record) :
    ReaderStep ⟨p, d, ⟨next, false⟩, returned⟩
      ⟨p, d, ⟨result.nextOffset, false⟩, returned ++ result.records⟩ := by
  have answered : Reader.fetch ⟨next, false⟩ false
      (fun offset => Immulog.fetch d p free offset options) =
        (.ok result, ⟨result.nextOffset, false⟩) :=
    Reader.fetch_eq_ok.2 ⟨rfl, rfl, found, rfl⟩
  exact .fetch (s := ⟨p, d, ⟨next, false⟩, returned⟩) (.made free options) answered

abbrev ReaderRun : ReaderState → ReaderState → Prop :=
  Relation.ReflTransGen ReaderStep

section Reader

variable {topic : TopicID} {partition : UInt32} {start : UInt64} {s s' : ReaderState}

/-- The reader has returned the records of the log from its start to its cursor. -/
structure ReaderState.Returned (s : ReaderState) (start : UInt64)
    (closed : StoredSegments topic partition) (last : List (StoredBatch topic partition)) :
    Prop where
  represents : s.partition.Represents s.dir closed last
  uncached : s.partition.tail = none
  low : s.partition.logStart ≤ start
  ahead : start ≤ s.reader.next
  high : s.reader.next ≤ s.partition.logEnd
  returned : s.returned = (recordsFrom start (logRecords closed last)).take
    (s.reader.next.toNat - start.toNat)

variable {closed : StoredSegments topic partition} {last : List (StoredBatch topic partition)}

/-- The partition goes on with more records behind the same log. -/
theorem ReaderState.Returned.grown (holds : s.Returned start closed last) {p : Partition}
    {d : Dir Name} {closed' : StoredSegments topic partition}
    {last' : List (StoredBatch topic partition)} {more : List Record}
    (represents : p.Represents d closed' last') (uncached : p.tail = none)
    (logStart : p.logStart = s.partition.logStart)
    (records : logRecords closed' last' = logRecords closed last ++ more) :
    ReaderState.Returned { s with partition := p, dir := d } start closed' last' := by
  obtain ⟨consecutive, stop⟩ := holds.represents.consecutive
  obtain ⟨-, stop'⟩ := represents.consecutive
  have low := UInt64.le_iff_toNat_le.1 holds.low
  have ahead := UInt64.le_iff_toNat_le.1 holds.ahead
  have high := UInt64.le_iff_toNat_le.1 holds.high
  have split : recordsFrom start (logRecords closed' last') =
      recordsFrom start (logRecords closed last) ++ recordsFrom start more := by
    rw [records, recordsFrom, List.filter_append]
    rfl
  have inside : s.reader.next.toNat - start.toNat ≤
      (recordsFrom start (logRecords closed last)).length := by
    rw [consecutive.recordsFrom_eq holds.low, List.length_drop]
    omega
  refine ⟨represents, uncached, logStart ▸ holds.low, holds.ahead, ?_, ?_⟩
  · change s.reader.next ≤ p.logEnd
    rw [UInt64.le_iff_toNat_le, stop', logStart, records, List.length_append]
    omega
  · change s.returned = _
    rw [holds.returned, split, List.take_append_of_le_length inside]

/-- A fetch that returns a result moves the cursor behind it. -/
theorem ReaderState.Returned.fetched (holds : s.Returned start closed last) {free : Bool}
    {options : FetchOptions} {result : FetchResult}
    (found : Immulog.fetch s.dir s.partition free s.reader.next options = .ok result) :
    ReaderState.Returned { s with
      reader := { s.reader with next := result.nextOffset }
      returned := s.returned ++ result.records } start closed last := by
  obtain ⟨limits, accepted, isOpen⟩ : ∃ limits, normalizeFetchOptions options = .ok limits ∧
      s.partition.checkOpen = .ok () := by
    simp only [Immulog.fetch, bind_eq_ok] at found
    obtain ⟨limits, accepted, _, isOpen, -⟩ := found
    exact ⟨limits, accepted, isOpen⟩
  have reference := holds.represents.fetchesSlice isOpen holds.uncached free s.reader.next accepted
  have below : s.partition.logStart ≤ s.reader.next := UInt64.le_trans holds.low holds.ahead
  obtain ⟨placed, ends⟩ := reference.records below holds.high
  have fits : ¬ TooSmall limits (recordsFrom s.reader.next (logRecords closed last)) := by
    intro large
    have nonempty : s.reader.next < s.partition.logEnd := by
      obtain ⟨first, isFirst, -⟩ := large
      have some := List.length_pos_of_mem (List.mem_of_mem_head? isFirst)
      rw [UInt64.lt_iff_toNat_lt]
      omega
    obtain ⟨e, failed, -⟩ := (reference.tooSmall below holds.high).2 ⟨nonempty, large⟩
    rw [found] at failed
    cases failed
  obtain ⟨_, same, ⟨n, ⟨⟨inside, -⟩, -⟩, records⟩, next⟩ := reference.result below holds.high fits
  obtain rfl := Except.ok.inj (found.symm.trans same)
  have length : result.records.length = n := by
    rw [records, List.length_take_of_le inside]
  have moved : result.nextOffset = s.reader.next + .ofNat n := by
    have front := placed.of_isPrefix (List.take_prefix n _)
    rw [← records] at front
    rw [next, ← length]
    exact front.extend_nextOffset
  have stop := s.partition.logEnd.toNat_lt
  have cursor : result.nextOffset.toNat = s.reader.next.toNat + n := by
    rw [moved, UInt64.toNat_add, toNat_ofNat64 (by omega), Nat.mod_eq_of_lt (by omega)]
  have ahead := UInt64.le_iff_toNat_le.1 holds.ahead
  refine ⟨holds.represents, holds.uncached, holds.low, ?_, ?_, ?_⟩
  · change start ≤ result.nextOffset
    rw [UInt64.le_iff_toNat_le]
    omega
  · change result.nextOffset ≤ s.partition.logEnd
    rw [UInt64.le_iff_toNat_le]
    omega
  · obtain ⟨consecutive, -⟩ := holds.represents.consecutive
    have low := UInt64.le_iff_toNat_le.1 holds.low
    have later : recordsFrom s.reader.next (logRecords closed last) =
        (recordsFrom start (logRecords closed last)).drop (s.reader.next.toNat - start.toNat) := by
      rw [consecutive.recordsFrom_eq below, consecutive.recordsFrom_eq holds.low, List.drop_drop]
      congr 1
      omega
    change s.returned ++ result.records = List.take (result.nextOffset.toNat - start.toNat) _
    have more : result.nextOffset.toNat - start.toNat =
        s.reader.next.toNat - start.toNat + n := by omega
    rw [records, later, holds.returned, more, List.take_add]

/-- Every step of a reader continues what it has returned. -/
theorem ReaderStep.returned (step : ReaderStep s s') (holds : s.Returned start closed last) :
    ∃ (closed' : StoredSegments topic partition) (last' : List (StoredBatch topic partition)),
      s'.Returned start closed' last' := by
  cases step with
  | append steps =>
      rcases steps.cases with ⟨e, -, -, rfl, rfl⟩ |
        ⟨-, valid, drawn, free, q, result, appends, rfl, -⟩
      · exact ⟨closed, last, holds⟩
      · obtain ⟨-, closed', last', kept, records⟩ := appends.represents valid holds.represents
        have uncached : q.tail = none := appends.tail.trans holds.uncached
        have logStart := appends.logStart
        rw [← Partition.logStart_told q free] at logStart
        refine ⟨closed', last', holds.grown ?_ ?_ logStart records⟩
        · cases result with
          | error e => exact kept
          | ok offset => exact kept.publishTail _ _ _
        · cases result with
          | error e => exact uncached
          | ok offset => simp [Partition.told, Partition.publishTail, uncached]
  | roll ran =>
      obtain ⟨_, _, same, kept⟩ := runs_rollForRetention ran
      obtain ⟨rfl, rfl⟩ := Prod.mk.inj (Except.ok.inj same)
      obtain ⟨closed', last', represents, records⟩ := kept.represents holds.represents
      exact ⟨closed', last', holds.grown represents (kept.tail.trans holds.uncached) kept.logStart
        (records.trans (List.append_nil _).symm)⟩
  | stop closed' closing unavailable =>
      have represents := holds.represents
      exact ⟨closed, last, ⟨represents.topic_eq, represents.partition_eq, represents.closedFiles,
        represents.activeFile, represents.linked, represents.logEnd⟩, holds.uncached, holds.low,
        holds.ahead, holds.high, holds.returned⟩
  | @fetch busy attempt answer reader attempts answered =>
      cases answer with
      | error e =>
          obtain rfl := Reader.fetch_error answered
          exact ⟨closed, last, holds.represents, holds.uncached, holds.low, holds.ahead, holds.high,
            (List.append_nil _).trans holds.returned⟩
      | ok result =>
          obtain ⟨-, -, found, rfl⟩ := Reader.fetch_eq_ok.1 answered
          cases attempts with
          | made free options => exact ⟨closed, last, holds.fetched found⟩
          | stopped e => cases found
  | close =>
      exact ⟨closed, last, holds.represents, holds.uncached, holds.low, holds.ahead, holds.high,
        holds.returned⟩

/-- What a reader has returned is one stretch of the log. -/
theorem ReaderRun.returned (run : ReaderRun s s') (holds : s.Returned start closed last) :
    ∃ (closed' : StoredSegments topic partition) (last' : List (StoredBatch topic partition)),
      s'.Returned start closed' last' := by
  induction run with
  | refl => exact ⟨closed, last, holds⟩
  | tail _ step ih =>
      obtain ⟨closed', last', holds⟩ := ih
      exact step.returned holds

/-- `slice` has the records from the cursor of the reader on. A fetch of the reader that succeeds
returns what the partition returns at the cursor and moves the cursor behind it; a fetch that
nothing stops does succeed, unless its limits are too small for the next record. -/
structure ReaderState.FetchesNext (s : ReaderState) (slice : List Record) : Prop where
  returns : ∀ busy attempt result reader, s.Attempts attempt →
    s.reader.fetch busy attempt = (.ok result, reader) →
    reader = { s.reader with next := result.nextOffset } ∧
      ∃ free options, Immulog.fetch s.dir s.partition free s.reader.next options = .ok result
  succeeds : s.reader.closed = false → s.partition.checkOpen = .ok () →
    ∀ free options limits, normalizeFetchOptions options = .ok limits → ¬ TooSmall limits slice →
    ∃ result, s.reader.fetch false
        (fun offset => Immulog.fetch s.dir s.partition free offset options) =
          (.ok result, { s.reader with next := result.nextOffset }) ∧
      result.LongestOf s.reader.next slice limits

/-- The next fetch of a reader returns what the reference does. -/
theorem ReaderState.Returned.fetchesNext (holds : s.Returned start closed last) :
    s.FetchesNext (recordsFrom s.reader.next (logRecords closed last)) where
  returns := by
    intro busy attempt result reader attempts answered
    obtain ⟨-, -, found, rfl⟩ := Reader.fetch_eq_ok.1 answered
    cases attempts with
    | made free options => exact ⟨rfl, free, options, found⟩
    | stopped e => cases found
  succeeds := by
    intro idle isOpen free options limits accepted fits
    have reference :=
      holds.represents.fetchesSlice isOpen holds.uncached free s.reader.next accepted
    obtain ⟨result, found, longest⟩ :=
      reference.result (UInt64.le_trans holds.low holds.ahead) holds.high fits
    exact ⟨result, Reader.fetch_eq_ok.2 ⟨rfl, idle, found, rfl⟩, longest⟩

end Reader

/-! ## The reference -/

/-- The records at the offsets from `start` up to `stop`. -/
def recordsBetween (start stop : UInt64) (records : List Record) : List Record :=
  records.filter fun r => decide (start ≤ r.offset) && decide (r.offset < stop)

theorem Consecutive.recordsBetween_eq {base start stop : UInt64} {xs : List Record}
    (consecutive : Consecutive base xs) (low : base ≤ start) :
    recordsBetween start stop xs =
      (Immulog.recordsFrom start xs).take (stop.toNat - start.toNat) := by
  have placed := consecutive.recordsFrom low
  have split : recordsBetween start stop xs =
      (Immulog.recordsFrom start xs).filter fun r => decide (r.offset < stop) := by
    rw [recordsBetween, Immulog.recordsFrom, List.filter_filter]
    simp only [Bool.and_comm]
  rw [split]
  generalize Immulog.recordsFrom start xs = ys at placed ⊢
  have before : (ys.take (stop.toNat - start.toNat)).filter (fun r => decide (r.offset < stop)) =
      ys.take (stop.toNat - start.toNat) := by
    rw [List.filter_eq_self]
    intro r mem
    obtain ⟨i, found⟩ := List.mem_iff_getElem?.1 mem
    have inside := (List.getElem?_eq_some_iff.1 found).1
    rw [List.length_take] at inside
    rw [List.getElem?_take_of_lt (by omega)] at found
    have here := placed i r found
    rw [decide_eq_true_eq, UInt64.lt_iff_toNat_lt]
    omega
  have behind : (ys.drop (stop.toNat - start.toNat)).filter (fun r => decide (r.offset < stop)) =
      [] := by
    rw [List.filter_eq_nil_iff]
    intro r mem
    obtain ⟨i, found⟩ := List.mem_iff_getElem?.1 mem
    rw [List.getElem?_drop] at found
    have here := placed _ r found
    rw [decide_eq_true_eq, UInt64.lt_iff_toNat_lt]
    omega
  calc ys.filter (fun r => decide (r.offset < stop))
      = (ys.take (stop.toNat - start.toNat)).filter (fun r => decide (r.offset < stop)) ++
          (ys.drop (stop.toNat - start.toNat)).filter (fun r => decide (r.offset < stop)) := by
        rw [← List.filter_append, List.take_append_drop]
    _ = ys.take (stop.toNat - start.toNat) := by rw [before, behind, List.append_nil]

section Reference

variable {topic : TopicID} {partition : UInt32} {p : Partition} {d : Dir Name}
  {closed : StoredSegments topic partition} {last : List (StoredBatch topic partition)}

/-- A reader has returned the records between its start and its cursor. -/
def ReadsBetween (topic : TopicID) (partition : UInt32) (start : UInt64) (s : ReaderState) : Prop :=
  ∃ (closed : StoredSegments topic partition) (last : List (StoredBatch topic partition)),
    s.partition.Represents s.dir closed last ∧ start ≤ s.reader.next ∧
      s.reader.next ≤ s.partition.logEnd ∧
      s.returned = recordsBetween start s.reader.next (logRecords closed last)

/-- Fetches and reads of an open partition without a tail cache return the slice of the log that
they ask for. Whatever is done to the partition and to a reader between its fetches, the records
returned so far are those from its start to its cursor, and its next fetch goes on from there. -/
theorem fetches_match_reference (represents : p.Represents d closed last)
    (isOpen : p.checkOpen = .ok ()) (uncached : p.tail = none) :
    (∀ free offset options limits, normalizeFetchOptions options = .ok limits →
      FetchesSlice d p free offset options limits (recordsFrom offset (logRecords closed last))) ∧
    (∀ offset maxRecords, p.logStart ≤ offset → offset ≤ p.logEnd →
      read d p offset maxRecords = .ok ((recordsFrom offset (logRecords closed last)).take
        (orDefault maxRecords maxBatchRecords).toNat)) ∧
    (∀ start reader s, p.newReader start = .ok reader → ReaderRun ⟨p, d, reader, []⟩ s →
      ReadsBetween topic partition start s) ∧
    ∀ start reader s, p.newReader start = .ok reader → ReaderRun ⟨p, d, reader, []⟩ s →
      ∃ (closed' : StoredSegments topic partition) (last' : List (StoredBatch topic partition)),
        s.partition.Represents s.dir closed' last' ∧
          s.FetchesNext (recordsFrom s.reader.next (logRecords closed' last')) := by
  have follows : ∀ start reader s, p.newReader start = .ok reader →
      ReaderRun ⟨p, d, reader, []⟩ s →
      ∃ (closed' : StoredSegments topic partition) (last' : List (StoredBatch topic partition)),
        s.Returned start closed' last' := by
    intro start reader s made run
    simp only [Partition.newReader, isOpen, ok_bind, bind_eq_ok, failIf_eq_ok, exists_const, not_or,
      UInt64.not_lt, pure_eq_ok, Except.ok.injEq] at made
    obtain ⟨⟨low, high⟩, rfl⟩ := made
    have holds : ReaderState.Returned ⟨p, d, ⟨start, false⟩, []⟩ start closed last :=
      ⟨represents, uncached, low, UInt64.le_refl _, high, by simp⟩
    exact run.returned holds
  refine ⟨?_, ?_, ?_, ?_⟩
  · intro free offset options limits accepted
    exact represents.fetchesSlice isOpen uncached free offset accepted
  · intro offset maxRecords low high
    exact represents.readsSlice isOpen low high maxRecords
  · intro start reader s made run
    obtain ⟨closed', last', holds⟩ := follows start reader s made run
    refine ⟨closed', last', holds.represents, holds.ahead, holds.high, ?_⟩
    rw [holds.represents.consecutive.1.recordsBetween_eq holds.low]
    exact holds.returned
  · intro start reader s made run
    obtain ⟨closed', last', holds⟩ := follows start reader s made run
    exact ⟨closed', last', holds.represents, holds.fetchesNext⟩

end Reference

namespace SmallLog

set_option maxRecDepth 10000 in
/-- Over two segments with a record each, both records are read.  The first fetch of a reader
returns one of them, a third record is appended behind a roll, and the next fetch of the reader
returns the other two. -/
theorem rolled_fetched : ∃ p d, Prog.run Dir.device (narrow 4) rolledDir = (.ok p, d) ∧
    read d p 0 0 = .ok [recordAt 0, recordAt 1] ∧
    (∃ result, fetch d p true 0 ⟨1, 0⟩ = .ok result ∧
      result.LongestOf 0 [recordAt 0, recordAt 1] ⟨1, defaultFetchBytes⟩ ∧
      Reader.fetch ⟨0, false⟩ false (fun offset => fetch d p true offset ⟨1, 0⟩) =
        (.ok result, ⟨result.nextOffset, false⟩)) ∧
    (∀ s, ReaderRun ⟨p, d, ⟨0, false⟩, []⟩ s → ReadsBetween spec.topic spec.partition 0 s) ∧
    ∃ s, ReaderRun ⟨p, d, ⟨0, false⟩, []⟩ s ∧ s.reader = ⟨3, false⟩ ∧
      s.returned = [recordAt 0, recordAt 1, recordAt 2] ∧
      ReadsBetween spec.topic spec.partition 0 s := by
  have found : ∃ x ∈ Prog.run? Dir.device (narrow 4) rolledDir,
      x.1.checkOpen = .ok () ∧ x.1.tail.isNone ∧ x.1.logStart = 0 ∧ x.1.logEnd = 2 ∧
      read x.2 x.1 0 0 = .ok [recordAt 0, recordAt 1] ∧
      fetch x.2 x.1 true 0 ⟨1, 0⟩ = .ok ⟨[recordAt 0], 1⟩ ∧
      ∃ y ∈ Prog.run? Dir.device ((stepAt 2 5).call.run x.1 5 true) x.2,
        fetch y.2 y.1.1 true 1 ⟨0, 0⟩ = .ok ⟨[recordAt 1, recordAt 2], 3⟩ := by
    decide +kernel
  obtain ⟨⟨p, d⟩, opens, isOpen, uncached, start, stop, all, one, ⟨⟨q, outcome⟩, e⟩, appends,
    others⟩ := found
  have opens := Prog.run?_eq_some.1 opens
  obtain ⟨-, closed, last, represents⟩ := runs_openPartition (.of_run opens)
  have low : p.logStart ≤ 0 := UInt64.le_of_eq start
  have high : 0 ≤ p.logEnd := UInt64.zero_le
  have made : p.newReader 0 = .ok ⟨0, false⟩ := by
    rw [Partition.newReader, isOpen, ok_bind,
      failIf_of_not (not_or.2 ⟨UInt64.not_lt.2 low, UInt64.not_lt.2 high⟩)]
    rfl
  -- both parts speak of the log that they find, which the read has shown
  have slice {closed : StoredSegments spec.topic spec.partition}
      {last : List (StoredBatch spec.topic spec.partition)}
      (represents : p.Represents d closed last) :
      recordsFrom 0 (logRecords closed last) = [recordAt 0, recordAt 1] := by
    have reads := (represents.readsSlice isOpen low high 0).symm.trans all
    obtain ⟨consecutive, ends⟩ := represents.consecutive
    rw [start, stop] at ends
    rw [start] at consecutive
    have same : recordsFrom 0 (logRecords closed last) = logRecords closed last :=
      consecutive.recordsFrom_eq UInt64.le_rfl
    rw [same, List.take_of_length_le] at reads
    · rw [same]
      exact Except.ok.inj reads
    · have few : (logRecords closed last).length = 2 := by simpa using ends.symm
      rw [few]
      decide
  obtain ⟨-, -, readers, goOn⟩ :=
    fetches_match_reference represents isOpen (Option.isNone_iff_eq_none.1 uncached)
  refine ⟨p, d, opens, all, ?_, fun s run => readers 0 _ s made run, ?_⟩
  · obtain ⟨closed, last, represents, next⟩ := goOn 0 _ _ made .refl
    obtain ⟨result, fetched, longest⟩ := next.succeeds rfl isOpen true ⟨1, 0⟩ _ rfl (by
      rw [slice represents]
      rintro ⟨first, isFirst, large⟩
      obtain rfl := Option.mem_some_iff.1 isFirst
      exact absurd large (by decide))
    rw [slice represents] at longest
    exact ⟨result, (Reader.fetch_eq_ok.1 fetched).2.2.1, longest, fetched⟩
  · have first := ReaderStep.of_fetch one []
    have second : ReaderStep ⟨p, d, ⟨1, false⟩, [recordAt 0]⟩ ⟨q, e, ⟨1, false⟩, [recordAt 0]⟩ :=
      .append ⟨5, true, .of_run (Prog.run?_eq_some.1 appends)⟩
    have third := ReaderStep.of_fetch others [recordAt 0]
    have run := ((Relation.ReflTransGen.single first).tail second).tail third
    exact ⟨_, run, rfl, rfl, readers 0 _ _ made run⟩

end SmallLog

end Immulog
