import Immulog.Durability
import Immulog.RetainedLog
import Mathlib.Logic.Relation

/-!
The tail cache against the segment scan.

`CachedLog` is an open partition with the publications that are still under way: an append
releases the partition before it offers its records to the tail, so that other appends, a
retention pass or a close may come in between.  `served_like_scan` compares a fetch that the
tail answers with the fetch of the same partition without a tail.
-/

namespace Immulog

open Lib

/-! ## The two loops -/

/-- The scan skips the records in front of the offset. -/
theorem fetchRecords_recordsFrom (offset : UInt64) (options : FetchOptions)
    (records : List Record) (s : FetchState) :
    fetchRecords offset options records s =
      fetchRecords offset options (recordsFrom offset records) s := by
  induction records generalizing s with
  | nil => rfl
  | cons r records ih =>
      by_cases below : r.offset < offset
      · rw [recordsFrom, List.filter_cons_of_neg (by simpa using below), fetchRecords,
          if_pos below]
        exact ih s
      · rw [recordsFrom, List.filter_cons_of_pos (by simpa using below)]
        unfold fetchRecords
        simp only [if_neg below]
        simp only [ih]
        rfl

/-- Records that the scan neither skips nor fails on. -/
def Fetchable (offset : UInt64) (records : List Record) : Prop :=
  ∀ r ∈ records, offset ≤ r.offset ∧ ∃ recordBytes, recordEncodedBytes r = .ok recordBytes

/-- Once it has a record, the scan does not fail any more. -/
theorem Fetchable.scan_nonempty {offset : UInt64} {records : List Record}
    (fetchable : Fetchable offset records) (options : FetchOptions) {s : FetchState}
    (nonempty : s.result.records ≠ []) :
    ∃ s' done, fetchRecords offset options records s = .ok (s', done) ∧
      s.result.records <+: s'.result.records := by
  induction records generalizing s with
  | nil => exact ⟨s, false, rfl, List.prefix_refl _⟩
  | cons r records ih =>
      obtain ⟨above, recordBytes, size⟩ := fetchable r List.mem_cons_self
      have later : Fetchable offset records :=
        fun x mem => fetchable x (List.mem_cons_of_mem _ mem)
      unfold fetchRecords
      rw [if_neg (UInt64.not_lt.2 above), size]
      by_cases full : options.maxRecords ≤ .ofNat s.result.records.length
      · rw [if_pos full]
        exact ⟨s, true, rfl, List.prefix_refl _⟩
      rw [if_neg full, ok_bind]
      by_cases large : options.maxBytes - s.bytes < recordBytes
      · rw [if_pos large, if_neg nonempty]
        exact ⟨s, true, rfl, List.prefix_refl _⟩
      rw [if_neg large]
      have pushed : (s.push r recordBytes).result.records ≠ [] := by simp [FetchState.push]
      obtain ⟨s', done, scanned, front⟩ := ih later pushed
      exact ⟨s', done, scanned, (List.prefix_append _ [r]).trans front⟩

/-- The scan's error, or records that the scan returns first. -/
def LikeScan (answer scanned : Except GoError FetchResult) : Prop :=
  match answer with
  | .error e => scanned = .error e
  | .ok result => ∃ whole, scanned = .ok whole ∧ result.records ≠ [] ∧
      result.records <+: whole.records

/-- The loop over a cached batch answers like the scan over records that begin with those
of the batch. -/
theorem Fetchable.answer {offset : UInt64} {front records : List Record}
    (fetchable : Fetchable offset records) (isFront : front <+: records) {options : FetchOptions}
    (some_ : options.maxRecords ≠ 0) {s : FetchState} (fresh : front ≠ [] ∨ s.result.records ≠ []) :
    ∃ answer, PartitionTail.fetchRecords options front s = some answer ∧
      LikeScan answer
        ((fetchRecords offset options records s).map fun found => found.1.result) := by
  induction front generalizing records s with
  | nil =>
      have nonempty : s.result.records ≠ [] := fresh.resolve_left fun wrong => wrong rfl
      obtain ⟨s', done, scanned, more⟩ := fetchable.scan_nonempty options nonempty
      exact ⟨_, rfl, s'.result, by rw [scanned]; rfl, nonempty, more⟩
  | cons r front ih =>
      obtain ⟨records, rfl⟩ : ∃ rest, records = r :: rest := by
        obtain ⟨behind, rfl⟩ := isFront
        exact ⟨_, rfl⟩
      have isFront' := (List.cons_prefix_cons.1 isFront).2
      obtain ⟨above, recordBytes, size⟩ := fetchable r List.mem_cons_self
      have later : Fetchable offset records :=
        fun x mem => fetchable x (List.mem_cons_of_mem _ mem)
      unfold PartitionTail.fetchRecords fetchRecords
      rw [if_neg (UInt64.not_lt.2 above), size]
      simp only [ok_bind]
      by_cases full : options.maxRecords ≤ .ofNat s.result.records.length
      · rw [if_pos full, if_pos full]
        refine ⟨_, rfl, s.result, rfl, ?_, List.prefix_refl _⟩
        intro none
        rw [none] at full
        exact some_ (UInt32.le_zero_iff.1 full)
      rw [if_neg full, if_neg full]
      by_cases large : options.maxBytes - s.bytes < recordBytes
      · rw [if_pos large, if_pos large]
        by_cases none : s.result.records = []
        · rw [if_pos none, if_pos none]
          exact ⟨_, rfl, rfl⟩
        · rw [if_neg none, if_neg none]
          exact ⟨_, rfl, s.result, rfl, none, List.prefix_refl _⟩
      rw [if_neg large, if_neg large]
      exact ih later isFront' (.inr (by simp [FetchState.push]))

/-! ## Records at their offsets -/

/-- Consecutive records of the log are the ones that a scan from the first of them meets. -/
theorem Consecutive.isPrefix_recordsFrom {base offset : UInt64} {all xs : List Record}
    (consecutive : Consecutive base all) (above : base ≤ offset) (placed : Consecutive offset xs)
    (known : ∀ r ∈ xs, r ∈ all) : xs <+: Immulog.recordsFrom offset all := by
  have above' := UInt64.le_iff_toNat_le.1 above
  rw [consecutive.recordsFrom_eq above, List.prefix_iff_getElem?]
  intro i inside
  have found : xs[i]? = some xs[i] := List.getElem?_eq_getElem inside
  obtain ⟨j, there⟩ := List.mem_iff_getElem?.1 (known _ (List.mem_of_getElem? found))
  have first := placed i _ found
  have second := consecutive j _ there
  rw [List.getElem?_drop, ← there]
  congr 1
  omega

/-- The records of a cached batch from an offset in it on. -/
theorem validDeliveredBatch.rest {batch : DeliveredBatch} {topic : TopicID} {partition : UInt32}
    {offset durableEnd : UInt64}
    (valid : validDeliveredBatch batch topic partition offset durableEnd) :
    batch.records.drop (offset - batch.base).toNat ≠ [] ∧
      Consecutive offset (batch.records.drop (offset - batch.base).toNat) := by
  obtain ⟨-, -, low, high, -, -, -, few, ⟨base, -, -⟩, stop, placed⟩ := valid
  have low' := UInt64.le_iff_toNat_le.1 low
  have high' := UInt64.lt_iff_toNat_lt.1 high
  have base' := UInt64.le_iff_toNat_le.1 base
  have limit : maxBatchRecords.toNat = 65536 := by decide
  have most := maxOffset_toNat
  have count : (UInt64.ofNat batch.records.length).toNat = batch.records.length :=
    toNat_ofNat64 (by omega)
  have skip : (offset - batch.base).toNat = offset.toNat - batch.base.toNat :=
    UInt64.toNat_sub_of_le _ _ low
  rw [stop, UInt64.toNat_add, count] at high'
  have inside : offset.toNat < batch.base.toNat + batch.records.length :=
    Nat.lt_of_lt_of_le high' (Nat.mod_le _ _)
  rw [skip]
  refine ⟨?_, ?_⟩
  · intro none
    have length := congrArg List.length none
    rw [List.length_drop, List.length_nil] at length
    omega
  · intro index r found
    rw [List.getElem?_drop] at found
    have inside := (List.getElem?_eq_some_iff.1 found).1
    have position : (UInt64.ofNat (offset.toNat - batch.base.toNat + index)).toNat =
        offset.toNat - batch.base.toNat + index := toNat_ofNat64 (by omega)
    rw [deliveredRecordsMatch_offset placed found, Nat.zero_add, UInt64.toNat_add, position]
    omega

theorem normalizeFetchOptions_maxRecords {options limits : FetchOptions}
    (normalized : normalizeFetchOptions options = .ok limits) : limits.maxRecords ≠ 0 := by
  simp only [normalizeFetchOptions, bind_eq_ok, failIf_eq_ok, exists_const, pure_eq_ok,
    Except.ok.injEq] at normalized
  obtain ⟨-, -, rfl⟩ := normalized
  dsimp only
  split
  · decide
  · assumption

/-! ## Fetches that the tail serves -/

namespace Partition

/-- The answer of the tail, for a fetch that gets as far as asking it. -/
def served (p : Partition) (free : Bool) (offset : UInt64) (options : FetchOptions) :
    Option (Except GoError FetchResult) :=
  match normalizeFetchOptions options, p.checkOpen with
  | .ok limits, .ok _ =>
      if offset < p.logStart ∨ p.logEnd < offset then none
      else p.tail.bind fun tail => tail.fetch free p.topic p.partition offset p.logEnd limits
  | _, _ => none

/-- The partition without its tail: every fetch scans the segments. -/
def withoutTail (p : Partition) : Partition :=
  { p with tail := none }

/-- The scan does not look at the tail. -/
theorem fetchSegments_withoutTail (p : Partition) (d : Dir Name) (offset : UInt64)
    (options : FetchOptions) (segments : List Segment) (s : FetchState) :
    fetchSegments d p.withoutTail offset options segments s =
      fetchSegments d p offset options segments s := by
  induction segments generalizing s with
  | nil => rfl
  | cons segment segments ih =>
      unfold fetchSegments
      simp only [ih]
      rfl

/-- What a fetch has checked before the tail answers it. -/
theorem served_eq_some {p : Partition} {free : Bool} {offset : UInt64} {options : FetchOptions}
    {answer : Except GoError FetchResult} (served : p.served free offset options = some answer) :
    ∃ limits, normalizeFetchOptions options = .ok limits ∧ p.checkOpen = .ok () ∧
      p.logStart ≤ offset ∧ offset ≤ p.logEnd ∧ ∃ tail ∈ p.tail,
        tail.fetch free p.topic p.partition offset p.logEnd limits = some answer := by
  unfold Partition.served at served
  split at served
  · rename_i limits _ normalized isOpen
    split at served
    · cases served
    · rename_i inside
      rw [not_or, UInt64.not_lt, UInt64.not_lt] at inside
      obtain ⟨tail, mem, hit⟩ := Option.bind_eq_some_iff.1 served
      exact ⟨limits, normalized, isOpen, inside.1, inside.2, tail, mem, hit⟩
  · cases served

/-- A fetch is answered by the tail, or it is the scan. -/
theorem fetch_eq_served (p : Partition) (d : Dir Name) (free : Bool) (offset : UInt64)
    (options : FetchOptions) :
    fetch d p free offset options =
      (p.served free offset options).getD (fetch d p.withoutTail free offset options) := by
  unfold fetch served
  have isOpen : p.withoutTail.checkOpen = p.checkOpen := rfl
  have start : p.withoutTail.logStart = p.logStart := rfl
  have stop : p.withoutTail.logEnd = p.logEnd := rfl
  rw [isOpen, start, stop]
  cases normalizeFetchOptions options with
  | error e => rfl
  | ok limits =>
      cases p.checkOpen with
      | error e => rfl
      | ok _ =>
          by_cases outside : offset < p.logStart ∨ p.logEnd < offset
          · simp only [ok_bind, if_pos outside, failIf_of outside]
            rfl
          · simp only [ok_bind, if_neg outside, failIf_of_not outside]
            cases p.tail.bind fun tail =>
                tail.fetch free p.topic p.partition offset p.logEnd limits with
            | none => exact (p.fetchSegments_withoutTail d offset limits p.segments _).symm
            | some answer => rfl

/-- Without a tail, a fetch inside the log is the loop over the records of the log. -/
theorem Represents.fetch_withoutTail {topic : TopicID} {partition : UInt32} {p : Partition}
    {d : Dir Name} {closed : StoredSegments topic partition}
    {last : List (StoredBatch topic partition)} (represents : p.Represents d closed last)
    {free : Bool} {offset : UInt64} {options limits : FetchOptions}
    (normalized : normalizeFetchOptions options = .ok limits) (isOpen : p.checkOpen = .ok ())
    (low : p.logStart ≤ offset) (high : offset ≤ p.logEnd) :
    fetch d p.withoutTail free offset options =
      (fetchRecords offset limits (recordsFrom offset (logRecords closed last))
        (.start offset)).map fun found => found.1.result := by
  have inside : ¬ (offset < p.withoutTail.logStart ∨ p.withoutTail.logEnd < offset) := by
    rw [not_or, UInt64.not_lt, UInt64.not_lt]
    exact ⟨low, high⟩
  have isOpen' : p.withoutTail.checkOpen = .ok () := isOpen
  have scanned := fetchSegments_inDir represents.topic_eq represents.partition_eq represents.files
    offset limits (.start offset)
  rw [Represents.logRecords_eq, fetchRecords_recordsFrom] at scanned
  rw [← scanned, ← fetchSegments_withoutTail]
  unfold fetch
  simp only [normalized, isOpen', failIf_of_not inside, ok_bind]
  rfl

end Partition

/-- An opened partition has the new tail of its options. -/
theorem runs_openPartition_tail {drawn : SegmentID} {topic : TopicID} {partition : UInt32}
    {options : PartitionOptions} {storeID : StoreID} {d d' : Dir Name} {p : Partition}
    (ran : Prog.Runs Dir.device (openPartition drawn topic partition options storeID) d
      (.ok p) d') :
    newPartitionTail options.tailSlots options.tailBytes = .ok p.tail := by
  obtain ⟨tail, _, making, made⟩ := Prog.runs_bind_ok.1 ran
  obtain ⟨new, rfl⟩ := Prog.runs_ofExcept.1 making
  suffices same : p.tail = tail by rw [same, new]
  obtain ⟨dir, _, -, looked⟩ := Prog.runs_bind_ok.1 made
  obtain ⟨bases, _, -, discovered⟩ := Prog.runs_bind_ok.1 looked
  cases bases with
  | nil =>
      obtain ⟨created, mid, -, later⟩ := Prog.runs_bind_ok.1 discovered
      obtain ⟨dir, _, -, ending⟩ := Prog.runs_bind_ok.1 later
      obtain rfl := Except.ok.inj (Prog.runs_done.1 ending).1
      rfl
  | cons first rest =>
      obtain ⟨_, _, -, later⟩ := Prog.runs_bind_ok.1 discovered
      obtain ⟨found, _, -, assembling⟩ := Prog.runs_bind_ok.1 later
      unfold assemblePartition at assembling
      split at assembling
      · cases (Prog.runs_done.1 assembling).1
      · obtain rfl := Except.ok.inj (Prog.runs_done.1 assembling).1
        rfl

/-- An append leaves the tail alone. -/
theorem Appends.tail {p p' : Partition} {d d' : Dir Name} {b : RecordBatch} {encoded : Bytes}
    {drawn : SegmentID} {outcome : Except GoError UInt64}
    (appends : Appends p d b encoded drawn p' d' outcome) : p'.tail = p.tail := by
  have rolled : ∀ {q : Partition} {mid : Dir Name}, RollsTo p d encoded drawn q mid →
      q.tail = p.tail := by
    intro q mid rolls
    cases rolls <;> rfl
  cases appends with
  | refused _ => rfl
  | unrolled _ _ _ _ => rfl
  | unknown _ rolls _ _ =>
      have same := rolled rolls
      exact same
  | written _ rolls _ _ _ =>
      have same := rolled rolls
      exact same

/-! ## Runs -/

/-- An open partition and what is under way around it. -/
structure CachedLog where
  partition : Partition
  dir : Dir Name
  /-- Acknowledged records that are still to be offered to the tail, with the durable end
  behind them. -/
  publications : List (List Record × UInt64)
  /-- The bases of retired segments; their files may be gone already. -/
  retired : List UInt64

namespace CachedLog

/-- What an append leaves to publish. -/
def publication (b : RecordBatch) (q : Partition) : Except GoError UInt64 →
    List (List Record × UInt64)
  | .ok _ => [(b.records, q.logEnd)]
  | .error _ => []

/-- The critical sections that run one after the other on an open partition; any filesystem
operation in them may fail. -/
inductive Step : CachedLog → CachedLog → Prop where
  /-- `AppendBatch` or the writer appends an encoded batch and releases the partition. -/
  | append {s : CachedLog} {b : RecordBatch} {encoded : Bytes} {drawn : SegmentID} {q : Partition}
      {d : Dir Name} {outcome : Except GoError UInt64} :
      encodeBatch b = .ok encoded →
      Prog.Runs Dir.device (appendEncodedLocked s.partition b encoded drawn) s.dir
        (.ok (q, outcome)) d →
      Step s { s with
        partition := q
        dir := d
        publications := publication b q outcome ++ s.publications }
  /-- Some publication reaches the tail, which takes it, evicts for it or refuses it. -/
  | publish {s : CachedLog} {records : List Record} {durableEnd : UInt64}
      {others : List (List Record × UInt64)} (free : Bool) :
      s.publications.Perm ((records, durableEnd) :: others) →
      Step s { s with
        partition := s.partition.publishTail free records durableEnd
        publications := others }
  /-- A retention pass that adopts nothing. -/
  | plan {s : CachedLog} {config : PartitionConfigV1} {nowMillis : Int64} {drawn : SegmentID}
      {q : Partition} {d : Dir Name} {planned : Except GoError (Option RetentionProposal)} :
      Prog.Runs Dir.device (planRetentionLocked s.partition config nowMillis drawn) s.dir
        (.ok (q, planned)) d →
      Step s { s with partition := q, dir := d }
  /-- A retention pass that drops segments and clears the tail. -/
  | retain {s : CachedLog} {config : PartitionConfigV1} {nowMillis : Int64} {drawn : SegmentID}
      {q : Partition} {d : Dir Name} {proposal : RetentionProposal} :
      Prog.Runs Dir.device (planRetentionLocked s.partition config nowMillis drawn) s.dir
        (.ok (q, .ok (some proposal))) d →
      Step s { s with
        partition := q.retain proposal
        dir := d
        retired := proposal.retired.map (fun segment => segment.header.baseOffset) ++ s.retired }
  /-- The files of retired segments go. -/
  | clean {s : CachedLog} {bases : List UInt64} {result : Except GoError Unit} {d : Dir Name} :
      (∀ base ∈ bases, base ∈ s.retired) →
      Prog.Runs Dir.device (cleanupBases bases) s.dir result d →
      Step s { s with dir := d }
  /-- A failed operation makes the partition unavailable. -/
  | fence {s : CachedLog} : Step s { s with partition := s.partition.fenced }
  /-- Closing refuses new fetches, -/
  | closing {s : CachedLog} : Step s { s with partition := { s.partition with closing := true } }
  /-- drops the tail, -/
  | closeTail {s : CachedLog} :
      Step s { s with
        partition := { s.partition with tail := s.partition.tail.map PartitionTail.close } }
  /-- and writes the indexes. -/
  | closed {s : CachedLog} {result : Except GoError Unit} {d : Dir Name} :
      Prog.Runs Dir.device (closePartition s.partition) s.dir result d →
      Step s { s with partition := { s.partition with closed := true }, dir := d }

/-- The states of a partition that was opened over some directory. -/
inductive Reachable (topic : TopicID) (partition : UInt32) : CachedLog → Prop where
  | opened {drawn : SegmentID} {options : PartitionOptions} {storeID : StoreID} {d d' : Dir Name}
      {p : Partition} :
      Prog.Runs Dir.device (openPartition drawn topic partition options storeID) d (.ok p) d' →
      Reachable topic partition ⟨p, d', [], []⟩
  | step {s s' : CachedLog} : Reachable topic partition s → Step s s' → Reachable topic partition s'

/-! ## The invariant -/

/-- The records `all` have been in the log since `start`; what the log retains is their end,
and whatever is cached or about to be is among them. -/
structure Holds (s : CachedLog) (start : UInt64) (gone : List Record)
    {topic : TopicID} {partition : UInt32} (closed : StoredSegments topic partition)
    (last : List (StoredBatch topic partition)) : Prop where
  represents : s.partition.Represents s.dir closed last
  expired : Consecutive start gone
  meets : s.partition.logStart.toNat = start.toNat + gone.length
  cached : ∀ tail ∈ s.partition.tail,
    tail.Holds fun batch => ∀ r ∈ batch.records, r ∈ gone ++ logRecords closed last
  underWay : ∀ publication ∈ s.publications, ∀ r ∈ publication.1, r ∈ gone ++ logRecords closed last
  retired : ∀ base ∈ s.retired, base.toNat < s.partition.logStart.toNat

def Inv (topic : TopicID) (partition : UInt32) (s : CachedLog) : Prop :=
  ∃ start gone, ∃ (closed : StoredSegments topic partition)
    (last : List (StoredBatch topic partition)), s.Holds start gone closed last

variable {topic : TopicID} {partition : UInt32} {s s' : CachedLog} {start : UInt64}
  {gone : List Record} {closed closed' : StoredSegments topic partition}
  {last last' : List (StoredBatch topic partition)}

/-- A step that keeps the log, the cache and what is under way. -/
theorem Holds.keeps (holds : s.Holds start gone closed last) {q : Partition} {d : Dir Name}
    (keeps : s.partition.KeepsLog s.dir q d) :
    Inv topic partition { s with partition := q, dir := d } := by
  obtain ⟨closed', last', represents, records⟩ := keeps.represents holds.represents
  refine ⟨start, gone, closed', last', represents, holds.expired, ?_, ?_, ?_, ?_⟩
  · rw [keeps.logStart]
    exact holds.meets
  · rw [keeps.tail, records]
    exact holds.cached
  · rw [records]
    exact holds.underWay
  · rw [keeps.logStart]
    exact holds.retired

/-- A step that changes the cache only. -/
theorem Holds.recached (holds : s.Holds start gone closed last) {q : Partition}
    {publications : List (List Record × UInt64)}
    (represents : q.Represents s.dir closed last) (sameStart : q.logStart = s.partition.logStart)
    (cached : ∀ tail ∈ q.tail,
      tail.Holds fun batch => ∀ r ∈ batch.records, r ∈ gone ++ logRecords closed last)
    (fewer : ∀ publication ∈ publications, publication ∈ s.publications) :
    Inv topic partition { s with partition := q, publications := publications } := by
  refine ⟨start, gone, closed, last, represents, holds.expired, ?_, cached, ?_, ?_⟩
  · rw [sameStart]
    exact holds.meets
  · exact fun publication mem => holds.underWay publication (fewer publication mem)
  · rw [sameStart]
    exact holds.retired

/-- An append keeps the invariant, with its batch to be published where that is acknowledged. -/
theorem Holds.append (holds : s.Holds start gone closed last) {b : RecordBatch}
    {drawn : SegmentID} {q : Partition} {d : Dir Name} {outcome : Except GoError UInt64}
    (valid : b.Valid) (appends : Appends s.partition s.dir b b.bytes drawn q d outcome) :
    Inv topic partition { s with
      partition := q
      dir := d
      publications := publication b q outcome ++ s.publications } := by
  obtain ⟨-, closed', last', represents, records⟩ := appends.represents valid holds.represents
  have old : ∀ r ∈ gone ++ logRecords closed last, r ∈ gone ++ logRecords closed' last' := by
    intro r mem
    rw [records, ← List.append_assoc]
    exact List.mem_append_left _ mem
  refine ⟨start, gone, closed', last', represents, holds.expired, ?_, ?_, ?_, ?_⟩
  · rw [appends.logStart]
    exact holds.meets
  · rw [appends.tail]
    intro tail mem
    exact (holds.cached tail mem).mono fun batch known r inside => old r (known r inside)
  · intro told mem r inside
    rcases List.mem_append.1 mem with new | waiting
    · cases outcome with
      | error e => simp [publication] at new
      | ok offset =>
          obtain rfl := List.mem_singleton.1 new
          rw [records, acknowledged]
          exact List.mem_append_right _ (List.mem_append_right _ inside)
    · exact old r (holds.underWay told waiting r inside)
  · rw [appends.logStart]
    exact holds.retired

/-- Records that expire stay among those that have been in the log. -/
theorem Holds.retain (holds : s.Holds start gone closed last) {proposal : RetentionProposal}
    (splits : proposal.Splits s.partition) :
    Inv topic partition { s with
      partition := s.partition.retain proposal
      retired := proposal.retired.map (fun segment => segment.header.baseOffset) ++
        s.retired } := by
  obtain ⟨left, represents, removed, split⟩ := holds.represents.retain splits
  obtain ⟨before, ends⟩ := holds.represents.consecutive
  obtain ⟨-, ends'⟩ := represents.consecutive
  have sameEnd : (s.partition.retain proposal).logEnd = s.partition.logEnd := rfl
  have meets := holds.meets
  have total := congrArg List.length split
  rw [List.length_append] at total
  rw [sameEnd] at ends'
  have same : (gone ++ removed) ++ logRecords left last = gone ++ logRecords closed last := by
    rw [List.append_assoc, split]
  refine ⟨start, gone ++ removed, left, last, represents, ?_, ?_, ?_, ?_, ?_⟩
  · rw [← split] at before
    exact holds.expired.append (before.of_isPrefix (List.prefix_append ..)) meets
  · change (s.partition.retain proposal).logStart.toNat = _
    rw [List.length_append]
    omega
  · rw [same]
    intro tail mem
    obtain ⟨old, inOld, rfl⟩ := Option.map_eq_some_iff.1 (Option.mem_def.1 mem)
    exact PartitionTail.clear_holds (holds.cached old inOld)
  · rw [same]
    exact holds.underWay
  · intro base mem
    rcases List.mem_append.1 mem with new | old
    · obtain ⟨segment, inside, rfl⟩ := List.mem_map.1 new
      exact holds.represents.retired_lt splits inside
    · exact (holds.retired base old).trans_le (holds.represents.logStart_retain splits)

/-- Every step keeps the invariant of a cached log. -/
theorem Step.inv (step : Step s s') (inv : Inv topic partition s) : Inv topic partition s' := by
  obtain ⟨start, gone, closed, last, holds⟩ := inv
  cases step with
  | append encodes ran =>
      obtain ⟨valid, rfl⟩ := RecordBatch.encode_eq_ok.1 encodes
      obtain ⟨q, outcome, same, appends⟩ := runs_appendEncodedLocked ran
      obtain ⟨rfl, rfl⟩ := Prod.mk.inj (Except.ok.inj same)
      exact holds.append valid appends
  | @publish records durableEnd others free chosen =>
      refine holds.recached (holds.represents.publishTail free records durableEnd) rfl ?_ ?_
      · intro tail mem
        obtain ⟨old, inOld, rfl⟩ := Option.map_eq_some_iff.1 (Option.mem_def.1 mem)
        refine PartitionTail.offer_holds (holds.cached old inOld) ?_
        rintro batch rfl
        exact holds.underWay _ (chosen.mem_iff.2 List.mem_cons_self)
      · exact fun publication mem => chosen.mem_iff.2 (List.mem_cons_of_mem _ mem)
  | plan ran =>
      obtain ⟨_, _, same, keeps, -⟩ := runs_planRetentionLocked ran
      obtain ⟨rfl, rfl⟩ := Prod.mk.inj (Except.ok.inj same)
      exact holds.keeps keeps
  | retain ran =>
      obtain ⟨_, _, same, keeps, splits⟩ := runs_planRetentionLocked ran
      obtain ⟨rfl, rfl⟩ := Prod.mk.inj (Except.ok.inj same)
      obtain ⟨start, gone, closed, last, planned⟩ := holds.keeps keeps
      exact planned.retain (splits _ rfl)
  | clean known ran =>
      have kept :=
        holds.represents.cleanup (fun base mem => holds.retired base (known base mem)) ran
      exact ⟨start, gone, closed, last, { holds with represents := kept }⟩
  | fence => exact holds.recached holds.represents.fenced rfl holds.cached fun _ mem => mem
  | closing =>
      have kept := holds.represents
      exact holds.recached ⟨kept.topic_eq, kept.partition_eq, kept.closedFiles, kept.activeFile,
        kept.linked, kept.logEnd⟩ rfl holds.cached fun _ mem => mem
  | closeTail =>
      have kept := holds.represents
      refine holds.recached ⟨kept.topic_eq, kept.partition_eq, kept.closedFiles, kept.activeFile,
        kept.linked, kept.logEnd⟩ rfl ?_ fun _ mem => mem
      intro tail mem
      obtain ⟨old, inOld, rfl⟩ := Option.map_eq_some_iff.1 (Option.mem_def.1 mem)
      exact PartitionTail.close_holds (holds.cached old inOld)
  | closed ran =>
      have logs := keepsLogs_runs (fun _ notIndex => only_installDirty notIndex) ran
      refine holds.keeps ⟨rfl, rfl, rfl, fun represents => ⟨_, _, ?_, rfl⟩⟩
      have kept := represents.frame fun segment _ => logs.read segment.header.baseOffset
      exact ⟨kept.topic_eq, kept.partition_eq, kept.closedFiles, kept.activeFile, kept.linked,
        kept.logEnd⟩

/-- It holds in all reachable states. -/
theorem Reachable.inv (reachable : Reachable topic partition s) : Inv topic partition s := by
  induction reachable with
  | opened ran =>
      obtain ⟨-, closed, last, represents⟩ := runs_openPartition ran
      refine ⟨_, [], closed, last, represents, .nil _, rfl, ?_, ?_, ?_⟩
      · intro tail mem
        have made := runs_openPartition_tail ran
        rw [Option.mem_def.1 mem] at made
        exact PartitionTail.new_holds made
      · simp
      · simp
  | step _ step ih => exact step.inv ih

/-- The records that the log retains can be fetched. -/
theorem fetchable_recordsFrom (closed : StoredSegments topic partition)
    (last : List (StoredBatch topic partition)) (offset : UInt64) :
    Fetchable offset (recordsFrom offset (logRecords closed last)) := by
  intro r mem
  obtain ⟨inLog, above⟩ := List.mem_filter.1 mem
  refine ⟨of_decide_eq_true above, ?_⟩
  rw [← Partition.Represents.logRecords_eq] at inLog
  obtain ⟨stored, -, inStored⟩ := List.mem_flatMap.1 inLog
  obtain ⟨b, -, inBatch⟩ := List.mem_flatMap.1 inStored
  exact ⟨_, recordEncodedBytes_of_valid (b.decoded.valid.records_valid inBatch)⟩

/-- Cached records that a fetch inside the log reaches are the next ones of the log. -/
theorem Holds.front (holds : s.Holds start gone closed last) {offset : UInt64} {xs : List Record}
    (low : s.partition.logStart ≤ offset) (placed : Consecutive offset xs)
    (known : ∀ r ∈ xs, r ∈ gone ++ logRecords closed last) :
    xs <+: recordsFrom offset (logRecords closed last) := by
  obtain ⟨consecutive, -⟩ := holds.represents.consecutive
  have low' := UInt64.le_iff_toNat_le.1 low
  have meets := holds.meets
  have whole := holds.expired.append consecutive meets
  have above : start ≤ offset := UInt64.le_iff_toNat_le.2 (by omega)
  have front := whole.isPrefix_recordsFrom above placed known
  have same : recordsFrom offset (gone ++ logRecords closed last) =
      recordsFrom offset (logRecords closed last) := by
    rw [whole.recordsFrom_eq above, consecutive.recordsFrom_eq low, List.drop_append,
      List.drop_eq_nil_of_le (by omega), List.nil_append]
    congr 1
    omega
  rwa [same] at front

/-- The scan returns the records of the log. -/
theorem Holds.scan_eq (holds : s.Holds start gone closed last) {free : Bool} {offset : UInt64}
    {options limits : FetchOptions} (normalized : normalizeFetchOptions options = .ok limits)
    (isOpen : s.partition.checkOpen = .ok ()) (low : s.partition.logStart ≤ offset)
    (high : offset ≤ s.partition.logEnd) :
    fetch s.dir s.partition.withoutTail free offset options =
      (fetchRecords offset limits (recordsFrom offset (logRecords closed last))
        (.start offset)).map fun found => found.1.result :=
  holds.represents.fetch_withoutTail normalized isOpen low high

/-- The result of the tail ends behind its last record and lies inside the log. -/
structure Bounded (p : Partition) (result : FetchResult) : Prop where
  next : ∀ r ∈ result.records.getLast?, result.nextOffset = r.offset + 1
  inside : ∀ r ∈ result.records, p.logStart ≤ r.offset ∧ r.offset < p.logEnd

theorem Holds.bounded (holds : s.Holds start gone closed last) {offset : UInt64}
    {taken : List Record} (front : taken <+: recordsFrom offset (logRecords closed last)) :
    Bounded s.partition ((FetchState.start offset).result.extend taken) := by
  obtain ⟨consecutive, ends⟩ := holds.represents.consecutive
  refine ⟨?_, ?_⟩
  · intro r isLast
    have last : taken.getLast? = some r := by
      simpa [FetchResult.extend, FetchState.start] using isLast
    simp [FetchResult.extend, last]
  · intro r mem
    have inTaken : r ∈ taken := by simpa [FetchResult.extend, FetchState.start] using mem
    obtain ⟨low, high⟩ := consecutive.range (List.mem_of_mem_filter (front.subset inTaken))
    exact ⟨UInt64.le_iff_toNat_le.2 low, UInt64.lt_iff_toNat_lt.2 (by omega)⟩

end CachedLog

/-- Whatever appends, late publications, evictions, retention and closing came before: what the
tail serves is the error of the segment scan or the beginning of its result, it ends behind
its last record, and it lies inside the log. -/
theorem served_like_scan {topic : TopicID} {partition : UInt32} {s : CachedLog}
    (reachable : CachedLog.Reachable topic partition s) {free : Bool} {offset : UInt64}
    {options : FetchOptions} {answer : Except GoError FetchResult}
    (served : s.partition.served free offset options = some answer) :
    fetch s.dir s.partition free offset options = answer ∧
      LikeScan answer (fetch s.dir s.partition.withoutTail free offset options) ∧
      ∀ result, answer = .ok result → CachedLog.Bounded s.partition result := by
  obtain ⟨start, gone, closed, last, holds⟩ := reachable.inv
  obtain ⟨limits, normalized, isOpen, low, high, tail, mem, hit⟩ := Partition.served_eq_some served
  obtain ⟨batch, known, valid, answered⟩ := PartitionTail.fetch_answer (holds.cached tail mem) hit
  obtain ⟨nonempty, placed⟩ := valid.rest
  have front := holds.front low placed fun r inside => known r (List.mem_of_mem_drop inside)
  refine ⟨?_, ?_, ?_⟩
  · rw [Partition.fetch_eq_served, served]
    rfl
  · obtain ⟨same, found, like⟩ := (CachedLog.fetchable_recordsFrom closed last offset).answer front
      (normalizeFetchOptions_maxRecords normalized) (.inl nonempty)
    obtain rfl := Option.some.inj (answered.symm.trans found)
    rw [holds.scan_eq normalized isOpen low high]
    exact like
  · rintro result rfl
    obtain ⟨taken, isFront, rfl⟩ := PartitionTail.fetchRecords_extend answered
    exact holds.bounded (isFront.trans front)

namespace SmallLog

/-- The small partition with one cache slot. -/
def cachedSpec : PartitionSpec where
  topic := 2
  partition := 0
  options := { spec.options with tailSlots := 1, tailBytes := 1024 }
  storeID := 1
  topic_ne_zero := spec.topic_ne_zero
  partition_le := spec.partition_le
  initialOffset_le := spec.initialOffset_le
  tail := some
    { slots := [none], head := 0, count := 0, bytes := 0, limit := 1024, closed := false }
  tail_eq := by decide +kernel

/-- After an append whose records have reached the tail. -/
def cachedLog : CachedLog :=
  ⟨((cachedSpec.fresh ∅ 1).extended batch batch.bytes).publishTail true batch.records
      ((cachedSpec.fresh ∅ 1).extended batch batch.bytes).logEnd,
    dirWith (log.push batch).bytes (log.push batch).bytes, [], []⟩

theorem cachedLog_reachable : CachedLog.Reachable 2 0 cachedLog := by
  have opened := Prog.Runs.faultFree (D := Dir.device) (cachedSpec.reopen 1) ∅
  rw [run_open_empty ⟨fun _ => AList.notMem_empty _, fun _ => AList.notMem_empty _⟩
    (AList.notMem_empty _)] at opened
  have passes : checkAppend (cachedSpec.fresh ∅ 1) batch batch.bytes = .ok () := by
    have passed : (checkAppend (cachedSpec.fresh ∅ 1) batch batch.bytes).toBool = true := by
      decide +kernel
    cases found : checkAppend (cachedSpec.fresh ∅ 1) batch batch.bytes with
    | ok _ => rfl
    | error e => rw [found] at passed; cases passed
  have room : ¬ (cachedSpec.fresh ∅ 1).options.segmentBytes.toNat <
      batch.bytes.length + (cachedSpec.fresh ∅ 1).active.size := by decide +kernel
  have shows : (cachedSpec.fresh ∅ 1).Shows ([] ++ [log]) := fresh_shows cachedSpec ∅ 1
  have wrote := Prog.Runs.faultFree (D := Dir.device)
    (appendEncodedLocked (cachedSpec.fresh ∅ 1) batch batch.bytes 1) (cachedSpec.created ∅ 1)
  have writes : appendEncodedLocked (cachedSpec.fresh ∅ 1) batch batch.bytes 1 =
      writeBatch (cachedSpec.fresh ∅ 1) batch batch.bytes := by
    simp only [appendEncodedLocked, passes, rollIfFull, if_neg room]
    rfl
  have found : (cachedSpec.created ∅ 1).lookup (.log 0) =
      some ⟨some ⟨log.bytes, log.bytes⟩, true⟩ := lookup_created
  rw [writes, run_writeBatch shows.split.2 found rfl, ← writes] at wrote
  have encodes : encodeBatch batch = .ok batch.bytes :=
    RecordBatch.encode_eq_ok.2 ⟨batch_valid, rfl⟩
  exact .step (.step (.opened opened) (.append encodes wrote)) (.publish true (List.Perm.refl _))

/-- A fetch that the tail serves is what a scan of the files returns. -/
theorem cachedLog_served : cachedLog.partition.served true 0 ⟨0, 0⟩ =
      some (.ok ⟨[record], 1⟩) ∧
    LikeScan (.ok ⟨[record], 1⟩)
      (fetch cachedLog.dir cachedLog.partition.withoutTail true 0 ⟨0, 0⟩) := by
  have served : cachedLog.partition.served true 0 ⟨0, 0⟩ = some (.ok ⟨[record], 1⟩) := by
    rfl
  exact ⟨served, (served_like_scan cachedLog_reachable served).2.1⟩

end SmallLog

end Immulog
