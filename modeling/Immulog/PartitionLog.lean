import Immulog.Partition

/-!
Partitions as logs of records.

A `Chain` is what the segment files of a partition hold together: segments that follow
each other, so that its records stand at consecutive offsets.  `Partition.Shows` says
that the state in memory is the one that recovery finds for a chain.  Over files that
hold the chain, `read_prefix` and `fetch_spec` say that reads return records of the
chain one after the other from the requested offset on, whichever hint or cached batch
they start from.
-/

namespace Immulog

open Lib

/-! ## Consecutive records -/

/-- The records stand at the offsets from `base` on. -/
def Consecutive (base : UInt64) (records : List Record) : Prop :=
  ∀ index r, records[index]? = some r → r.offset.toNat = base.toNat + index

namespace Consecutive

/-- Two runs of offsets that meet. -/
theorem append {base mid : UInt64} {xs ys : List Record} (first : Consecutive base xs)
    (second : Consecutive mid ys) (meets : mid.toNat = base.toNat + xs.length) :
    Consecutive base (xs ++ ys) := by
  intro index r found
  rcases Nat.lt_or_ge index xs.length with h | h
  · rw [List.getElem?_append_left h] at found
    exact first index r found
  · rw [List.getElem?_append_right h] at found
    have here := second (index - xs.length) r found
    omega

theorem nil (base : UInt64) : Consecutive base [] := by
  intro index r found
  simp at found

/-- Two records at one offset are the same record. -/
theorem unique {base : UInt64} {xs : List Record} (consecutive : Consecutive base xs)
    {r r' : Record} (mem : r ∈ xs) (mem' : r' ∈ xs) (same : r.offset = r'.offset) : r = r' := by
  obtain ⟨i, found⟩ := List.mem_iff_getElem?.1 mem
  obtain ⟨j, found'⟩ := List.mem_iff_getElem?.1 mem'
  have first := consecutive i r found
  have second := consecutive j r' found'
  rw [same] at first
  obtain rfl : i = j := by omega
  exact Option.some.inj (found.symm.trans found')

/-- The offsets lie in the range of the run. -/
theorem range {base : UInt64} {xs : List Record} (consecutive : Consecutive base xs)
    {r : Record} (mem : r ∈ xs) :
    base.toNat ≤ r.offset.toNat ∧ r.offset.toNat < base.toNat + xs.length := by
  obtain ⟨i, found⟩ := List.mem_iff_getElem?.1 mem
  have here := consecutive i r found
  have inside := (List.getElem?_eq_some_iff.1 found).1
  omega

end Consecutive

/-- A valid batch ends inside the offset range. -/
theorem RecordBatch.Valid.end_toNat {b : RecordBatch} (valid : b.Valid) :
    (b.baseOffset + .ofNat b.records.length).toNat = b.baseOffset.toNat + b.records.length ∧
      b.baseOffset.toNat + b.records.length ≤ maxOffset.toNat := by
  have count : b.records.length ≤ 65536 := valid.count
  obtain ⟨base, _, last⟩ := valid.range
  have small : (UInt32.ofNat b.records.length).toUInt64.toNat = b.records.length := by
    rw [UInt32.toNat_toUInt64, valid.toNat_count]
  have ofNat : (UInt64.ofNat b.records.length).toNat = b.records.length :=
    toNat_ofNat64 (by omega)
  have base' := UInt64.le_iff_toNat_le.1 base
  have last' := UInt64.le_iff_toNat_le.1 last
  rw [UInt64.toNat_add, small] at last'
  rw [UInt64.toNat_add, ofNat]
  have limit := maxOffset_toNat
  omega

/-- The records of a valid batch are numbered from its base. -/
theorem RecordBatch.Valid.consecutive {b : RecordBatch} (valid : b.Valid) :
    Consecutive b.baseOffset b.records := by
  intro index r found
  have place := (valid.places index r found).offset
  have inside := (List.getElem?_eq_some_iff.1 found).1
  have count : b.records.length ≤ 65536 := valid.count
  have ends := valid.end_toNat
  have small : (UInt64.ofNat index).toNat = index := toNat_ofNat64 (by omega)
  have limit := maxOffset_toNat
  rw [place, UInt64.toNat_add, small]
  omega

/-- Batches that follow one another make one run. -/
theorem Follows.consecutive {topic : TopicID} {partition : UInt32} {base : UInt64}
    {batches : List RecordBatch} (follows : Follows topic partition base batches)
    (small : base ≤ maxOffset) :
    Consecutive base (batches.flatMap RecordBatch.records) ∧
      (nextOffset base batches).toNat =
        base.toNat + (batches.flatMap RecordBatch.records).length ∧
      nextOffset base batches ≤ maxOffset := by
  induction batches generalizing base with
  | nil => exact ⟨.nil base, rfl, small⟩
  | cons b batches ih =>
      obtain ⟨valid, _, _, rfl, later⟩ := follows
      have ends := valid.end_toNat
      have inside : b.baseOffset + .ofNat b.records.length ≤ maxOffset := by
        rw [UInt64.le_iff_toNat_le, ends.1]
        exact ends.2
      obtain ⟨rest, length, last⟩ := ih later inside
      refine ⟨?_, ?_, last⟩
      · rw [List.flatMap_cons]
        exact valid.consecutive.append rest ends.1
      · rw [List.flatMap_cons, List.length_append]
        change (nextOffset (b.baseOffset + .ofNat b.records.length) batches).toNat = _
        omega

/-! ## Chains of segments -/

/-- Segments of one partition that follow each other from `base` on; only the last may
be empty. -/
def Chain (topic : TopicID) (partition : UInt32) : UInt64 → List SegmentLog → Prop
  | _, [] => True
  | base, s :: rest =>
      s.Valid topic partition base ∧ (rest ≠ [] → s.batches ≠ []) ∧
        Chain topic partition s.endOffset rest

/-- The offset behind a chain. -/
def chainEnd (base : UInt64) : List SegmentLog → UInt64
  | [] => base
  | s :: rest => chainEnd s.endOffset rest

def chainRecords (segments : List SegmentLog) : List Record :=
  segments.flatMap SegmentLog.records

section Chain

variable {topic : TopicID} {partition : UInt32} {base : UInt64} {segments : List SegmentLog}

theorem SegmentLog.Valid.consecutive {s : SegmentLog} (valid : s.Valid topic partition base) :
    Consecutive base s.records ∧ s.endOffset.toNat = base.toNat + s.records.length ∧
      s.endOffset ≤ maxOffset := by
  have small : base ≤ maxOffset := valid.base_eq ▸ valid.header.baseOffset
  have facts := valid.follows.consecutive small
  rwa [← valid.base_eq] at facts ⊢

/-- So do the segments of a chain. -/
theorem Chain.consecutive (chain : Chain topic partition base segments) :
    Consecutive base (chainRecords segments) ∧
      (chainEnd base segments).toNat = base.toNat + (chainRecords segments).length := by
  induction segments generalizing base with
  | nil => exact ⟨.nil base, rfl⟩
  | cons s rest ih =>
      obtain ⟨valid, _, later⟩ := chain
      obtain ⟨here, length, _⟩ := valid.consecutive
      obtain ⟨behind, total⟩ := ih later
      refine ⟨?_, ?_⟩
      · exact here.append behind length
      · simp only [chainRecords, List.flatMap_cons, List.length_append] at total ⊢
        change (chainEnd s.endOffset rest).toNat = _
        omega

end Chain

/-! ## Segments in memory that show a log -/

/-- The segment in memory is what recovery finds, with indexes that fit. -/
def Segment.Shows (s : Segment) (log : SegmentLog) : Prop :=
  ∃ offsetIndex timeIndex indexDirty,
    s = log.shown.withIndexes offsetIndex timeIndex indexDirty ∧
      HintsOf log.recovered.batches offsetIndex

namespace Segment.Shows

variable {s : Segment} {log : SegmentLog}

theorem header (shows : s.Shows log) : s.header = log.header := by
  obtain ⟨_, _, _, rfl, _⟩ := shows
  rfl

theorem endOffset (shows : s.Shows log) : s.endOffset = log.endOffset := by
  obtain ⟨_, _, _, rfl, _⟩ := shows
  exact log.recovered_current

theorem size (shows : s.Shows log) : s.size = log.bytes.length := by
  obtain ⟨_, _, _, rfl, _⟩ := shows
  exact log.recovered_position

theorem records (shows : s.Shows log) : s.records = log.records.length := by
  obtain ⟨_, _, _, rfl, _⟩ := shows
  exact log.recovered_records

/-- Hints of a segment point to its batches. -/
theorem hints (shows : s.Shows log) : HintsOf log.recovered.batches s.offsetIndex := by
  obtain ⟨_, _, _, rfl, hints⟩ := shows
  exact hints

theorem withIndexes (shows : s.Shows log) {offsetIndex : List OffsetIndexEntry}
    (timeIndex : List TimeIndexEntry) (indexDirty : Bool)
    (hints : HintsOf s.batches offsetIndex) :
    (s.withIndexes offsetIndex timeIndex indexDirty).Shows log := by
  obtain ⟨_, _, _, rfl, _⟩ := shows
  exact ⟨offsetIndex, timeIndex, indexDirty, rfl, hints⟩

theorem name (shows : s.Shows log) : s.name = .log log.header.baseOffset := by
  rw [Segment.name, shows.header]

end Segment.Shows

/-- Where the batches of the map stand in the file. -/
theorem foldl_push_batches {batches : List RecordBatch} {r : Recovered} {info : BatchInfo}
    (mem : info ∈ (batches.foldl (fun r b => r.push b b.bytes) r).batches) :
    info ∈ r.batches ∨ ∃ before b behind, batches = before ++ b :: behind ∧
      info.base = b.baseOffset ∧
        info.position = r.position + (before.flatMap RecordBatch.bytes).length := by
  induction batches generalizing r with
  | nil => exact .inl mem
  | cons b batches ih =>
      rcases ih mem with old | ⟨before, b', behind, rfl, base, position⟩
      · rcases List.mem_append.1 old with old | new
        · exact .inl old
        · obtain rfl := List.mem_singleton.1 new
          exact .inr ⟨[], b, batches, rfl, rfl, by simp [batchInfo]⟩
      · refine .inr ⟨b :: before, b', behind, rfl, base, ?_⟩
        rw [position, List.flatMap_cons, List.length_append, ← Nat.add_assoc]
        rfl

/-- A batch in the bookkeeping stands at its position in the file. -/
theorem SegmentLog.mem_recovered {log : SegmentLog} {info : BatchInfo}
    (mem : info ∈ log.recovered.batches) :
    ∃ before b behind, log.batches = before ++ b :: behind ∧ info.base = b.baseOffset ∧
      info.position = log.header.bytes.length + (before.flatMap RecordBatch.bytes).length := by
  rcases foldl_push_batches mem with none | found
  · cases none
  · rw [SegmentHeader.length_bytes]
    exact found

/-! ## Scans -/

/-- Taking records in two parts. -/
def Splits {σ : Type} (consume : List Record → σ → Except GoError (σ × Bool)) : Prop :=
  (∀ acc, consume [] acc = .ok (acc, false)) ∧
    ∀ xs ys acc, consume (xs ++ ys) acc =
      consume xs acc >>= fun (acc, done) => if done then .ok (acc, true) else consume ys acc

/-- Reading may be interrupted between any two records. -/
theorem readRecords_splits (offset : UInt64) (maxRecords : UInt32) :
    Splits (readRecords offset maxRecords) := by
  refine ⟨fun _ => rfl, fun xs ys acc => ?_⟩
  induction xs generalizing acc with
  | nil => rfl
  | cons x xs ih =>
      simp only [List.cons_append, readRecords]
      split
      · exact ih acc
      · split
        · rfl
        · exact ih _

theorem fetchRecords_splits (offset : UInt64) (options : FetchOptions) :
    Splits (fetchRecords offset options) := by
  refine ⟨fun _ => rfl, fun xs ys acc => ?_⟩
  induction xs generalizing acc with
  | nil => rfl
  | cons x xs ih =>
      simp only [List.cons_append, fetchRecords]
      split
      · exact ih acc
      · split
        · rfl
        · cases recordEncodedBytes x with
          | error e => rfl
          | ok recordBytes =>
              simp only [ok_bind]
              split
              · split <;> rfl
              · exact ih _

/-- A decoder of the batch at the front of a scan. -/
def DecodesFront (topic : TopicID) (partition : UInt32)
    (next : Nat → Bytes → Except GoError (RecordBatch × Nat)) : Prop :=
  ∀ b left rest, b.Valid → b.topic = topic → b.partition = partition → b.total ≤ left →
    next left (b.bytes ++ rest) = .ok (b, b.total)

/-- A read decodes the batch at its position. -/
theorem readBatch_decodes (topic : TopicID) (partition : UInt32) :
    DecodesFront topic partition (readBatch topic partition) := by
  rintro b left rest valid rfl rfl fits
  have bounds := valid.total_bounds
  have long : ¬ left < batchHeaderBytes.toNat := by
    simp only [batchHeaderBytes, UInt16.reduceToNat]
    omega
  have field : (uint32 (slice (b.bytes ++ rest) 8 12)).toNat = b.total :=
    RecordBatch.length_field valid (.inr (List.prefix_append ..)) (by simp; omega)
  have minimum : (batchHeaderBytes.toUInt32 + 4).toNat = 52 := by decide
  have inside : ¬ (uint32 (slice (b.bytes ++ rest) 8 12) < batchHeaderBytes.toUInt32 + 4 ∨
      left < b.total) := by
    rw [UInt32.lt_iff_toNat_lt, field, minimum]
    omega
  have front : slice (b.bytes ++ rest) 0 b.total = b.bytes := slice_zero_append (by simp)
  simp only [readBatch, failIf_of_not long, field, failIf_of_not inside, front,
    RecordBatch.decode_bytes valid, ok_bind, pure_eq_ok]

theorem fetchBatch_decodes (topic : TopicID) (partition : UInt32) :
    DecodesFront topic partition (fetchBatch topic partition) := by
  rintro b left rest valid rfl rfl fits
  have bounds := valid.total_bounds
  have length : (b.bytes ++ rest).length = b.total + rest.length := by simp
  have long : ¬ (b.bytes ++ rest).length < batchHeaderBytes.toNat := by
    simp only [length, batchHeaderBytes, UInt16.reduceToNat]
    omega
  have field : (uint32 (slice (b.bytes ++ rest) 8 12)).toNat = b.total :=
    RecordBatch.length_field valid (.inr (List.prefix_append ..)) (by omega)
  have minimum : (batchHeaderBytes.toUInt32 + 4).toNat = 52 := by decide
  have limit : maxBatchBytes.toNat = 67108864 := by decide
  have inside : ¬ (uint32 (slice (b.bytes ++ rest) 8 12) < batchHeaderBytes.toUInt32 + 4 ∨
      maxBatchBytes < uint32 (slice (b.bytes ++ rest) 8 12) ∨ left < b.total) := by
    rw [UInt32.lt_iff_toNat_lt, UInt32.lt_iff_toNat_lt, field, minimum, limit]
    omega
  have body : ¬ (b.bytes ++ rest).length < b.total := by omega
  have front : slice (b.bytes ++ rest) 0 b.total = b.bytes := slice_zero_append (by simp)
  simp only [fetchBatch, failIf_of_not long, field, failIf_of_not inside, failIf_of_not body,
    front, RecordBatch.decode_bytes valid, ok_bind, pure_eq_ok]

/-- A scan over the encodings of a list of batches takes their records. -/
theorem scanBatches_items {σ ι : Type} {next : Nat → Bytes → Except GoError (RecordBatch × Nat)}
    {consume : List Record → σ → Except GoError (σ × Bool)} (splits : Splits consume)
    {encoded : ι → Bytes} {b : ι → RecordBatch} {items : List ι}
    (decodes : ∀ x ∈ items, 0 < (encoded x).length ∧ ∀ left rest, (encoded x).length ≤ left →
      next left (encoded x ++ rest) = .ok (b x, (encoded x).length))
    {fuel : Nat} (rest : Bytes) (acc : σ) (enough : (items.flatMap encoded).length ≤ fuel) :
    scanBatches next consume fuel (items.flatMap encoded).length
      (items.flatMap encoded ++ rest) acc =
        consume (items.flatMap fun x => (b x).records) acc := by
  induction items generalizing fuel acc with
  | nil =>
      rw [List.flatMap_nil, List.flatMap_nil, splits.1]
      cases fuel <;> rfl
  | cons x items ih =>
      obtain ⟨pos, decode⟩ := decodes x List.mem_cons_self
      simp only [List.flatMap_cons, List.length_append] at enough ⊢
      obtain ⟨fuel, rfl⟩ : ∃ n, fuel = n + 1 := ⟨fuel - 1, by omega⟩
      have positive : ¬ (encoded x).length + (items.flatMap encoded).length = 0 := by omega
      have remaining : (encoded x).length + (items.flatMap encoded).length - (encoded x).length =
          (items.flatMap encoded).length := by omega
      have behind : (encoded x ++ (items.flatMap encoded ++ rest)).drop (encoded x).length =
          items.flatMap encoded ++ rest := List.drop_left ..
      rw [scanBatches, if_neg positive, List.append_assoc, decode _ _ (by omega), splits.2]
      simp only [ok_bind]
      cases consume (b x).records acc with
      | error e => rfl
      | ok taken =>
          obtain ⟨acc', done⟩ := taken
          cases done with
          | true => rfl
          | false =>
              simp only [ok_bind, Bool.false_eq_true, if_false, remaining, behind]
              exact ih (fun y mem => decodes y (List.mem_cons_of_mem _ mem)) acc' (by omega)

/-- Each batch of a run is valid and belongs to the partition. -/
theorem Follows.mem {topic : TopicID} {partition : UInt32} {base : UInt64}
    {batches : List RecordBatch} (follows : Follows topic partition base batches) {b : RecordBatch}
    (mem : b ∈ batches) : b.Valid ∧ b.topic = topic ∧ b.partition = partition := by
  induction batches generalizing base with
  | nil => cases mem
  | cons first batches ih =>
      obtain ⟨valid, topicEq, partitionEq, _, later⟩ := follows
      rcases List.mem_cons.1 mem with rfl | rest
      · exact ⟨valid, topicEq, partitionEq⟩
      · exact ih later rest

/-- A scan over batches takes their records. -/
theorem scanBatches_follows {σ : Type} {topic : TopicID} {partition : UInt32}
    {next : Nat → Bytes → Except GoError (RecordBatch × Nat)}
    {consume : List Record → σ → Except GoError (σ × Bool)}
    (decodes : DecodesFront topic partition next) (splits : Splits consume)
    {base : UInt64} {batches : List RecordBatch} (follows : Follows topic partition base batches)
    {fuel : Nat} (rest : Bytes) (acc : σ)
    (enough : (batches.flatMap RecordBatch.bytes).length ≤ fuel) :
    scanBatches next consume fuel (batches.flatMap RecordBatch.bytes).length
      (batches.flatMap RecordBatch.bytes ++ rest) acc =
        consume (batches.flatMap RecordBatch.records) acc := by
  refine scanBatches_items (b := id) splits (fun x mem => ?_) rest acc enough
  obtain ⟨valid, topicEq, partitionEq⟩ := follows.mem mem
  have bounds := valid.total_bounds
  simp only [RecordBatch.length_bytes]
  exact ⟨by omega, fun left rest fits => decodes x left rest valid topicEq partitionEq fits⟩

/-- Records below the requested offset are passed over. -/
def Skips {σ : Type} (offset : UInt64) (consume : List Record → σ → Except GoError (σ × Bool)) :
    Prop :=
  ∀ xs acc, (∀ x ∈ xs, x.offset < offset) → consume xs acc = .ok (acc, false)

/-- Records in front of the offset are skipped. -/
theorem readRecords_skips (offset : UInt64) (maxRecords : UInt32) :
    Skips offset (readRecords offset maxRecords) := by
  intro xs acc below
  induction xs with
  | nil => rfl
  | cons x xs ih =>
      rw [readRecords, if_pos (below x List.mem_cons_self)]
      exact ih fun y mem => below y (List.mem_cons_of_mem _ mem)

theorem fetchRecords_skips (offset : UInt64) (options : FetchOptions) :
    Skips offset (fetchRecords offset options) := by
  intro xs acc below
  induction xs with
  | nil => rfl
  | cons x xs ih =>
      rw [fetchRecords, if_pos (below x List.mem_cons_self)]
      exact ih fun y mem => below y (List.mem_cons_of_mem _ mem)

theorem Splits.skip {σ : Type} {offset : UInt64}
    {consume : List Record → σ → Except GoError (σ × Bool)} (splits : Splits consume)
    (skips : Skips offset consume) {xs : List Record} (below : ∀ x ∈ xs, x.offset < offset)
    (ys : List Record) (acc : σ) : consume (xs ++ ys) acc = consume ys acc := by
  rw [splits.2, skips xs acc below]
  rfl

/-- A run of batches splits anywhere. -/
theorem follows_append {topic : TopicID} {partition : UInt32} {base : UInt64}
    {xs ys : List RecordBatch} :
    Follows topic partition base (xs ++ ys) ↔
      Follows topic partition base xs ∧ Follows topic partition (nextOffset base xs) ys := by
  induction xs generalizing base with
  | nil => simp [Follows, nextOffset]
  | cons x xs ih =>
      simp only [List.cons_append, Follows, ih, and_assoc]
      rfl

/-- The hint in use is the start of the segment or one that is not above the offset. -/
theorem hintPosition_cases (offset : UInt64) (hints : List OffsetIndexEntry) (position : Nat) :
    hintPosition offset hints position = position ∨
      ∃ hint ∈ hints, hint.base ≤ offset ∧ hintPosition offset hints position = hint.position := by
  induction hints generalizing position with
  | nil => exact .inl rfl
  | cons hint hints ih =>
      unfold hintPosition
      split
      · exact .inl rfl
      · rename_i reached
        rcases ih hint.position with same | ⟨later, mem, below, same⟩
        · exact .inr ⟨hint, List.mem_cons_self, UInt64.not_lt.1 reached, same⟩
        · exact .inr ⟨later, List.mem_cons_of_mem _ mem, below, same⟩

/-- Hints within the file are followed. -/
theorem fetchPosition_eq {offset : UInt64} {size : Nat} {hints : List OffsetIndexEntry}
    {position : Nat} (inside : ∀ hint ∈ hints, hint.position ≤ size) :
    fetchPosition offset size hints position = .ok (hintPosition offset hints position) := by
  induction hints generalizing position with
  | nil => rfl
  | cons hint hints ih =>
      have here : ¬ size < hint.position := Nat.not_lt.2 (inside hint List.mem_cons_self)
      unfold fetchPosition hintPosition
      split
      · rfl
      · rw [failIf_of_not here]
        exact ih fun later mem => inside later (List.mem_cons_of_mem _ mem)

section ShownSegment

variable {topic : TopicID} {partition : UInt32} {base : UInt64} {s : Segment} {log : SegmentLog}

/-- The hint splits the batches into those it passes over, all below the offset, and
those the scan starts with. -/
theorem Segment.Shows.hint_splits (shows : s.Shows log) (valid : log.Valid topic partition base)
    (offset : UInt64) :
    ∃ before behind, log.batches = before ++ behind ∧
      hintPosition offset s.offsetIndex segmentHeaderBytes.toNat =
        (log.header.bytes ++ before.flatMap RecordBatch.bytes).length ∧
      ∀ r ∈ before.flatMap RecordBatch.records, r.offset < offset := by
  rcases hintPosition_cases offset s.offsetIndex segmentHeaderBytes.toNat with
    same | ⟨hint, mem, reached, same⟩
  · refine ⟨[], log.batches, rfl, ?_, by simp⟩
    rw [same]
    simp [segmentHeaderBytes]
  · obtain ⟨info, found, baseEq, positionEq⟩ := shows.hints hint mem
    obtain ⟨before, b, behind, split, infoBase, infoPosition⟩ := SegmentLog.mem_recovered found
    refine ⟨before, b :: behind, split, ?_, fun r inBefore => ?_⟩
    · rw [same, positionEq, infoPosition, List.length_append]
    · have follows := valid.follows
      rw [split, follows_append] at follows
      have small : base ≤ maxOffset := valid.base_eq ▸ valid.header.baseOffset
      obtain ⟨consecutive, length, _⟩ := follows.1.consecutive small
      have range := (consecutive.range inBefore).2
      have start : b.baseOffset = nextOffset base before := follows.2.2.2.2.1
      rw [UInt64.lt_iff_toNat_lt]
      have le := UInt64.le_iff_toNat_le.1 reached
      rw [baseEq, infoBase, start] at le
      omega

/-- A scan of a segment from the hint on takes the records of the segment. -/
theorem Segment.Shows.scan {σ : Type} (shows : s.Shows log)
    (valid : log.Valid topic partition base)
    {next : Nat → Bytes → Except GoError (RecordBatch × Nat)}
    {consume : List Record → σ → Except GoError (σ × Bool)}
    (decodes : DecodesFront topic partition next) (splits : Splits consume)
    {offset : UInt64} (skips : Skips offset consume) (acc : σ) (rest : Bytes) :
    scanBatches next consume log.bytes.length
      (log.bytes.length - hintPosition offset s.offsetIndex segmentHeaderBytes.toNat)
      ((log.bytes ++ rest).drop (hintPosition offset s.offsetIndex segmentHeaderBytes.toNat)) acc =
        consume log.records acc := by
  obtain ⟨before, behind, split, position, below⟩ := shows.hint_splits valid offset
  have whole : log.bytes = (log.header.bytes ++ before.flatMap RecordBatch.bytes) ++
      behind.flatMap RecordBatch.bytes := by
    simp [SegmentLog.bytes, split]
  have left : log.bytes.length - (log.header.bytes ++ before.flatMap RecordBatch.bytes).length =
      (behind.flatMap RecordBatch.bytes).length := by
    rw [whole, List.length_append, Nat.add_sub_cancel_left]
  have dropped : (log.bytes ++ rest).drop
      (log.header.bytes ++ before.flatMap RecordBatch.bytes).length =
        behind.flatMap RecordBatch.bytes ++ rest := by
    rw [whole, List.append_assoc, List.drop_left]
  have follows := valid.follows
  rw [split, follows_append] at follows
  have enough : (behind.flatMap RecordBatch.bytes).length ≤ log.bytes.length := by
    rw [whole, List.length_append]
    omega
  have records : log.records = before.flatMap RecordBatch.records ++
      behind.flatMap RecordBatch.records := by
    simp [SegmentLog.records, split]
  rw [position, left, dropped, scanBatches_follows decodes splits follows.2 rest acc enough,
    records, splits.skip skips below]

/-- Hints lie inside the segment. -/
theorem Segment.Shows.hint_inside (shows : s.Shows log) :
    ∀ hint ∈ s.offsetIndex, hint.position ≤ log.bytes.length := by
  intro hint mem
  obtain ⟨info, found, _, positionEq⟩ := shows.hints hint mem
  obtain ⟨before, b, behind, split, _, infoPosition⟩ := SegmentLog.mem_recovered found
  rw [positionEq, infoPosition, SegmentLog.bytes, split, List.flatMap_append, List.length_append,
    List.length_append]
  omega

end ShownSegment

/-! ## Reads of a partition that shows a log -/

/-- The partition in memory shows a chain of segments. -/
structure Partition.Shows (p : Partition) (logs : List SegmentLog) : Prop where
  segments : List.Forall₂ Segment.Shows p.segments logs
  chain : Chain p.topic p.partition p.options.initialOffset logs
  logEnd : p.logEnd = chainEnd p.options.initialOffset logs

/-- The retained log starts at the initial offset. -/
theorem Partition.Shows.logStart {p : Partition} {logs : List SegmentLog} (shows : p.Shows logs) :
    p.logStart = p.options.initialOffset := by
  have segments := shows.segments
  have chain := shows.chain
  unfold Partition.logStart
  cases h : p.segments with
  | nil => simp [Partition.segments] at h
  | cons s rest =>
      rw [h] at segments
      cases segments with
      | cons first _ => exact (congrArg _ first.header).trans chain.1.base_eq

/-- The segment files hold exactly the given logs. -/
def FilesHold (dir : Dir Name) (logs : List SegmentLog) : Prop :=
  ∀ log ∈ logs, dir.read? (.log log.header.baseOffset) = some log.bytes

section Reads

variable {p : Partition} {dir : Dir Name}

/-- A read goes through the records of the segments, as if they were one list. -/
theorem readSegments_eq {segments : List Segment} {logs : List SegmentLog} {base : UInt64}
    (shows : List.Forall₂ Segment.Shows segments logs)
    (chain : Chain p.topic p.partition base logs) (files : FilesHold dir logs)
    (offset : UInt64) (maxRecords : UInt32) (acc : List Record) :
    readSegments dir p offset maxRecords segments acc =
      (readRecords offset maxRecords (chainRecords logs) acc).map Prod.fst := by
  have splits := readRecords_splits offset maxRecords
  have skips := readRecords_skips offset maxRecords
  induction shows generalizing base acc with
  | nil => rfl
  | @cons s log segments logs first _ ih =>
      obtain ⟨valid, _, later⟩ := chain
      have rest := fun acc => ih later (fun x mem => files x (List.mem_cons_of_mem _ mem)) acc
      have records : chainRecords (log :: logs) = log.records ++ chainRecords logs := rfl
      rw [readSegments, records]
      split
      · rename_i passed
        have below : ∀ r ∈ log.records, r.offset < offset := by
          intro r mem
          obtain ⟨consecutive, length, _⟩ := valid.consecutive
          have range := (consecutive.range mem).2
          rw [first.endOffset, UInt64.le_iff_toNat_le] at passed
          rw [UInt64.lt_iff_toNat_lt]
          omega
        rw [splits.skip skips below]
        exact rest acc
      · have read := files log List.mem_cons_self
        have long : ¬ log.bytes.length < log.bytes.length := Nat.lt_irrefl _
        have file : readSegmentFile dir s = .ok log.bytes := by
          simp only [readSegmentFile, first.name, read, first.size, failIf_of_not long, ok_bind,
            List.take_length, pure_eq_ok]
        have scan := first.scan valid (readBatch_decodes p.topic p.partition) splits skips acc []
        rw [List.append_nil] at scan
        rw [file, splits.2]
        simp only [ok_bind, scan]
        cases readRecords offset maxRecords log.records acc with
        | error e => rfl
        | ok taken =>
            obtain ⟨acc', done⟩ := taken
            cases done with
            | true => rfl
            | false => exact rest acc'

/-- And so does a fetch. -/
theorem fetchSegments_eq {segments : List Segment} {logs : List SegmentLog} {base : UInt64}
    (shows : List.Forall₂ Segment.Shows segments logs)
    (chain : Chain p.topic p.partition base logs) (files : FilesHold dir logs)
    (offset : UInt64) (options : FetchOptions) (acc : FetchState) :
    fetchSegments dir p offset options segments acc =
      (fetchRecords offset options (chainRecords logs) acc).map fun found => found.1.result := by
  have splits := fetchRecords_splits offset options
  have skips := fetchRecords_skips offset options
  induction shows generalizing base acc with
  | nil => rfl
  | @cons s log segments logs first _ ih =>
      obtain ⟨valid, _, later⟩ := chain
      have rest := fun acc => ih later (fun x mem => files x (List.mem_cons_of_mem _ mem)) acc
      have records : chainRecords (log :: logs) = log.records ++ chainRecords logs := rfl
      rw [fetchSegments, records]
      split
      · rename_i passed
        have below : ∀ r ∈ log.records, r.offset < offset := by
          intro r mem
          obtain ⟨consecutive, length, _⟩ := valid.consecutive
          have range := (consecutive.range mem).2
          rw [first.endOffset, UInt64.le_iff_toNat_le] at passed
          rw [UInt64.lt_iff_toNat_lt]
          omega
        rw [splits.skip skips below]
        exact rest acc
      · have read := files log List.mem_cons_self
        have scan := first.scan valid (fetchBatch_decodes p.topic p.partition) splits skips acc []
        rw [List.append_nil] at scan
        have scanned : scanSegmentForFetch dir p s offset options acc =
            fetchRecords offset options log.records acc := by
          simp only [scanSegmentForFetch, first.name, read, first.size,
            fetchPosition_eq first.hint_inside, ok_bind, scan]
        rw [scanned, splits.2]
        cases fetchRecords offset options log.records acc with
        | error e => rfl
        | ok taken =>
            obtain ⟨acc', done⟩ := taken
            cases done with
            | true => rfl
            | false => exact rest acc'

/-- The records from an offset on. -/
def recordsFrom (offset : UInt64) (records : List Record) : List Record :=
  records.filter fun r => decide (offset ≤ r.offset)

/-- What a read takes is a front of the records from its offset on. -/
theorem readRecords_taken {offset : UInt64} {maxRecords : UInt32} {records acc acc' : List Record}
    {done : Bool} (taken : readRecords offset maxRecords records acc = .ok (acc', done)) :
    ∃ more, more <+: recordsFrom offset records ∧ acc' = acc ++ more := by
  induction records generalizing acc with
  | nil =>
      obtain ⟨rfl, _⟩ := Prod.mk.inj (Except.ok.inj taken)
      exact ⟨[], List.nil_prefix, by simp⟩
  | cons r records ih =>
      unfold readRecords at taken
      split_ifs at taken with below full
      · obtain ⟨more, front, rfl⟩ := ih taken
        refine ⟨more, ?_, rfl⟩
        rwa [recordsFrom, List.filter_cons_of_neg (by simpa using below)]
      · obtain ⟨rfl, _⟩ := Prod.mk.inj (Except.ok.inj taken)
        exact ⟨[], List.nil_prefix, by simp⟩
      · obtain ⟨more, front, rfl⟩ := ih taken
        refine ⟨r :: more, ?_, by simp⟩
        rw [recordsFrom, List.filter_cons_of_pos (by simpa using below)]
        exact List.cons_prefix_cons.2 ⟨rfl, front⟩

/-- What a fetch takes is a front of them, too. -/
theorem fetchRecords_taken {offset : UInt64} {options : FetchOptions} {records : List Record}
    {s s' : FetchState} {done : Bool}
    (taken : fetchRecords offset options records s = .ok (s', done)) :
    ∃ more, more <+: recordsFrom offset records ∧ s'.result = s.result.extend more := by
  induction records generalizing s with
  | nil =>
      obtain ⟨rfl, _⟩ := Prod.mk.inj (Except.ok.inj taken)
      exact ⟨[], List.nil_prefix, by simp⟩
  | cons r records ih =>
      unfold fetchRecords at taken
      by_cases below : r.offset < offset
      · rw [if_pos below] at taken
        obtain ⟨more, front, same⟩ := ih taken
        refine ⟨more, ?_, same⟩
        rwa [recordsFrom, List.filter_cons_of_neg (by simpa using below)]
      rw [if_neg below] at taken
      by_cases full : options.maxRecords ≤ .ofNat s.result.records.length
      · rw [if_pos full] at taken
        obtain ⟨rfl, _⟩ := Prod.mk.inj (Except.ok.inj taken)
        exact ⟨[], List.nil_prefix, by simp⟩
      · rw [if_neg full] at taken
        obtain ⟨recordBytes, _, taken⟩ := bind_eq_ok.1 taken
        split_ifs at taken
        · obtain ⟨rfl, _⟩ := Prod.mk.inj (Except.ok.inj taken)
          exact ⟨[], List.nil_prefix, by simp⟩
        · obtain ⟨more, front, same⟩ := ih taken
          refine ⟨r :: more, ?_, by rw [same, FetchState.push_extend]⟩
          rw [recordsFrom, List.filter_cons_of_pos (by simpa using below)]
          exact List.cons_prefix_cons.2 ⟨rfl, front⟩

/-- A read returns the records of the log from the offset on, up to some point. -/
theorem read_prefix {logs : List SegmentLog} (shows : p.Shows logs) (files : FilesHold dir logs)
    {offset : UInt64} {maxRecords : UInt32} {result : List Record}
    (ok : read dir p offset maxRecords = .ok result) :
    result <+: recordsFrom offset (chainRecords logs) := by
  simp only [read, bind_eq_ok, failIf_eq_ok, exists_const] at ok
  obtain ⟨_, _, _, _, found⟩ := ok
  by_cases atEnd : offset = p.logEnd
  · rw [if_pos atEnd] at found
    obtain rfl := Except.ok.inj found
    exact List.nil_prefix
  · rw [if_neg atEnd, readSegments_eq shows.segments shows.chain files] at found
    obtain ⟨⟨acc', done⟩, taken, rfl⟩ := map_eq_ok.1 found
    obtain ⟨more, front, rfl⟩ := readRecords_taken taken
    simpa using front

/-- Delivered records are numbered from their base. -/
theorem deliveredRecordsMatch_offset {topic : TopicID} {partition : UInt32} {base : UInt64}
    {start : Nat} {records : List Record}
    (matches_ : deliveredRecordsMatch topic partition base start records = true) {index : Nat}
    {r : Record} (found : records[index]? = some r) : r.offset = base + .ofNat (start + index) := by
  induction records generalizing start index with
  | nil => simp at found
  | cons x records ih =>
      simp only [deliveredRecordsMatch, Bool.and_eq_true, decide_eq_true_eq] at matches_
      cases index with
      | zero =>
          obtain rfl : x = r := by simpa using found
          exact matches_.1.2.2
      | succ index =>
          have found' : records[index]? = some r := by simpa using found
          have later := ih matches_.2 found'
          rwa [Nat.add_right_comm] at later

theorem Consecutive.of_isPrefix {base : UInt64} {xs ys : List Record}
    (consecutive : Consecutive base ys) (front : xs <+: ys) : Consecutive base xs := by
  obtain ⟨zs, rfl⟩ := front
  intro index r found
  refine consecutive index r ?_
  have inside := (List.getElem?_eq_some_iff.1 found).1
  rw [List.getElem?_append_left inside, found]

/-- The records from an offset on are a tail of consecutive records. -/
theorem Consecutive.recordsFrom_eq {base offset : UInt64} {xs : List Record}
    (consecutive : Consecutive base xs) (above : base ≤ offset) :
    recordsFrom offset xs = xs.drop (offset.toNat - base.toNat) := by
  have above' := UInt64.le_iff_toNat_le.1 above
  have split : xs = xs.take (offset.toNat - base.toNat) ++ xs.drop (offset.toNat - base.toNat) :=
    (List.take_append_drop ..).symm
  have before : recordsFrom offset (xs.take (offset.toNat - base.toNat)) = [] := by
    rw [recordsFrom, List.filter_eq_nil_iff]
    intro r mem
    obtain ⟨i, found⟩ := List.mem_iff_getElem?.1 mem
    have inside := (List.getElem?_eq_some_iff.1 found).1
    rw [List.length_take] at inside
    rw [List.getElem?_take_of_lt (by omega)] at found
    have here := consecutive i r found
    simp only [decide_eq_true_eq, UInt64.le_iff_toNat_le]
    omega
  have behind : recordsFrom offset (xs.drop (offset.toNat - base.toNat)) =
      xs.drop (offset.toNat - base.toNat) := by
    rw [recordsFrom, List.filter_eq_self]
    intro r mem
    obtain ⟨i, found⟩ := List.mem_iff_getElem?.1 mem
    rw [List.getElem?_drop] at found
    have here := consecutive _ r found
    simp only [decide_eq_true_eq, UInt64.le_iff_toNat_le]
    omega
  calc recordsFrom offset xs
      = recordsFrom offset (xs.take (offset.toNat - base.toNat)) ++
          recordsFrom offset (xs.drop (offset.toNat - base.toNat)) := by
        rw [recordsFrom, recordsFrom, recordsFrom, ← List.filter_append, ← split]
    _ = xs.drop (offset.toNat - base.toNat) := by rw [before, behind, List.nil_append]

/-- The records from an offset on start there. -/
theorem Consecutive.recordsFrom {base offset : UInt64} {xs : List Record}
    (consecutive : Consecutive base xs) (above : base ≤ offset) :
    Consecutive offset (recordsFrom offset xs) := by
  have above' := UInt64.le_iff_toNat_le.1 above
  rw [consecutive.recordsFrom_eq above]
  intro index r found
  rw [List.getElem?_drop] at found
  have here := consecutive _ r found
  omega

/-- The next offset of a result stands behind its records. -/
theorem Consecutive.extend_nextOffset {offset : UInt64} {taken : List Record}
    (consecutive : Consecutive offset taken) :
    ((FetchState.start offset).result.extend taken).nextOffset = offset + .ofNat taken.length := by
  rcases List.eq_nil_or_concat taken with rfl | ⟨front, last, rfl⟩
  · simp [FetchResult.extend, FetchState.start]
  · have here := consecutive front.length last (by simp)
    have same : last.offset = offset + .ofNat front.length := by
      rw [← UInt64.toNat_inj, here, UInt64.toNat_add, ← here]
      have small := last.offset.toNat_lt
      have fits : (UInt64.ofNat front.length).toNat = front.length := toNat_ofNat64 (by omega)
      rw [fits, ← here, Nat.mod_eq_of_lt small]
    simp only [FetchResult.extend, List.concat_eq_append, List.getLast?_concat, Option.elim_some,
      List.length_append, List.length_singleton, same, UInt64.ofNat_add]
    rw [UInt64.add_assoc]
    rfl

/-- The cached batches are pieces of the log. -/
def TailWithin (tail : PartitionTail) (records : List Record) : Prop :=
  tail.Holds fun batch => batch.records <:+: records

/-- A fetch returns the records of the log from the offset on, up to some point, and the
offset behind them. -/
theorem fetch_spec {logs : List SegmentLog} (shows : p.Shows logs) (files : FilesHold dir logs)
    (tail : ∀ t ∈ p.tail, TailWithin t (chainRecords logs)) {free : Bool} {offset : UInt64}
    {options : FetchOptions} {result : FetchResult}
    (ok : fetch dir p free offset options = .ok result) :
    result.records <+: recordsFrom offset (chainRecords logs) ∧
      result.nextOffset = offset + .ofNat result.records.length := by
  simp only [fetch, bind_eq_ok, failIf_eq_ok, exists_const, not_or, UInt64.not_lt] at ok
  obtain ⟨options', _, _, _, ⟨above, _⟩, found⟩ := ok
  obtain ⟨consecutive, _⟩ := shows.chain.consecutive
  rw [shows.logStart] at above
  have above' := UInt64.le_iff_toNat_le.1 above
  suffices taken : ∃ taken, taken <+: recordsFrom offset (chainRecords logs) ∧
      result = (FetchState.start offset).result.extend taken by
    obtain ⟨taken, front, rfl⟩ := taken
    have here := (consecutive.recordsFrom above).of_isPrefix front
    refine ⟨by simpa [FetchResult.extend, FetchState.start] using front, ?_⟩
    rw [here.extend_nextOffset]
    simp [FetchResult.extend, FetchState.start]
  split at found
  · rename_i answer hit
    obtain ⟨t, inTail, hit⟩ := Option.bind_eq_some_iff.1 hit
    rw [found] at hit
    obtain ⟨batch, within, valid, taken, front, same⟩ := PartitionTail.fetch_hit (tail t inTail) hit
    refine ⟨taken, ?_, same⟩
    obtain ⟨_, _, low, high, _, _, nonempty, _, _, ends, placed⟩ := valid
    obtain ⟨before, behind, split⟩ := within
    have first : ∃ r, batch.records[0]? = some r :=
      ⟨batch.records[0], List.getElem?_eq_getElem (Nat.pos_of_ne_zero nonempty)⟩
    obtain ⟨r, atZero⟩ := first
    have base : r.offset = batch.base := by
      simpa using deliveredRecordsMatch_offset placed atZero
    have inChain : (chainRecords logs)[before.length]? = some r := by
      rw [← split, List.append_assoc, List.getElem?_append_right (Nat.le_refl _), Nat.sub_self,
        List.getElem?_append_left (Nat.pos_of_ne_zero nonempty), atZero]
    have position := consecutive before.length r inChain
    rw [base] at position
    have low' := UInt64.le_iff_toNat_le.1 low
    have skip : (offset - batch.base).toNat = offset.toNat - batch.base.toNat := by
      rw [UInt64.toNat_sub_of_le _ _ low]
    have dropped : (chainRecords logs).drop (offset.toNat - p.options.initialOffset.toNat) =
        (batch.records ++ behind).drop (offset - batch.base).toNat := by
      rw [← split, List.append_assoc, List.drop_append, List.drop_eq_nil_of_le (by omega),
        List.nil_append, skip]
      congr 1
      omega
    rw [consecutive.recordsFrom_eq above, dropped, List.drop_append]
    exact front.trans (List.prefix_append ..)
  · rw [fetchSegments_eq shows.segments shows.chain files] at found
    obtain ⟨⟨s, done⟩, taken, rfl⟩ := map_eq_ok.1 found
    exact fetchRecords_taken taken

end Reads
end Immulog
