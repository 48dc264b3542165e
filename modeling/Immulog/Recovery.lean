import Immulog.Segment

/-!
Recovery of segment files.

`SegmentLog` is what a segment file is meant to hold: a header and the batches that
follow each other behind it.  The lemmas say what the recovery loop and the programs
of `Immulog.Segment` do with a file that holds a log and then nothing, a piece of one
more batch, or less than its header; and what a stop at any instant leaves.
-/

namespace Immulog

open Lib

/-! ## What a segment file holds -/

/-- The offset behind the given batches. -/
def nextOffset (base : UInt64) (batches : List RecordBatch) : UInt64 :=
  batches.foldl (fun offset b => offset + .ofNat b.records.length) base

/-- Valid batches of one partition that follow each other from `base` on. -/
def Follows (topic : TopicID) (partition : UInt32) : UInt64 → List RecordBatch → Prop
  | _, [] => True
  | base, b :: rest =>
      b.Valid ∧ b.topic = topic ∧ b.partition = partition ∧ b.baseOffset = base ∧
        Follows topic partition (base + .ofNat b.records.length) rest

namespace RecordBatch

variable {b : RecordBatch}

theorem Valid.total_bounds (valid : b.Valid) : 80 ≤ b.total ∧ b.total ≤ 67108864 := by
  have lower := valid.length_recordBytes
  have nonempty := valid.nonempty
  have size : b.total ≤ 67108864 := valid.size
  have totalEq : b.total = 48 + b.recordBytes.length + 4 := rfl
  omega

/-- The length field of a batch, read from any of its beginnings that contains it. -/
theorem length_field {data : Bytes} (valid : b.Valid)
    (front : data <+: b.bytes ∨ b.bytes <+: data) (long : 12 ≤ data.length) :
    (uint32 (slice data 8 12)).toNat = b.total := by
  have field : slice b.bytes 8 12 = putUint32 (.ofNat b.total) := by
    simpa using @slice_bytes b [] _ 3 8 12 rfl rfl rfl
  have same : slice data 8 12 = slice b.bytes 8 12 := by
    rcases front with front | front
    · exact slice_of_isPrefix front long
    · exact (slice_of_isPrefix front (by have := valid.total_bounds; simp; omega)).symm
  rw [same, field, uint32_putUint32, valid.toNat_total]

/-- The header of an incomplete batch is complete enough for it to be cut off. -/
theorem canTruncateTail_of_cut {data : Bytes} (valid : b.Valid) (front : data <+: b.bytes)
    (header : 48 ≤ data.length) (cut : data.length < b.bytes.length) :
    canTruncateTail data b.baseOffset := by
  have slices := fun {k start stop field} => @slice_bytes b [] field k start stop
  simp only [List.append_nil] at slices
  have same : ∀ start stop, stop ≤ 48 → slice data start stop = slice b.bytes start stop :=
    fun start stop inside => slice_of_isPrefix front (inside.trans header)
  have magic : slice b.bytes 0 4 = _ := slices (k := 0) rfl rfl rfl
  have version : slice b.bytes 4 6 = _ := slices (k := 1) rfl rfl rfl
  have headerSize : slice b.bytes 6 8 = _ := slices (k := 2) rfl rfl rfl
  have totalField : slice b.bytes 8 12 = _ := slices (k := 3) rfl rfl rfl
  have countField : slice b.bytes 12 16 = _ := slices (k := 4) rfl rfl rfl
  have base : slice b.bytes 16 24 = _ := slices (k := 5) rfl rfl rfl
  have reserved : slice b.bytes 32 36 = _ := slices (k := 7) rfl rfl rfl
  have encoding : slice b.bytes 36 38 = _ := slices (k := 8) rfl rfl rfl
  have reserved' : slice b.bytes 38 40 = _ := slices (k := 9) rfl rfl rfl
  have reserved'' : slice b.bytes 40 44 = _ := slices (k := 10) rfl rfl rfl
  have headerCRC : slice b.bytes 44 48 = _ := slices (k := 11) rfl rfl rfl
  have headerBody : slice b.bytes 0 44 = b.headerFields.flatten := by
    rw [bytes, withCRC32C, RecordBatch.header, withCRC32C, List.append_assoc, List.append_assoc]
    exact slice_zero_append (by simp [headerFields, batchHeaderFields, batchMagic, ascii])
  have bounds := valid.total_bounds
  have count : b.records.length ≤ 65536 := valid.count
  have nonempty := valid.nonempty
  have minimum : (batchHeaderBytes.toUInt32 + 4 + recordPrefixBytes).toNat = 80 := by decide
  have recordLimit : maxBatchRecords.toNat = 65536 := by decide
  have byteLimit : maxBatchBytes.toNat = 67108864 := by decide
  have headerLimit : batchHeaderBytes.toNat = 48 := by decide
  rw [length_bytes] at cut
  simp only [canTruncateTail, same, Nat.reduceLeDiff, magic, version, headerSize, totalField,
    countField, base, reserved, encoding, reserved', reserved'', headerCRC, headerBody,
    uint16_putUint16, uint32_putUint32, uint64_putUint64, UInt32.le_iff_toNat_le,
    UInt32.lt_iff_toNat_lt, valid.toNat_count, valid.toNat_total, minimum, recordLimit, byteLimit,
    headerLimit, UInt32.toNat_zero, valid.range, true_and]
  omega

end RecordBatch

/-! ## Recovery of what a segment file holds -/

section RecoverBatches

variable {topic : TopicID} {partition : UInt32} {final : Bool}

/-- One round of the loop over a complete batch. -/
theorem recoverBatches_batch {b : RecordBatch} {rest : Bytes} {r : Recovered} {fuel : Nat}
    (valid : b.Valid) (topicEq : b.topic = topic) (partitionEq : b.partition = partition)
    (base : b.baseOffset = r.current) :
    recoverBatches topic partition final (fuel + 1) (b.bytes ++ rest) r =
      recoverBatches topic partition final fuel rest (r.push b b.bytes) := by
  have bounds := valid.total_bounds
  have size : (b.bytes ++ rest).length = b.total + rest.length := by simp
  have field : (uint32 (slice (b.bytes ++ rest) 8 12)).toNat = b.total :=
    RecordBatch.length_field valid (.inr (List.prefix_append ..)) (by omega)
  have nonempty : b.bytes ++ rest ≠ [] := by
    intro h
    rw [h] at size
    simp at size
    omega
  have long : ¬ (b.bytes ++ rest).length < batchHeaderBytes.toNat := by
    simp only [size, batchHeaderBytes, UInt16.reduceToNat]
    omega
  have fits : ¬ (b.bytes ++ rest).length < b.total := by omega
  have minimum : ¬ uint32 (slice (b.bytes ++ rest) 8 12) < batchHeaderBytes.toUInt32 + 4 := by
    have small : (batchHeaderBytes.toUInt32 + 4).toNat = 52 := by decide
    rw [UInt32.lt_iff_toNat_lt, field, small]
    omega
  have front : slice (b.bytes ++ rest) 0 b.total = b.bytes :=
    slice_zero_append (by simp)
  have behind : (b.bytes ++ rest).drop b.total = rest := by
    rw [← RecordBatch.length_bytes, List.drop_left]
  have decoded : decodeBatch b.bytes topic partition = .ok b := by
    rw [← topicEq, ← partitionEq]
    exact RecordBatch.decode_bytes valid
  rw [recoverBatches, if_neg nonempty, if_neg long]
  simp only [field, if_neg fits, failIf_of_not minimum, front, behind, decoded, ok_bind,
    failIf_of_not (not_not.2 base), ne_eq]

/-- The loop passes over complete batches. -/
theorem recoverBatches_follows (final : Bool) {batches : List RecordBatch} {rest : Bytes}
    {r : Recovered} {fuel : Nat} (follows : Follows topic partition r.current batches)
    (enough : (batches.flatMap RecordBatch.bytes ++ rest).length ≤ fuel) :
    ∃ fuel', rest.length ≤ fuel' ∧
      recoverBatches topic partition final fuel (batches.flatMap RecordBatch.bytes ++ rest) r =
        recoverBatches topic partition final fuel' rest
          (batches.foldl (fun r b => r.push b b.bytes) r) := by
  induction batches generalizing r fuel with
  | nil => exact ⟨fuel, by simpa using enough, rfl⟩
  | cons b batches ih =>
      obtain ⟨valid, topicEq, partitionEq, base, later⟩ := follows
      have bounds := valid.total_bounds
      simp only [List.flatMap_cons, List.append_assoc, List.length_append,
        RecordBatch.length_bytes] at enough
      obtain ⟨fuel, rfl⟩ : ∃ n, fuel = n + 1 := ⟨fuel - 1, by omega⟩
      have room : (batches.flatMap RecordBatch.bytes ++ rest).length ≤ fuel := by
        simp only [List.length_append]
        omega
      obtain ⟨fuel', enough', same⟩ := ih (r := r.push b b.bytes) later room
      refine ⟨fuel', enough', ?_⟩
      rw [List.flatMap_cons, List.append_assoc, recoverBatches_batch valid topicEq partitionEq base,
        same, List.foldl_cons]

/-- What one accepted round of the loop has found. -/
theorem recoverBatches_round {rest : Bytes} {r : Recovered} {fuel : Nat} {out : Recovered × Bool}
    (nonempty : rest ≠ [])
    (ok : recoverBatches topic partition final (fuel + 1) rest r = .ok out) :
    48 ≤ rest.length ∧
      ((rest.length < (uint32 (slice rest 8 12)).toNat ∧ final = true ∧
          canTruncateTail rest r.current ∧ out = (r, true)) ∨
        ((uint32 (slice rest 8 12)).toNat ≤ rest.length ∧ 52 ≤ (uint32 (slice rest 8 12)).toNat ∧
          ∃ batch, decodeBatch (slice rest 0 (uint32 (slice rest 8 12)).toNat) topic partition =
              .ok batch ∧ batch.baseOffset = r.current ∧
            recoverBatches topic partition final fuel
              (rest.drop (uint32 (slice rest 8 12)).toNat)
              (r.push batch (slice rest 0 (uint32 (slice rest 8 12)).toNat)) = .ok out)) := by
  rw [recoverBatches, if_neg nonempty] at ok
  by_cases short : rest.length < batchHeaderBytes.toNat
  · rw [if_pos short] at ok
    cases ok
  rw [if_neg short] at ok
  refine ⟨Nat.not_lt.1 short, ?_⟩
  by_cases cut : rest.length < (uint32 (slice rest 8 12)).toNat
  · simp only [if_pos cut] at ok
    by_cases truncates : final = true ∧ canTruncateTail rest r.current
    · rw [if_pos truncates] at ok
      exact .inl ⟨cut, truncates.1, truncates.2, (Except.ok.inj ok).symm⟩
    · rw [if_neg truncates] at ok
      cases ok
  · simp only [if_neg cut, bind_eq_ok, failIf_eq_ok, exists_const, not_not, ne_eq] at ok
    obtain ⟨minimum, batch, decoded, base, later⟩ := ok
    exact .inr ⟨Nat.not_lt.1 cut, UInt32.le_iff_toNat_le.1 (UInt32.not_lt.1 minimum), batch,
      decoded, base, later⟩

theorem recoverBatches_nil {r : Recovered} {fuel : Nat} :
    recoverBatches topic partition final fuel [] r = .ok (r, false) := by
  cases fuel <;> rfl

/-- A piece of a batch that contains its header is cut off at the end of the log. -/
theorem recoverBatches_cut {b : RecordBatch} {rest : Bytes} {r : Recovered} {fuel : Nat}
    (valid : b.Valid) (base : b.baseOffset = r.current) (front : rest <+: b.bytes)
    (header : 48 ≤ rest.length) (cut : rest.length < b.bytes.length) (enough : rest.length ≤ fuel) :
    recoverBatches topic partition true fuel rest r = .ok (r, true) := by
  obtain ⟨fuel, rfl⟩ : ∃ n, fuel = n + 1 := ⟨fuel - 1, by omega⟩
  have nonempty : rest ≠ [] := by
    rintro rfl
    simp at header
  have long : ¬ rest.length < batchHeaderBytes.toNat := by
    simp only [batchHeaderBytes, UInt16.reduceToNat]
    omega
  have field := RecordBatch.length_field valid (.inl front) (by omega)
  have short : rest.length < b.total := by simpa using cut
  have truncatable := RecordBatch.canTruncateTail_of_cut valid front header cut
  rw [base] at truncatable
  rw [recoverBatches, if_neg nonempty, if_neg long]
  simp only [field, if_pos short, truncatable, and_self, if_pos, pure_eq_ok]

/-- A piece of a batch shorter than its header stops recovery. -/
theorem recoverBatches_short {rest : Bytes} {r : Recovered} {fuel : Nat}
    (nonempty : rest ≠ []) (short : rest.length < 48) (enough : rest.length ≤ fuel) :
    recoverBatches topic partition final fuel rest r =
      .error (corrupt .errInvalidBatch "partial batch header") := by
  have positive := List.length_pos_iff.2 nonempty
  obtain ⟨fuel, rfl⟩ : ∃ n, fuel = n + 1 := ⟨fuel - 1, by omega⟩
  have small : rest.length < batchHeaderBytes.toNat := short
  rw [recoverBatches, if_neg nonempty, if_pos small]
  rfl

end RecoverBatches
/-! ## Runs of the segment programs -/

section Creation

variable {drawn : SegmentID} {topic : TopicID} {partition : UInt32} {base : UInt64}

theorem segmentID_ne_zero (drawn : SegmentID) : segmentID drawn ≠ 0 := by
  unfold segmentID
  split
  · decide
  · assumption

theorem drawnHeader_valid (topicRange : topic ≠ 0) (partitionRange : partition ≤ int32Max)
    (baseRange : base ≤ maxOffset) : (drawnHeader drawn topic partition base).Valid :=
  ⟨topicRange, segmentID_ne_zero drawn, partitionRange, baseRange⟩

/-- A new segment is a file with its header, linked and durable. -/
theorem run_createSegment {d : Dir Name} (valid : (drawnHeader drawn topic partition base).Valid)
    (freshTmp : .segmentTmp (segmentID drawn) ∉ d) (fresh : .log base ∉ d) :
    Prog.run Dir.device (createSegment drawn topic partition base) d =
      (.ok (newSegment (drawnHeader drawn topic partition base)),
        (Prog.renamed d (.segmentTmp (segmentID drawn)) (.log base)
          (drawnHeader drawn topic partition base).bytes).synced) := by
  have encoded := SegmentHeader.encode_eq_ok.2 ⟨valid, rfl⟩
  have absent : ¬ .log base ∈ d.insert (.segmentTmp (segmentID drawn))
      ⟨some ⟨(drawnHeader drawn topic partition base).bytes,
        (drawnHeader drawn topic partition base).bytes⟩, false⟩ := by
    simpa [AList.mem_insert] using fresh
  simp only [createSegment, encoded]
  rw [Prog.run_bind_ok (Prog.run_ofExcept ..), Prog.run_bind_ok (Prog.run_createSynced freshTmp),
    Prog.run_bind_ok (Prog.run_get ..)]
  simp only [List.flatten_cons, List.flatten_nil, List.append_nil, failIf_of_not absent]
  rw [Prog.run_bind_ok (Prog.run_ofExcept ..),
    Prog.run_bind_ok (Prog.run_perform_some Prog.exec_rename_insert),
    Prog.run_bind_ok (Prog.run_perform_some rfl)]
  rfl

/-- Creation touches the temporary file and the new segment only. -/
theorem only_createSegment {name : Name} (other : name ≠ .segmentTmp (segmentID drawn))
    (other' : name ≠ .log base) :
    (createSegment drawn topic partition base).Only fun o => name ∉ o.touches := by
  have notTmp : name ∉ [Name.segmentTmp (segmentID drawn)] := by simpa using other
  refine Prog.only_ofExcept.bind fun encoded => ?_
  refine (Prog.only_createSynced notTmp (fun _ => notTmp) notTmp).bind fun _ => ?_
  refine Prog.only_get.bind fun dir => Prog.only_ofExcept.bind fun _ => ?_
  refine (Prog.only_perform ?_).bind fun _ => (Prog.only_perform ?_).bind fun _ => Prog.only_pure
  · simp [DirOp.touches, other, other']
  · simp [DirOp.touches]

/-- A stop during creation leaves the new segment absent, or complete with its header. -/
theorem crash_createSegment {d d' : Dir Name}
    (stop : Prog.Crash Dir.device (createSegment drawn topic partition base) d d') :
    Entry.Settles (d.lookup (.log base)) (d'.lookup (.log base)) ∨
      (.log base ∉ d ∧ (drawnHeader drawn topic partition base).Valid ∧
        ∃ durable, d'.lookup (.log base) =
          some ⟨some ⟨(drawnHeader drawn topic partition base).bytes,
            (drawnHeader drawn topic partition base).bytes⟩, durable⟩) := by
  have notTmp : Name.log base ∉ [Name.segmentTmp (segmentID drawn)] := by simp
  rcases Prog.crash_bind.1 stop with encoding | ⟨encoded, mid, ran, later⟩
  · exact .inl (Dir.crash_settles Prog.only_ofExcept encoding)
  obtain ⟨encodes, rfl⟩ := Prod.mk.inj ran
  obtain ⟨valid, rfl⟩ := SegmentHeader.encode_eq_ok.1 encodes
  rcases Prog.crash_bind.1 later with creating | ⟨_, mid, created, later⟩
  · exact .inl (Dir.crash_settles
      (Prog.only_createSynced notTmp (fun _ => notTmp) notTmp) creating)
  by_cases taken : Name.segmentTmp (segmentID drawn) ∈ d
  · rw [Prog.run_createSynced_taken taken] at created
    cases (Prod.mk.inj created).1
  rw [Prog.run_createSynced taken] at created
  obtain rfl := (Prod.mk.inj created).2
  have before : Entry.Settles (d.lookup (.log base)) ((d.insert (.segmentTmp (segmentID drawn))
      ⟨some ⟨[(drawnHeader drawn topic partition base).bytes].flatten,
        [(drawnHeader drawn topic partition base).bytes].flatten⟩, false⟩).lookup (.log base)) :=
    .inl (AList.lookup_insert_ne (by simp))
  rcases Prog.crash_bind.1 later with looking | ⟨dir, mid, looked, later⟩
  · exact .inl (before.trans (Dir.crash_settles Prog.only_get looking))
  obtain ⟨same, rfl⟩ := Prod.mk.inj looked
  obtain rfl := Except.ok.inj same
  rcases Prog.crash_bind.1 later with checking | ⟨_, mid, ran, later⟩
  · exact .inl (before.trans (Dir.crash_settles Prog.only_ofExcept checking))
  obtain ⟨checked, rfl⟩ := Prod.mk.inj ran
  have absent : .log base ∉ d := by
    simpa [AList.mem_insert] using failIf_eq_ok.1 checked
  have whole : [(drawnHeader drawn topic partition base).bytes].flatten =
      (drawnHeader drawn topic partition base).bytes := by simp
  rcases Prog.crash_bind.1 later with moving | ⟨_, mid, moved, later⟩
  · rcases Prog.crash_perform.1 moving with rfl | torn | done
    · exact .inl before
    · cases torn
    · obtain rfl := Option.some.inj (Prog.exec_rename_insert.symm.trans done)
      exact .inr ⟨absent, valid, false, whole ▸ Prog.lookup_renamed ..⟩
  obtain rfl := (Prod.mk.inj ((Prog.run_perform_some Prog.exec_rename_insert).symm.trans moved)).2
  refine .inr ⟨absent, valid, ?_⟩
  have here := Prog.lookup_renamed d (.segmentTmp (segmentID drawn)) (.log base)
    [(drawnHeader drawn topic partition base).bytes].flatten
  rcases Prog.crash_bind.1 later with syncing | ⟨_, mid, synced, later⟩
  · rcases Prog.crash_perform.1 syncing with rfl | torn | done
    · exact ⟨false, whole ▸ here⟩
    · cases torn
    · obtain rfl := Option.some.inj done
      exact ⟨true, by rw [Dir.lookup_synced, here, whole]; rfl⟩
  · obtain rfl := (Prod.mk.inj synced).2
    obtain rfl := Prog.crash_done.1 later
    exact ⟨true, by rw [Dir.lookup_synced, here, whole]; rfl⟩

variable (drawn topic partition base) in
/-- Creation that is refused leaves at most a temporary file. -/
theorem run_createSegment_cases (d : Dir Name) :
    ((drawnHeader drawn topic partition base).Valid ∧ .segmentTmp (segmentID drawn) ∉ d ∧
        .log base ∉ d) ∨
      ∃ e d', Prog.run Dir.device (createSegment drawn topic partition base) d = (.error e, d') ∧
        (d' = d ∨ ∃ entry, d' = d.insert (.segmentTmp (segmentID drawn)) entry) := by
  cases encodes : encodeSegmentHeader (drawnHeader drawn topic partition base) with
  | error e =>
      exact .inr ⟨e, d, Prog.run_bind_error (by rw [encodes]; rfl), .inl rfl⟩
  | ok encoded =>
      obtain ⟨valid, rfl⟩ := SegmentHeader.encode_eq_ok.1 encodes
      by_cases taken : Name.segmentTmp (segmentID drawn) ∈ d
      · refine .inr ⟨ioError "create temporary segment", d, ?_, .inl rfl⟩
        simp only [createSegment, encodes]
        rw [Prog.run_bind_ok (Prog.run_ofExcept ..)]
        exact Prog.run_bind_error (Prog.run_createSynced_taken taken)
      · by_cases exists_ : Name.log base ∈ d
        · let whole := [(drawnHeader drawn topic partition base).bytes].flatten
          let left := d.insert (.segmentTmp (segmentID drawn)) ⟨some ⟨whole, whole⟩, false⟩
          refine .inr ⟨corrupt .errInvalidSegment "segment path already exists", left, ?_,
            .inr ⟨_, rfl⟩⟩
          have present : Name.log base ∈ left := (AList.mem_insert d).2 (.inr exists_)
          simp only [createSegment, encodes]
          rw [Prog.run_bind_ok (Prog.run_ofExcept ..),
            Prog.run_bind_ok (Prog.run_createSynced taken), Prog.run_bind_ok (Prog.run_get ..)]
          exact Prog.run_bind_error (by rw [failIf_of present]; rfl)
        · exact .inl ⟨valid, taken, exists_⟩

end Creation

/-! ## Logs -/

/-- What a segment file is meant to hold. -/
structure SegmentLog where
  header : SegmentHeader
  batches : List RecordBatch

namespace SegmentLog

variable (s : SegmentLog)

def bytes : Bytes :=
  s.header.bytes ++ s.batches.flatMap RecordBatch.bytes

def endOffset : UInt64 :=
  nextOffset s.header.baseOffset s.batches

def records : List Record :=
  s.batches.flatMap RecordBatch.records

/-- What recovery finds in the file. -/
def recovered : Recovered :=
  s.batches.foldl (fun r b => r.push b b.bytes) (recoveryStart s.header)

/-- A segment of the given partition that starts at `base`. -/
structure Valid (topic : TopicID) (partition : UInt32) (base : UInt64) : Prop where
  header : s.header.Valid
  topic_eq : s.header.topic = topic
  partition_eq : s.header.partition = partition
  base_eq : s.header.baseOffset = base
  follows : Follows topic partition base s.batches

/-- The segment with one more batch. -/
def push (b : RecordBatch) : SegmentLog :=
  { s with batches := s.batches ++ [b] }

end SegmentLog

theorem foldl_push_current (batches : List RecordBatch) (r : Recovered) :
    (batches.foldl (fun r b => r.push b b.bytes) r).current = nextOffset r.current batches := by
  induction batches generalizing r with
  | nil => rfl
  | cons b batches ih => exact ih (r.push b b.bytes)

theorem foldl_push_position (batches : List RecordBatch) (r : Recovered) :
    (batches.foldl (fun r b => r.push b b.bytes) r).position =
      r.position + (batches.flatMap RecordBatch.bytes).length := by
  induction batches generalizing r with
  | nil => rfl
  | cons b batches ih =>
      rw [List.foldl_cons, ih, List.flatMap_cons, List.length_append, Recovered.push, Nat.add_assoc]

theorem foldl_push_records (batches : List RecordBatch) (r : Recovered) :
    (batches.foldl (fun r b => r.push b b.bytes) r).records =
      r.records + (batches.flatMap RecordBatch.records).length := by
  induction batches generalizing r with
  | nil => rfl
  | cons b batches ih =>
      rw [List.foldl_cons, ih, List.flatMap_cons, List.length_append, Recovered.push, Nat.add_assoc]

namespace SegmentLog

variable {s : SegmentLog} {topic : TopicID} {partition : UInt32} {base : UInt64}

@[simp] theorem recovered_current (s : SegmentLog) : s.recovered.current = s.endOffset :=
  foldl_push_current ..

@[simp] theorem recovered_position (s : SegmentLog) : s.recovered.position = s.bytes.length := by
  rw [recovered, foldl_push_position, bytes, List.length_append, SegmentHeader.length_bytes]
  rfl

@[simp] theorem recovered_records (s : SegmentLog) : s.recovered.records = s.records.length := by
  rw [recovered, foldl_push_records, records]
  exact Nat.zero_add _

@[simp] theorem recovered_push (s : SegmentLog) (b : RecordBatch) :
    (s.push b).recovered = s.recovered.push b b.bytes := by
  simp [recovered, push, List.foldl_append]

@[simp] theorem bytes_push (s : SegmentLog) (b : RecordBatch) :
    (s.push b).bytes = s.bytes ++ b.bytes := by
  simp [bytes, push]

@[simp] theorem records_push (s : SegmentLog) (b : RecordBatch) :
    (s.push b).records = s.records ++ b.records := by
  simp [records, push]

end SegmentLog

section Recovery

variable {topic : TopicID} {partition : UInt32} {base : UInt64} {s : SegmentLog}

/-- Reading a file that holds a log comes to the bytes behind it. -/
theorem readSegment_holds (valid : s.Valid topic partition base) (final : Bool) (tail : Bytes) :
    ∃ fuel, tail.length ≤ fuel ∧
      readSegment base topic partition final base (s.bytes ++ tail) =
        (recoverBatches topic partition final fuel tail s.recovered).map
          fun found => (s.header, found) := by
  have whole : s.bytes ++ tail =
      s.header.bytes ++ (s.batches.flatMap RecordBatch.bytes ++ tail) := by
    simp [SegmentLog.bytes]
  have long : ¬ (s.bytes ++ tail).length < segmentHeaderBytes.toNat := by
    simp [whole, segmentHeaderBytes]
  have front : slice (s.bytes ++ tail) 0 segmentHeaderBytes.toNat = s.header.bytes := by
    rw [whole]
    exact slice_zero_append (by simp [segmentHeaderBytes])
  have behind : (s.bytes ++ tail).drop segmentHeaderBytes.toNat =
      s.batches.flatMap RecordBatch.bytes ++ tail := by
    rw [whole]
    exact List.drop_left' (by simp [segmentHeaderBytes])
  have decoded : decodeSegmentHeader s.header.bytes topic partition = .ok s.header := by
    have read := SegmentHeader.decode_bytes valid.header [] fun _ => valid.topic_eq
    rwa [List.append_nil, valid.partition_eq] at read
  have order : ¬ (Name.log base ≠ .log s.header.baseOffset ∨ s.header.baseOffset ≠ base) := by
    simp [valid.base_eq]
  have follows : Follows topic partition (recoveryStart s.header).current s.batches := by
    rw [recoveryStart, valid.base_eq]
    exact valid.follows
  have enough : (s.batches.flatMap RecordBatch.bytes ++ tail).length ≤
      (s.bytes ++ tail).length := by
    simp [whole]
  obtain ⟨fuel, room, same⟩ := recoverBatches_follows final follows enough
  refine ⟨fuel, room, ?_⟩
  rw [readSegment, readSegmentAt, failIf_of_not long, front, decoded, behind]
  simp only [ok_bind, failIf_of_not order, same]
  rw [SegmentLog.recovered]
  cases recoverBatches topic partition final fuel tail
    (s.batches.foldl (fun r b => r.push b b.bytes) (recoveryStart s.header)) with
  | ok found => rfl
  | error e => rfl

/-- A file that holds exactly a log is recovered as it is. -/
theorem readSegment_whole (valid : s.Valid topic partition base) (final : Bool) :
    readSegment base topic partition final base s.bytes = .ok (s.header, s.recovered, false) := by
  obtain ⟨fuel, _, same⟩ := readSegment_holds valid final []
  rw [List.append_nil] at same
  rw [same, recoverBatches_nil]
  rfl

/-- A piece of a batch behind the log that contains the batch header is found. -/
theorem readSegment_cut (valid : s.Valid topic partition base) {b : RecordBatch} {tail : Bytes}
    (batch : b.Valid) (next : b.baseOffset = s.endOffset) (front : tail <+: b.bytes)
    (header : 48 ≤ tail.length) (cut : tail.length < b.bytes.length) :
    readSegment base topic partition true base (s.bytes ++ tail) =
      .ok (s.header, s.recovered, true) := by
  obtain ⟨fuel, enough, same⟩ := readSegment_holds valid true tail
  rw [← SegmentLog.recovered_current] at next
  rw [same, recoverBatches_cut batch next front header cut enough]
  rfl

/-- A shorter piece behind the log stops recovery. -/
theorem readSegment_short (valid : s.Valid topic partition base) {tail : Bytes} {final : Bool}
    (nonempty : tail ≠ []) (short : tail.length < 48) :
    readSegment base topic partition final base (s.bytes ++ tail) =
      .error (corrupt .errInvalidBatch "partial batch header") := by
  obtain ⟨fuel, enough, same⟩ := readSegment_holds valid final tail
  rw [same, recoverBatches_short nonempty short enough]
  rfl

/-! ### The recovery program -/

variable {d : Dir Name}

theorem read?_of_lookup {name : Name} {f : File} {durable : Bool}
    (found : d.lookup name = some ⟨some f, durable⟩) : d.read? name = some f.data := by
  simp [Dir.read?, Dir.file?, found]

/-- The segment that shows the given log, before its indexes are loaded. -/
def SegmentLog.shown (s : SegmentLog) : Segment :=
  s.recovered.segment s.header s.bytes

/-- A whole segment is recovered without a change. -/
theorem run_recoverSegment_whole (final : Bool) (valid : s.Valid topic partition base) {f : File}
    {durable : Bool} (found : d.lookup (.log base) = some ⟨some f, durable⟩)
    (holds : f.data = s.bytes) (filled : final = false → s.batches ≠ []) :
    Prog.run Dir.device (recoverSegment base topic partition final base) d = (.ok s.shown, d) := by
  have read : d.read? (.log base) = some s.bytes := by rw [read?_of_lookup found, holds]
  have nonempty : ¬ (final = false ∧ s.recovered.records = 0) := by
    rw [SegmentLog.recovered_records]
    rintro ⟨closed, empty⟩
    have follows := valid.follows
    cases h : s.batches with
    | nil => exact filled closed h
    | cons b rest =>
        rw [h] at follows
        simp only [SegmentLog.records, h, List.flatMap_cons, List.length_append] at empty
        have positive := follows.1.nonempty
        omega
  simp only [recoverSegment, recoverSegmentAt, readSegmentAt_log]
  rw [Prog.run_bind_ok (Prog.run_get ..), read]
  simp only [Option.elim_some, pure_eq_ok]
  rw [Prog.run_bind_ok (Prog.run_ofExcept ..), readSegment_whole valid final,
    Prog.run_bind_ok (Prog.run_ofExcept ..)]
  simp only [truncateIf, Bool.false_eq_true, if_false, failIf_of_not nonempty]
  rw [Prog.run_bind_ok (Prog.run_pure ..), Prog.run_bind_ok (Prog.run_ofExcept ..)]
  rfl

/-- The directory after an incomplete final batch has been cut off. -/
theorem run_truncateTail {name : Name} {f : File} {durable : Bool} {size : Nat}
    (found : d.lookup name = some ⟨some f, durable⟩) :
    Prog.run Dir.device (truncateTail name size) d =
      (.ok (), d.insert name ⟨some ⟨f.data.take size, f.data.take size⟩, durable⟩) := by
  have truncated : Dir.exec (.truncate name size) d =
      some (d.insert name ⟨some { f with data := f.data.take size }, durable⟩) :=
    Dir.modify_eq_some.2 ⟨f, durable, found, rfl⟩
  rw [truncateTail, Prog.run_bind_ok (Prog.run_perform_some truncated)]
  exact Prog.run_perform_some Prog.exec_sync_insert

/-- A torn batch at the end of the last segment is cut off. -/
theorem run_recoverSegment_cut (valid : s.Valid topic partition base) {b : RecordBatch}
    {tail : Bytes} {f : File} {durable : Bool}
    (found : d.lookup (.log base) = some ⟨some f, durable⟩) (holds : f.data = s.bytes ++ tail)
    (batch : b.Valid) (next : b.baseOffset = s.endOffset) (front : tail <+: b.bytes)
    (header : 48 ≤ tail.length) (cut : tail.length < b.bytes.length) :
    Prog.run Dir.device (recoverSegment base topic partition true base) d =
      (.ok s.shown, d.insert (.log base) ⟨some ⟨s.bytes, s.bytes⟩, durable⟩) := by
  have read : d.read? (.log base) = some (s.bytes ++ tail) := by
    rw [read?_of_lookup found, holds]
  have final : ¬ (true = false ∧ s.recovered.records = 0) := by simp
  have kept : f.data.take s.bytes.length = s.bytes := by rw [holds, List.take_left]
  have same : s.recovered.segment s.header (s.bytes ++ tail) = s.shown := by
    simp [SegmentLog.shown, Recovered.segment, slice, SegmentLog.bytes, segmentHeaderBytes]
  simp only [recoverSegment, recoverSegmentAt, readSegmentAt_log]
  rw [Prog.run_bind_ok (Prog.run_get ..), read]
  simp only [Option.elim_some, pure_eq_ok]
  rw [Prog.run_bind_ok (Prog.run_ofExcept ..),
    readSegment_cut valid batch next front header cut, Prog.run_bind_ok (Prog.run_ofExcept ..)]
  simp only [truncateIf, if_true, SegmentLog.recovered_position, failIf_of_not final]
  rw [Prog.run_bind_ok (run_truncateTail found), kept, Prog.run_bind_ok (Prog.run_ofExcept ..),
    same]
  rfl

/-- A piece of a batch header is an error. -/
theorem run_recoverSegment_short (final : Bool) (valid : s.Valid topic partition base)
    {tail : Bytes} {f : File} {durable : Bool}
    (found : d.lookup (.log base) = some ⟨some f, durable⟩) (holds : f.data = s.bytes ++ tail)
    (nonempty : tail ≠ []) (short : tail.length < 48) :
    Prog.run Dir.device (recoverSegment base topic partition final base) d =
      (.error (corrupt .errInvalidBatch "partial batch header"), d) := by
  have read : d.read? (.log base) = some (s.bytes ++ tail) := by
    rw [read?_of_lookup found, holds]
  simp only [recoverSegment, recoverSegmentAt, readSegmentAt_log]
  rw [Prog.run_bind_ok (Prog.run_get ..), read]
  simp only [Option.elim_some, pure_eq_ok]
  rw [Prog.run_bind_ok (Prog.run_ofExcept ..), readSegment_short valid nonempty short]
  exact Prog.run_bind_error (Prog.run_ofExcept ..)

/-- A stop during recovery leaves its file as it was, or with its tail cut off. -/
theorem crash_recoverSegment {final : Bool} {expected : UInt64} {f : File} {durable : Bool}
    {d' : Dir Name} (found : d.lookup (.log base) = some ⟨some f, durable⟩)
    (stop : Prog.Crash Dir.device (recoverSegment base topic partition final expected) d d') :
    d' = d ∨ ∃ header recovered,
      readSegment base topic partition final expected f.data = .ok (header, recovered, true) ∧
        ∃ disk, (disk = f.disk ∨ disk = f.data.take recovered.position) ∧
          d' = d.insert (.log base) ⟨some ⟨f.data.take recovered.position, disk⟩, durable⟩ := by
  have read := read?_of_lookup found
  rcases Prog.crash_bind.1 stop with looking | ⟨dir, mid, ran, later⟩
  · cases looking with
    | now => exact .inl rfl
    | look later => exact .inl (Prog.crash_done.1 later)
  obtain ⟨same, rfl⟩ := Prod.mk.inj ran
  obtain rfl := Except.ok.inj same
  rw [read] at later
  rcases Prog.crash_bind.1 later with opening | ⟨data, mid, ran, later⟩
  · exact .inl (Prog.crash_done.1 opening)
  obtain ⟨same, rfl⟩ := Prod.mk.inj ran
  obtain rfl : f.data = data := Except.ok.inj same
  rcases Prog.crash_bind.1 later with reading | ⟨⟨header, recovered, cut⟩, mid, ran, later⟩
  · exact .inl (Prog.crash_done.1 reading)
  obtain ⟨reads, rfl⟩ := Prod.mk.inj ran
  cases cut with
  | false =>
      rcases Prog.crash_bind.1 later with skipping | ⟨_, mid, ran, later⟩
      · exact .inl (Prog.crash_done.1 skipping)
      obtain rfl := (Prod.mk.inj ran).2
      rcases Prog.crash_bind.1 later with checking | ⟨_, mid, ran, later⟩
      · exact .inl (Prog.crash_done.1 checking)
      obtain rfl := (Prod.mk.inj ran).2
      exact .inl (Prog.crash_done.1 later)
  | true =>
      have truncated : Dir.exec (.truncate (.log base) recovered.position) d =
          some (d.insert (.log base)
            ⟨some { f with data := f.data.take recovered.position }, durable⟩) :=
        Dir.modify_eq_some.2 ⟨f, durable, found, rfl⟩
      rcases Prog.crash_bind.1 later with cutting | ⟨_, mid, ran, later⟩
      · rcases Prog.crash_bind.1 cutting with truncating | ⟨_, mid, ran, syncing⟩
        · rcases Prog.crash_perform.1 truncating with rfl | torn | done
          · exact .inl rfl
          · cases torn
          · obtain rfl := Option.some.inj (truncated.symm.trans done)
            exact .inr ⟨header, recovered, reads, f.disk, .inl rfl, rfl⟩
        · obtain rfl := (Prod.mk.inj ((Prog.run_perform_some truncated).symm.trans ran)).2
          rcases Prog.crash_perform.1 syncing with rfl | torn | done
          · exact .inr ⟨header, recovered, reads, f.disk, .inl rfl, rfl⟩
          · cases torn
          · obtain rfl := Option.some.inj (Prog.exec_sync_insert.symm.trans done)
            exact .inr ⟨header, recovered, reads, _, .inr rfl, rfl⟩
      · obtain rfl := (Prod.mk.inj ((run_truncateTail found).symm.trans ran)).2
        refine .inr ⟨header, recovered, reads, _, .inr rfl, ?_⟩
        rcases Prog.crash_bind.1 later with checking | ⟨_, mid, ran, later⟩
        · exact Prog.crash_done.1 checking
        obtain rfl := (Prod.mk.inj ran).2
        exact Prog.crash_done.1 later

end Recovery

/-! ## Discovery -/

/-- The base of a segment file. -/
def logBase (e : Sigma fun _ : Name => Entry) : Option UInt64 :=
  match e.1, e.2.file with
  | .log base, some _ => some base
  | _, _ => none

/-- Discovery over entries: a stray file or an offset out of range is refused. -/
theorem discoverEntries_eq_ok {entries : List (Sigma fun _ : Name => Entry)}
    {bases : List UInt64} :
    discoverEntries entries = .ok bases ↔
      bases = entries.filterMap logBase ∧ (∀ base ∈ bases, base ≤ maxOffset) ∧
        ∀ e ∈ entries, ∀ text, e.1 = .strayLog text → e.2.file = none := by
  induction entries generalizing bases with
  | nil =>
      simp only [discoverEntries, pure_eq_ok, Except.ok.injEq, List.filterMap_nil,
        List.not_mem_nil, false_implies, implies_true, and_true]
      constructor
      · rintro rfl
        exact ⟨rfl, by simp⟩
      · exact fun same => same.1.symm
  | cons e entries ih =>
      obtain ⟨name, file, durable⟩ := e
      have skip : discoverEntries (⟨name, file, durable⟩ :: entries) = discoverEntries entries →
          logBase ⟨name, file, durable⟩ = none →
          (∀ text, name = .strayLog text → file = none) →
          (discoverEntries (⟨name, file, durable⟩ :: entries) = .ok bases ↔
            bases = (⟨name, file, durable⟩ :: entries).filterMap logBase ∧
              (∀ base ∈ bases, base ≤ maxOffset) ∧
              ∀ e ∈ (⟨name, file, durable⟩ :: entries : List (Sigma fun _ : Name => Entry)),
                ∀ text, e.1 = .strayLog text → e.2.file = none) := by
        intro skipped here harmless
        rw [skipped, ih, List.filterMap_cons_none here, List.forall_mem_cons]
        exact ⟨fun found => ⟨found.1, found.2.1, harmless, found.2.2⟩,
          fun found => ⟨found.1, found.2.1, found.2.2.2⟩⟩
      cases file with
      | none =>
          refine skip ?_ ?_ fun _ _ => rfl
          · cases name <;> rfl
          · cases name <;> rfl
      | some f =>
          cases name with
          | log base =>
              have here : logBase ⟨.log base, some f, durable⟩ = some base := rfl
              rw [List.filterMap_cons_some here, List.forall_mem_cons]
              simp only [discoverEntries, bind_eq_ok, failIf_eq_ok, exists_const, UInt64.not_lt,
                ih, pure_eq_ok, Except.ok.injEq]
              constructor
              · rintro ⟨small, later, ⟨rfl, others, stray⟩, rfl⟩
                exact ⟨rfl, List.forall_mem_cons.2 ⟨small, others⟩, by simp, stray⟩
              · rintro ⟨rfl, small, -, stray⟩
                obtain ⟨first, others⟩ := List.forall_mem_cons.1 small
                exact ⟨first, _, ⟨rfl, others, stray⟩, rfl⟩
          | strayLog text =>
              simp only [discoverEntries, List.forall_mem_cons]
              constructor
              · intro wrong
                cases wrong
              · intro found
                cases found.2.2.1 text rfl
          | _ => exact skip rfl rfl (by simp)

theorem mem_filterMap_logBase {d : Dir Name} {base : UInt64} :
    base ∈ d.entries.filterMap logBase ↔
      ∃ f durable, d.lookup (.log base) = some ⟨some f, durable⟩ := by
  have lookup : ∀ name entry, ⟨name, entry⟩ ∈ d.entries ↔ d.lookup name = some entry := by
    intro name entry
    exact (List.mem_dlookup_iff d.nodupKeys).symm
  rw [List.mem_filterMap]
  constructor
  · rintro ⟨⟨name, entry⟩, mem, same⟩
    unfold logBase at same
    split at same
    · rename_i base' file nameEq fileEq
      obtain rfl := Option.some.inj same
      simp only at nameEq fileEq
      subst nameEq
      obtain ⟨file', durable⟩ := entry
      simp only at fileEq
      subst fileEq
      exact ⟨file, durable, (lookup _ _).1 mem⟩
    · cases same
  · rintro ⟨f, durable, found⟩
    exact ⟨_, (lookup _ _).2 found, rfl⟩

theorem nodup_filterMap_logBase (d : Dir Name) : (d.entries.filterMap logBase).Nodup := by
  have names : ∀ entries : List (Sigma fun _ : Name => Entry),
      List.Sublist ((entries.filterMap logBase).map Name.log) entries.keys := by
    intro entries
    induction entries with
    | nil => exact List.Sublist.slnil
    | cons e entries ih =>
        obtain ⟨name, file, durable⟩ := e
        cases here : logBase ⟨name, file, durable⟩ with
        | none =>
            rw [List.filterMap_cons_none here]
            exact ih.cons _
        | some base =>
            have same : name = .log base := by
              cases file with
              | none => cases name <;> simp [logBase] at here
              | some f => cases name <;> simp_all [logBase]
            rw [List.filterMap_cons_some here, same]
            exact ih.cons_cons _
  have nodup : ((d.entries.filterMap logBase).map Name.log).Nodup :=
    (names d.entries).nodup d.nodupKeys
  exact List.Nodup.of_map _ nodup

theorem exists_read? {d : Dir Name} {name : Name} :
    (∃ data, d.read? name = some data) ↔ ∃ f durable, d.lookup name = some ⟨some f, durable⟩ := by
  constructor
  · rintro ⟨data, read⟩
    simp only [Dir.read?, Dir.file?, Option.map_eq_some_iff, Option.bind_eq_some_iff] at read
    obtain ⟨f, ⟨⟨file, durable⟩, found, rfl⟩, -⟩ := read
    exact ⟨f, durable, found⟩
  · rintro ⟨f, durable, found⟩
    exact ⟨f.data, read?_of_lookup found⟩

theorem read?_eq_none {d : Dir Name} {name : Name} (absent : name ∉ d) : d.read? name = none := by
  rw [Dir.read?, Dir.file?, AList.lookup_eq_none.2 absent]
  rfl

/-- Discovery finds the bases of the segment files in increasing order. -/
theorem discoverSegments_eq_ok {d : Dir Name} {bases : List UInt64} :
    discoverSegments d = .ok bases ↔
      (∀ base, base ∈ bases ↔ ∃ data, d.read? (.log base) = some data) ∧
        (∀ base ∈ bases, base ≤ maxOffset) ∧ (∀ text, d.read? (.strayLog text) = none) ∧
        bases.Pairwise fun a b => a.toNat < b.toNat := by
  have lookup : ∀ name entry, ⟨name, entry⟩ ∈ d.entries ↔ d.lookup name = some entry :=
    fun name entry => (List.mem_dlookup_iff d.nodupKeys).symm
  have stray : (∀ e ∈ d.entries, ∀ text, e.1 = Name.strayLog text → e.2.file = none) ↔
      ∀ text, d.read? (.strayLog text) = none := by
    constructor
    · intro harmless text
      rw [Option.eq_none_iff_forall_ne_some]
      intro data read
      obtain ⟨f, durable, found⟩ := exists_read?.1 ⟨data, read⟩
      cases harmless _ ((lookup _ _).2 found) text rfl
    · rintro none ⟨name, file, durable⟩ mem text rfl
      cases file with
      | none => rfl
      | some f =>
          have read := read?_of_lookup ((lookup _ _).1 mem)
          rw [none text] at read
          cases read
  have total : ∀ a b : UInt64, a.toNat ≤ b.toNat ∨ b.toNat ≤ a.toNat := fun a b => Nat.le_total ..
  have : Std.Total (fun a b : UInt64 => a.toNat ≤ b.toNat) := ⟨total⟩
  have : IsTrans UInt64 (fun a b : UInt64 => a.toNat ≤ b.toNat) := ⟨fun _ _ _ => Nat.le_trans⟩
  have sorted := List.pairwise_insertionSort (fun a b : UInt64 => a.toNat ≤ b.toNat)
    (d.entries.filterMap logBase)
  have perm := List.perm_insertionSort (fun a b : UInt64 => a.toNat ≤ b.toNat)
    (d.entries.filterMap logBase)
  have strict : (List.insertionSort (fun a b : UInt64 => a.toNat ≤ b.toNat)
      (d.entries.filterMap logBase)).Pairwise fun a b => a.toNat < b.toNat := by
    have nodup := perm.nodup_iff.2 (nodup_filterMap_logBase d)
    refine (sorted.and nodup).imp fun both => Nat.lt_of_le_of_ne both.1 fun same => ?_
    exact both.2 (UInt64.toNat_inj.1 same)
  have members : ∀ base, base ∈ List.insertionSort (fun a b : UInt64 => a.toNat ≤ b.toNat)
      (d.entries.filterMap logBase) ↔ ∃ data, d.read? (.log base) = some data := by
    intro base
    rw [perm.mem_iff, mem_filterMap_logBase, exists_read?]
  simp only [discoverSegments, bind_eq_ok, discoverEntries_eq_ok, pure_eq_ok,
    Except.ok.injEq, stray]
  constructor
  · rintro ⟨_, ⟨rfl, small, harmless⟩, rfl⟩
    exact ⟨members, fun base mem => small base (perm.mem_iff.1 mem), harmless, strict⟩
  · rintro ⟨files, small, harmless, increasing⟩
    have same : List.Perm (List.insertionSort (fun a b : UInt64 => a.toNat ≤ b.toNat)
        (d.entries.filterMap logBase)) bases := by
      have distinct : ∀ {l : List UInt64}, (l.Pairwise fun a b => a.toNat < b.toNat) → l.Nodup :=
        fun less => less.imp fun lt same => absurd (congrArg UInt64.toNat same) lt.ne
      refine (List.perm_ext_iff_of_nodup (distinct strict) (distinct increasing)).2 fun base => ?_
      rw [members, files]
    refine ⟨_, ⟨rfl, fun base mem => ?_, harmless⟩, ?_⟩
    · exact small base ((same.mem_iff).1 (perm.mem_iff.2 mem))
    · exact same.eq_of_pairwise
        (fun a b _ _ le ge =>
          UInt64.toNat_inj.1 (Nat.le_antisymm (Nat.le_of_lt le) (Nat.le_of_lt ge)))
        strict increasing

end Immulog
