import Immulog.Durability
import Immulog.Events
import Immulog.Lib.Failing
import Immulog.Preflight

/-!
The read-only scan of a partition directory agrees with the recovery that opens it
(`src/storage/preflight.go`, `src/storage/partition.go`).

Both walk over the same bytes with the same checks.  Here they are compared on any file
under any name: one accepts it when the other does, they come to the same offset, and
they fail with errors of one class.  A directory that passes the scan as a whole is
opened from the scan's first offset to its last one, and passes the scan again after
recovery has cut the incomplete batch off its last file.
-/

namespace Immulog

open Lib Std

/-! ## Classes of errors -/

/-- What is stored is damaged, or of a format that is not supported. -/
def GoError.Rejects (e : GoError) : Prop :=
  e.is .errCorruptLog ∨ e.is .errUnsupportedFormat

theorem rejects_corrupt (kind : Sentinel) (detail : String) : (corrupt kind detail).Rejects :=
  .inl (by simp [GoError.is, corrupt])

theorem rejects_unsupported (detail : String) : (unsupported detail).Rejects :=
  .inr (by simp [GoError.is, unsupported])

/-- A header is never refused with an I/O error. -/
theorem decodeSegmentHeader_rejects (data : Bytes) (topic : TopicID) (partition : UInt32) :
    FailsWith GoError.Rejects (decodeSegmentHeader data topic partition) := by
  unfold decodeSegmentHeader
  iterate 4 refine .check (rejects_corrupt _ _) ?_
  refine .check (rejects_unsupported _) ?_
  iterate 4 refine .check (rejects_corrupt _ _) ?_
  exact .ok _

namespace RecordCursor

theorem u32_rejects : Cursor.FailsWith GoError.Rejects u32 :=
  .map (.take (rejects_corrupt _ _))

theorem bytesUnlessNull_rejects (length : UInt32) :
    Cursor.FailsWith GoError.Rejects (bytesUnlessNull length) := by
  unfold bytesUnlessNull
  split
  · exact .pure _
  · exact .map (.take (rejects_corrupt _ _))

theorem header_rejects : Cursor.FailsWith GoError.Rejects header :=
  .bind u32_rejects fun _ => .bind (.ensure (rejects_corrupt _ _)) fun _ =>
    .bind u32_rejects fun _ => .bind (.take (rejects_corrupt _ _)) fun _ =>
      .bind (.ensure (rejects_corrupt _ _)) fun _ => .bind (bytesUnlessNull_rejects _) fun _ =>
        .pure _

theorem payload_rejects (headerCount : UInt32) :
    Cursor.FailsWith GoError.Rejects (payload headerCount) :=
  .bind (.bind u32_rejects bytesUnlessNull_rejects) fun _ =>
    .bind (.bind u32_rejects bytesUnlessNull_rejects) fun _ =>
      .bind (.loop (fun _ => .bind header_rejects fun _ => .pure _) _ _) fun _ => .pure _

end RecordCursor

/-- A record is refused for its contents. -/
theorem decodeRecord_rejects (data : Bytes) (baseOffset : UInt64) (topic : TopicID)
    (partition : UInt32) (expectedDelta : Option UInt32) :
    FailsWith GoError.Rejects (decodeRecord data baseOffset topic partition expectedDelta) := by
  unfold decodeRecord
  iterate 6 refine .check (rejects_corrupt _ _) ?_
  refine .bind (RecordCursor.payload_rejects _ _) fun _ => ?_
  exact .check (rejects_corrupt _ _) (.ok _)

theorem decodeRecords_rejects (baseOffset : UInt64) (topic : TopicID) (partition : UInt32)
    (count : Nat) (index : UInt32) (body : Bytes) :
    FailsWith GoError.Rejects (decodeRecords baseOffset topic partition count index body) := by
  induction count generalizing index body with
  | zero => exact .ok _
  | succ count ih =>
      unfold decodeRecords
      iterate 2 refine .check (rejects_corrupt _ _) ?_
      refine .bind (decodeRecord_rejects _ _ _ _ _) fun _ => ?_
      refine .check (rejects_corrupt _ _) ?_
      exact .bind (ih _ _) fun _ => .ok _

/-- A batch is refused for its contents, whatever the bytes are. -/
theorem decodeBatch_rejects (data : Bytes) (topic : TopicID) (partition : UInt32) :
    FailsWith GoError.Rejects (decodeBatch data topic partition) := by
  unfold decodeBatch
  iterate 4 refine .check (rejects_corrupt _ _) ?_
  refine .check (rejects_unsupported _) ?_
  iterate 7 refine .check (rejects_corrupt _ _) ?_
  refine .bind (decodeRecords_rejects _ _ _ _ _ _) fun _ => ?_
  iterate 2 refine .check (rejects_corrupt _ _) ?_
  exact .ok _

/-! ## One segment under any name -/

section OneSegment

variable {topic : TopicID} {partition : UInt32} {final : Bool} {expected maxBytes : UInt64}
  {d : Dir Name} {name : Name} {data : Bytes}

/-- What both functions make of the bytes of a file, apart from cutting it. -/
def segmentVerdict (name : Name) (topic : TopicID) (partition : UInt32) (final : Bool)
    (expected : UInt64) (data : Bytes) : Except GoError (SegmentHeader × Recovered × Bool) := do
  let (header, recovered, cut) ← readSegmentAt name topic partition final expected data
  failIf (final = false ∧ recovered.records = 0)
    (corrupt .errInvalidSegment "non-final segment is empty")
  return (header, recovered, cut)

/-- A file of batches is refused for its contents. -/
theorem recoverBatches_rejects (fuel : Nat) (rest : Bytes) (r : Recovered) :
    FailsWith GoError.Rejects (recoverBatches topic partition final fuel rest r) := by
  induction fuel generalizing rest r with
  | zero => exact .ok _
  | succ fuel ih =>
      unfold recoverBatches
      split
      · exact .ok _
      · split
        · exact .error (rejects_corrupt _ _)
        · dsimp only
          split
          · split
            · exact .ok _
            · exact .error (rejects_corrupt _ _)
          · refine .check (rejects_corrupt _ _) (.bind (decodeBatch_rejects _ _ _) fun batch => ?_)
            exact .check (rejects_corrupt _ _) (ih _ _)

/-- A whole segment is refused for its contents. -/
theorem segmentVerdict_rejects (data : Bytes) :
    FailsWith GoError.Rejects (segmentVerdict name topic partition final expected data) := by
  refine .bind (.check (rejects_corrupt _ _) (.bind (decodeSegmentHeader_rejects _ _ _) fun _ =>
    .check (rejects_corrupt _ _) (.bind (recoverBatches_rejects _ _ _) fun _ => .ok _))) fun _ => ?_
  exact .check (rejects_corrupt _ _) (.ok _)

/-- A piece is cut off only at the end of the last segment. -/
theorem recoverBatches_cut_final {fuel : Nat} {rest : Bytes} {r out : Recovered}
    (ok : recoverBatches topic partition final fuel rest r = .ok (out, true)) : final = true := by
  induction fuel generalizing rest r with
  | zero => cases ok
  | succ fuel ih =>
      by_cases empty : rest = []
      · rw [empty, recoverBatches_nil] at ok
        cases ok
      · obtain ⟨-, ⟨-, last, -⟩ | ⟨-, -, batch, -, -, later⟩⟩ := recoverBatches_round empty ok
        · exact last
        · exact ih later

/-- A file that is not too large is validated as it is read. -/
theorem validateSegmentAt_eq (read : d.read? name = some data)
    (long : segmentHeaderBytes.toNat ≤ data.length) (small : data.length ≤ maxBytes.toNat) :
    validateSegmentAt d name topic partition final expected maxBytes =
      (segmentVerdict name topic partition final expected data).map fun found =>
        (found.2.1.current, slice data 0 segmentHeaderBytes.toNat) := by
  have sized : ¬ (data.length < segmentHeaderBytes.toNat ∨ maxBytes.toNat < data.length) := by omega
  have loop (header : SegmentHeader) :
      validateBatches topic partition final data.length (data.drop segmentHeaderBytes.toNat)
          header.baseOffset 0 = _ :=
    validateBatches_eq (r := recoveryStart header)
  simp only [validateSegmentAt, segmentVerdict, readSegmentAt, read, Option.elim_some, pure_eq_ok,
    ok_bind, failIf_of_not sized, failIf_of_not (Nat.not_lt.2 long), loop]
  cases decodeSegmentHeader (slice data 0 segmentHeaderBytes.toNat) topic partition with
  | error e => rfl
  | ok header =>
      simp only [ok_bind]
      by_cases order : name ≠ .log header.baseOffset ∨ header.baseOffset ≠ expected
      · rw [failIf_of order]
        rfl
      · rw [failIf_of_not order]
        simp only [ok_bind]
        cases recoverBatches topic partition final data.length
            (data.drop segmentHeaderBytes.toNat) (recoveryStart header) with
        | error e => rfl
        | ok found =>
            obtain ⟨recovered, cut⟩ := found
            simp only [Except.map, ok_bind]
            by_cases empty : final = false ∧ recovered.records = 0
            · rw [failIf_of empty]
              rfl
            · rw [failIf_of_not empty]
              rfl

/-- Recovery ends with the same verdict; it leaves the file, or cuts the incomplete batch off. -/
theorem run_recoverSegmentAt {f : File} {durable : Bool}
    (found : d.lookup name = some ⟨some f, durable⟩) :
    Prog.run Dir.device (recoverSegmentAt name topic partition final expected) d =
      match segmentVerdict name topic partition final expected f.data with
      | .error e => (.error e, d)
      | .ok (header, recovered, cut) => (.ok (recovered.segment header f.data),
          if cut then d.insert name ⟨some ⟨f.data.take recovered.position,
            f.data.take recovered.position⟩, durable⟩ else d) := by
  have read := read?_of_lookup found
  simp only [recoverSegmentAt, segmentVerdict]
  rw [Prog.run_bind_ok (Prog.run_get ..), read]
  simp only [Option.elim_some, pure_eq_ok]
  rw [Prog.run_bind_ok (Prog.run_ofExcept ..)]
  cases verdict : readSegmentAt name topic partition final expected f.data with
  | error e => exact Prog.run_bind_error (Prog.run_ofExcept ..)
  | ok out =>
      obtain ⟨header, recovered, cut⟩ := out
      rw [Prog.run_bind_ok (Prog.run_ofExcept ..)]
      simp only [ok_bind]
      cases cut with
      | false =>
          simp only [truncateIf, Bool.false_eq_true, if_false]
          rw [Prog.run_bind_ok (Prog.run_pure ..)]
          by_cases empty : final = false ∧ recovered.records = 0
          · rw [failIf_of empty]
            exact Prog.run_bind_error (Prog.run_ofExcept ..)
          · rw [failIf_of_not empty, Prog.run_bind_ok (Prog.run_ofExcept ..)]
            rfl
      | true =>
          have last : final = true := by
            simp only [readSegmentAt, bind_eq_ok, failIf_eq_ok, exists_const, pure_eq_ok,
              Except.ok.injEq, Prod.mk.injEq, Prod.exists] at verdict
            obtain ⟨-, _, -, -, _, cut, looped, rfl, rfl, rfl⟩ := verdict
            exact recoverBatches_cut_final looped
          have filled : ¬ (final = false ∧ recovered.records = 0) := by simp [last]
          simp only [truncateIf, if_true]
          rw [Prog.run_bind_ok (run_truncateTail found), failIf_of_not filled,
            Prog.run_bind_ok (Prog.run_ofExcept ..)]
          rfl

/-- Validation and recovery come to the same end. -/
structure Agrees (validated : Except GoError (UInt64 × Bytes))
    (recovered : Except GoError Segment) : Prop where
  succeeds_iff : (∃ found, validated = .ok found) ↔ ∃ s, recovered = .ok s
  same_end : ∀ {found s}, validated = .ok found → recovered = .ok s → found.1 = s.endOffset
  /-- The errors have the same sentinels; they mean damage or an unsupported format. -/
  same_class : ∀ {e e'}, validated = .error e → recovered = .error e' →
    e'.kinds = e.kinds ∧ e.Rejects

/-- The check that only reads and the recovery that cuts agree on every file within the limit. -/
theorem validateSegmentAt_agrees (read : d.read? name = some data)
    (small : data.length ≤ maxBytes.toNat) :
    Agrees (validateSegmentAt d name topic partition final expected maxBytes)
      (Prog.run Dir.device (recoverSegmentAt name topic partition final expected) d).1 := by
  obtain ⟨f, durable, found, rfl⟩ := lookup_of_read? read
  rw [run_recoverSegmentAt found]
  by_cases short : f.data.length < segmentHeaderBytes.toNat
  · have verdict : segmentVerdict name topic partition final expected f.data =
        .error (corrupt .errInvalidSegment "segment is shorter than its header") := by
      simp only [segmentVerdict, readSegmentAt, failIf_of short, error_bind]
    have validated : validateSegmentAt d name topic partition final expected maxBytes =
        .error (corrupt .errInvalidSegment "segment size is outside configured limits") := by
      simp only [validateSegmentAt, read, Option.elim_some, pure_eq_ok, ok_bind,
        failIf_of (Or.inl short), error_bind]
    rw [verdict, validated]
    refine ⟨by simp, fun wrong => (by cases wrong), fun same same' => ?_⟩
    obtain rfl := Except.error.inj same
    obtain rfl := Except.error.inj same'
    exact ⟨rfl, rejects_corrupt _ _⟩
  · rw [validateSegmentAt_eq read (Nat.not_lt.1 short) small]
    cases verdict : segmentVerdict name topic partition final expected f.data with
    | error e =>
        refine ⟨by simp [Except.map], fun wrong => (by cases wrong), fun same same' => ?_⟩
        obtain rfl := Except.error.inj same
        obtain rfl := Except.error.inj same'
        exact ⟨rfl, segmentVerdict_rejects _ _ verdict⟩
    | ok out =>
        obtain ⟨header, recovered, cut⟩ := out
        refine ⟨by simp [Except.map], fun same same' => ?_, fun wrong => by cases wrong⟩
        obtain rfl := Except.ok.inj same
        obtain rfl := Except.ok.inj same'
        rfl

end OneSegment

/-! ## The scan of a directory -/

def isRecognizedSegmentTemporary : Name → Bool
  | .indexTmp _ | .segmentTmp _ => true
  | .hidden text =>
      (text.startsWith ".index-" && text.endsWith ".tmp") ||
        (text.startsWith ".segment-" && text.endsWith ".tmp")
  | _ => false

def isRecognizedSnapshotArtifact : Name → Bool
  | .snapshot | .checkpoint | .snapshotTmp _ => true
  | .hidden text => text.startsWith ".projection-snapshot-" && text.endsWith ".tmp"
  | _ => false

/-- `validateRetiredSegmentReadOnly` -/
def validateRetiredSegmentReadOnly (dir : Dir Name) (base : UInt64) (topic : TopicID)
    (partition : UInt32) (event : RetiredSegmentEvent) (maxBytes : UInt64) :
    Except GoError Unit := do
  let data ← (dir.read? (.log base)).elim (throw (ioError "open retired segment")) pure
  failIf (data.length < segmentHeaderBytes.toNat ∨ data.length ≠ event.bytes.toNat)
    (corrupt .errInvalidSegment "retired segment length does not match catalog inventory")
  let headerBytes := slice data 0 segmentHeaderBytes.toNat
  let header ← decodeSegmentHeader headerBytes topic partition
  failIf (header.baseOffset ≠ event.base ∨ header.id ≠ event.anchor.id ∨
      segmentHeaderHash headerBytes ≠ event.anchor.headerHash)
    (corrupt .errInvalidSegment "retired segment identity does not match catalog inventory")
  let (next, _) ← validateSegmentReadOnly dir base topic partition false event.base maxBytes
  failIf (next ≠ event.stop)
    (corrupt .errInvalidSegment "retired segment end does not match catalog inventory")

/-- The retired inventory lies below the retained offsets. -/
def checkInventory (initialOffset : UInt64) :
    List (UInt64 × RetiredSegmentEvent) → Except GoError Unit
  | [] => return ()
  | (base, event) :: rest => do
      failIf (initialOffset ≤ base ∨ event.base ≠ base)
        (corrupt .errInvalidSegment "retired inventory is outside the retained boundary")
      checkInventory initialOffset rest

/-- The files at or above the initial offset; those below it must be retired segments. -/
def retainedFiles (dir : Dir Name) (topic : TopicID) (partition : UInt32)
    (maxBytes initialOffset : UInt64) (retired : ExtTreeMap UInt64 RetiredSegmentEvent) :
    List UInt64 → Except GoError (List UInt64)
  | [] => return []
  | base :: rest =>
      if base < initialOffset then
        match retired[base]? with
        | none => throw (corrupt .errInvalidSegment
            "partition contains an unrecognized retired segment")
        | some event => do
            validateRetiredSegmentReadOnly dir base topic partition event maxBytes
            retainedFiles dir topic partition maxBytes initialOffset retired rest
      else do
        let later ← retainedFiles dir topic partition maxBytes initialOffset retired rest
        return base :: later

/-- The three files of a segment. -/
def Name.ofSegment (base : UInt64) (name : Name) : Bool :=
  name = .log base ∨ name = .index base ∨ name = .timeIndex base

/-- The names that a scan accepts. -/
def allowedEntry (bases : List UInt64) (allowSnapshot : Bool) (name : Name) : Bool :=
  bases.any (fun base => name.ofSegment base) || isRecognizedSegmentTemporary name ||
    (allowSnapshot && isRecognizedSnapshotArtifact name)

def checkEntries (bases : List UInt64) (allowSnapshot : Bool) :
    List (Sigma fun _ : Name => Entry) → Except GoError Unit
  | [] => return ()
  | ⟨name, entry⟩ :: rest => do
      failIf (entry.file = none)
        (corrupt .errInvalidSegment "partition directory contains an unexpected subdirectory")
      failIf (allowedEntry bases allowSnapshot name = false)
        (corrupt .errInvalidSegment "partition directory contains an unexpected file")
      checkEntries bases allowSnapshot rest

/-- Validate the files one after the other: the offset behind the last one. -/
def validateFiles (dir : Dir Name) (topic : TopicID) (partition : UInt32) (maxBytes : UInt64) :
    List UInt64 → UInt64 → Except GoError UInt64
  | [], expected => return expected
  | base :: rest, expected => do
      let (next, _) ← validateSegmentReadOnly dir base topic partition rest.isEmpty expected
        maxBytes
      validateFiles dir topic partition maxBytes rest next

/-- The scan, with the offset where it ends. -/
def preflightScan (dir : Dir Name) (topic : TopicID) (partition : UInt32)
    (maxBytes initialOffset : UInt64) (allowSnapshot : Bool)
    (retired : ExtTreeMap UInt64 RetiredSegmentEvent) :
    Except GoError (SegmentHeader × Bytes × UInt64) := do
  let files ← discoverSegments dir
  checkInventory initialOffset retired.toList
  let retained ← retainedFiles dir topic partition maxBytes initialOffset retired files
  match retained with
  | [] => throw (corrupt .errInvalidSegment "partition has no retained-base segment")
  | base :: rest =>
      failIf (base ≠ initialOffset)
        (corrupt .errInvalidSegment "partition has no retained-base segment")
      checkEntries (retained ++ retired.toList.map Prod.fst) allowSnapshot dir.entries
      let (next, headerBytes) ← validateSegmentReadOnly dir base topic partition rest.isEmpty
        initialOffset maxBytes
      let first ← decodeSegmentHeader headerBytes topic partition
      let scanned ← validateFiles dir topic partition maxBytes rest next
      return (first, headerBytes, scanned)

/-- `preflightSegmentChain` -/
def preflightSegmentChain (dir : Dir Name) (topic : TopicID) (partition : UInt32)
    (maxBytes initialOffset : UInt64) (allowSnapshot : Bool)
    (retired : ExtTreeMap UInt64 RetiredSegmentEvent) : Except GoError (SegmentHeader × Bytes) := do
  let (first, headerBytes, _) ← preflightScan dir topic partition maxBytes initialOffset
    allowSnapshot retired
  return (first, headerBytes)

/-! ## Reading a file again -/

section Again

variable {topic : TopicID} {partition : UInt32} {final : Bool} {expected maxBytes : UInt64}
  {d d' : Dir Name} {name : Name} {data : Bytes}

/-- One round of the loop over a batch that is all there. -/
theorem recoverBatches_step {rest : Bytes} {r : Recovered} {fuel : Nat} {batch : RecordBatch}
    (long : 48 ≤ rest.length) (inside : (uint32 (slice rest 8 12)).toNat ≤ rest.length)
    (minimum : 52 ≤ (uint32 (slice rest 8 12)).toNat)
    (decoded : decodeBatch (slice rest 0 (uint32 (slice rest 8 12)).toNat) topic partition =
      .ok batch) (base : batch.baseOffset = r.current) :
    recoverBatches topic partition final (fuel + 1) rest r =
      recoverBatches topic partition final fuel (rest.drop (uint32 (slice rest 8 12)).toNat)
        (r.push batch (slice rest 0 (uint32 (slice rest 8 12)).toNat)) := by
  have nonempty : rest ≠ [] := List.ne_nil_of_length_pos (by omega)
  have header : ¬ rest.length < batchHeaderBytes.toNat := Nat.not_lt.2 long
  have large : ¬ uint32 (slice rest 8 12) < batchHeaderBytes.toUInt32 + 4 :=
    UInt32.not_lt.2 (UInt32.le_iff_toNat_le.2 minimum)
  rw [recoverBatches, if_neg nonempty, if_neg header]
  simp only [if_neg (Nat.not_lt.2 inside), failIf_of_not large, decoded, ok_bind,
    failIf_of_not (not_not.2 base), ne_eq]

/-- Without the piece that is cut off the loop ends where it was. -/
theorem recoverBatches_truncated {rest : Bytes} {r out : Recovered} {fuel : Nat}
    (ok : recoverBatches topic partition final fuel rest r = .ok (out, true)) :
    ∃ n, out.position = r.position + n ∧ n ≤ rest.length ∧ ∀ fuel', n ≤ fuel' →
      recoverBatches topic partition final fuel' (rest.take n) r = .ok (out, false) := by
  induction fuel generalizing rest r with
  | zero => cases ok
  | succ fuel ih =>
      by_cases empty : rest = []
      · rw [empty, recoverBatches_nil] at ok
        cases ok
      obtain ⟨long, ⟨-, -, -, same⟩ | ⟨inside, minimum, batch, decoded, base, later⟩⟩ :=
        recoverBatches_round empty ok
      · obtain rfl := (Prod.mk.inj same).1
        exact ⟨0, rfl, Nat.zero_le _, fun fuel' _ => recoverBatches_nil⟩
      · obtain ⟨n, position, fits, reads⟩ := ih later
        obtain ⟨size, length⟩ : ∃ size, size = (uint32 (slice rest 8 12)).toNat := ⟨_, rfl⟩
        rw [← length] at inside minimum decoded fits reads position
        rw [List.length_drop] at fits
        have whole : (rest.take (size + n)).length = size + n := List.length_take_of_le (by omega)
        -- the batch in front is the same in the shorter bytes
        have field : slice (rest.take (size + n)) 8 12 = slice rest 8 12 :=
          slice_of_isPrefix (List.take_prefix _ _) (by omega)
        have front : slice (rest.take (size + n)) 0 size = slice rest 0 size :=
          slice_of_isPrefix (List.take_prefix _ _) (by omega)
        have pushed : (slice rest 0 size).length = size := by
          rw [length_slice]
          omega
        refine ⟨size + n, ?_, by omega, fun fuel' enough => ?_⟩
        · rw [position]
          simp only [Recovered.push, pushed]
          omega
        · obtain ⟨fuel', rfl⟩ : ∃ m, fuel' = m + 1 := ⟨fuel' - 1, by omega⟩
          have shorter : (rest.take (size + n)).drop size = (rest.drop size).take n := by
            rw [List.drop_take, Nat.add_sub_cancel_left]
          rw [recoverBatches_step (by omega) (by rw [field, ← length]; omega)
            (by rw [field, ← length]; exact minimum)
            (by rw [field, ← length, front]; exact decoded) base, field, ← length, front, shorter]
          exact reads fuel' (by omega)

/-- The verdict over a segment file, taken apart. -/
theorem segmentVerdict_eq_ok {found : SegmentHeader × Recovered × Bool} :
    segmentVerdict name topic partition final expected data = .ok found ↔
      segmentHeaderBytes.toNat ≤ data.length ∧
      decodeSegmentHeader (slice data 0 segmentHeaderBytes.toNat) topic partition = .ok found.1 ∧
      name = .log found.1.baseOffset ∧ found.1.baseOffset = expected ∧
      recoverBatches topic partition final data.length (data.drop segmentHeaderBytes.toNat)
        (recoveryStart found.1) = .ok found.2 ∧
      ¬ (final = false ∧ found.2.1.records = 0) := by
  obtain ⟨header, recovered, cut⟩ := found
  simp only [segmentVerdict, readSegmentAt, bind_eq_ok, failIf_eq_ok, exists_const, pure_eq_ok,
    Except.ok.injEq, Prod.mk.injEq, Prod.exists, not_or, not_not, ne_eq, Nat.not_lt]
  constructor
  · intro read
    obtain ⟨_, _, _, ⟨long, _, decoded, ⟨named, order⟩, _, _, looped, rfl, rfl, rfl⟩, filled,
      rfl, rfl, rfl⟩ := read
    exact ⟨long, decoded, named, order, looped, filled⟩
  · intro read
    obtain ⟨long, decoded, named, order, looped, filled⟩ := read
    exact ⟨_, _, _, ⟨long, _, decoded, ⟨named, order⟩, _, _, looped, rfl, rfl, rfl⟩, filled,
      rfl, rfl, rfl⟩

/-- The file without its incomplete batch reads as before. -/
theorem segmentVerdict_truncated {header : SegmentHeader} {recovered : Recovered}
    (verdict : segmentVerdict name topic partition final expected data =
      .ok (header, recovered, true)) :
    segmentVerdict name topic partition final expected (data.take recovered.position) =
        .ok (header, recovered, false) ∧
      (data.take recovered.position).length ≤ data.length ∧
      slice (data.take recovered.position) 0 segmentHeaderBytes.toNat =
        slice data 0 segmentHeaderBytes.toNat := by
  obtain ⟨long, decoded, named, order, looped, filled⟩ := segmentVerdict_eq_ok.1 verdict
  obtain ⟨n, position, fits, reads⟩ := recoverBatches_truncated looped
  have start : (recoveryStart header).position = segmentHeaderBytes.toNat := rfl
  rw [start] at position
  rw [List.length_drop] at fits
  have whole : (data.take recovered.position).length = segmentHeaderBytes.toNat + n := by
    rw [List.length_take]
    omega
  have front : slice (data.take recovered.position) 0 segmentHeaderBytes.toNat =
      slice data 0 segmentHeaderBytes.toNat :=
    slice_of_isPrefix (List.take_prefix _ _) (by omega)
  have behind : (data.take recovered.position).drop segmentHeaderBytes.toNat =
      (data.drop segmentHeaderBytes.toNat).take n := by
    rw [List.drop_take, position, Nat.add_sub_cancel_left]
  refine ⟨segmentVerdict_eq_ok.2 ⟨by omega, ?_, named, order, ?_, filled⟩, by omega, front⟩
  · rw [front]
    exact decoded
  · rw [behind]
    exact reads _ (by omega)

/-- What a validated segment file holds. -/
theorem validateSegmentReadOnly_verdict {base next : UInt64} {headerBytes : Bytes}
    (validated : validateSegmentReadOnly d base topic partition final expected maxBytes =
      .ok (next, headerBytes)) :
    ∃ f durable header recovered cut, d.lookup (.log base) = some ⟨some f, durable⟩ ∧
      f.data.length ≤ maxBytes.toNat ∧
      segmentVerdict (.log base) topic partition final expected f.data =
        .ok (header, recovered, cut) ∧
      recovered.current = next ∧ slice f.data 0 segmentHeaderBytes.toNat = headerBytes := by
  obtain ⟨data, header, recovered, cut, read, small, reads, filled, rfl, rfl⟩ :=
    validateSegmentReadOnly_eq_ok.1 validated
  obtain ⟨f, durable, found, rfl⟩ := lookup_of_read? read
  refine ⟨f, durable, header, recovered, cut, found, small, ?_, rfl, rfl⟩
  rw [segmentVerdict, readSegmentAt_log, reads, ok_bind]
  simp only [failIf_of_not filled, ok_bind, pure_eq_ok]

/-- The check passes a file with a verdict, also where recovery would cut it. -/
theorem validateSegmentReadOnly_of_verdict {base : UInt64} {f : File} {durable : Bool}
    {header : SegmentHeader} {recovered : Recovered} {cut : Bool}
    (found : d.lookup (.log base) = some ⟨some f, durable⟩)
    (small : f.data.length ≤ maxBytes.toNat)
    (verdict : segmentVerdict (.log base) topic partition final expected f.data =
      .ok (header, recovered, cut)) :
    validateSegmentReadOnly d base topic partition final expected maxBytes =
      .ok (recovered.current, slice f.data 0 segmentHeaderBytes.toNat) := by
  have long := (segmentVerdict_eq_ok.1 verdict).1
  rw [validateSegmentReadOnly, validateSegmentAt_eq (read?_of_lookup found) long small, verdict]
  rfl

/-! ## Opening what was scanned -/

/-- The same names lead to files and to subdirectories. -/
def SameShape (d d' : Dir Name) : Prop :=
  ∀ name, (d'.lookup name).map (fun entry => entry.file.isSome) =
    (d.lookup name).map fun entry => entry.file.isSome

theorem SameShape.refl (d : Dir Name) : SameShape d d :=
  fun _ => rfl

theorem SameShape.insert {f f' : File} {durable durable' : Bool}
    (found : d.lookup name = some ⟨some f, durable⟩) :
    SameShape d (d.insert name ⟨some f', durable'⟩) := by
  intro other
  by_cases same : other = name
  · subst same
    rw [AList.lookup_insert, found]
    rfl
  · rw [AList.lookup_insert_ne same]

/-- Directories of one shape have the same files. -/
theorem SameShape.read? (same : SameShape d d') (name : Name) :
    (∃ data, d'.read? name = some data) ↔ ∃ data, d.read? name = some data := by
  have shape := same name
  simp only [Dir.read?, Dir.file?]
  cases here : d.lookup name with
  | none =>
      rw [here] at shape
      cases there : d'.lookup name with
      | none => rfl
      | some entry => simp [there] at shape
  | some entry =>
      rw [here] at shape
      cases there : d'.lookup name with
      | none => simp [there] at shape
      | some entry' =>
          simp only [there, Option.map_some, Option.some.injEq] at shape
          cases left : entry.file <;> cases right : entry'.file <;> simp_all

/-- The same segments are found in them. -/
theorem SameShape.discover {bases : List UInt64} (same : SameShape d d')
    (found : discoverSegments d = .ok bases) : discoverSegments d' = .ok bases := by
  obtain ⟨files, small, stray, increasing⟩ := discoverSegments_eq_ok.1 found
  refine discoverSegments_eq_ok.2 ⟨fun base => ?_, small, fun text => ?_, increasing⟩
  · rw [files, same.read?]
  · rw [Option.eq_none_iff_forall_ne_some]
    intro data read
    obtain ⟨data', read'⟩ := (same.read? _).1 ⟨data, read⟩
    rw [stray text] at read'
    cases read'

/-- All entries must be files of a known kind. -/
theorem checkEntries_eq_ok {bases : List UInt64} {allowSnapshot : Bool}
    {entries : List (Sigma fun _ : Name => Entry)} {u : Unit} :
    checkEntries bases allowSnapshot entries = .ok u ↔
      ∀ e ∈ entries, e.2.file ≠ none ∧ allowedEntry bases allowSnapshot e.1 = true := by
  induction entries with
  | nil => simp [checkEntries]
  | cons e entries ih =>
      simp only [checkEntries, bind_eq_ok, failIf_eq_ok, exists_const, ih, List.forall_mem_cons,
        Bool.not_eq_false, and_assoc, ne_eq]

theorem SameShape.checkEntries {bases : List UInt64} {allowSnapshot : Bool} {u : Unit}
    (same : SameShape d d') (checked : checkEntries bases allowSnapshot d.entries = .ok u) :
    checkEntries bases allowSnapshot d'.entries = .ok u := by
  have lookup (d : Dir Name) (name : Name) (entry : Entry) :
      ⟨name, entry⟩ ∈ d.entries ↔ d.lookup name = some entry :=
    (List.mem_dlookup_iff d.nodupKeys).symm
  refine checkEntries_eq_ok.2 fun e mem => ?_
  have here := (lookup d' e.1 e.2).1 mem
  have shape := same e.1
  rw [here] at shape
  cases there : d.lookup e.1 with
  | none => simp [there] at shape
  | some entry =>
      obtain ⟨isFile, allowed⟩ := checkEntries_eq_ok.1 checked _ ((lookup d _ _).2 there)
      refine ⟨fun none => isFile ?_, allowed⟩
      simpa [there, none] using shape.symm

/-- Without a retirement list nothing is skipped. -/
theorem retainedFiles_empty {maxBytes initialOffset : UInt64} {bases retained : List UInt64} :
    retainedFiles d topic partition maxBytes initialOffset ∅ bases = .ok retained ↔
      retained = bases ∧ ∀ base ∈ bases, initialOffset ≤ base := by
  induction bases generalizing retained with
  | nil => simp [retainedFiles, eq_comm]
  | cons base rest ih =>
      unfold retainedFiles
      by_cases below : base < initialOffset
      · rw [if_pos below]
        simp only [ExtTreeMap.getElem?_empty, throw_eq_error, reduceCtorEq, List.forall_mem_cons,
          false_iff, not_and]
        intro _ above
        exact absurd below (UInt64.not_lt.2 above)
      · rw [if_neg below]
        simp only [bind_eq_ok, ih, pure_eq_ok, Except.ok.injEq, List.forall_mem_cons]
        constructor
        · intro found
          obtain ⟨_, ⟨rfl, above⟩, rfl⟩ := found
          exact ⟨rfl, UInt64.not_lt.1 below, above⟩
        · intro found
          obtain ⟨rfl, -, above⟩ := found
          exact ⟨rest, ⟨rfl, above⟩, rfl⟩

/-- A file with a verdict is recovered, and it passes the scan as it did before. Without a cut
nothing is changed. -/
theorem recoverSegment_of_verdict {base : UInt64} {f : File} {durable cut : Bool}
    {header : SegmentHeader} {recovered : Recovered}
    (found : d.lookup (.log base) = some ⟨some f, durable⟩)
    (small : f.data.length ≤ maxBytes.toNat)
    (verdict : segmentVerdict (.log base) topic partition final expected f.data =
      .ok (header, recovered, cut)) :
    ∃ mid, Prog.run Dir.device (recoverSegment base topic partition final expected) d =
        (.ok (recovered.segment header f.data), mid) ∧
      SameShape d mid ∧ (∀ name, name ≠ .log base → mid.lookup name = d.lookup name) ∧
      validateSegmentReadOnly mid base topic partition final expected maxBytes =
        validateSegmentReadOnly d base topic partition final expected maxBytes ∧
      (cut = false → mid = d) := by
  rw [recoverSegment, run_recoverSegmentAt found, verdict]
  cases cut with
  | false => exact ⟨d, rfl, .refl d, fun _ _ => rfl, rfl, fun _ => rfl⟩
  | true =>
      obtain ⟨verdict', shorter, front⟩ := segmentVerdict_truncated verdict
      refine ⟨_, rfl, .insert found, fun name other => AList.lookup_insert_ne other, ?_,
        fun wrong => by cases wrong⟩
      rw [if_pos rfl, validateSegmentReadOnly_of_verdict (AList.lookup_insert _)
        (shorter.trans small) verdict',
        validateSegmentReadOnly_of_verdict found small verdict, front]

/-- What recovery makes of the files that the scan has passed. -/
structure OpensFiles (d : Dir Name) (topic : TopicID) (partition : UInt32) (maxBytes : UInt64)
    (bases : List UInt64) (expected stop : UInt64) (opened : List Segment) (d' : Dir Name) :
    Prop where
  bases_eq : opened.map (fun s => s.header.baseOffset) = bases
  shape : SameShape d d'
  others : ∀ name, (∀ base ∈ bases, name ≠ .log base) → d'.lookup name = d.lookup name
  /-- The scan comes to the same end again, and the first file passes it as before. -/
  again : validateFiles d' topic partition maxBytes bases expected = .ok stop
  first : ∀ base rest, bases = base :: rest →
    validateSegmentReadOnly d' base topic partition rest.isEmpty expected maxBytes =
      validateSegmentReadOnly d base topic partition rest.isEmpty expected maxBytes

/-- Files that pass the check are opened: each is recovered, and cut where its tail is torn. -/
theorem validateFiles_opens {options : PartitionOptions} {storeID : StoreID} {bases : List UInt64}
    {stop : UInt64} (distinct : bases.Nodup)
    (validated : validateFiles d topic partition maxBytes bases expected = .ok stop)
    (segments : List Segment) :
    ∃ opened d',
      Prog.run Dir.device (recoverSegments topic partition options storeID bases expected segments)
          d = (.ok (segments ++ opened, stop), d') ∧
        OpensFiles d topic partition maxBytes bases expected stop opened d' := by
  induction bases generalizing expected segments with
  | nil =>
      obtain rfl := Except.ok.inj validated
      exact ⟨[], d, by rw [List.append_nil]; rfl, rfl, .refl d, fun _ _ => rfl, rfl,
        fun _ _ wrong => by cases wrong⟩
  | cons base rest ih =>
      obtain ⟨fresh, distinct⟩ := List.nodup_cons.1 distinct
      simp only [validateFiles, bind_eq_ok, Prod.exists] at validated
      obtain ⟨next, headerBytes, here, later⟩ := validated
      obtain ⟨f, durable, header, recovered, cut, found, small, verdict, rfl, -⟩ :=
        validateSegmentReadOnly_verdict here
      obtain ⟨-, -, named, order, looped, -⟩ := segmentVerdict_eq_ok.1 verdict
      have baseEq : base = header.baseOffset := Name.log.inj named
      obtain ⟨mid, ran, shape, others, same, uncut⟩ := recoverSegment_of_verdict found small verdict
      obtain ⟨s, loaded, headed⟩ : ∃ s, loadOrBuildIndexes mid (recovered.segment header f.data)
          storeID options.indexStride = s ∧ s.header.baseOffset = base := by
        obtain ⟨_, _, _, loaded, -⟩ := loadOrBuildIndexes_spec mid
          (recovered.segment header f.data) storeID options.indexStride
        exact ⟨_, loaded, baseEq.symm⟩
      have step : Prog.run Dir.device
          (recoverSegments topic partition options storeID (base :: rest) expected segments) d =
            Prog.run Dir.device (recoverSegments topic partition options storeID rest
              recovered.current (segments ++ [s])) mid := by
        rw [run_recoverSegments_cons (baseEq.trans order) ran rfl, loaded]
        rfl
      cases rest with
      | nil =>
          obtain rfl := Except.ok.inj later
          refine ⟨[s], mid, step, congrArg (fun base => [base]) headed, shape,
            fun name other => others name (other base (by simp)), ?_, fun base' rest' same' => ?_⟩
          · simp only [validateFiles, bind_eq_ok, Prod.exists]
            exact ⟨_, _, same.trans here, rfl⟩
          · obtain ⟨rfl, rfl⟩ := List.cons.inj same'
            exact same
      | cons second rest =>
          obtain rfl : cut = false := by
            cases cut with
            | false => rfl
            | true => cases recoverBatches_cut_final looped
          obtain rfl := uncut rfl
          obtain ⟨opened, d', opens, files⟩ := ih distinct later (segments ++ [s])
          have apart : ∀ base' ∈ second :: rest, Name.log base ≠ .log base' := by
            intro base' mem same
            exact fresh (Name.log.inj same ▸ mem)
          have kept : validateSegmentReadOnly d' base topic partition false expected maxBytes =
              validateSegmentReadOnly mid base topic partition false expected maxBytes := by
            simp only [validateSegmentReadOnly, validateSegmentAt, Dir.read?, Dir.file?,
              files.others _ apart]
          refine ⟨s :: opened, d', ?_, ?_, files.shape, fun name other => ?_, ?_,
            fun base' rest' same' => ?_⟩
          · rw [step, opens, List.append_assoc]
            rfl
          · rw [List.map_cons, files.bases_eq, headed]
          · exact files.others name fun base' mem => other base' (List.mem_cons_of_mem _ mem)
          · rw [validateFiles, List.isEmpty_cons, kept]
            simp only [bind_eq_ok, Prod.exists]
            exact ⟨_, _, here, files.again⟩
          · obtain ⟨rfl, rfl⟩ := List.cons.inj same'
            exact kept

/-- What the scan of a directory without retired segments has found. -/
theorem preflightScan_eq_ok {initialOffset : UInt64} {allowSnapshot : Bool} {header : SegmentHeader}
    {headerBytes : Bytes} {stop : UInt64} :
    preflightScan d topic partition maxBytes initialOffset allowSnapshot ∅ =
        .ok (header, headerBytes, stop) ↔
      ∃ rest next, discoverSegments d = .ok (initialOffset :: rest) ∧
        (∀ base ∈ initialOffset :: rest, initialOffset ≤ base) ∧
        checkEntries (initialOffset :: rest) allowSnapshot d.entries = .ok () ∧
        validateSegmentReadOnly d initialOffset topic partition rest.isEmpty initialOffset
          maxBytes = .ok (next, headerBytes) ∧
        decodeSegmentHeader headerBytes topic partition = .ok header ∧
        validateFiles d topic partition maxBytes rest next = .ok stop := by
  have inventory : checkInventory initialOffset
      (∅ : ExtTreeMap UInt64 RetiredSegmentEvent).toList = .ok () := rfl
  have none : (∅ : ExtTreeMap UInt64 RetiredSegmentEvent).toList.map Prod.fst = [] := rfl
  simp only [preflightScan, bind_eq_ok, inventory, none, List.append_nil, retainedFiles_empty]
  constructor
  · intro scanned
    obtain ⟨files, found, _, -, retained, ⟨rfl, above⟩, scanned⟩ := scanned
    cases retained with
    | nil => cases scanned
    | cons base rest =>
        simp only [bind_eq_ok, failIf_eq_ok, exists_const, not_not, ne_eq, Prod.exists, pure_eq_ok,
          Except.ok.injEq, Prod.mk.injEq] at scanned
        obtain ⟨rfl, _, entries, next, _, here, _, decoded, _, later, rfl, rfl, rfl⟩ := scanned
        exact ⟨rest, next, found, above, entries, here, decoded, later⟩
  · intro scanned
    obtain ⟨rest, next, found, above, entries, here, decoded, later⟩ := scanned
    refine ⟨_, found, (), trivial, _, ⟨rfl, above⟩, ?_⟩
    simp only [bind_eq_ok, failIf_eq_ok, exists_const, not_not, ne_eq, Prod.exists, pure_eq_ok,
      Except.ok.injEq, Prod.mk.injEq, true_and]
    exact ⟨(), entries, next, headerBytes, here, header, decoded, stop, later, rfl, rfl, rfl⟩

/-- A partition whose files pass the scan can be opened. -/
theorem preflightScan_opens {options : PartitionOptions} {storeID : StoreID} {drawn : SegmentID}
    {allowSnapshot : Bool} {header : SegmentHeader} {headerBytes : Bytes} {stop : UInt64}
    (scanned : preflightScan d topic partition maxBytes options.initialOffset allowSnapshot ∅ =
      .ok (header, headerBytes, stop)) {tail : Option PartitionTail}
    (cached : newPartitionTail options.tailSlots options.tailBytes = .ok tail) :
    ∃ p d', Prog.run Dir.device (openPartition drawn topic partition options storeID) d =
        (.ok p, d') ∧ p.logStart = options.initialOffset ∧ p.logEnd = stop ∧
      preflightScan d' topic partition maxBytes options.initialOffset allowSnapshot ∅ =
        .ok (header, headerBytes, stop) := by
  obtain ⟨rest, next, found, above, entries, here, decoded, later⟩ := preflightScan_eq_ok.1 scanned
  have distinct : (options.initialOffset :: rest).Nodup :=
    (discoverSegments_eq_ok.1 found).2.2.2.imp fun less same =>
      absurd (congrArg UInt64.toNat same) less.ne
  have validated : validateFiles d topic partition maxBytes (options.initialOffset :: rest)
      options.initialOffset = .ok stop := by
    simp only [validateFiles, bind_eq_ok, Prod.exists]
    exact ⟨next, headerBytes, here, later⟩
  obtain ⟨opened, d', ran, files⟩ : ∃ opened d',
      Prog.run Dir.device (recoverSegments topic partition options storeID
        (options.initialOffset :: rest) options.initialOffset []) d = (.ok (opened, stop), d') ∧
      OpensFiles d topic partition maxBytes (options.initialOffset :: rest) options.initialOffset
        stop opened d' :=
    validateFiles_opens distinct validated []
  have nonempty : opened ≠ [] := by
    intro none
    have bases := files.bases_eq
    rw [none] at bases
    cases bases
  have whole : opened.dropLast ++ [opened.getLast nonempty] = opened :=
    List.dropLast_append_getLast nonempty
  let p := openedPartition topic partition options storeID tail opened.dropLast
    (opened.getLast nonempty) stop
  refine ⟨p, d', ?_, ?_, rfl, ?_⟩
  · simp only [openPartition, cached]
    rw [Prog.run_bind_ok (Prog.run_ofExcept ..), Prog.run_bind_ok (Prog.run_get ..), found,
      Prog.run_bind_ok (Prog.run_ofExcept ..)]
    dsimp only
    rw [failIf_of_not (not_not.2 rfl), Prog.run_bind_ok (Prog.run_ofExcept ..),
      Prog.run_bind_ok ran, assemblePartition, List.getLast?_eq_some_getLast nonempty]
    rfl
  · have segments : p.segments = opened := whole
    rw [Partition.logStart, segments]
    have bases := files.bases_eq
    cases opened with
    | nil => cases bases
    | cons s _ => exact (List.cons.inj bases).1
  · have again := files.again
    simp only [validateFiles, files.first _ _ rfl, here, ok_bind] at again
    exact preflightScan_eq_ok.2 ⟨rest, next, files.shape.discover found, above,
      files.shape.checkEntries entries, (files.first _ _ rfl).trans here, decoded, again⟩

/-- A scan that passes ends somewhere. -/
theorem preflightSegmentChain_eq_ok {initialOffset : UInt64} {allowSnapshot : Bool}
    {retired : ExtTreeMap UInt64 RetiredSegmentEvent} {found : SegmentHeader × Bytes} :
    preflightSegmentChain d topic partition maxBytes initialOffset allowSnapshot retired =
        .ok found ↔
      ∃ stop, preflightScan d topic partition maxBytes initialOffset allowSnapshot retired =
        .ok (found.1, found.2, stop) := by
  obtain ⟨header, headerBytes⟩ := found
  simp only [preflightSegmentChain, bind_eq_ok, Prod.exists, pure_eq_ok, Except.ok.injEq,
    Prod.mk.injEq]
  constructor
  · intro scanned
    obtain ⟨_, _, stop, scanned, rfl, rfl⟩ := scanned
    exact ⟨stop, scanned⟩
  · intro scanned
    obtain ⟨stop, scanned⟩ := scanned
    exact ⟨header, headerBytes, stop, scanned, rfl, rfl⟩

end Again

/-- Preflight agrees with recovery, on single files and on whole directories. -/
theorem preflight_agrees_with_recovery :
    (∀ (d : Dir Name) (name : Name) (data : Bytes) (topic : TopicID) (partition : UInt32)
        (final : Bool) (expected maxBytes : UInt64),
      d.read? name = some data → data.length ≤ maxBytes.toNat →
      Agrees (validateSegmentAt d name topic partition final expected maxBytes)
        (Prog.run Dir.device (recoverSegmentAt name topic partition final expected) d).1) ∧
    ∀ (d : Dir Name) (topic : TopicID) (partition : UInt32) (maxBytes : UInt64)
        (options : PartitionOptions) (storeID : StoreID) (drawn : SegmentID) (allowSnapshot : Bool)
        (found : SegmentHeader × Bytes) (tail : Option PartitionTail),
      preflightSegmentChain d topic partition maxBytes options.initialOffset allowSnapshot ∅ =
        .ok found →
      newPartitionTail options.tailSlots options.tailBytes = .ok tail →
      ∃ stop p d',
        preflightScan d topic partition maxBytes options.initialOffset allowSnapshot ∅ =
          .ok (found.1, found.2, stop) ∧
        Prog.run Dir.device (openPartition drawn topic partition options storeID) d = (.ok p, d') ∧
        p.logStart = options.initialOffset ∧ p.logEnd = stop ∧
        preflightSegmentChain d' topic partition maxBytes options.initialOffset allowSnapshot ∅ =
          .ok found := by
  refine ⟨fun d name data topic partition final expected maxBytes read small =>
    validateSegmentAt_agrees read small, ?_⟩
  intro d topic partition maxBytes options storeID drawn allowSnapshot found tail accepted cached
  obtain ⟨stop, scanned⟩ := preflightSegmentChain_eq_ok.1 accepted
  obtain ⟨p, d', opens, start, ends, again⟩ := preflightScan_opens scanned cached
  exact ⟨stop, p, d', scanned, opens, start, ends, preflightSegmentChain_eq_ok.2 ⟨stop, again⟩⟩

namespace SmallLog

/-- A small log behind which two bytes of a batch body were written. -/
def tornDir : Dir Name :=
  dirWith (log.bytes ++ batch.bytes.take 50) []

theorem read_tornDir : tornDir.read? (.log 0) = some (log.bytes ++ batch.bytes.take 50) :=
  read?_of_lookup (lookup_dirWith ..)

theorem small_tornDir :
    (log.bytes ++ batch.bytes.take 50).length ≤ (1048576 : UInt64).toNat := by
  have header : log.bytes.length = 72 := by
    simp [log, SegmentLog.bytes, SegmentHeader.length_bytes]
  have piece : (batch.bytes.take 50).length ≤ 50 := List.length_take_le ..
  have limit : (1048576 : UInt64).toNat = 1048576 := rfl
  rw [List.length_append]
  omega

/-- A torn tail passes the scan, up to the last whole batch. -/
theorem scan_tornDir : ∃ headerBytes,
    preflightScan tornDir 2 0 1048576 spec.options.initialOffset false ∅ =
      .ok (log.header, headerBytes, log.endOffset) := by
  have valid : log.Valid 2 0 0 := (chain_concat.1 chain_log).2
  have bounds := batch_valid.total_bounds
  have long : 50 < batch.bytes.length := by
    rw [RecordBatch.length_bytes]
    omega
  have size : (batch.bytes.take 50).length = 50 := List.length_take_of_le long.le
  have cut : readSegment 0 2 0 true 0 (log.bytes ++ batch.bytes.take 50) =
      .ok (log.header, log.recovered, true) :=
    readSegment_cut valid batch_valid rfl (List.take_prefix ..) (by omega) (by omega)
  have verdict : segmentVerdict (.log 0) 2 0 true 0 (log.bytes ++ batch.bytes.take 50) =
      .ok (log.header, log.recovered, true) := by
    rw [segmentVerdict, readSegmentAt_log, cut]
    rfl
  have here : validateSegmentReadOnly tornDir 0 2 0 true 0 1048576 = .ok (log.endOffset, _) :=
    (validateSegmentReadOnly_of_verdict (lookup_dirWith ..) small_tornDir verdict).trans
      (by rw [SegmentLog.recovered_current])
  refine ⟨_, preflightScan_eq_ok.2 ⟨[], log.endOffset, ?_, ?_, ?_, here,
    (segmentVerdict_eq_ok.1 verdict).2.1, rfl⟩⟩
  · refine discoverSegments_eq_ok.2 ⟨fun base => ?_, ?_, fun text => ?_, List.pairwise_singleton ..⟩
    · rw [List.mem_singleton]
      constructor
      · intro same
        exact same ▸ ⟨_, read_tornDir⟩
      · intro found
        obtain ⟨data, found⟩ := found
        obtain ⟨_, _, found, -⟩ := lookup_of_read? found
        by_contra other
        rw [tornDir, lookup_dirWith_other (by simpa [spec] using other)] at found
        cases found
    · intro base mem
      obtain rfl := List.mem_singleton.1 mem
      decide
    · simp [Dir.read?, Dir.file?, tornDir, lookup_dirWith_other]
  · intro base mem
    exact (List.mem_singleton.1 mem).symm ▸ UInt64.le_refl _
  · refine checkEntries_eq_ok.2 fun e mem => ?_
    obtain ⟨name, entry⟩ := e
    have found : tornDir.lookup name = some entry :=
      (List.mem_dlookup_iff tornDir.nodupKeys).2 mem
    by_cases here : name = .log 0
    · rw [here, tornDir, lookup_dirWith] at found
      cases found
      rw [here]
      exact ⟨Option.some_ne_none _, by decide⟩
    · rw [tornDir, lookup_dirWith_other here] at found
      cases found

/-- A log with a torn tail passes preflight and is opened. -/
theorem torn_log_opened : ∃ found stop p d',
    preflightSegmentChain tornDir 2 0 1048576 0 false ∅ = .ok found ∧
      Agrees (validateSegmentAt tornDir (.log 0) 2 0 true 0 1048576)
        (Prog.run Dir.device (recoverSegmentAt (.log 0) 2 0 true 0) tornDir).1 ∧
      preflightScan tornDir 2 0 1048576 0 false ∅ = .ok (found.1, found.2, stop) ∧
      Prog.run Dir.device (openPartition 1 2 0 spec.options 1) tornDir = (.ok p, d') ∧
      p.logStart = 0 ∧ p.logEnd = stop ∧
      preflightSegmentChain d' 2 0 1048576 0 false ∅ = .ok found := by
  obtain ⟨headerBytes, scanned⟩ := scan_tornDir
  have accepted : preflightSegmentChain tornDir 2 0 1048576 0 false ∅ =
      .ok (log.header, headerBytes) :=
    preflightSegmentChain_eq_ok.2 ⟨_, scanned⟩
  obtain ⟨stop, p, d', result⟩ := preflight_agrees_with_recovery.2 tornDir 2 0 1048576 spec.options
    1 1 false _ _ accepted spec.tail_eq
  exact ⟨_, stop, p, d', accepted, preflight_agrees_with_recovery.1 _ _ _ 2 0 true 0 1048576
    read_tornDir small_tornDir, result⟩

end SmallLog

end Immulog
