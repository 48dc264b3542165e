import Immulog.Recovery

/-!
Sparse segment indexes and their sidecar files (`src/storage/index.go`).

An index is a cache: it is sampled from the batch map in memory, and a sidecar is
only taken over when every entry names a batch of the segment.  `HintsOf` is what
readers rely on; every function that sets the offset index establishes it.
-/

namespace Immulog

open Lib

/-! ## Constants -/

/-- `IELIDX00` -/
def indexMagic : Bytes := ascii ['I', 'E', 'L', 'I', 'D', 'X', '0', '0']
def indexHeaderBytes : UInt16 := 128
def offsetIndexEntryBytes : UInt16 := 32
def timeIndexEntryBytes : UInt16 := 40
def maxIndexFileBytes : UInt32 := 64 * 1024 * 1024
def defaultIndexStride : UInt64 := 4096

/-! ## Headers -/

structure IndexHeader where
  kind : UInt16
  entryBytes : UInt16
  storeID : StoreID
  topic : TopicID
  partition : UInt32
  segmentID : SegmentID
  base : UInt64
  headerHash : Hash
  stride : UInt32
  deriving DecidableEq, Repr

/-- A stride of zero stands for the default, one above the field for its maximum. -/
def indexStride (stride : UInt64) : UInt32 :=
  let stride := if stride = 0 then defaultIndexStride else stride
  if 0xFFFFFFFF < stride then 0xFFFFFFFF else stride.toUInt32

def newIndexHeader (kind entryBytes : UInt16) (storeID : StoreID) (segment : Segment)
    (stride : UInt64) : IndexHeader :=
  { kind
    entryBytes
    storeID
    topic := segment.header.topic
    partition := segment.header.partition
    segmentID := segment.header.id
    base := segment.header.baseOffset
    headerHash := segment.headerHash
    stride := indexStride stride }

def IndexHeader.fields (h : IndexHeader) : List Bytes :=
  [indexMagic, putUint16 formatVersion, putUint16 indexHeaderBytes, putUint16 h.kind,
    putUint16 h.entryBytes, putUint32 0, putUint32 0, putID h.storeID, putID h.topic,
    putUint32 h.partition, putUint32 0, putID h.segmentID, putUint64 h.base,
    putHash h.headerHash, putUint32 h.stride]

def encodeIndexHeader (h : IndexHeader) : Bytes :=
  withCRC32C h.fields.flatten

def decodeIndexHeader (data : Bytes) : Except GoError IndexHeader := do
  failIf (data.length < indexHeaderBytes.toNat) (.new "index header is incomplete")
  failIf (slice data 0 8 ≠ indexMagic) (.new "index magic mismatch")
  failIf (uint16 (slice data 10 12) ≠ indexHeaderBytes) (.new "index header size mismatch")
  failIf (uint32 (slice data 124 128) ≠ crc32c (slice data 0 124))
    (.new "index header checksum mismatch")
  failIf (uint16 (slice data 8 10) ≠ formatVersion) (.new "unsupported index version")
  failIf (uint32 (slice data 16 20) ≠ 0 ∨ uint32 (slice data 20 24) ≠ 0 ∨
      uint32 (slice data 60 64) ≠ 0)
    (.new "nonzero index reserved fields")
  let header : IndexHeader :=
    { kind := uint16 (slice data 12 14)
      entryBytes := uint16 (slice data 14 16)
      storeID := idOf (slice data 24 40)
      topic := idOf (slice data 40 56)
      partition := uint32 (slice data 56 60)
      segmentID := idOf (slice data 64 80)
      base := uint64 (slice data 80 88)
      headerHash := hashOf (slice data 88 120)
      stride := uint32 (slice data 120 124) }
  failIf (header.kind ≠ 1 ∧ header.kind ≠ 2) (.new "unsupported index kind")
  let wantEntryBytes := if header.kind = 2 then timeIndexEntryBytes else offsetIndexEntryBytes
  failIf (header.entryBytes ≠ wantEntryBytes ∨ header.stride = 0)
    (.new "invalid index entry size or stride")
  return header

/-! ## Entries -/

def encodeOffsetIndexEntry (entry : OffsetIndexEntry) : Bytes :=
  withCRC32C <| putUint64 entry.base ++ putUint64 (.ofNat entry.position) ++
    putUint32 entry.bytes ++ putUint32 entry.records ++ putUint32 0

def decodeOffsetIndexEntry (data : Bytes) : Except GoError OffsetIndexEntry := do
  failIf (data.length ≠ offsetIndexEntryBytes.toNat) (.new "invalid offset index entry size")
  failIf (uint32 (slice data 24 28) ≠ 0 ∨ uint32 (slice data 28 32) ≠ crc32c (slice data 0 28))
    (.new "invalid offset index entry")
  return { base := uint64 (slice data 0 8)
           position := (uint64 (slice data 8 16)).toNat
           bytes := uint32 (slice data 16 20)
           records := uint32 (slice data 20 24) }

def encodeTimeIndexEntry (entry : TimeIndexEntry) : Bytes :=
  withCRC32C <| putUint64 entry.prefixMax.toUInt64 ++ putUint64 entry.base ++
    putUint64 (.ofNat entry.position) ++ putUint32 entry.bytes ++ putUint32 entry.records ++
    putUint32 0

def decodeTimeIndexEntry (data : Bytes) : Except GoError TimeIndexEntry := do
  failIf (data.length ≠ timeIndexEntryBytes.toNat) (.new "invalid time index entry size")
  failIf (uint32 (slice data 32 36) ≠ 0 ∨ uint32 (slice data 36 40) ≠ crc32c (slice data 0 36))
    (.new "invalid time index entry")
  return { prefixMax := (uint64 (slice data 0 8)).toInt64
           base := uint64 (slice data 8 16)
           position := (uint64 (slice data 16 24)).toNat
           bytes := uint32 (slice data 24 28)
           records := uint32 (slice data 28 32) }

/-! ## Sampling -/

def maxOffsetEntries : Nat :=
  (maxIndexFileBytes.toNat - indexHeaderBytes.toNat) / offsetIndexEntryBytes.toNat

def maxTimeEntries : Nat :=
  (maxIndexFileBytes.toNat - indexHeaderBytes.toNat) / timeIndexEntryBytes.toNat

/-- The variables of the sampling loop. -/
structure Sampling where
  offsetEntries : List OffsetIndexEntry
  timeEntries : List TimeIndexEntry
  lastPosition : Nat
  prefixMax : Int64
  first : Bool

def Sampling.step (stride : UInt64) (s : Sampling) (batch : BatchInfo) : Sampling :=
  let prefixMax := if s.prefixMax < batch.maxTime then batch.maxTime else s.prefixMax
  if s.first = true ∨ stride.toNat ≤ batch.position - s.lastPosition then
    { offsetEntries :=
        if s.offsetEntries.length < maxOffsetEntries then
          s.offsetEntries ++ [⟨batch.base, batch.position, batch.bytes, batch.records⟩]
        else s.offsetEntries
      timeEntries :=
        if s.timeEntries.length < maxTimeEntries then
          s.timeEntries ++ [⟨prefixMax, batch.base, batch.position, batch.bytes, batch.records⟩]
        else s.timeEntries
      lastPosition := batch.position
      prefixMax
      first := false }
  else { s with prefixMax, first := false }

def sampleBatchIndexes (batches : List BatchInfo) (stride : UInt64) :
    List OffsetIndexEntry × List TimeIndexEntry :=
  let stride := if stride = 0 then defaultIndexStride else stride
  let s := batches.foldl (Sampling.step stride) ⟨[], [], 0, Int64.minValue, true⟩
  (s.offsetEntries, s.timeEntries)

/-! ## Validation of sidecars -/

def readIndexFile (dir : Dir Name) (name : Name) : Except GoError Bytes :=
  match dir.read? name with
  | none => throw (ioError "open index")
  | some data => do
      failIf (data.length < indexHeaderBytes.toNat ∨ maxIndexFileBytes.toNat < data.length)
        (.new "index file size outside v1 limits")
      return data

/-- `batchMap`: the last batch of that base. -/
def batchOf (batches : List BatchInfo) (base : UInt64) : Option BatchInfo :=
  batches.reverse.find? fun batch => batch.base = base

def validateIndexHeader (header : IndexHeader) (segment : Segment) (storeID : StoreID)
    (time : Bool) : Except GoError Unit := do
  let wantKind := if time then 2 else 1
  let wantEntryBytes := if time then timeIndexEntryBytes else offsetIndexEntryBytes
  failIf (header.kind ≠ wantKind ∨ header.entryBytes ≠ wantEntryBytes ∨
      header.storeID ≠ storeID ∨ header.partition ≠ segment.header.partition ∨
      header.base ≠ segment.header.baseOffset ∨ header.headerHash ≠ segment.headerHash)
    (.new "index source identity mismatch")
  failIf (header.topic ≠ segment.header.topic ∨ header.segmentID ≠ segment.header.id)
    (.new "index topic or segment identity mismatch")

/-- The batch an entry of that base, position and size names. -/
def sourceBatch (batches : List BatchInfo) (base : UInt64) (position : Nat)
    (bytes records : UInt32) (detail : String) : Except GoError BatchInfo :=
  match batchOf batches base with
  | none => throw (.new detail)
  | some batch => do
      failIf (position ≠ batch.position ∨ bytes ≠ batch.bytes ∨ records ≠ batch.records ∨
        ¬ validOffsetRange base records) (.new detail)
      return batch

/-- The loop over the entries of an offset index file. -/
def validateOffsetEntries (batches : List BatchInfo) :
    Nat → Bytes → List OffsetIndexEntry → Except GoError (List OffsetIndexEntry)
  | 0, _, entries => return entries
  | count + 1, data, entries => do
      let entry ← decodeOffsetIndexEntry (slice data 0 offsetIndexEntryBytes.toNat)
      let _ ← sourceBatch batches entry.base entry.position entry.bytes entry.records
        "offset index entry does not match source batch"
      failIf (∃ previous ∈ entries.getLast?, entry.base ≤ previous.base ∨
          entry.position ≤ previous.position)
        (.new "offset index entries are not ordered")
      validateOffsetEntries batches count (data.drop offsetIndexEntryBytes.toNat)
        (entries ++ [entry])

def validateOffsetIndex (data : Bytes) (segment : Segment) (storeID : StoreID) :
    Except GoError (List OffsetIndexEntry) := do
  let header ← decodeIndexHeader data
  validateIndexHeader header segment storeID false
  let body := data.drop indexHeaderBytes.toNat
  failIf (body.length % offsetIndexEntryBytes.toNat ≠ 0)
    (.new "offset index has trailing bytes")
  validateOffsetEntries segment.batches (body.length / offsetIndexEntryBytes.toNat) body []

/-- The largest time of the batches up to `base`, and the batches behind them. -/
def advancePrefixMax (base : UInt64) : List BatchInfo → Int64 → Int64 × List BatchInfo
  | [], prefixMax => (prefixMax, [])
  | batch :: rest, prefixMax =>
      if batch.base ≤ base then
        advancePrefixMax base rest (if prefixMax < batch.maxTime then batch.maxTime else prefixMax)
      else (prefixMax, batch :: rest)

/-- The loop over the entries of a time index file; `left` are the batches behind
the loop's cursor. -/
def validateTimeEntries (batches : List BatchInfo) :
    Nat → Bytes → List TimeIndexEntry → Int64 → List BatchInfo →
      Except GoError (List TimeIndexEntry)
  | 0, _, entries, _, _ => return entries
  | count + 1, data, entries, prefixMax, left => do
      let entry ← decodeTimeIndexEntry (slice data 0 timeIndexEntryBytes.toNat)
      let _ ← sourceBatch batches entry.base entry.position entry.bytes entry.records
        "time index entry does not match source batch"
      let (prefixMax, left) := advancePrefixMax entry.base left prefixMax
      failIf (entry.prefixMax ≠ prefixMax ∨ ∃ previous ∈ entries.getLast?,
          entry.prefixMax < previous.prefixMax ∨ entry.base ≤ previous.base ∨
            entry.position ≤ previous.position)
        (.new "time index prefix does not match source batches")
      validateTimeEntries batches count (data.drop timeIndexEntryBytes.toNat)
        (entries ++ [entry]) prefixMax left

def validateTimeIndex (data : Bytes) (segment : Segment) (storeID : StoreID) :
    Except GoError (List TimeIndexEntry) := do
  let header ← decodeIndexHeader data
  validateIndexHeader header segment storeID true
  let body := data.drop indexHeaderBytes.toNat
  failIf (body.length % timeIndexEntryBytes.toNat ≠ 0)
    (.new "time index has trailing bytes")
  validateTimeEntries segment.batches (body.length / timeIndexEntryBytes.toNat) body []
    Int64.minValue segment.batches

/-! ## Publication and loading -/

def writeIndexFile (name : Name) (header : IndexHeader) (entries : List Bytes) : DirM Unit := do
  let dir ← .get
  .replaceFile (.indexTmp (freshTmp dir)) name (encodeIndexHeader header :: entries)
    (ioError "write index")

/-- The segment with the given indexes in memory. -/
def Segment.withIndexes (segment : Segment) (offsetIndex : List OffsetIndexEntry)
    (timeIndex : List TimeIndexEntry) (indexDirty : Bool) : Segment :=
  { segment with offsetIndex, timeIndex, indexDirty }

def installSegmentIndexes (segment : Segment) (storeID : StoreID) (stride : UInt64) :
    DirM Segment := do
  let (offsetEntries, timeEntries) := sampleBatchIndexes segment.batches stride
  writeIndexFile (.index segment.header.baseOffset)
    (newIndexHeader 1 offsetIndexEntryBytes storeID segment stride)
    (offsetEntries.map encodeOffsetIndexEntry)
  writeIndexFile (.timeIndex segment.header.baseOffset)
    (newIndexHeader 2 timeIndexEntryBytes storeID segment stride)
    (timeEntries.map encodeTimeIndexEntry)
  return segment.withIndexes offsetEntries timeEntries false

def loadOrBuildIndexes (dir : Dir Name) (segment : Segment) (storeID : StoreID) (stride : UInt64) :
    Segment :=
  let offsets := do
    let data ← readIndexFile dir (.index segment.header.baseOffset)
    validateOffsetIndex data segment storeID
  let times := do
    let data ← readIndexFile dir (.timeIndex segment.header.baseOffset)
    validateTimeIndex data segment storeID
  let sampled := sampleBatchIndexes segment.batches stride
  match offsets, times with
  | .ok offsetIndex, .ok timeIndex => { segment with offsetIndex, timeIndex }
  | .ok offsetIndex, .error _ => segment.withIndexes offsetIndex sampled.2 true
  | .error _, .ok timeIndex => segment.withIndexes sampled.1 timeIndex true
  | .error _, .error _ => segment.withIndexes sampled.1 sampled.2 true

def refreshSegmentIndexes (segment : Segment) (stride : UInt64) : Segment :=
  let (offsetEntries, timeEntries) := sampleBatchIndexes segment.batches stride
  segment.withIndexes offsetEntries timeEntries true

/-! ## Hints -/

/-- Every hint names a batch of the map. -/
def HintsOf (batches : List BatchInfo) (hints : List OffsetIndexEntry) : Prop :=
  ∀ hint ∈ hints, ∃ batch ∈ batches, hint.base = batch.base ∧ hint.position = batch.position

/-- Hints into some batches are hints into more of them. -/
theorem HintsOf.mono {batches batches' : List BatchInfo} {hints : List OffsetIndexEntry}
    (valid : HintsOf batches hints) (subset : batches ⊆ batches') : HintsOf batches' hints := by
  intro hint mem
  obtain ⟨batch, found, same⟩ := valid hint mem
  exact ⟨batch, subset found, same⟩

/-- A hint for a batch may follow. -/
theorem HintsOf.append {batches : List BatchInfo} {hints : List OffsetIndexEntry}
    {hint : OffsetIndexEntry} (valid : HintsOf batches hints) {batch : BatchInfo}
    (found : batch ∈ batches) (base : hint.base = batch.base)
    (position : hint.position = batch.position) : HintsOf batches (hints ++ [hint]) := by
  intro x mem
  rcases List.mem_append.1 mem with old | new
  · exact valid x old
  · obtain rfl := List.mem_singleton.1 new
    exact ⟨batch, found, base, position⟩

/-- One step of the sampling adds a hint for its batch at most. -/
theorem Sampling.step_hints {batches : List BatchInfo} {stride : UInt64} {s : Sampling}
    {batch : BatchInfo} (found : batch ∈ batches) (valid : HintsOf batches s.offsetEntries) :
    HintsOf batches (s.step stride batch).offsetEntries := by
  by_cases sample : s.first = true ∨ stride.toNat ≤ batch.position - s.lastPosition
  · by_cases room : s.offsetEntries.length < maxOffsetEntries
    · simp only [Sampling.step, if_pos sample, if_pos room]
      exact valid.append found rfl rfl
    · simp only [Sampling.step, if_pos sample, if_neg room]
      exact valid
  · simp only [Sampling.step, if_neg sample]
    exact valid

/-- What is sampled are hints into the batches. -/
theorem sampleBatchIndexes_hints (batches : List BatchInfo) (stride : UInt64) :
    HintsOf batches (sampleBatchIndexes batches stride).1 := by
  have general : ∀ (stride : UInt64) (rest : List BatchInfo) (s : Sampling), rest ⊆ batches →
      HintsOf batches s.offsetEntries →
      HintsOf batches (rest.foldl (Sampling.step stride) s).offsetEntries := by
    intro stride rest
    induction rest with
    | nil => exact fun _ _ valid => valid
    | cons batch rest ih =>
        intro s subset valid
        exact ih _ (fun x mem => subset (List.mem_cons_of_mem _ mem))
          (Sampling.step_hints (subset List.mem_cons_self) valid)
  exact general _ batches _ (List.Subset.refl _) (by simp [HintsOf])

/-- The batch found for a base starts there. -/
theorem batchOf_mem {batches : List BatchInfo} {base : UInt64} {batch : BatchInfo}
    (found : batchOf batches base = some batch) : batch ∈ batches ∧ batch.base = base := by
  refine ⟨List.mem_reverse.1 (List.mem_of_find?_eq_some found), ?_⟩
  simpa using List.find?_some found

/-- An entry of an index stands for a batch that it was made of. -/
theorem sourceBatch_mem {batches : List BatchInfo} {base : UInt64} {position : Nat}
    {bytes records : UInt32} {detail : String} {batch : BatchInfo}
    (found : sourceBatch batches base position bytes records detail = .ok batch) :
    batch ∈ batches ∧ base = batch.base ∧ position = batch.position := by
  unfold sourceBatch at found
  split at found
  · simp at found
  · rename_i source at_base
    obtain ⟨mem, base_eq⟩ := batchOf_mem at_base
    simp only [bind_eq_ok, failIf_eq_ok, exists_const, not_or, not_not, pure_eq_ok,
      Except.ok.injEq] at found
    obtain ⟨⟨position_eq, _⟩, rfl⟩ := found
    exact ⟨mem, base_eq.symm, position_eq⟩

/-- The loop over the entries of a file accepts hints only. -/
theorem validateOffsetEntries_hints {batches : List BatchInfo} {count : Nat} {data : Bytes}
    {entries result : List OffsetIndexEntry} (valid : HintsOf batches entries)
    (accepted : validateOffsetEntries batches count data entries = .ok result) :
    HintsOf batches result := by
  induction count generalizing data entries with
  | zero =>
      obtain rfl := Except.ok.inj accepted
      exact valid
  | succ count ih =>
      simp only [validateOffsetEntries, bind_eq_ok, failIf_eq_ok, exists_const] at accepted
      obtain ⟨entry, _, batch, source, _, later⟩ := accepted
      obtain ⟨found, base, position⟩ := sourceBatch_mem source
      exact ih (valid.append found base position) later

/-- An accepted index file has hints into the batches of its segment. -/
theorem validateOffsetIndex_hints {data : Bytes} {segment : Segment} {storeID : StoreID}
    {entries : List OffsetIndexEntry}
    (accepted : validateOffsetIndex data segment storeID = .ok entries) :
    HintsOf segment.batches entries := by
  simp only [validateOffsetIndex, bind_eq_ok, failIf_eq_ok, exists_const] at accepted
  obtain ⟨_, _, _, _, _, later⟩ := accepted
  exact validateOffsetEntries_hints (by simp [HintsOf]) later

/-- Indexes are the only thing that loading changes, and the hints are valid. -/
theorem loadOrBuildIndexes_spec (dir : Dir Name) (segment : Segment) (storeID : StoreID)
    (stride : UInt64) :
    ∃ offsetIndex timeIndex indexDirty,
      loadOrBuildIndexes dir segment storeID stride =
        segment.withIndexes offsetIndex timeIndex indexDirty ∧
      HintsOf segment.batches offsetIndex := by
  have sampled := sampleBatchIndexes_hints segment.batches stride
  unfold loadOrBuildIndexes
  dsimp only
  split
  · rename_i offsetIndex timeIndex loaded _
    obtain ⟨data, _, accepted⟩ := bind_eq_ok.1 loaded
    exact ⟨_, _, _, rfl, validateOffsetIndex_hints accepted⟩
  · rename_i offsetIndex _ loaded _
    obtain ⟨data, _, accepted⟩ := bind_eq_ok.1 loaded
    exact ⟨_, _, _, rfl, validateOffsetIndex_hints accepted⟩
  · exact ⟨_, _, _, rfl, sampled⟩
  · exact ⟨_, _, _, rfl, sampled⟩

/-! ## Publication leaves every other file alone -/

/-- A name that no index file and no temporary index file has. -/
def Name.NotIndex : Name → Prop
  | .index _ | .timeIndex _ | .indexTmp _ => False
  | _ => True

/-- Writing an index file touches that file and its temporary. -/
theorem only_writeIndexFile {name other : Name} {header : IndexHeader} {entries : List Bytes}
    (index : ¬ name.NotIndex) (notIndex : other.NotIndex) :
    (writeIndexFile name header entries).Only fun o => other ∉ o.touches := by
  have differ : other ≠ name := by
    rintro rfl
    exact index notIndex
  refine Prog.only_get.bind fun dir => ?_
  have tmp : other ≠ .indexTmp (freshTmp dir) := by
    rintro rfl
    exact notIndex
  refine Prog.only_replaceFile ?_ ?_ ?_ ?_ ?_ ?_ <;> simp [DirOp.touches, differ, tmp]

theorem only_installSegmentIndexes {segment : Segment} {storeID : StoreID} {stride : UInt64}
    {other : Name} (notIndex : other.NotIndex) :
    (installSegmentIndexes segment storeID stride).Only fun o => other ∉ o.touches := by
  refine (only_writeIndexFile ?_ notIndex).bind fun _ =>
    (only_writeIndexFile ?_ notIndex).bind fun _ => Prog.only_pure
  · exact id
  · exact id

end Immulog
