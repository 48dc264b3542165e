import Immulog.Headers
import Immulog.Representation

/-!
The index files a segment publishes are read back (`src/storage/index.go`).

Sampling picks some of the batches, in order; `running` pairs every batch with the
largest time up to it, so that the entries of the time index are picks of that list.
The validation loops follow the batch map with a cursor of their own: each accepts any
list of picks of a batch map whose offsets and positions grow, and what is appended
to the segment later only adds to the list the picks are from.
-/

namespace Immulog

open Lib

/-! ## Sampling -/

def BatchInfo.offsetEntry (batch : BatchInfo) : OffsetIndexEntry :=
  ⟨batch.base, batch.position, batch.bytes, batch.records⟩

def BatchInfo.timeEntry (batch : BatchInfo) (prefixMax : Int64) : TimeIndexEntry :=
  ⟨prefixMax, batch.base, batch.position, batch.bytes, batch.records⟩

/-- The larger of the time so far and that of the batch. -/
def BatchInfo.raise (batch : BatchInfo) (time : Int64) : Int64 :=
  if time < batch.maxTime then batch.maxTime else time

/-- Every batch with the largest time up to it. -/
def running : Int64 → List BatchInfo → List (Int64 × BatchInfo)
  | _, [] => []
  | time, batch :: rest => (batch.raise time, batch) :: running (batch.raise time) rest

/-- The largest time of the batches, from `time` on. -/
def runningMax (time : Int64) (batches : List BatchInfo) : Int64 :=
  batches.foldl (fun time batch => batch.raise time) time

/-- The running maximum goes on where the first part has ended. -/
theorem running_append (time : Int64) (first second : List BatchInfo) :
    running time (first ++ second) =
      running time first ++ running (runningMax time first) second := by
  induction first generalizing time with
  | nil => rfl
  | cons batch first ih => simp [running, runningMax, ih]

theorem running_map_snd (time : Int64) (batches : List BatchInfo) :
    (running time batches).map Prod.snd = batches := by
  induction batches generalizing time with
  | nil => rfl
  | cons batch rest ih => simp [running, ih]

/-- The sampling loop behind the batches `done`. -/
structure Sampling.Picked (s : Sampling) (done : List BatchInfo) : Prop where
  prefixMax : s.prefixMax = runningMax Int64.minValue done
  first : s.first = done.isEmpty
  offsets : ∃ picks : List BatchInfo, picks.Sublist done ∧ picks.head? = done.head? ∧
    s.offsetEntries = picks.map BatchInfo.offsetEntry
  times : ∃ picks : List (Int64 × BatchInfo), picks.Sublist (running Int64.minValue done) ∧
    s.timeEntries = picks.map fun pick => pick.2.timeEntry pick.1
  fewOffsets : s.offsetEntries.length ≤ maxOffsetEntries
  fewTimes : s.timeEntries.length ≤ maxTimeEntries

theorem runningMax_concat (time : Int64) (batches : List BatchInfo) (batch : BatchInfo) :
    runningMax time (batches ++ [batch]) = batch.raise (runningMax time batches) := by
  simp [runningMax]

theorem running_concat (time : Int64) (batches : List BatchInfo) (batch : BatchInfo) :
    running time (batches ++ [batch]) =
      running time batches ++ [(batch.raise (runningMax time batches), batch)] :=
  running_append time batches [batch]

theorem maxOffsetEntries_pos : 0 < maxOffsetEntries := by
  decide

namespace Sampling.Picked

variable {s : Sampling} {done : List BatchInfo}

/-- A pick for the offset index, as far as there is room. -/
theorem offsets_concat (picked : s.Picked done) (batch : BatchInfo) :
    (∃ picks : List BatchInfo, picks.Sublist (done ++ [batch]) ∧
      picks.head? = (done ++ [batch]).head? ∧
      (if s.offsetEntries.length < maxOffsetEntries then s.offsetEntries ++ [batch.offsetEntry]
        else s.offsetEntries) = picks.map BatchInfo.offsetEntry) ∧
    (if s.offsetEntries.length < maxOffsetEntries then s.offsetEntries ++ [batch.offsetEntry]
        else s.offsetEntries).length ≤ maxOffsetEntries := by
  obtain ⟨picks, sub, head, entries⟩ := picked.offsets
  have few := picked.fewOffsets
  split
  · rename_i room
    refine ⟨⟨picks ++ [batch], sub.append (.refl _), ?_, by simp [entries]⟩, ?_⟩
    · rw [List.head?_append, List.head?_append, head]
    · rw [List.length_append, List.length_singleton]
      omega
  · rename_i full
    refine ⟨⟨picks, sub.trans (List.sublist_append_left ..), ?_, entries⟩, few⟩
    have filled : picks ≠ [] := by
      intro none
      rw [entries, none] at full
      exact full maxOffsetEntries_pos
    rw [List.head?_append, ← head]
    obtain ⟨first, rest, rfl⟩ := List.exists_cons_of_ne_nil filled
    rfl

/-- A pick for the time index, as far as there is room. -/
theorem times_concat (picked : s.Picked done) (batch : BatchInfo) :
    (∃ picks : List (Int64 × BatchInfo), picks.Sublist (running Int64.minValue (done ++ [batch])) ∧
      (if s.timeEntries.length < maxTimeEntries then
        s.timeEntries ++ [batch.timeEntry (batch.raise s.prefixMax)] else s.timeEntries) =
          picks.map fun pick => pick.2.timeEntry pick.1) ∧
    (if s.timeEntries.length < maxTimeEntries then
      s.timeEntries ++ [batch.timeEntry (batch.raise s.prefixMax)]
        else s.timeEntries).length ≤ maxTimeEntries := by
  obtain ⟨picks, sub, entries⟩ := picked.times
  have few := picked.fewTimes
  rw [running_concat, ← picked.prefixMax]
  split
  · rename_i room
    refine ⟨⟨picks ++ [(batch.raise s.prefixMax, batch)], sub.append (.refl _), ?_⟩, ?_⟩
    · simp [entries]
    · rw [List.length_append, List.length_singleton]
      omega
  · exact ⟨⟨picks, sub.trans (List.sublist_append_left ..), entries⟩, few⟩

/-- One batch at a time keeps the picks a selection of the batches. -/
theorem step (picked : s.Picked done) (stride : UInt64) (batch : BatchInfo) :
    (s.step stride batch).Picked (done ++ [batch]) := by
  have raised : batch.raise s.prefixMax = runningMax Int64.minValue (done ++ [batch]) := by
    rw [runningMax_concat, picked.prefixMax]
  have some : false = (done ++ [batch]).isEmpty := by simp
  by_cases sample : s.first = true ∨ stride.toNat ≤ batch.position - s.lastPosition
  · rw [Sampling.step, if_pos sample]
    obtain ⟨offsets, fewOffsets⟩ := picked.offsets_concat batch
    obtain ⟨times, fewTimes⟩ := picked.times_concat batch
    exact ⟨raised, some, offsets, times, fewOffsets, fewTimes⟩
  · rw [Sampling.step, if_neg sample]
    obtain ⟨picks, sub, head, entries⟩ := picked.offsets
    obtain ⟨picks', sub', entries'⟩ := picked.times
    refine ⟨raised, some, ⟨picks, sub.trans (List.sublist_append_left ..), ?_, entries⟩,
      ⟨picks', ?_, entries'⟩, picked.fewOffsets, picked.fewTimes⟩
    · -- The first batch is always sampled.
      have later : done ≠ [] := by
        intro none
        exact sample (.inl (by rw [picked.first, none]; rfl))
      obtain ⟨first, rest, rfl⟩ := List.exists_cons_of_ne_nil later
      exact head
    · rw [running_concat]
      exact sub'.trans (List.sublist_append_left ..)

theorem foldl (picked : s.Picked done) (stride : UInt64) (rest : List BatchInfo) :
    (rest.foldl (Sampling.step stride) s).Picked (done ++ rest) := by
  induction rest generalizing s done with
  | nil => simpa using picked
  | cons batch rest ih =>
      have next := ih (picked.step stride batch)
      rwa [List.append_assoc, List.singleton_append] at next

end Sampling.Picked

/-- What sampling puts into the two indexes. -/
structure Sampled (batches : List BatchInfo) (offsetEntries : List OffsetIndexEntry)
    (timeEntries : List TimeIndexEntry) : Prop where
  offsets : ∃ picks : List BatchInfo, picks.Sublist batches ∧ picks.head? = batches.head? ∧
    offsetEntries = picks.map BatchInfo.offsetEntry
  times : ∃ picks : List (Int64 × BatchInfo), picks.Sublist (running Int64.minValue batches) ∧
    timeEntries = picks.map fun pick => pick.2.timeEntry pick.1
  fewOffsets : offsetEntries.length ≤ maxOffsetEntries
  fewTimes : timeEntries.length ≤ maxTimeEntries

/-- Both indexes are samples of the batches, and begin with the first one. -/
theorem sampleBatchIndexes_sampled (batches : List BatchInfo) (stride : UInt64) :
    Sampled batches (sampleBatchIndexes batches stride).1
      (sampleBatchIndexes batches stride).2 := by
  have start : Sampling.Picked ⟨[], [], 0, Int64.minValue, true⟩ [] :=
    ⟨rfl, rfl, ⟨[], .refl _, rfl, rfl⟩, ⟨[], .refl _, rfl⟩, Nat.zero_le _, Nat.zero_le _⟩
  have picked := start.foldl (if stride = 0 then defaultIndexStride else stride) batches
  exact ⟨picked.offsets, picked.times, picked.fewOffsets, picked.fewTimes⟩

/-! ## Entries -/

namespace OffsetIndexEntry

def fields (entry : OffsetIndexEntry) : List Bytes :=
  [putUint64 entry.base, putUint64 (.ofNat entry.position), putUint32 entry.bytes,
    putUint32 entry.records, putUint32 0]

theorem encode_eq (entry : OffsetIndexEntry) :
    encodeOffsetIndexEntry entry = withCRC32C entry.fields.flatten ++ [] := by
  simp [encodeOffsetIndexEntry, fields]

@[simp] theorem length_encode (entry : OffsetIndexEntry) :
    (encodeOffsetIndexEntry entry).length = 32 := by
  simp [encodeOffsetIndexEntry, withCRC32C]

theorem fields_length (entry : OffsetIndexEntry) :
    entry.fields.map List.length = [8, 8, 4, 4, 4] := by
  simp [fields]

/-- An offset entry is read back; the file keeps positions in 64 bits. -/
theorem decode_encode (entry : OffsetIndexEntry) (position : entry.position < 2 ^ 64) :
    decodeOffsetIndexEntry (encodeOffsetIndexEntry entry) = .ok entry := by
  have size : ¬ (encodeOffsetIndexEntry entry).length ≠ offsetIndexEntryBytes.toNat := by
    simp [offsetIndexEntryBytes]
  rw [encode_eq] at size ⊢
  have body : slice (withCRC32C entry.fields.flatten ++ []) 0 28 = _ :=
    slice_body [] entry.fields_length rfl
  have base : slice (withCRC32C entry.fields.flatten ++ []) 0 8 = _ :=
    slice_checked (k := 0) [] entry.fields_length rfl rfl rfl
  have place : slice (withCRC32C entry.fields.flatten ++ []) 8 16 = _ :=
    slice_checked (k := 1) [] entry.fields_length rfl rfl rfl
  have bytes : slice (withCRC32C entry.fields.flatten ++ []) 16 20 = _ :=
    slice_checked (k := 2) [] entry.fields_length rfl rfl rfl
  have records : slice (withCRC32C entry.fields.flatten ++ []) 20 24 = _ :=
    slice_checked (k := 3) [] entry.fields_length rfl rfl rfl
  have gap : slice (withCRC32C entry.fields.flatten ++ []) 24 28 = _ :=
    slice_checked (k := 4) [] entry.fields_length rfl rfl rfl
  have checksum : slice (withCRC32C entry.fields.flatten ++ []) 28 32 = _ :=
    slice_checked (k := 5) [] entry.fields_length rfl rfl rfl
  simp only [decodeOffsetIndexEntry, failIf_of_not size, body, base, place, bytes, records, gap,
    checksum, uint32_putUint32, uint64_putUint64, toNat_ofNat64 position, ne_eq,
    not_true_eq_false, or_self, failIf_of_not not_false, ok_bind, pure_eq_ok]

end OffsetIndexEntry

namespace TimeIndexEntry

def fields (entry : TimeIndexEntry) : List Bytes :=
  [putUint64 entry.prefixMax.toUInt64, putUint64 entry.base, putUint64 (.ofNat entry.position),
    putUint32 entry.bytes, putUint32 entry.records, putUint32 0]

theorem encode_eq (entry : TimeIndexEntry) :
    encodeTimeIndexEntry entry = withCRC32C entry.fields.flatten ++ [] := by
  simp [encodeTimeIndexEntry, fields]

@[simp] theorem length_encode (entry : TimeIndexEntry) :
    (encodeTimeIndexEntry entry).length = 40 := by
  simp [encodeTimeIndexEntry, withCRC32C]

theorem fields_length (entry : TimeIndexEntry) :
    entry.fields.map List.length = [8, 8, 8, 4, 4, 4] := by
  simp [fields]

/-- A time entry is read back. -/
theorem decode_encode (entry : TimeIndexEntry) (position : entry.position < 2 ^ 64) :
    decodeTimeIndexEntry (encodeTimeIndexEntry entry) = .ok entry := by
  have size : ¬ (encodeTimeIndexEntry entry).length ≠ timeIndexEntryBytes.toNat := by
    simp [timeIndexEntryBytes]
  rw [encode_eq] at size ⊢
  have body : slice (withCRC32C entry.fields.flatten ++ []) 0 36 = _ :=
    slice_body [] entry.fields_length rfl
  have time : slice (withCRC32C entry.fields.flatten ++ []) 0 8 = _ :=
    slice_checked (k := 0) [] entry.fields_length rfl rfl rfl
  have base : slice (withCRC32C entry.fields.flatten ++ []) 8 16 = _ :=
    slice_checked (k := 1) [] entry.fields_length rfl rfl rfl
  have place : slice (withCRC32C entry.fields.flatten ++ []) 16 24 = _ :=
    slice_checked (k := 2) [] entry.fields_length rfl rfl rfl
  have bytes : slice (withCRC32C entry.fields.flatten ++ []) 24 28 = _ :=
    slice_checked (k := 3) [] entry.fields_length rfl rfl rfl
  have records : slice (withCRC32C entry.fields.flatten ++ []) 28 32 = _ :=
    slice_checked (k := 4) [] entry.fields_length rfl rfl rfl
  have gap : slice (withCRC32C entry.fields.flatten ++ []) 32 36 = _ :=
    slice_checked (k := 5) [] entry.fields_length rfl rfl rfl
  have checksum : slice (withCRC32C entry.fields.flatten ++ []) 36 40 = _ :=
    slice_checked (k := 6) [] entry.fields_length rfl rfl rfl
  simp only [decodeTimeIndexEntry, failIf_of_not size, body, time, base, place, bytes, records,
    gap, checksum, uint32_putUint32, uint64_putUint64, toNat_ofNat64 position,
    Int64.toInt64_toUInt64, ne_eq, not_true_eq_false, or_self, failIf_of_not not_false, ok_bind,
    pure_eq_ok]

end TimeIndexEntry

/-! ## Batch maps whose offsets and positions grow -/

/-- The batches of a segment: their offsets and positions grow, and both are in range. -/
structure Placed (batches : List BatchInfo) : Prop where
  sorted : batches.Pairwise fun b c => b.base < c.base ∧ b.position < c.position
  range : ∀ b ∈ batches, validOffsetRange b.base b.records
  position : ∀ b ∈ batches, b.position < 2 ^ 64

namespace Placed

variable {batches : List BatchInfo}

/-- Batches at distinct bases are found by their base. -/
theorem batchOf (placed : Placed batches) {batch : BatchInfo} (mem : batch ∈ batches) :
    batchOf batches batch.base = some batch := by
  obtain ⟨front, back, rfl⟩ := List.append_of_mem mem
  rw [Immulog.batchOf, List.reverse_append, List.reverse_cons, List.find?_append,
    List.find?_append]
  have later : back.reverse.find? (fun b => decide (b.base = batch.base)) = none := by
    rw [List.find?_eq_none]
    intro other found
    have above := (List.pairwise_cons.1 (List.pairwise_append.1 placed.sorted).2.1).1 other
      (List.mem_reverse.1 found)
    simpa using (UInt64.ne_of_lt above.1).symm
  simp [later]

/-- Every entry for a batch of the map passes the comparison with its source. -/
theorem sourceBatch (placed : Placed batches) {batch : BatchInfo} (mem : batch ∈ batches)
    (detail : String) :
    sourceBatch batches batch.base batch.position batch.bytes batch.records detail =
      .ok batch := by
  have matched : ¬ (batch.position ≠ batch.position ∨ batch.bytes ≠ batch.bytes ∨
      batch.records ≠ batch.records ∨ ¬ validOffsetRange batch.base batch.records) := by
    simpa using placed.range batch mem
  rw [Immulog.sourceBatch, placed.batchOf mem]
  simp only [failIf_of_not matched, ok_bind, pure_eq_ok]

end Placed

section Tiles

variable {topic : TopicID} {partition : UInt32} {stop size base position : Nat}
  {infos : List BatchInfo} {stored : List (StoredBatch topic partition)}

/-- Stored batches have valid ranges. -/
theorem BatchInfo.Describes.range {info : BatchInfo} {b : StoredBatch topic partition}
    (describes : info.Describes b base position) : validOffsetRange info.base info.records := by
  have count : info.records = .ofNat b.batch.records.length := by
    rw [← describes.records, UInt32.ofNat_toNat]
  rw [count, ← describes.batch]
  exact b.decoded.valid.range

/-- Every batch lies behind the start of the map and in front of its end. -/
theorem Tiles.within (tiles : Tiles stop size base position infos stored) {info : BatchInfo}
    (mem : info ∈ infos) :
    base ≤ info.base.toNat ∧ position ≤ info.position ∧ info.position < size ∧
      validOffsetRange info.base info.records := by
  induction infos generalizing base position stored with
  | nil => cases mem
  | cons first infos ih =>
      cases stored with
      | nil => exact tiles.elim
      | cons b stored =>
          obtain ⟨describes, later⟩ := tiles
          have bytes := b.decoded.valid.total_bounds.1
          have total := b.decoded.total
          have sums := later.sums.2
          have same := describes.base
          have place := describes.position
          rcases List.mem_cons.1 mem with rfl | inside
          · exact ⟨by omega, by omega, by omega, describes.range⟩
          · obtain ⟨after, behind, before, range⟩ := ih later inside
            exact ⟨by omega, by omega, before, range⟩

/-- Bases and positions go up along a segment. -/
theorem Tiles.sorted (tiles : Tiles stop size base position infos stored) :
    infos.Pairwise fun b c => b.base < c.base ∧ b.position < c.position := by
  induction infos generalizing base position stored with
  | nil => exact .nil
  | cons first infos ih =>
      cases stored with
      | nil => exact tiles.elim
      | cons b stored =>
          obtain ⟨describes, later⟩ := tiles
          refine .cons (fun info mem => ?_) (ih later)
          obtain ⟨after, behind, _⟩ := later.within mem
          have bytes := b.decoded.valid.total_bounds.1
          have total := b.decoded.total
          have records := b.decoded.valid.nonempty
          have same := describes.base
          have place := describes.position
          rw [UInt64.lt_iff_toNat_lt]
          omega

theorem Tiles.placed (tiles : Tiles stop size base position infos stored)
    (bounded : size < 2 ^ 63) : Placed infos where
  sorted := tiles.sorted
  range := fun _ mem => (tiles.within mem).2.2.2
  position := fun info mem => by
    have inside := (tiles.within mem).2.2.1
    omega

/-- A batch has one description at its place. -/
theorem BatchInfo.Describes.unique {info info' : BatchInfo} {b : StoredBatch topic partition}
    (describes : info.Describes b base position) (describes' : info'.Describes b base position) :
    info = info' := by
  have bytes := UInt32.toNat_inj.1 (describes.bytes.trans describes'.bytes.symm)
  have records := UInt32.toNat_inj.1 (describes.records.trans describes'.records.symm)
  calc info = ⟨info.base, info.position, info.bytes, info.records, info.maxTime⟩ := rfl
    _ = ⟨info'.base, info'.position, info'.bytes, info'.records, info'.maxTime⟩ := by
      rw [← describes.batch, describes.position, bytes, records, describes.maxTime,
        describes'.batch, ← describes'.position, ← describes'.maxTime]
    _ = info' := rfl

/-- The batches in front decide the entries for them. -/
theorem Tiles.front {stop' size' : Nat} {infos' : List BatchInfo}
    {more : List (StoredBatch topic partition)}
    (tiles : Tiles stop size base position infos stored)
    (grown : Tiles stop' size' base position infos' (stored ++ more)) : infos <+: infos' := by
  induction infos generalizing base position stored infos' with
  | nil => exact List.nil_prefix
  | cons first infos ih =>
      cases stored with
      | nil => exact tiles.elim
      | cons b stored =>
          cases infos' with
          | nil => exact grown.elim
          | cons first' infos' =>
              obtain ⟨describes, later⟩ := tiles
              obtain ⟨describes', later'⟩ := grown
              rw [describes.unique describes', List.cons_prefix_cons]
              exact ⟨rfl, ih later later'⟩

end Tiles

/-! ## The validation loops -/

theorem slice_entry {entry : Bytes} (rest : Bytes) {n : Nat} (size : entry.length = n) :
    slice (entry ++ rest) 0 n = entry ∧ (entry ++ rest).drop n = rest :=
  ⟨slice_zero_append size.symm, List.drop_left' size⟩

/-- Picks behind the ones already read. -/
theorem validateOffsetEntries_picks {batches picks : List BatchInfo} (placed : Placed batches)
    (done : List BatchInfo) (sub : (done ++ picks).Sublist batches) :
    validateOffsetEntries batches picks.length
        (picks.map fun b => encodeOffsetIndexEntry b.offsetEntry).flatten
        (done.map BatchInfo.offsetEntry) =
      .ok ((done ++ picks).map BatchInfo.offsetEntry) := by
  induction picks generalizing done with
  | nil => simp [validateOffsetEntries]
  | cons pick picks ih =>
      have mem : pick ∈ batches := sub.subset (by simp)
      have read := OffsetIndexEntry.decode_encode pick.offsetEntry
        (placed.position pick mem)
      obtain ⟨here, behind⟩ := slice_entry
        (picks.map fun b => encodeOffsetIndexEntry b.offsetEntry).flatten
        pick.offsetEntry.length_encode
      have ordered : ¬ ∃ previous ∈ (done.map BatchInfo.offsetEntry).getLast?,
          pick.offsetEntry.base ≤ previous.base ∨
            pick.offsetEntry.position ≤ previous.position := by
        rintro ⟨previous, last, wrong⟩
        obtain ⟨b, earlier, rfl⟩ := List.mem_map.1 (List.mem_of_getLast? last)
        have above := (List.pairwise_append.1 (placed.sorted.sublist sub)).2.2 b earlier pick
          List.mem_cons_self
        rcases wrong with wrong | wrong
        · exact UInt64.not_lt.2 wrong above.1
        · exact Nat.not_lt.2 wrong above.2
      have later := ih (done ++ [pick]) (by simpa using sub)
      rw [List.map_cons, List.flatten_cons, List.length_cons, validateOffsetEntries]
      change (decodeOffsetIndexEntry (slice _ 0 32) >>= fun entry => _) = _
      rw [here, read, ok_bind]
      change (sourceBatch batches pick.base pick.position pick.bytes pick.records _ >>= fun _ =>
        _) = _
      rw [placed.sourceBatch mem, ok_bind, failIf_of_not ordered, ok_bind]
      change validateOffsetEntries batches picks.length (List.drop 32 _) _ = _
      rw [behind]
      simpa using later

/-- The running maximum never goes down. -/
theorem BatchInfo.le_raise (batch : BatchInfo) (time : Int64) : time ≤ batch.raise time := by
  unfold raise
  split
  · rename_i above
    exact Int64.le_of_lt above
  · exact Int64.le_refl _

/-- The batches behind the cursor come after the last entry read. -/
def Behind (entries : List TimeIndexEntry) (time : Int64) (left : List BatchInfo) : Prop :=
  ∀ previous ∈ entries.getLast?, previous.prefixMax ≤ time ∧
    ∀ b ∈ left, previous.base < b.base ∧ previous.position < b.position

/-- Nothing to advance over. -/
theorem advancePrefixMax_above {base : UInt64} {left : List BatchInfo} {time : Int64}
    (above : ∀ b ∈ left, base < b.base) : advancePrefixMax base left time = (time, left) := by
  cases left with
  | nil => rfl
  | cons b rest =>
      rw [advancePrefixMax, if_neg (UInt64.not_le.2 (above b List.mem_cons_self))]

theorem advancePrefixMax_cons {base : UInt64} {b : BatchInfo} {rest : List BatchInfo}
    {time : Int64} (below : b.base ≤ base) :
    advancePrefixMax base (b :: rest) time = advancePrefixMax base rest (b.raise time) := by
  rw [advancePrefixMax, if_pos below]
  rfl

theorem mem_of_mem_running {time : Int64} {batches : List BatchInfo} {pick : Int64 × BatchInfo}
    (mem : pick ∈ running time batches) : pick.2 ∈ batches := by
  have found := List.mem_map_of_mem (f := Prod.snd) mem
  rwa [running_map_snd] at found

/-- One turn of the loop over a time index. -/
theorem validateTimeEntries_cons {batches left : List BatchInfo} (placed : Placed batches)
    (pick : Int64 × BatchInfo) (mem : pick.2 ∈ batches) {count : Nat} {rest : Bytes}
    {entries : List TimeIndexEntry} {time : Int64} :
    validateTimeEntries batches (count + 1)
        (encodeTimeIndexEntry (pick.2.timeEntry pick.1) ++ rest) entries time left =
      (do
        let cursor := advancePrefixMax pick.2.base left time
        failIf (pick.1 ≠ cursor.1 ∨ ∃ previous ∈ entries.getLast?,
            pick.1 < previous.prefixMax ∨ pick.2.base ≤ previous.base ∨
              pick.2.position ≤ previous.position)
          (.new "time index prefix does not match source batches")
        validateTimeEntries batches count rest (entries ++ [pick.2.timeEntry pick.1]) cursor.1
          cursor.2) := by
  have read := TimeIndexEntry.decode_encode (pick.2.timeEntry pick.1)
    (placed.position pick.2 mem)
  obtain ⟨here, behind⟩ := slice_entry rest (pick.2.timeEntry pick.1).length_encode
  rw [validateTimeEntries]
  change (decodeTimeIndexEntry (slice _ 0 40) >>= fun entry => _) = _
  rw [here, read, ok_bind]
  change (sourceBatch batches pick.2.base pick.2.position pick.2.bytes pick.2.records _ >>=
    fun _ => _) = _
  rw [placed.sourceBatch mem, ok_bind]
  change (failIf _ _ >>= fun _ => validateTimeEntries batches count (List.drop 40 _) _ _ _) = _
  rw [behind]
  rfl

/-- Picks of the batches behind the cursor, in order of the batches. -/
theorem validateTimeEntries_picks {batches left : List BatchInfo} (placed : Placed batches)
    (inside : left ⊆ batches)
    (sorted : left.Pairwise fun b c => b.base < c.base ∧ b.position < c.position)
    {picks : List (Int64 × BatchInfo)} {entries : List TimeIndexEntry} {time : Int64}
    (sub : picks.Sublist (running time left)) (behind : Behind entries time left) :
    validateTimeEntries batches picks.length
        (picks.map fun pick => encodeTimeIndexEntry (pick.2.timeEntry pick.1)).flatten
        entries time left =
      .ok (entries ++ picks.map fun pick => pick.2.timeEntry pick.1) := by
  induction left generalizing picks entries time with
  | nil =>
      obtain rfl := List.sublist_nil.1 sub
      simp [validateTimeEntries]
  | cons b rest ih =>
      obtain ⟨above, sortedRest⟩ := List.pairwise_cons.1 sorted
      have insideRest : rest ⊆ batches := fun c mem => inside (List.mem_cons_of_mem _ mem)
      cases sub with
      | cons _ sub =>
          -- The batch is skipped; the loop passes it when it looks for the next pick.
          have skipped : Behind entries (b.raise time) rest := by
            intro previous last
            obtain ⟨below, after⟩ := behind previous last
            exact ⟨Int64.le_trans below (b.le_raise time),
              fun c mem => after c (List.mem_cons_of_mem _ mem)⟩
          have later := ih insideRest sortedRest sub skipped
          cases picks with
          | nil => simp [validateTimeEntries]
          | cons pick picks =>
              have found := mem_of_mem_running (sub.subset List.mem_cons_self)
              have below := UInt64.le_of_lt (above pick.2 found).1
              rw [List.map_cons, List.flatten_cons, List.length_cons,
                validateTimeEntries_cons placed _ (insideRest found)] at later ⊢
              rw [advancePrefixMax_cons below]
              exact later
      | cons_cons _ sub =>
          rename_i picks
          have mem : b ∈ batches := inside List.mem_cons_self
          have next : Behind (entries ++ [b.timeEntry (b.raise time)]) (b.raise time) rest := by
            intro previous last
            rw [List.getLast?_concat] at last
            obtain rfl := Option.mem_some_iff.1 last
            exact ⟨Int64.le_refl _, above⟩
          have passes : ¬ (b.raise time ≠ b.raise time ∨ ∃ previous ∈ entries.getLast?,
              b.raise time < previous.prefixMax ∨ b.base ≤ previous.base ∨
                b.position ≤ previous.position) := by
            rintro (wrong | ⟨previous, last, wrong⟩)
            · exact wrong rfl
            · obtain ⟨below, after⟩ := behind previous last
              have first := after b List.mem_cons_self
              rcases wrong with wrong | wrong | wrong
              · exact Int64.not_lt.2 (Int64.le_trans below (b.le_raise time)) wrong
              · exact UInt64.not_lt.2 wrong first.1
              · exact Nat.not_lt.2 wrong first.2
          have later := ih insideRest sortedRest sub next
          rw [List.map_cons, List.flatten_cons, List.length_cons,
            validateTimeEntries_cons placed (b.raise time, b) mem]
          rw [advancePrefixMax_cons (UInt64.le_refl _),
            advancePrefixMax_above fun c mem => (above c mem).1]
          dsimp only
          rw [failIf_of_not passes, ok_bind, later]
          simp

/-! ## The files -/

theorem indexStride_ne_zero (stride : UInt64) : indexStride stride ≠ 0 := by
  have positive : (if stride = 0 then defaultIndexStride else stride) ≠ 0 := by
    split
    · decide
    · assumption
  simp only [indexStride]
  generalize (if stride = 0 then defaultIndexStride else stride) = stride at positive
  split
  · decide
  · rename_i small
    rw [UInt64.not_lt, UInt64.le_iff_toNat_le] at small
    intro zero
    have value := congrArg UInt32.toNat zero
    rw [UInt64.toNat_toUInt32, Nat.mod_eq_of_lt (Nat.lt_of_le_of_lt small (by decide))] at value
    exact positive (UInt64.toNat_inj.1 value)

/-- The header that is written for a segment is valid. -/
theorem newIndexHeader_valid (time : Bool) (storeID : StoreID) (s : Segment) (stride : UInt64) :
    (newIndexHeader (if time then 2 else 1)
      (if time then timeIndexEntryBytes else offsetIndexEntryBytes) storeID s stride).Valid where
  kind := by cases time <;> simp [newIndexHeader]
  stride := indexStride_ne_zero stride

/-- The header of a segment is accepted for every segment of the same header. -/
theorem validateIndexHeader_new {s s' : Segment} (header : s'.header = s.header)
    (hash : s'.headerHash = s.headerHash) (time : Bool) (storeID : StoreID) (stride : UInt64) :
    validateIndexHeader (newIndexHeader (if time then 2 else 1)
      (if time then timeIndexEntryBytes else offsetIndexEntryBytes) storeID s stride) s' storeID
      time = .ok () := by
  simp [validateIndexHeader, newIndexHeader, header, hash, failIf]

theorem length_flatten_entries {α : Type} {encode : α → Bytes} {n : Nat}
    (size : ∀ x, (encode x).length = n) (entries : List α) :
    (entries.map encode).flatten.length = entries.length * n := by
  rw [List.length_flatten, List.map_map]
  have same : List.length ∘ encode = fun _ => n := funext size
  simp [same]

/-- A written index is read up to its entries. -/
theorem body_written (h : IndexHeader) {α : Type} {encode : α → Bytes} {n : Nat} (positive : 0 < n)
    (size : ∀ x, (encode x).length = n) (entries : List α) :
    (encodeIndexHeader h ++ (entries.map encode).flatten).drop 128 =
        (entries.map encode).flatten ∧
      (entries.map encode).flatten.length % n = 0 ∧
      (entries.map encode).flatten.length / n = entries.length := by
  rw [length_flatten_entries size]
  exact ⟨List.drop_left' h.length_encode, Nat.mul_mod_left .., Nat.mul_div_cancel _ positive⟩

section Written

variable {s s' : Segment} (header : s'.header = s.header) (hash : s'.headerHash = s.headerHash)
  (placed : Placed s'.batches) (storeID : StoreID) (stride : UInt64)

include header hash placed

/-- A written offset index is accepted for every segment with the batches that it was sampled
from. -/
theorem validateOffsetIndex_written {picks : List BatchInfo} (sub : picks.Sublist s'.batches) :
    validateOffsetIndex (encodeIndexHeader (newIndexHeader 1 offsetIndexEntryBytes storeID s stride)
        ++ (picks.map fun b => encodeOffsetIndexEntry b.offsetEntry).flatten) s' storeID =
      .ok (picks.map BatchInfo.offsetEntry) := by
  have read := IndexHeader.decode_encode (newIndexHeader_valid false storeID s stride)
    (picks.map fun b => encodeOffsetIndexEntry b.offsetEntry).flatten
  have checked := validateIndexHeader_new header hash false storeID stride
  obtain ⟨body, whole, count⟩ := body_written
    (newIndexHeader 1 offsetIndexEntryBytes storeID s stride) (n := 32) (by decide)
    (fun b : BatchInfo => b.offsetEntry.length_encode) picks
  have loop := validateOffsetEntries_picks placed [] sub
  simp only [Bool.false_eq_true, if_false] at read checked
  rw [validateOffsetIndex, read, ok_bind, checked, ok_bind]
  change (failIf ((List.drop 128 _).length % 32 ≠ 0) _ >>= fun _ =>
    validateOffsetEntries _ ((List.drop 128 _).length / 32) (List.drop 128 _) []) = _
  rw [body, count, failIf_of_not (not_not.2 whole), ok_bind]
  exact loop

/-- The same for a written time index. -/
theorem validateTimeIndex_written {picks : List (Int64 × BatchInfo)}
    (sub : picks.Sublist (running Int64.minValue s'.batches)) :
    validateTimeIndex (encodeIndexHeader (newIndexHeader 2 timeIndexEntryBytes storeID s stride)
        ++ (picks.map fun pick => encodeTimeIndexEntry (pick.2.timeEntry pick.1)).flatten) s'
        storeID =
      .ok (picks.map fun pick => pick.2.timeEntry pick.1) := by
  have read := IndexHeader.decode_encode (newIndexHeader_valid true storeID s stride)
    (picks.map fun pick => encodeTimeIndexEntry (pick.2.timeEntry pick.1)).flatten
  have checked := validateIndexHeader_new header hash true storeID stride
  obtain ⟨body, whole, count⟩ := body_written
    (newIndexHeader 2 timeIndexEntryBytes storeID s stride) (n := 40) (by decide)
    (fun pick : Int64 × BatchInfo => (pick.2.timeEntry pick.1).length_encode) picks
  have start : Behind [] Int64.minValue s'.batches := by simp [Behind]
  have loop := validateTimeEntries_picks placed (List.Subset.refl _) placed.sorted sub start
  simp only [if_true] at read checked
  rw [validateTimeIndex, read, ok_bind, checked, ok_bind]
  change (failIf ((List.drop 128 _).length % 40 ≠ 0) _ >>= fun _ =>
    validateTimeEntries _ ((List.drop 128 _).length / 40) (List.drop 128 _) [] _ _) = _
  rw [body, count, failIf_of_not (not_not.2 whole), ok_bind]
  exact loop

end Written

/-! ## Times up to an entry -/

/-- The running maximum is the maximum of the batches so far. -/
theorem runningMax_bounds (time : Int64) (batches : List BatchInfo) :
    time ≤ runningMax time batches ∧ (∀ b ∈ batches, b.maxTime ≤ runningMax time batches) ∧
      (runningMax time batches = time ∨ ∃ b ∈ batches, b.maxTime = runningMax time batches) := by
  induction batches generalizing time with
  | nil => exact ⟨Int64.le_refl _, by simp, .inl rfl⟩
  | cons b rest ih =>
      obtain ⟨above, each, reached⟩ := ih (b.raise time)
      change time ≤ runningMax (b.raise time) rest ∧
        (∀ c ∈ b :: rest, c.maxTime ≤ runningMax (b.raise time) rest) ∧
        (runningMax (b.raise time) rest = time ∨
          ∃ c ∈ b :: rest, c.maxTime = runningMax (b.raise time) rest)
      have own : b.maxTime ≤ b.raise time := by
        unfold BatchInfo.raise
        split
        · exact Int64.le_refl _
        · rename_i below
          exact Int64.not_lt.1 below
      refine ⟨Int64.le_trans (b.le_raise time) above, ?_, ?_⟩
      · intro c mem
        rcases List.mem_cons.1 mem with rfl | later
        · exact Int64.le_trans own above
        · exact each c later
      · rcases reached with same | ⟨c, mem, same⟩
        · by_cases raised : time < b.maxTime
          · refine .inr ⟨b, List.mem_cons_self, ?_⟩
            rw [same, BatchInfo.raise, if_pos raised]
          · refine .inl ?_
            rw [same, BatchInfo.raise, if_neg raised]
        · exact .inr ⟨c, List.mem_cons_of_mem _ mem, same⟩

/-- The largest time of a batch and of those before it. -/
theorem isGreatest_runningMax (front : List BatchInfo) (batch : BatchInfo) :
    IsGreatest {t | ∃ b ∈ front ++ [batch], b.maxTime = t}
      (runningMax Int64.minValue (front ++ [batch])) := by
  obtain ⟨_, each, reached⟩ := runningMax_bounds Int64.minValue (front ++ [batch])
  refine ⟨?_, ?_⟩
  · rcases reached with least | found
    · refine ⟨batch, by simp, ?_⟩
      have below := each batch (by simp)
      rw [least] at below ⊢
      exact Int64.le_antisymm below (Int64.minValue_le _)
    · exact found
  · intro t found
    obtain ⟨b, mem, rfl⟩ := found
    exact each b mem

/-- A time entry has the maximum up to its batch. -/
theorem running_split {time : Int64} {batches : List BatchInfo} {pick : Int64 × BatchInfo}
    (mem : pick ∈ running time batches) :
    ∃ front back, batches = front ++ pick.2 :: back ∧
      pick.1 = runningMax time (front ++ [pick.2]) := by
  induction batches generalizing time with
  | nil => cases mem
  | cons b rest ih =>
      rcases List.mem_cons.1 mem with rfl | later
      · exact ⟨[], rest, rfl, rfl⟩
      · obtain ⟨front, back, rfl, max⟩ := ih later
        exact ⟨b :: front, back, rfl, max⟩

/-! ## Publication -/

section Published

variable {topic : TopicID} {partition : UInt32} {d d' : Dir Name}

/-- An index file is written as a whole, or it is as before. -/
theorem runs_writeIndexFile {name : Name} {h : IndexHeader} {entries : List Bytes}
    {result : Except GoError Unit} (final : ∀ n, name ≠ .indexTmp n)
    (ran : Prog.Runs Dir.device (writeIndexFile name h entries) d result d') :
    d'.read? name = some (encodeIndexHeader h ++ entries.flatten) ∨
      (d'.read? name = d.read? name ∧ ∃ e, result = .error e) := by
  rcases Prog.runs_bind.1 ran with ⟨dir, mid, got, replaced⟩ | ⟨e, _, failed⟩
  · obtain ⟨_, rfl⟩ := Prog.runs_get.1 got
    exact Prog.runs_replaceFile (final _).symm replaced
  · obtain ⟨wrong, _⟩ := Prog.runs_get.1 failed
    cases wrong

/-- Writing an index leaves the other files alone. -/
theorem read?_writeIndexFile {name : Name} (other : Name) {h : IndexHeader} {entries : List Bytes}
    {result : Except GoError Unit} (differ : other ≠ name) (final : ∀ n, other ≠ .indexTmp n)
    (ran : Prog.Runs Dir.device (writeIndexFile name h entries) d result d') :
    d'.read? other = d.read? other := by
  refine Dir.read?_of_settles (Dir.runs_settles (Prog.only_get.bind fun dir => ?_) ran)
  refine Prog.only_replaceFile ?_ ?_ ?_ ?_ ?_ ?_ <;>
    simp [DirOp.touches, differ, final (freshTmp dir)]

/-- The segment at a later time: batches may have been appended to it.  Sizes of files
are `int64`. -/
structure Segment.GrowsTo (s : Segment) (stored : List (StoredBatch topic partition))
    (s' : Segment) : Prop where
  header : s'.header = s.header
  bounded : s'.size < 2 ^ 63
  grown : ∃ data more, s'.Represents data (stored ++ more)

/-- A file within the limits whose entries the segment takes over at any later time. -/
structure ReadsBack {α : Type} (s : Segment) (stored : List (StoredBatch topic partition))
    (validate : Bytes → Segment → Except GoError α) (entries : α) (file : Bytes) : Prop where
  limits : indexHeaderBytes.toNat ≤ file.length ∧ file.length ≤ maxIndexFileBytes.toNat
  accepted : ∀ s', s.GrowsTo stored s' → validate file s' = .ok entries

/-- What a run that publishes the indexes of a segment leaves, and what it sampled. -/
structure Published (s : Segment) (stored : List (StoredBatch topic partition)) (storeID : StoreID)
    (stride : UInt64) (d : Dir Name) (result : Except GoError Segment) (d' : Dir Name) : Prop where
  /-- Each file is written whole, or as it was and the run reports an error. -/
  offsetFile :
    (∃ file, d'.read? (.index s.header.baseOffset) = some file ∧
      ReadsBack s stored (validateOffsetIndex · · storeID)
        (sampleBatchIndexes s.batches stride).1 file) ∨
    (d'.read? (.index s.header.baseOffset) = d.read? (.index s.header.baseOffset) ∧
      ∃ e, result = .error e)
  timeFile :
    (∃ file, d'.read? (.timeIndex s.header.baseOffset) = some file ∧
      ReadsBack s stored (validateTimeIndex · · storeID)
        (sampleBatchIndexes s.batches stride).2 file) ∨
    (d'.read? (.timeIndex s.header.baseOffset) = d.read? (.timeIndex s.header.baseOffset) ∧
      ∃ e, result = .error e)
  /-- Some batches in order, the first among them. -/
  offsetEntries : ∃ picks : List BatchInfo, picks.Sublist s.batches ∧
    picks.head? = s.batches.head? ∧
    (sampleBatchIndexes s.batches stride).1 = picks.map BatchInfo.offsetEntry
  /-- Every entry has the largest time up to its batch. -/
  timeEntries : ∀ entry ∈ (sampleBatchIndexes s.batches stride).2, ∃ front batch back,
    s.batches = front ++ batch :: back ∧ entry = batch.timeEntry entry.prefixMax ∧
      IsGreatest {t | ∃ b ∈ front ++ [batch], b.maxTime = t} entry.prefixMax

variable {s : Segment} {data : Bytes} {stored : List (StoredBatch topic partition)}

/-- What a later state of the segment has of the earlier one. -/
theorem Segment.GrowsTo.batches {s' : Segment} (represents : s.Represents data stored)
    (grows : s.GrowsTo stored s') :
    s.batches <+: s'.batches ∧ Placed s'.batches ∧ s'.headerHash = s.headerHash := by
  obtain ⟨data', more, later⟩ := grows.grown
  have tiles := later.tiles
  rw [grows.header] at tiles
  refine ⟨represents.tiles.front tiles, tiles.placed grows.bounded, ?_⟩
  rw [later.hash, represents.hash, grows.header]

/-- The offset index of a segment reads back as it was sampled. -/
theorem offsetFile_readsBack (represents : s.Represents data stored) (storeID : StoreID)
    (stride : UInt64) :
    ReadsBack s stored (validateOffsetIndex · · storeID) (sampleBatchIndexes s.batches stride).1
      (encodeIndexHeader (newIndexHeader 1 offsetIndexEntryBytes storeID s stride) ++
        ((sampleBatchIndexes s.batches stride).1.map encodeOffsetIndexEntry).flatten) := by
  have sampled := sampleBatchIndexes_sampled s.batches stride
  refine ⟨?_, ?_⟩
  · have few : _ ≤ 2097148 := sampled.fewOffsets
    rw [List.length_append, IndexHeader.length_encode,
      length_flatten_entries OffsetIndexEntry.length_encode]
    change 128 ≤ _ ∧ _ ≤ 67108864
    omega
  · intro s' grows
    obtain ⟨front, placed, hash⟩ := grows.batches represents
    obtain ⟨picks, sub, _, entries⟩ := sampled.offsets
    rw [entries, List.map_map]
    exact validateOffsetIndex_written grows.header hash placed storeID stride
      (sub.trans front.sublist)

/-- The time index of a segment reads back as it was sampled. -/
theorem timeFile_readsBack (represents : s.Represents data stored) (storeID : StoreID)
    (stride : UInt64) :
    ReadsBack s stored (validateTimeIndex · · storeID) (sampleBatchIndexes s.batches stride).2
      (encodeIndexHeader (newIndexHeader 2 timeIndexEntryBytes storeID s stride) ++
        ((sampleBatchIndexes s.batches stride).2.map encodeTimeIndexEntry).flatten) := by
  have sampled := sampleBatchIndexes_sampled s.batches stride
  refine ⟨?_, ?_⟩
  · have few : _ ≤ 1677718 := sampled.fewTimes
    rw [List.length_append, IndexHeader.length_encode,
      length_flatten_entries TimeIndexEntry.length_encode]
    change 128 ≤ _ ∧ _ ≤ 67108864
    omega
  · intro s' grows
    obtain ⟨front, placed, hash⟩ := grows.batches represents
    obtain ⟨picks, sub, entries⟩ := sampled.times
    obtain ⟨more, later⟩ := front
    rw [entries, List.map_map]
    refine validateTimeIndex_written grows.header hash placed storeID stride (sub.trans ?_)
    rw [← later, running_append]
    exact List.sublist_append_left ..

/-- The two files after a run, each written whole or left alone. -/
theorem runs_installSegmentIndexes_files {storeID : StoreID} {stride : UInt64}
    {result : Except GoError Segment}
    (ran : Prog.Runs Dir.device (installSegmentIndexes s storeID stride) d result d') :
    (d'.read? (.index s.header.baseOffset) =
        some (encodeIndexHeader (newIndexHeader 1 offsetIndexEntryBytes storeID s stride) ++
          ((sampleBatchIndexes s.batches stride).1.map encodeOffsetIndexEntry).flatten) ∨
      (d'.read? (.index s.header.baseOffset) = d.read? (.index s.header.baseOffset) ∧
        ∃ e, result = .error e)) ∧
    (d'.read? (.timeIndex s.header.baseOffset) =
        some (encodeIndexHeader (newIndexHeader 2 timeIndexEntryBytes storeID s stride) ++
          ((sampleBatchIndexes s.batches stride).2.map encodeTimeIndexEntry).flatten) ∨
      (d'.read? (.timeIndex s.header.baseOffset) = d.read? (.timeIndex s.header.baseOffset) ∧
        ∃ e, result = .error e)) := by
  rcases Prog.runs_bind.1 ran with ⟨_, mid, first, rest⟩ | ⟨e, rfl, failed⟩
  · have offsets := runs_writeIndexFile (fun _ => by simp) first
    have untouched := read?_writeIndexFile (.timeIndex s.header.baseOffset) (by simp)
      (fun _ => by simp) first
    rcases offsets with written | ⟨_, _, wrong⟩
    · rcases Prog.runs_bind.1 rest with ⟨_, mid', second, ended⟩ | ⟨e, rfl, failed⟩
      · obtain ⟨rfl, rfl⟩ := Prog.runs_done.1 ended
        have kept := read?_writeIndexFile (.index s.header.baseOffset) (by simp)
          (fun _ => by simp) second
        rcases runs_writeIndexFile (fun _ => by simp) second with times | ⟨_, _, wrong⟩
        · exact ⟨.inl (kept.trans written), .inl times⟩
        · cases wrong
      · have kept := read?_writeIndexFile (.index s.header.baseOffset) (by simp)
          (fun _ => by simp) failed
        refine ⟨.inl (kept.trans written), ?_⟩
        rcases runs_writeIndexFile (fun _ => by simp) failed with times | ⟨same, _⟩
        · exact .inl times
        · exact .inr ⟨same.trans untouched, e, rfl⟩
    · cases wrong
  · have untouched := read?_writeIndexFile (.timeIndex s.header.baseOffset) (by simp)
      (fun _ => by simp) failed
    refine ⟨?_, .inr ⟨untouched, e, rfl⟩⟩
    rcases runs_writeIndexFile (fun _ => by simp) failed with written | ⟨same, _⟩
    · exact .inl written
    · exact .inr ⟨same, e, rfl⟩

/-- The index files a segment publishes are read back, now and after later appends. -/
theorem sidecars_read_back (represents : s.Represents data stored) (storeID : StoreID)
    (stride : UInt64) {result : Except GoError Segment}
    (ran : Prog.Runs Dir.device (installSegmentIndexes s storeID stride) d result d') :
    Published s stored storeID stride d result d' := by
  have sampled := sampleBatchIndexes_sampled s.batches stride
  obtain ⟨offsets, times⟩ := runs_installSegmentIndexes_files ran
  refine ⟨?_, ?_, sampled.offsets, ?_⟩
  · exact offsets.imp_left fun written =>
      ⟨_, written, offsetFile_readsBack represents storeID stride⟩
  · exact times.imp_left fun written =>
      ⟨_, written, timeFile_readsBack represents storeID stride⟩
  · intro entry mem
    obtain ⟨picks, sub, entries⟩ := sampled.times
    rw [entries] at mem
    obtain ⟨pick, picked, rfl⟩ := List.mem_map.1 mem
    obtain ⟨front, back, split, max⟩ := running_split (sub.subset picked)
    refine ⟨front, pick.2, back, split, rfl, ?_⟩
    change IsGreatest _ pick.1
    rw [max]
    exact isGreatest_runningMax front pick.2

end Published

namespace OneBatchSegment

def header : SegmentHeader := ⟨7, 3, 40, 9⟩

theorem header_valid : header.Valid := by
  constructor <;> decide

theorem sample_decodes :
    decodeBatch RecordBatch.sample.bytes 7 3 = .ok RecordBatch.sample := by
  have encoded : encodeBatch RecordBatch.sample = .ok RecordBatch.sample.bytes := by
    decide +kernel
  exact RecordBatch.decode_bytes (RecordBatch.encode_eq_ok.1 encoded).1

def batch : StoredBatch 7 3 := ⟨RecordBatch.sample.bytes, RecordBatch.sample, sample_decodes⟩

def segment : Segment := (newSegment header).extended batch.batch batch.encoded

theorem represents : segment.Represents (header.bytes ++ batch.encoded) [batch] := by
  have start : (newSegment header).Represents header.bytes ([] : List (StoredBatch 7 3)) :=
    .newSegment header_valid (fun _ => rfl) rfl
  have whole : header.bytes ++ storedBytes ([] : List (StoredBatch 7 3)) ++ batch.encoded <+:
      header.bytes ++ batch.encoded := by
    simp
  exact start.extended (b := batch) rfl whole

/-- Publishing into an empty directory, without faults. -/
theorem sidecars_published :
    ∃ result d', Prog.Runs Dir.device (installSegmentIndexes segment 1 4096) ∅ result d' ∧
      Published segment [batch] 1 4096 ∅ result d' :=
  have ran := Prog.Runs.faultFree (D := Dir.device) (installSegmentIndexes segment 1 4096) ∅
  ⟨_, _, ran, sidecars_read_back represents 1 4096 ran⟩

end OneBatchSegment

end Immulog
