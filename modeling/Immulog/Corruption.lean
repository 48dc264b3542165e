import Immulog.CodecExact
import Immulog.Lib.Crc
import Immulog.Preflight

/-!
A changed byte in a segment file.

Every byte of a segment file is covered by a checksum: the header by its own, the
header of a batch and then the whole batch by theirs.  CRC32C separates strings that
differ in one byte, so that recovery (`recoverSegment`) and validation
(`validateSegmentReadOnly`) refuse the file, wherever the changed byte stands.
-/

namespace Immulog

open Lib

/-! ## The checksum -/

theorem crcBit_toBitVec (c : UInt32) :
    (crcBit c).toBitVec = divideBit 0x82F63B78#32 c.toBitVec := by
  have bit : (c &&& 1).toBitVec = BitVec.setWidth 32 (BitVec.ofBool (c.toBitVec.getLsbD 0)) := by
    rw [UInt32.toBitVec_and]
    exact BitVec.and_one_eq_setWidth_ofBool_getLsbD
  have low : c &&& 1 = 1 ↔ c.toBitVec.getLsbD 0 = true := by
    rw [← UInt32.toBitVec_inj, bit]
    cases c.toBitVec.getLsbD 0 <;> decide
  unfold crcBit divideBit
  by_cases odd : c &&& 1 = 1
  · rw [if_pos odd, if_pos (low.1 odd)]
    rfl
  · rw [if_neg odd, if_neg (fun bit => odd (low.2 bit))]
    rfl

/-- A shift of the register loses nothing. -/
theorem crcBit_injective : Function.Injective crcBit := by
  intro a b same
  apply UInt32.toBitVec_inj.1
  have top : (0x82F63B78#32).msb = true := by decide
  apply divideBit_injective top
  rw [← crcBit_toBitVec, ← crcBit_toBitVec, same]

theorem xor_of_crcByte_eq {c d : UInt32} {a b : UInt8} (same : crcByte c a = crcByte d b) :
    c ^^^ a.toUInt32 = d ^^^ b.toUInt32 := by
  unfold crcByte at same
  iterate 8 replace same := crcBit_injective same
  exact same

/-- Different registers stay different over the same byte. -/
theorem crcByte_left_injective (b : UInt8) : Function.Injective fun c => crcByte c b := by
  intro c d same
  exact (UInt32.xor_left_inj b.toUInt32).1 (xor_of_crcByte_eq same)

/-- Different bytes make different registers. -/
theorem crcByte_injective (c : UInt32) : Function.Injective (crcByte c) := by
  intro a b same
  have bytes : a.toUInt32 = b.toUInt32 := (UInt32.xor_right_inj c).1 (xor_of_crcByte_eq same)
  apply UInt8.toNat_inj.1
  rw [← UInt8.toNat_toUInt32, bytes, UInt8.toNat_toUInt32]

/-- Strings that differ in one byte have different checksums. -/
theorem crc32c_set_ne {data : Bytes} {p : Nat} {v : UInt8} (inside : p < data.length)
    (differs : data[p] ≠ v) : crc32c (data.set p v) ≠ crc32c data := by
  have whole : data.take p ++ data[p] :: data.drop (p + 1) = data := by simp
  have changed : data.set p v = data.take p ++ v :: data.drop (p + 1) := by
    rw [List.set_eq_take_append_cons_drop, if_pos inside]
  have folds := foldl_ne_of_ne crcByte_left_injective crcByte_injective 0xFFFFFFFF (data.take p)
    (data.drop (p + 1)) differs.symm
  rw [whole, ← changed] at folds
  unfold crc32c
  rw [Ne, UInt32.xor_left_inj]
  exact folds

/-! ## Fields of a changed string -/

theorem slice_set_of_lt {data : Bytes} {p start stop : Nat} {v : UInt8} (before : p < start) :
    slice (data.set p v) start stop = slice data start stop := by
  rw [slice, slice, List.drop_set_of_lt before]

theorem slice_set_of_ge {data : Bytes} {p start stop : Nat} {v : UInt8} (behind : stop ≤ p) :
    slice (data.set p v) start stop = slice data start stop := by
  rcases Nat.lt_or_ge p start with before | inside
  · exact slice_set_of_lt before
  · rw [slice, slice, List.drop_set, if_neg (by omega), List.take_set_of_le (by omega)]

/-- A byte that is changed inside a slice is changed there. -/
theorem slice_set {data : Bytes} {p start stop : Nat} {v : UInt8} (low : start ≤ p) :
    slice (data.set p v) start stop = (slice data start stop).set (p - start) v := by
  rw [slice, slice, List.drop_set, if_neg (by omega), List.take_set]

theorem getElem_slice {data : Bytes} {p start stop : Nat} (low : start ≤ p) (high : p < stop)
    (inside : p < data.length) :
    (slice data start stop)[p - start]? = some data[p] := by
  rw [slice, List.getElem?_take_of_lt (by omega), List.getElem?_drop, Nat.add_sub_cancel' low,
    List.getElem?_eq_getElem inside]

/-- Four bytes are determined by their number. -/
theorem uint32_injective {bs cs : Bytes} (size : bs.length = 4) (size' : cs.length = 4)
    (same : uint32 bs = uint32 cs) : bs = cs := by
  rw [← putUint32_uint32 size, same, putUint32_uint32 size']

/-- A checksum behind the bytes it covers does not match any more once one of them all
has changed. -/
theorem checksum_set_ne {data : Bytes} {n p : Nat} {v : UInt8} (covers : p < n + 4)
    (long : n + 4 ≤ data.length) (differs : data[p] ≠ v)
    (stored : uint32 (slice data n (n + 4)) = crc32c (slice data 0 n)) :
    uint32 (slice (data.set p v) n (n + 4)) ≠ crc32c (slice (data.set p v) 0 n) := by
  rcases Nat.lt_or_ge p n with body | field
  · rw [slice_set_of_lt body, stored, slice_set (Nat.zero_le p), Nat.sub_zero]
    have size : p < (slice data 0 n).length := by
      rw [length_slice]
      omega
    have here : (slice data 0 n)[p] = data[p] := by
      have found : (slice data 0 n)[p - 0]? = some data[p] :=
        getElem_slice (Nat.zero_le p) body (by omega)
      rw [Nat.sub_zero, List.getElem?_eq_getElem size] at found
      exact Option.some.inj found
    exact (crc32c_set_ne size (by rwa [here])).symm
  · rw [slice_set_of_ge field, ← stored, slice_set field]
    intro same
    have size : (slice data n (n + 4)).length = 4 := by
      rw [length_slice]
      omega
    have whole := uint32_injective (by rw [List.length_set, size]) size same
    have found : (slice data n (n + 4))[p - n]? = some data[p] :=
      getElem_slice field covers (by omega)
    rw [← whole, List.getElem?_set_self (by rw [size]; omega)] at found
    exact differs (Option.some.inj found).symm

/-! ## Segment files -/

/-- Byte strings that `decodeBatch` accepts as batches that follow each other. -/
def Contiguous (topic : TopicID) (partition : UInt32) : UInt64 → List Bytes → Prop
  | _, [] => True
  | current, chunk :: rest =>
      ∃ b : RecordBatch, decodeBatch chunk topic partition = .ok b ∧ b.baseOffset = current ∧
        Contiguous topic partition (current + .ofNat b.records.length) rest

/-- The frame of an encoded batch: its length field and its two checksums. -/
structure Framed (chunk : Bytes) : Prop where
  long : 80 ≤ chunk.length
  length : (uint32 (slice chunk 8 12)).toNat = chunk.length
  header : uint32 (slice chunk 44 48) = crc32c (slice chunk 0 44)
  trailer : uint32 (slice chunk (chunk.length - 4) chunk.length) =
    crc32c (slice chunk 0 (chunk.length - 4))

/-- A decoded batch carries its checksum. -/
theorem RecordBatch.Decoded.framed {b : RecordBatch} {chunk : Bytes} {topic : TopicID}
    {partition : UInt32} (found : b.Decoded chunk topic partition) : Framed chunk where
  long := by
    rw [← found.total]
    exact found.valid.total_bounds.1
  length := found.length
  header := found.header
  trailer := by
    have last : slice chunk (chunk.length - 4) chunk.length = chunk.drop (chunk.length - 4) := by
      rw [slice, List.take_of_length_le (by simp)]
    rw [last]
    exact found.trailer

theorem Contiguous.framed {topic : TopicID} {partition : UInt32} {current : UInt64}
    {chunks : List Bytes} (contiguous : Contiguous topic partition current chunks) :
    ∀ chunk ∈ chunks, Framed chunk := by
  induction chunks generalizing current with
  | nil => simp
  | cons first rest ih =>
      obtain ⟨b, decoded, -, later⟩ := contiguous
      intro chunk mem
      rcases List.mem_cons.1 mem with rfl | inside
      · exact (RecordBatch.Decoded.of_decode decoded).framed
      · exact ih later chunk inside

section Scan

variable {topic : TopicID} {partition : UInt32} {final : Bool}

/-- A changed byte in the batch at the current position stops the loop. -/
theorem recoverBatches_changed_here {chunk rest : Bytes} {p : Nat} {v : UInt8} {fuel : Nat}
    {r : Recovered} {out : Recovered × Bool} (framed : Framed chunk) (inside : p < chunk.length)
    (differs : chunk[p] ≠ v) :
    recoverBatches topic partition final (fuel + 1) (chunk.set p v ++ rest) r ≠ .ok out := by
  intro ok
  have size := framed.long
  have nonempty : chunk.set p v ++ rest ≠ [] := by
    apply List.append_ne_nil_of_left_ne_nil
    apply List.ne_nil_of_length_pos
    rw [List.length_set]
    omega
  have front : ∀ {start stop : Nat}, stop ≤ chunk.length →
      slice (chunk.set p v ++ rest) start stop = slice (chunk.set p v) start stop := by
    intro start stop le
    exact (slice_of_isPrefix (List.prefix_append ..) (by simpa using le)).symm
  -- The header is checked with its own checksum, also before a tail is cut off.
  have header : p < 48 → uint32 (slice (chunk.set p v ++ rest) 44 48) ≠
      crc32c (slice (chunk.set p v ++ rest) 0 44) := by
    intro low
    rw [front (by omega), front (by omega)]
    exact checksum_set_ne (n := 44) low (by omega) differs framed.header
  have length : 48 ≤ p →
      (uint32 (slice (chunk.set p v ++ rest) 8 12)).toNat = chunk.length := by
    intro high
    rw [front (by omega), slice_set_of_ge (by omega), framed.length]
  obtain ⟨-, ⟨cut, -, truncates, -⟩ | ⟨fits, minimum, b, decoded, -, -⟩⟩ :=
    recoverBatches_round nonempty ok
  · rcases Nat.lt_or_ge p 48 with low | high
    · exact header low truncates.2.2.2.1
    · rw [length high] at cut
      simp at cut
  · have found := RecordBatch.Decoded.of_decode decoded
    rcases Nat.lt_or_ge p 48 with low | high
    · refine header low ?_
      have sub : ∀ {start stop : Nat}, stop ≤ 48 →
          slice (slice (chunk.set p v ++ rest) 0
            (uint32 (slice (chunk.set p v ++ rest) 8 12)).toNat) start stop =
          slice (chunk.set p v ++ rest) start stop := by
        intro start stop le
        refine slice_of_isPrefix ?_ ?_
        · rw [slice, List.drop_zero]
          exact List.take_prefix ..
        · rw [length_slice]
          omega
      have checked := found.header
      rwa [sub (by decide), sub (by decide)] at checked
    · have whole : slice (chunk.set p v ++ rest) 0
          (uint32 (slice (chunk.set p v ++ rest) 8 12)).toNat = chunk.set p v := by
        rw [length high]
        exact slice_zero_append (by simp)
      rw [whole] at found
      have trailer := found.framed.trailer
      rw [List.length_set] at trailer
      have last : chunk.length - 4 + 4 = chunk.length := by omega
      have stored := framed.trailer
      refine checksum_set_ne (n := chunk.length - 4) (by omega) (by omega) differs ?_ ?_
      · rwa [last]
      · rwa [last]

/-- A changed byte behind the current position stops the loop. -/
theorem recoverBatches_changed {chunks : List Bytes} (framed : ∀ chunk ∈ chunks, Framed chunk)
    {p : Nat} {v : UInt8} (inside : p < chunks.flatten.length) (differs : chunks.flatten[p] ≠ v)
    {fuel : Nat} (enough : chunks.flatten.length ≤ fuel) {r : Recovered} {out : Recovered × Bool} :
    recoverBatches topic partition final fuel (chunks.flatten.set p v) r ≠ .ok out := by
  induction chunks generalizing p fuel r with
  | nil => simp at inside
  | cons chunk chunks ih =>
      have here := framed chunk List.mem_cons_self
      have size := here.long
      simp only [List.flatten_cons, List.length_append] at inside enough
      obtain ⟨fuel, rfl⟩ : ∃ n, fuel = n + 1 := ⟨fuel - 1, by omega⟩
      rcases Nat.lt_or_ge p chunk.length with first | later
      · rw [List.flatten_cons, List.set_append_left _ _ first]
        refine recoverBatches_changed_here here first ?_
        simpa [List.getElem_append_left first] using differs
      · rw [List.flatten_cons, List.set_append_right _ _ later]
        intro ok
        have nonempty : chunk ++ chunks.flatten.set (p - chunk.length) v ≠ [] := by
          apply List.append_ne_nil_of_left_ne_nil
          apply List.ne_nil_of_length_pos
          omega
        have length :
            (uint32 (slice (chunk ++ chunks.flatten.set (p - chunk.length) v) 8 12)).toNat =
            chunk.length := by
          rw [← slice_of_isPrefix (List.prefix_append chunk _) (by omega), here.length]
        obtain ⟨-, ⟨cut, -⟩ | ⟨-, -, b, -, -, next⟩⟩ := recoverBatches_round nonempty ok
        · rw [length] at cut
          simp at cut
        · rw [length, List.drop_left] at next
          refine ih (fun c mem => framed c (List.mem_cons_of_mem _ mem))
            (by omega) ?_ (by omega) next
          simpa [List.getElem_append_right later] using differs

/-- A file of a valid header and valid batches, with one byte changed, is not read. -/
theorem readSegment_changed {h : SegmentHeader} {chunks : List Bytes}
    (framed : ∀ chunk ∈ chunks, Framed chunk) {p : Nat} {v : UInt8}
    (inside : p < (h.bytes ++ chunks.flatten).length)
    (differs : (h.bytes ++ chunks.flatten)[p] ≠ v) {base expected : UInt64}
    {out : SegmentHeader × Recovered × Bool} :
    readSegment base topic partition final expected ((h.bytes ++ chunks.flatten).set p v) ≠
      .ok out := by
  intro ok
  have size := h.length_bytes
  simp only [readSegment, readSegmentAt, bind_eq_ok, failIf_eq_ok, exists_const, Prod.exists] at ok
  obtain ⟨-, header, decoded, -, recovered, cut, looped, -⟩ := ok
  rcases Nat.lt_or_ge p 72 with low | high
  · have stored : uint32 (slice (h.bytes ++ chunks.flatten) 68 72) =
        crc32c (slice (h.bytes ++ chunks.flatten) 0 68) := by
      have field : slice (h.bytes ++ chunks.flatten) 68 72 = _ :=
        SegmentHeader.slice_bytes (k := 11) rfl rfl rfl
      have body : slice (h.bytes ++ chunks.flatten) 0 68 = h.fields.flatten := by
        rw [SegmentHeader.bytes, withCRC32C, List.append_assoc]
        exact slice_zero_append (by simp [SegmentHeader.fields, segmentMagic, ascii])
      rw [field, body, uint32_putUint32]
    have mismatch := checksum_set_ne (n := 68) low (by simp [size]) differs stored
    simp only [decodeSegmentHeader, bind_eq_ok, failIf_eq_ok, exists_const, not_not, ne_eq]
      at decoded
    obtain ⟨-, -, -, checked, -⟩ := decoded
    have sub : ∀ {start stop : Nat}, stop ≤ 72 →
        slice (slice ((h.bytes ++ chunks.flatten).set p v) 0 segmentHeaderBytes.toNat) start stop =
          slice ((h.bytes ++ chunks.flatten).set p v) start stop := by
      intro start stop le
      refine slice_of_isPrefix ?_ ?_
      · rw [slice, List.drop_zero]
        exact List.take_prefix ..
      · have limit : segmentHeaderBytes.toNat = 72 := by decide
        rw [length_slice, List.length_set, List.length_append, size, limit]
        omega
    rw [sub (by decide), sub (by decide)] at checked
    exact mismatch checked
  · have drops : ((h.bytes ++ chunks.flatten).set p v).drop segmentHeaderBytes.toNat =
        chunks.flatten.set (p - 72) v := by
      rw [List.set_append_right _ _ (by omega), List.drop_left' (by rw [size]; decide), size]
    rw [drops] at looped
    rw [List.length_append, size] at inside
    refine recoverBatches_changed framed (p := p - 72) (by omega) ?_ ?_ looped
    · have at' := differs
      rw [List.getElem_append_right (by omega)] at at'
      simpa [size] using at'
    · simp

end Scan

/-- The changed file is refused and stays as it is. -/
theorem single_byte_refused {h : SegmentHeader} {chunks : List Bytes}
    (contiguous : Contiguous h.topic h.partition h.baseOffset chunks) {p : Nat} {v : UInt8}
    (inside : p < (h.bytes ++ chunks.flatten).length)
    (differs : (h.bytes ++ chunks.flatten)[p] ≠ v) {d : Dir Name} {base : UInt64} {f : File}
    {durable : Bool} (found : d.lookup (.log base) = some ⟨some f, durable⟩)
    (holds : f.data = (h.bytes ++ chunks.flatten).set p v) (topic : TopicID) (partition : UInt32)
    (final : Bool) (expected maxBytes : UInt64) :
    (∃ e, Prog.run Dir.device (recoverSegment base topic partition final expected) d =
        (.error e, d)) ∧
      ∃ e, validateSegmentReadOnly d base topic partition final expected maxBytes = .error e := by
  have read : d.read? (.log base) = some f.data := read?_of_lookup found
  have refused : ∀ out, readSegment base topic partition final expected f.data ≠ .ok out := by
    intro out
    rw [holds]
    exact readSegment_changed contiguous.framed inside differs
  constructor
  · cases reads : readSegment base topic partition final expected f.data with
    | ok out => exact absurd reads (refused out)
    | error e =>
        refine ⟨e, ?_⟩
        simp only [recoverSegment, recoverSegmentAt, readSegmentAt_log]
        rw [Prog.run_bind_ok (Prog.run_get ..), read]
        simp only [Option.elim_some, pure_eq_ok]
        rw [Prog.run_bind_ok (Prog.run_ofExcept ..), reads]
        exact Prog.run_bind_error (Prog.run_ofExcept ..)
  · cases validated : validateSegmentReadOnly d base topic partition final expected maxBytes with
    | error e => exact ⟨e, rfl⟩
    | ok out =>
        obtain ⟨data, header, recovered, cut, read', -, reads, -⟩ :=
          validateSegmentReadOnly_eq_ok.1 validated
        obtain rfl := Option.some.inj (read.symm.trans read')
        exact absurd reads (refused _)

/-- A segment of one batch, and the same with another byte in the length field of it. -/
def sampleHeader : SegmentHeader where
  topic := 7
  partition := 3
  baseOffset := 40
  id := 1

def changedDir : Dir Name :=
  (∅ : Dir Name).insert (.log 40) ⟨some
    ⟨(sampleHeader.bytes ++ [RecordBatch.sample.bytes].flatten).set 80 1,
      sampleHeader.bytes ++ [RecordBatch.sample.bytes].flatten⟩, true⟩

/-- Byte 80 of a segment with one batch is changed: recovery and the check refuse it. -/
theorem single_byte_refused_sample :
    (∃ e, Prog.run Dir.device (recoverSegment 40 7 3 true 40) changedDir = (.error e, changedDir)) ∧
      ∃ e, validateSegmentReadOnly changedDir 40 7 3 true 40 1048576 = .error e :=
  @single_byte_refused sampleHeader [RecordBatch.sample.bytes]
    ⟨.sample, by decide +kernel, rfl, trivial⟩ 80 1 (by decide +kernel) (by decide +kernel)
    changedDir 40 _ true (AList.lookup_insert _) rfl 7 3 true 40 1048576

end Immulog
