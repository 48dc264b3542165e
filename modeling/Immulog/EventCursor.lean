import Immulog.Codec

/-!
Fields of system events and checkpoints (`src/storage/events.go`,
`src/storage/events_validation.go`): the event cursor, strings, segment anchors and
topic keys.

Every reader has one lemma `run_…_eq_ok`: it succeeds exactly on the encoding of the
value it returns.
-/

namespace Immulog

open Lib

def maxTopicNameLen : Nat := 249
def maxTopicPartitions : UInt32 := 65536
def maxGroupIDBytes : Nat := 255
def maxAssignmentMembers : Nat := 4096
def maxSubscriptionKeys : Nat := 65536

/-! ## Encoders -/

def bytesContainZero (value : Bytes) : Bool :=
  value.any (· == 0)

/-- The strings that fit an event field of at most `max` bytes. -/
def ValidString (max : Nat) (value : Bytes) : Prop :=
  value.length ≠ 0 ∧ value.length ≤ max ∧ bytesContainZero value = false ∧ utf8Valid value = true

instance (max : Nat) (value : Bytes) : Decidable (ValidString max value) :=
  inferInstanceAs (Decidable (_ ∧ _ ∧ _ ∧ _))

def putString (value : Bytes) : Bytes :=
  putUint32 (.ofNat value.length) ++ value

def appendString (data value : Bytes) (max : Nat) : Except GoError Bytes := do
  failIf (value.length = 0 ∨ max < value.length ∨ bytesContainZero value = true ∨
      utf8Valid value = false)
    ⟨[.errInvalidArgument], ["event string is invalid"]⟩
  return data ++ putUint32 (.ofNat value.length) ++ value

structure EventAnchor where
  id : SegmentID
  headerHash : Hash
  deriving DecidableEq, Repr

namespace EventAnchor

def Complete (anchor : EventAnchor) : Prop :=
  anchor.id ≠ 0 ∧ anchor.headerHash ≠ 0

instance (anchor : EventAnchor) : Decidable anchor.Complete :=
  inferInstanceAs (Decidable (_ ∧ _))

def bytes (anchor : EventAnchor) : Bytes :=
  putID anchor.id ++ putHash anchor.headerHash

@[simp] theorem length_bytes (anchor : EventAnchor) : anchor.bytes.length = 48 := by
  simp [bytes]

end EventAnchor

def encodeAnchor (data : Bytes) (anchor : EventAnchor) : Except GoError Bytes := do
  failIf (anchor.id = 0 ∨ anchor.headerHash = 0)
    ⟨[.errInvalidArgument], ["event anchor is incomplete"]⟩
  return data ++ putID anchor.id ++ putHash anchor.headerHash

/-- An anchor is written when it is complete. -/
theorem encodeAnchor_eq_ok {data out : Bytes} {anchor : EventAnchor} :
    encodeAnchor data anchor = .ok out ↔ anchor.Complete ∧ out = data ++ anchor.bytes := by
  simp only [encodeAnchor, bind_eq_ok, failIf_eq_ok, exists_const, pure_eq_ok, Except.ok.injEq,
    EventAnchor.Complete, EventAnchor.bytes, not_or, List.append_assoc]
  exact and_congr_right fun _ => eq_comm

/-- A string is written with its length in front, if it is short enough. -/
theorem appendString_eq_ok {data value out : Bytes} {max : Nat} :
    appendString data value max = .ok out ↔
      ValidString max value ∧ out = data ++ putString value := by
  simp only [appendString, bind_eq_ok, failIf_eq_ok, exists_const, pure_eq_ok, Except.ok.injEq,
    ValidString, putString, not_or, List.append_assoc, Nat.not_lt, Bool.not_eq_true,
    Bool.not_eq_false, and_assoc]
  exact and_congr_right fun _ => and_congr_right fun _ => and_congr_right fun _ =>
    and_congr_right fun _ => eq_comm

/-! ## Topic keys -/

structure TopicKey where
  topic : TopicID
  partition : UInt32
  deriving DecidableEq, Repr

/-- Byte order of the identity, then the partition number. -/
def compareTopicKey (left right : TopicKey) : Ordering :=
  compareLex (compareOn TopicKey.topic) (compareOn TopicKey.partition) left right

instance : Ord TopicKey := ⟨compareTopicKey⟩

instance : Std.TransOrd TopicKey :=
  inferInstanceAs (Std.TransCmp
    (compareLex (compareOn TopicKey.topic) (compareOn TopicKey.partition)))

instance : Std.LawfulEqOrd TopicKey where
  eq_of_compare := by
    intro left right same
    have both : compareOn TopicKey.topic left right = .eq ∧
        compareOn TopicKey.partition left right = .eq := by
      simpa [compareLex, Ordering.then_eq_eq] using
        (show compareLex (compareOn TopicKey.topic) (compareOn TopicKey.partition) left right = .eq
          from same)
    rcases left with ⟨topic, partition⟩
    rcases right with ⟨topic', partition'⟩
    obtain rfl : topic = topic' := Std.LawfulEqOrd.eq_of_compare both.1
    obtain rfl : partition = partition' := Std.LawfulEqOrd.eq_of_compare both.2
    rfl

namespace TopicKey

/-- The keys that a key field may hold. -/
def Valid (key : TopicKey) : Prop :=
  key.topic ≠ 0 ∧ key.partition ≤ int32Max

instance (key : TopicKey) : Decidable key.Valid :=
  inferInstanceAs (Decidable (_ ∧ _))

def bytes (key : TopicKey) : Bytes :=
  putID key.topic ++ putUint32 key.partition

@[simp] theorem length_bytes (key : TopicKey) : key.bytes.length = 20 := by
  simp [bytes]

end TopicKey

/-! ## Readers -/

namespace EventCursor

/-- `eventCursor.take` -/
def take (size : Nat) : Cursor GoError Bytes :=
  Cursor.take size (corrupt .errInvalidRecord "event field exceeds payload")

def u8 : Cursor GoError UInt8 := (fun value => value.headD 0) <$> take 1
def u32 : Cursor GoError UInt32 := uint32 <$> take 4
def u64 : Cursor GoError UInt64 := uint64 <$> take 8
def id : Cursor GoError (BitVec 128) := idOf <$> take 16

def stringValue (max : Nat) : Cursor GoError Bytes := do
  let length ← u32
  Cursor.ensure (length = 0 ∨ max < length.toNat)
    (corrupt .errInvalidRecord "event string length is outside limits")
  let value ← take length.toNat
  Cursor.ensure (bytesContainZero value = true ∨ utf8Valid value = false)
    (corrupt .errInvalidRecord "event string is not valid UTF-8")
  return value

def decodeAnchor : Cursor GoError EventAnchor := do
  let id ← id
  let hash ← take 32
  let anchor : EventAnchor := ⟨id, hashOf hash⟩
  Cursor.ensure (anchor.id = 0 ∨ anchor.headerHash = 0)
    (corrupt .errInvalidRecord "event anchor is zero")
  return anchor

def decodeTopicKey : Cursor GoError TopicKey := do
  let id ← id
  Cursor.ensure (id = 0) (corrupt .errInvalidRecord "event topic key ID is zero")
  let partition ← u32
  Cursor.ensure (int32Max < partition)
    (corrupt .errInvalidRecord "event topic key partition is outside v1 range")
  return ⟨id, partition⟩

def requireID (name : String) : Cursor GoError (BitVec 128) := do
  let id ← id
  Cursor.ensure (id = 0) (corrupt .errInvalidRecord (name ++ " is zero"))
  return id

def expectReserved : Cursor GoError Unit := do
  let value ← take 3
  Cursor.ensure (value ≠ [0, 0, 0]) (corrupt .errInvalidRecord "nonzero event reserved bytes")

def finishEvent : Cursor GoError Unit :=
  Cursor.finish (corrupt .errInvalidRecord "trailing system event bytes")

/-! ## What the readers accept -/

open Cursor (run_bind_eq_ok run_pure_eq_ok run_ensure_eq_ok run_ensure_bind_eq_ok run_take_eq_ok
  run_map_eq_ok run_field_eq_ok)

variable {bs rest : Bytes}

theorem run_u8_eq_ok {v : UInt8} : u8 bs = .ok (v, rest) ↔ bs = [v] ++ rest := by
  have canonical : ∀ field : Bytes, field.length = 1 →
      (fun v : UInt8 => [v]) (field.headD 0) = field := by
    intro field length
    obtain ⟨b, rfl⟩ := List.length_eq_one_iff.1 length
    rfl
  exact run_field_eq_ok (fun v : UInt8 => [v]) rfl rfl canonical

theorem run_u32_eq_ok {v : UInt32} : u32 bs = .ok (v, rest) ↔ bs = putUint32 v ++ rest :=
  run_field_eq_ok putUint32 (length_putUint32 v) (uint32_putUint32 v) fun _ => putUint32_uint32

theorem run_u64_eq_ok {v : UInt64} : u64 bs = .ok (v, rest) ↔ bs = putUint64 v ++ rest :=
  run_field_eq_ok putUint64 (length_putUint64 v) (uint64_putUint64 v) fun _ => putUint64_uint64

theorem run_id_eq_ok {v : BitVec 128} : id bs = .ok (v, rest) ↔ bs = putID v ++ rest :=
  run_field_eq_ok putID (length_putID v) (idOf_putID v) fun _ => putID_idOf

/-- Strings are read as they are written; the bound keeps the length within its field. -/
theorem run_stringValue_eq_ok {max : Nat} (small : max < 2 ^ 32) {value : Bytes} :
    stringValue max bs = .ok (value, rest) ↔
      ValidString max value ∧ bs = putString value ++ rest := by
  simp only [stringValue, run_bind_eq_ok, run_u32_eq_ok, ↓run_ensure_bind_eq_ok, take,
    run_take_eq_ok, run_pure_eq_ok, not_or, ValidString, putString]
  constructor
  · rintro ⟨length, _, rfl, ⟨nonzero, bound⟩, value', _, ⟨size, rfl⟩, ⟨noZero, utf8⟩, rfl, rfl⟩
    rw [size, UInt32.ofNat_toNat]
    have positive : length.toNat ≠ 0 := fun h => nonzero (UInt32.toNat_inj.1 (by simpa using h))
    exact ⟨⟨positive, by omega, by simpa using noZero, by simpa using utf8⟩, by simp⟩
  · rintro ⟨⟨nonempty, bound, noZero, utf8⟩, rfl⟩
    have size : (UInt32.ofNat value.length).toNat = value.length := toNat_ofNat32 (by omega)
    refine ⟨.ofNat value.length, value ++ rest, by simp, ⟨?_, by omega⟩, value, rest,
      ⟨size.symm, rfl⟩, by simp [noZero, utf8], rfl, rfl⟩
    intro zero
    rw [zero] at size
    exact nonempty size.symm

/-- Only complete anchors are read. -/
theorem run_decodeAnchor_eq_ok {anchor : EventAnchor} :
    decodeAnchor bs = .ok (anchor, rest) ↔ anchor.Complete ∧ bs = anchor.bytes ++ rest := by
  simp only [decodeAnchor, run_bind_eq_ok, run_id_eq_ok, take, run_take_eq_ok,
    ↓run_ensure_bind_eq_ok, run_pure_eq_ok, not_or, EventAnchor.Complete, EventAnchor.bytes]
  constructor
  · rintro ⟨id, _, rfl, hash, _, ⟨size, rfl⟩, complete, rfl, rfl⟩
    exact ⟨complete, by simp [putHash_hashOf size]⟩
  · rintro ⟨complete, rfl⟩
    refine ⟨anchor.id, putHash anchor.headerHash ++ rest, by simp, putHash anchor.headerHash, rest,
      ⟨length_putHash _, rfl⟩, ?_⟩
    simpa using complete

theorem run_decodeTopicKey_eq_ok {key : TopicKey} :
    decodeTopicKey bs = .ok (key, rest) ↔ key.Valid ∧ bs = key.bytes ++ rest := by
  simp only [decodeTopicKey, run_bind_eq_ok, run_id_eq_ok, run_u32_eq_ok, ↓run_ensure_bind_eq_ok,
    run_pure_eq_ok, TopicKey.Valid, TopicKey.bytes, UInt32.not_lt]
  constructor
  · rintro ⟨topic, _, rfl, nonzero, partition, _, rfl, bound, rfl, rfl⟩
    exact ⟨⟨nonzero, bound⟩, by simp⟩
  · rintro ⟨⟨nonzero, bound⟩, rfl⟩
    exact ⟨key.topic, _, List.append_assoc .., nonzero, key.partition, rest, rfl, bound, rfl, rfl⟩

/-- An identifier that must not be zero. -/
theorem run_requireID_eq_ok {name : String} {v : BitVec 128} :
    requireID name bs = .ok (v, rest) ↔ v ≠ 0 ∧ bs = putID v ++ rest := by
  simp only [requireID, run_bind_eq_ok, run_id_eq_ok, ↓run_ensure_bind_eq_ok, run_pure_eq_ok]
  constructor
  · rintro ⟨id, _, rfl, nonzero, rfl, rfl⟩
    exact ⟨nonzero, rfl⟩
  · rintro ⟨nonzero, rfl⟩
    exact ⟨v, rest, rfl, nonzero, rfl, rfl⟩

theorem run_expectReserved_eq_ok {u : Unit} :
    expectReserved bs = .ok (u, rest) ↔ bs = [0, 0, 0] ++ rest := by
  simp only [expectReserved, run_bind_eq_ok, take, run_take_eq_ok, run_ensure_eq_ok,
    ne_eq, Decidable.not_not]
  constructor
  · rintro ⟨value, _, ⟨-, rfl⟩, rfl, rfl⟩
    rfl
  · rintro rfl
    exact ⟨[0, 0, 0], rest, ⟨rfl, rfl⟩, rfl, rfl⟩

/-- Nothing may follow an event. -/
theorem run_finishEvent_eq_ok {u : Unit} :
    finishEvent bs = .ok (u, rest) ↔ bs = [] ∧ rest = [] :=
  Cursor.run_finish_eq_ok

/-! ## Reading an encoding back -/

open Cursor (Parses)

theorem parses_u8 (v : UInt8) : Parses u8 [v] v :=
  fun _ => run_u8_eq_ok.2 rfl

theorem parses_u32 (v : UInt32) : Parses u32 (putUint32 v) v :=
  fun _ => run_u32_eq_ok.2 rfl

theorem parses_u64 (v : UInt64) : Parses u64 (putUint64 v) v :=
  fun _ => run_u64_eq_ok.2 rfl

theorem parses_id (v : BitVec 128) : Parses id (putID v) v :=
  fun _ => run_id_eq_ok.2 rfl

/-- A written string is read back. -/
theorem parses_stringValue {max : Nat} (small : max < 2 ^ 32) {value : Bytes}
    (valid : ValidString max value) : Parses (stringValue max) (putString value) value :=
  fun _ => (run_stringValue_eq_ok small).2 ⟨valid, rfl⟩

theorem parses_decodeTopicKey {key : TopicKey} (valid : key.Valid) :
    Parses decodeTopicKey key.bytes key :=
  fun _ => run_decodeTopicKey_eq_ok.2 ⟨valid, rfl⟩

theorem parses_requireID {v : BitVec 128} (nonzero : v ≠ 0) (name : String) :
    Parses (requireID name) (putID v) v :=
  fun _ => run_requireID_eq_ok.2 ⟨nonzero, rfl⟩

theorem parses_expectReserved : Parses expectReserved [0, 0, 0] () :=
  fun _ => run_expectReserved_eq_ok.2 rfl

end EventCursor

end Immulog
