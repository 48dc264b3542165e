import Immulog.Store
import Mathlib.Algebra.BigOperators.Group.List.Basic
import Mathlib.Logic.Relation

/-!
The ledger of disk reservations (`src/storage/disk_pressure.go`).

A call of `reserve` holds the ledger's lock twice: it takes a number for its probe of the
filesystem, and after the probe it decides.  Calls overlap between the two, so that probes
end in any order.
-/

namespace Immulog

open Lib

/-! ## The ledger -/

structure DiskObservation where
  availableBytes : UInt64
  availableInodes : UInt64
  inodesKnown : Bool
  deriving DecidableEq, Repr

inductive DiskReservationKind where
  | user
  | control
  deriving DecidableEq, Repr

structure DiskPressureLedger where
  safetyBytes : UInt64
  userStopBytes : UInt64
  resumeBytes : UInt64
  safetyInodes : UInt64
  userStopInodes : UInt64
  resumeInodes : UInt64
  reservedBytes : UInt64
  reservedInodes : UInt64
  highWaterReservedBytes : UInt64
  highWaterReservedInodes : UInt64
  observation : DiskObservation
  hasObservation : Bool
  pressured : Bool
  probeFailed : Bool
  nextProbe : UInt64
  appliedProbe : UInt64
  deriving DecidableEq, Repr

structure DiskReservation where
  bytes : UInt64
  inodes : UInt64
  deriving DecidableEq, Repr

/-- A call of `reserve` that has its probe's number. -/
structure ReserveCall where
  probeID : UInt64
  kind : DiskReservationKind
  bytes : UInt64
  inodes : UInt64
  deriving DecidableEq, Repr

def diskPressure (detail : String) : GoError :=
  .join [.ofKind .errDiskPressure, .new detail]

def remainingDiskCapacity (available debit : UInt64) : UInt64 :=
  if available ≤ debit then 0 else available - debit

namespace DiskPressureLedger

/-- The ledger of `newDiskPressureLedger` before its first reservation. -/
def new (options : StoreOptions) : DiskPressureLedger where
  safetyBytes := options.diskSafetyBytes
  userStopBytes := options.diskUserStopBytes
  resumeBytes := options.diskResumeBytes
  safetyInodes := options.diskSafetyInodes
  userStopInodes := options.diskUserStopInodes
  resumeInodes := options.diskResumeInodes
  reservedBytes := 0
  reservedInodes := 0
  highWaterReservedBytes := 0
  highWaterReservedInodes := 0
  observation := ⟨0, 0, false⟩
  hasObservation := false
  pressured := false
  probeFailed := false
  nextProbe := 0
  appliedProbe := 0

/-- The first locked section of `reserve`. -/
def takeProbe (ledger : DiskPressureLedger) : DiskPressureLedger :=
  { ledger with nextProbe := ledger.nextProbe + 1 }

/-- A probe that failed, unless a later one has been applied. -/
def failProbe (ledger : DiskPressureLedger) (probeID : UInt64) : DiskPressureLedger :=
  if ledger.appliedProbe ≤ probeID then
    { ledger with appliedProbe := probeID, probeFailed := true, pressured := true }
  else ledger

/-- What a probe saw, unless a later one has been applied. -/
def observe (ledger : DiskPressureLedger) (probeID : UInt64) (observation : DiskObservation) :
    DiskPressureLedger :=
  if ledger.appliedProbe ≤ probeID then
    { ledger with
      appliedProbe := probeID
      observation
      hasObservation := true
      probeFailed := false }
  else ledger

def currentBytes (ledger : DiskPressureLedger) : UInt64 :=
  remainingDiskCapacity ledger.observation.availableBytes ledger.reservedBytes

def currentInodes (ledger : DiskPressureLedger) : UInt64 :=
  remainingDiskCapacity ledger.observation.availableInodes ledger.reservedInodes

def canResume (ledger : DiskPressureLedger) (bytes inodes : UInt64) : Bool :=
  if bytes < ledger.resumeBytes then false
  else ledger.observation.inodesKnown = false ∨ ledger.resumeInodes ≤ inodes

/-- User growth stops below the user-stop floors and resumes at the resume floors. -/
def updatePressure (ledger : DiskPressureLedger) : DiskPressureLedger :=
  let pressured : Bool :=
    if ledger.observation.inodesKnown = true ∧ (ledger.currentInodes < ledger.userStopInodes ∨
        ledger.currentBytes < ledger.userStopBytes) then true
    else if ledger.observation.inodesKnown = false ∧ ledger.currentBytes < ledger.userStopBytes then
      true
    else ledger.pressured
  { ledger with
    pressured :=
      if pressured = true ∧ ledger.canResume ledger.currentBytes ledger.currentInodes = true then
        false
      else pressured }

def refusal (ledger : DiskPressureLedger) (bytes inodes : UInt64) (kind : String) : GoError :=
  let currentBytes := ledger.currentBytes
  let currentInodes := ledger.currentInodes
  if ledger.observation.inodesKnown then
    diskPressure (s!"{kind} needs {bytes} bytes and {inodes} inodes; " ++
      s!"available after reservations is {currentBytes} bytes and {currentInodes} inodes")
  else
    diskPressure (s!"{kind} needs {bytes} bytes; " ++
      s!"available after reservations is {currentBytes} bytes (inode capacity is unavailable)")

/-- The checks of a reservation. -/
def checkReserve (ledger : DiskPressureLedger) (call : ReserveCall) : Except GoError Unit := do
  let afterBytes := remainingDiskCapacity ledger.currentBytes call.bytes
  let afterInodes := remainingDiskCapacity ledger.currentInodes call.inodes
  match call.kind with
  | .user =>
      failIf (ledger.pressured = true ∨ afterBytes < ledger.userStopBytes ∨
          ledger.observation.inodesKnown = true ∧ afterInodes < ledger.userStopInodes)
        (ledger.refusal call.bytes call.inodes "user growth")
  | .control =>
      failIf (afterBytes < ledger.safetyBytes ∨
          ledger.observation.inodesKnown = true ∧ afterInodes < ledger.safetyInodes)
        (ledger.refusal call.bytes call.inodes "control growth")
  failIf (maxUint64 < ledger.reservedBytes.toNat + call.bytes.toNat ∨
      maxUint64 < ledger.reservedInodes.toNat + call.inodes.toNat)
    (diskPressure "disk reservation arithmetic overflow")

def debit (ledger : DiskPressureLedger) (bytes inodes : UInt64) : DiskPressureLedger :=
  { ledger with
    reservedBytes := ledger.reservedBytes + bytes
    reservedInodes := ledger.reservedInodes + inodes
    highWaterReservedBytes := max ledger.highWaterReservedBytes (ledger.reservedBytes + bytes)
    highWaterReservedInodes := max ledger.highWaterReservedInodes (ledger.reservedInodes + inodes) }

/-- The second locked section of `reserve`, after the probe. -/
def conclude (ledger : DiskPressureLedger) (call : ReserveCall)
    (probed : Except GoError DiskObservation) :
    DiskPressureLedger × Except GoError DiskReservation :=
  match probed with
  | .error e =>
      (ledger.failProbe call.probeID,
        .error (.join [.ofKind .errDiskPressure, .new "filesystem capacity probe", e]))
  | .ok observation =>
      let ledger := ledger.observe call.probeID observation
      if ledger.hasObservation = false then
        ({ ledger with pressured := true },
          .error (diskPressure "filesystem capacity observation is unavailable"))
      else
        let ledger := ledger.updatePressure
        match ledger.checkReserve call with
        | .error e => (ledger, .error e)
        | .ok _ => (ledger.debit call.bytes call.inodes, .ok ⟨call.bytes, call.inodes⟩)

/-- `diskReservation.release`, which takes effect once. -/
def release (ledger : DiskPressureLedger) (reservation : DiskReservation) : DiskPressureLedger :=
  { ledger with
    reservedBytes :=
      if reservation.bytes ≤ ledger.reservedBytes then ledger.reservedBytes - reservation.bytes
      else 0
    reservedInodes :=
      if reservation.inodes ≤ ledger.reservedInodes then ledger.reservedInodes - reservation.inodes
      else 0 }

end DiskPressureLedger

/-! ## Overlapping calls -/

/-- A ledger with the calls between their two sections, the reservations that are granted and
not released, and the probes applied so far, newest first. -/
structure DiskSystem where
  ledger : DiskPressureLedger
  calls : List ReserveCall
  granted : List DiskReservation
  applied : List (UInt64 × Except GoError DiskObservation)

inductive DiskAction where
  | take (kind : DiskReservationKind) (bytes inodes : UInt64)
  | conclude (call : ReserveCall) (probed : Except GoError DiskObservation)
  | release (reservation : DiskReservation)

namespace DiskSystem

def start (options : StoreOptions) : DiskSystem :=
  ⟨.new options, [], [], []⟩

inductive Step : DiskSystem → DiskAction → DiskSystem → Prop where
  | take {s : DiskSystem} {kind : DiskReservationKind} {bytes inodes : UInt64} :
      Step s (.take kind bytes inodes)
        { s with
          ledger := s.ledger.takeProbe
          calls := ⟨s.ledger.nextProbe + 1, kind, bytes, inodes⟩ :: s.calls }
  | conclude {s : DiskSystem} {call : ReserveCall} {probed : Except GoError DiskObservation} :
      call ∈ s.calls →
      Step s (.conclude call probed)
        { ledger := (s.ledger.conclude call probed).1
          calls := s.calls.erase call
          granted := (s.ledger.conclude call probed).2.toOption.toList ++ s.granted
          applied :=
            if s.ledger.appliedProbe ≤ call.probeID then (call.probeID, probed) :: s.applied
            else s.applied }
  | release {s : DiskSystem} {reservation : DiskReservation} : reservation ∈ s.granted →
      Step s (.release reservation)
        { s with
          ledger := s.ledger.release reservation
          granted := s.granted.erase reservation }

def Reachable (options : StoreOptions) (s : DiskSystem) : Prop :=
  Relation.ReflTransGen (fun s s' => ∃ action, Step s action s') (start options) s

end DiskSystem

/-! ## Floors -/

/-- The floors of one resource. -/
structure DiskFloors (safety userStop resume : UInt64) : Prop where
  safety_pos : 0 < safety
  safety_lt : safety < userStop
  userStop_lt : userStop < resume

/-- The floors that `validate` asks for. -/
structure StoreOptions.Floored (options : StoreOptions) : Prop where
  bytes : DiskFloors options.diskSafetyBytes options.diskUserStopBytes options.diskResumeBytes
  inodes : DiskFloors options.diskSafetyInodes options.diskUserStopInodes options.diskResumeInodes

theorem StoreOptions.floored_normalize {options : StoreOptions}
    (valid : options.normalize.validate = .ok ()) : options.normalize.Floored := by
  simp only [validate, bind_eq_ok, failIf_eq_ok, exists_const, not_or, UInt64.not_le] at valid
  obtain ⟨-, -, -, -, -, -, bytes, inodes, -⟩ := valid
  refine ⟨⟨?_, bytes.1, bytes.2⟩, ⟨?_, inodes.1, inodes.2⟩⟩
  · exact UInt64.pos_iff_ne_zero.2 (orDefault_ne_zero (by decide))
  · exact UInt64.pos_iff_ne_zero.2 (orDefault_ne_zero (by decide))

theorem toNat_remainingDiskCapacity (available debit : UInt64) :
    (remainingDiskCapacity available debit).toNat = available.toNat - debit.toNat := by
  unfold remainingDiskCapacity
  split
  · next spent =>
    rw [UInt64.le_iff_toNat_le] at spent
    simp only [UInt64.toNat_zero]
    omega
  · next left =>
    rw [UInt64.not_le] at left
    exact UInt64.toNat_sub_of_le _ _ (UInt64.le_of_lt left)

/-- A positive floor is kept exactly when the debit and the floor are available together. -/
theorem le_remainingDiskCapacity {floor available debit : UInt64} (pos : 0 < floor) :
    floor ≤ remainingDiskCapacity available debit ↔
      floor.toNat + debit.toNat ≤ available.toNat := by
  rw [UInt64.lt_iff_toNat_lt, UInt64.toNat_zero] at pos
  rw [UInt64.le_iff_toNat_le, toNat_remainingDiskCapacity]
  omega

theorem le_remainingDiskCapacity_twice {floor available debit more : UInt64} (pos : 0 < floor) :
    floor ≤ remainingDiskCapacity (remainingDiskCapacity available debit) more ↔
      floor.toNat + (debit.toNat + more.toNat) ≤ available.toNat := by
  rw [le_remainingDiskCapacity pos, toNat_remainingDiskCapacity]
  rw [UInt64.lt_iff_toNat_lt, UInt64.toNat_zero] at pos
  omega

namespace DiskPressureLedger

variable {ledger : DiskPressureLedger} {options : StoreOptions}

/-- The observation has room for the reservations and these floors. -/
def Leaves (ledger : DiskPressureLedger) (bytes inodes : UInt64) : Prop :=
  bytes.toNat + ledger.reservedBytes.toNat ≤ ledger.observation.availableBytes.toNat ∧
    (ledger.observation.inodesKnown = true →
      inodes.toNat + ledger.reservedInodes.toNat ≤ ledger.observation.availableInodes.toNat)

/-- The ledger has the floors of the options. -/
def SetUp (options : StoreOptions) (ledger : DiskPressureLedger) : Prop :=
  ledger.safetyBytes = options.diskSafetyBytes ∧ ledger.userStopBytes = options.diskUserStopBytes ∧
    ledger.resumeBytes = options.diskResumeBytes ∧
    ledger.safetyInodes = options.diskSafetyInodes ∧
    ledger.userStopInodes = options.diskUserStopInodes ∧
    ledger.resumeInodes = options.diskResumeInodes

/-- Pressure ends where both resume levels are left free. -/
theorem canResume_iff (bytes : 0 < ledger.resumeBytes) (inodes : 0 < ledger.resumeInodes) :
    ledger.canResume ledger.currentBytes ledger.currentInodes = true ↔
      ledger.Leaves ledger.resumeBytes ledger.resumeInodes := by
  unfold canResume Leaves currentBytes currentInodes
  rw [← le_remainingDiskCapacity bytes, ← le_remainingDiskCapacity inodes]
  split
  · next low => simp [UInt64.not_le.2 low]
  · next room =>
    rw [UInt64.not_lt] at room
    cases ledger.observation.inodesKnown <;> simp [room]

theorem pressured_updatePressure (pressured : ledger.pressured = true)
    (low : ¬ ledger.canResume ledger.currentBytes ledger.currentInodes = true) :
    ledger.updatePressure.pressured = true := by
  unfold updatePressure
  simp only [low, pressured]
  split
  · rfl
  · split <;> rfl

/-- The floors in bytes and inodes that a reservation leaves. -/
def floors (options : StoreOptions) : DiskReservationKind → UInt64 × UInt64
  | .user => (options.diskUserStopBytes, options.diskUserStopInodes)
  | .control => (options.diskSafetyBytes, options.diskSafetyInodes)

theorem floors_pos (floored : options.Floored) (kind : DiskReservationKind) :
    0 < (floors options kind).1 ∧ 0 < (floors options kind).2 := by
  cases kind with
  | user =>
      exact ⟨UInt64.lt_trans floored.bytes.safety_pos floored.bytes.safety_lt,
        UInt64.lt_trans floored.inodes.safety_pos floored.inodes.safety_lt⟩
  | control => exact ⟨floored.bytes.safety_pos, floored.inodes.safety_pos⟩

/-- A reservation is admitted where both floors stay free and, for users, without pressure. -/
theorem checkReserve_eq_ok (setUp : ledger.SetUp options) {call : ReserveCall} :
    ledger.checkReserve call = .ok () ↔
      (call.kind = .user → ledger.pressured = false) ∧
      (floors options call.kind).1 ≤ remainingDiskCapacity ledger.currentBytes call.bytes ∧
      (ledger.observation.inodesKnown = true →
        (floors options call.kind).2 ≤ remainingDiskCapacity ledger.currentInodes call.inodes) ∧
      ledger.reservedBytes.toNat + call.bytes.toNat < 2 ^ 64 ∧
      ledger.reservedInodes.toNat + call.inodes.toNat < 2 ^ 64 := by
  obtain ⟨safetyBytes, stopBytes, -, safetyInodes, stopInodes, -⟩ := setUp
  have fits (n : Nat) : n ≤ maxUint64 ↔ n < 2 ^ 64 := Nat.lt_succ_iff.symm
  unfold checkReserve
  cases kind : call.kind with
  | user =>
      simp only [bind_eq_ok, failIf_eq_ok, exists_const, not_or, not_and, UInt64.not_lt, Nat.not_lt,
        Bool.not_eq_true, fits, floors, stopBytes, stopInodes, and_assoc, forall_const]
  | control =>
      simp only [bind_eq_ok, failIf_eq_ok, exists_const, not_or, not_and, UInt64.not_lt, Nat.not_lt,
        fits, floors, safetyBytes, safetyInodes, and_assoc, reduceCtorEq, false_implies, true_and]

/-- What a reservation that is admitted leaves on the disk. -/
theorem leaves_debit (floored : options.Floored) (setUp : ledger.SetUp options) {call : ReserveCall}
    (admitted : ledger.checkReserve call = .ok ()) :
    (ledger.debit call.bytes call.inodes).Leaves (floors options call.kind).1
      (floors options call.kind).2 := by
  obtain ⟨-, bytes, inodes, fewBytes, fewInodes⟩ := (checkReserve_eq_ok setUp).1 admitted
  obtain ⟨posBytes, posInodes⟩ := floors_pos floored call.kind
  refine ⟨?_, fun known => ?_⟩
  · simp only [debit, UInt64.toNat_add, Nat.mod_eq_of_lt fewBytes]
    exact (le_remainingDiskCapacity_twice posBytes).1 bytes
  · simp only [debit, UInt64.toNat_add, Nat.mod_eq_of_lt fewInodes]
    exact (le_remainingDiskCapacity_twice posInodes).1 (inodes known)

@[simp] theorem pressured_observe (probeID : UInt64) (observation : DiskObservation) :
    (ledger.observe probeID observation).pressured = ledger.pressured := by
  unfold observe
  split <;> rfl

theorem pressured_failProbe (probeID : UInt64) (pressured : ledger.pressured = true) :
    (ledger.failProbe probeID).pressured = true := by
  unfold failProbe
  split
  · rfl
  · exact pressured

theorem SetUp.observe (setUp : ledger.SetUp options) (probeID : UInt64)
    (observation : DiskObservation) : (ledger.observe probeID observation).SetUp options := by
  unfold DiskPressureLedger.observe
  split
  · exact setUp
  · exact setUp

theorem SetUp.updatePressure (setUp : ledger.SetUp options) :
    ledger.updatePressure.SetUp options :=
  setUp

/-- What the second section of `reserve` can do. -/
theorem conclude_cases (call : ReserveCall) (probed : Except GoError DiskObservation) :
    (∃ e answer, probed = .error e ∧
      ledger.conclude call probed = (ledger.failProbe call.probeID, .error answer)) ∨
    ∃ observation, probed = .ok observation ∧
      (((ledger.observe call.probeID observation).hasObservation = false ∧ ∃ answer,
        ledger.conclude call probed =
          ({ ledger.observe call.probeID observation with pressured := true }, .error answer)) ∨
      (∃ answer, ledger.conclude call probed =
        ((ledger.observe call.probeID observation).updatePressure, .error answer)) ∨
      ((ledger.observe call.probeID observation).updatePressure.checkReserve call = .ok () ∧
        ledger.conclude call probed =
          ((ledger.observe call.probeID observation).updatePressure.debit call.bytes call.inodes,
            .ok ⟨call.bytes, call.inodes⟩))) := by
  cases probed with
  | error e => exact .inl ⟨e, _, rfl, rfl⟩
  | ok observation =>
      refine .inr ⟨observation, rfl, ?_⟩
      unfold conclude
      dsimp only
      split
      · next unavailable => exact .inl ⟨unavailable, _, rfl⟩
      · split
        · exact .inr (.inl ⟨_, rfl⟩)
        · next admitted => exact .inr (.inr ⟨admitted, rfl⟩)

/-- The ledger has its floors, and the granted reservations add up without wrapping. -/
structure Balanced (options : StoreOptions) (ledger : DiskPressureLedger)
    (granted : List DiskReservation) : Prop where
  setUp : ledger.SetUp options
  bytes : ledger.reservedBytes.toNat = (granted.map fun r => r.bytes.toNat).sum
  inodes : ledger.reservedInodes.toNat = (granted.map fun r => r.inodes.toNat).sum

namespace Balanced

variable {granted : List DiskReservation}

theorem observe (balanced : ledger.Balanced options granted) (probeID : UInt64)
    (observation : DiskObservation) :
    (ledger.observe probeID observation).Balanced options granted := by
  unfold DiskPressureLedger.observe
  split
  · exact ⟨balanced.setUp, balanced.bytes, balanced.inodes⟩
  · exact balanced

theorem failProbe (balanced : ledger.Balanced options granted) (probeID : UInt64) :
    (ledger.failProbe probeID).Balanced options granted := by
  unfold DiskPressureLedger.failProbe
  split
  · exact ⟨balanced.setUp, balanced.bytes, balanced.inodes⟩
  · exact balanced

/-- A grant is debited. -/
theorem debit (balanced : ledger.Balanced options granted) {call : ReserveCall}
    (admitted : ledger.checkReserve call = .ok ()) :
    (ledger.debit call.bytes call.inodes).Balanced options
      (⟨call.bytes, call.inodes⟩ :: granted) := by
  obtain ⟨-, -, -, fewBytes, fewInodes⟩ := (checkReserve_eq_ok balanced.setUp).1 admitted
  refine ⟨balanced.setUp, ?_, ?_⟩
  · simp only [DiskPressureLedger.debit, UInt64.toNat_add, Nat.mod_eq_of_lt fewBytes,
      List.map_cons, List.sum_cons, ← balanced.bytes]
    omega
  · simp only [DiskPressureLedger.debit, UInt64.toNat_add, Nat.mod_eq_of_lt fewInodes,
      List.map_cons, List.sum_cons, ← balanced.inodes]
    omega

/-- A release gives the grant back. -/
theorem release (balanced : ledger.Balanced options granted) {reservation : DiskReservation}
    (mem : reservation ∈ granted) :
    (ledger.release reservation).Balanced options (granted.erase reservation) := by
  have bytes := List.sum_map_erase (fun r : DiskReservation => r.bytes.toNat) mem
  have inodes := List.sum_map_erase (fun r : DiskReservation => r.inodes.toNat) mem
  rw [← balanced.bytes] at bytes
  rw [← balanced.inodes] at inodes
  -- what is released is part of the sum, so that the subtraction is exact
  have fewBytes : reservation.bytes ≤ ledger.reservedBytes := by
    rw [UInt64.le_iff_toNat_le]
    omega
  have fewInodes : reservation.inodes ≤ ledger.reservedInodes := by
    rw [UInt64.le_iff_toNat_le]
    omega
  refine ⟨balanced.setUp, ?_, ?_⟩
  · simp only [DiskPressureLedger.release, if_pos fewBytes, UInt64.toNat_sub_of_le _ _ fewBytes]
    omega
  · simp only [DiskPressureLedger.release, if_pos fewInodes, UInt64.toNat_sub_of_le _ _ fewInodes]
    omega

/-- A call that concludes keeps the balance, whatever its probe says. -/
theorem conclude (balanced : ledger.Balanced options granted) (call : ReserveCall)
    (probed : Except GoError DiskObservation) :
    (ledger.conclude call probed).1.Balanced options
      ((ledger.conclude call probed).2.toOption.toList ++ granted) := by
  rcases ledger.conclude_cases call probed with ⟨e, answer, rfl, after⟩ |
    ⟨observation, rfl, ⟨-, answer, after⟩ | ⟨answer, after⟩ | ⟨admitted, after⟩⟩
  · rw [after]
    exact balanced.failProbe _
  · have observed := balanced.observe call.probeID observation
    rw [after]
    exact ⟨observed.setUp, observed.bytes, observed.inodes⟩
  · have observed := balanced.observe call.probeID observation
    rw [after]
    exact ⟨observed.setUp, observed.bytes, observed.inodes⟩
  · have observed := balanced.observe call.probeID observation
    have updated : (ledger.observe call.probeID observation).updatePressure.Balanced options
        granted := ⟨observed.setUp, observed.bytes, observed.inodes⟩
    rw [after]
    exact updated.debit admitted

end Balanced

/-- A reservation is granted on what the probes have shown so far. -/
theorem conclude_granted {call : ReserveCall} {probed : Except GoError DiskObservation}
    {reservation : DiskReservation} (granted : (ledger.conclude call probed).2 = .ok reservation) :
    ∃ observation, probed = .ok observation ∧
      (ledger.observe call.probeID observation).updatePressure.checkReserve call = .ok () ∧
      ledger.conclude call probed =
        ((ledger.observe call.probeID observation).updatePressure.debit call.bytes call.inodes,
          .ok ⟨call.bytes, call.inodes⟩) := by
  rcases ledger.conclude_cases call probed with ⟨e, answer, rfl, after⟩ |
    ⟨observation, rfl, ⟨-, answer, after⟩ | ⟨answer, after⟩ | ⟨admitted, after⟩⟩
  · rw [after] at granted
    cases granted
  · rw [after] at granted
    cases granted
  · rw [after] at granted
    cases granted
  · exact ⟨observation, rfl, admitted, after⟩

/-- The probes applied so far, newest first, and what the ledger has of the newest. -/
def GoesBy (ledger : DiskPressureLedger) : List (UInt64 × Except GoError DiskObservation) → Prop
  | [] => ledger.appliedProbe = 0
  | (n, .error _) :: older =>
      ledger.appliedProbe = n ∧ ledger.probeFailed = true ∧ ∀ probe ∈ older, probe.1 ≤ n
  | (n, .ok observation) :: older =>
      ledger.appliedProbe = n ∧ ledger.probeFailed = false ∧ ledger.observation = observation ∧
        ∀ probe ∈ older, probe.1 ≤ n

namespace GoesBy

variable {applied : List (UInt64 × Except GoError DiskObservation)}

theorem le_applied (goesBy : ledger.GoesBy applied) :
    ∀ probe ∈ applied, probe.1 ≤ ledger.appliedProbe := by
  match applied with
  | [] =>
      intro probe mem
      cases mem
  | (n, .error _) :: older =>
      obtain ⟨rfl, -, newest⟩ := goesBy
      simpa using newest
  | (n, .ok _) :: older =>
      obtain ⟨rfl, -, -, newest⟩ := goesBy
      simpa using newest

theorem failProbe (goesBy : ledger.GoesBy applied) (probeID : UInt64) (e : GoError) :
    (ledger.failProbe probeID).GoesBy
      (if ledger.appliedProbe ≤ probeID then (probeID, .error e) :: applied else applied) := by
  unfold DiskPressureLedger.failProbe
  split
  · next later =>
    exact ⟨rfl, rfl, fun probe mem => UInt64.le_trans (goesBy.le_applied probe mem) later⟩
  · exact goesBy

theorem observe (goesBy : ledger.GoesBy applied) (probeID : UInt64)
    (observation : DiskObservation) :
    (ledger.observe probeID observation).GoesBy
      (if ledger.appliedProbe ≤ probeID then (probeID, .ok observation) :: applied
        else applied) := by
  unfold DiskPressureLedger.observe
  split
  · next later =>
    exact ⟨rfl, rfl, rfl, fun probe mem => UInt64.le_trans (goesBy.le_applied probe mem) later⟩
  · exact goesBy

/-- The rest of the ledger does not matter. -/
theorem congr {ledger' : DiskPressureLedger} (goesBy : ledger.GoesBy applied)
    (same : ledger'.appliedProbe = ledger.appliedProbe)
    (failed : ledger'.probeFailed = ledger.probeFailed)
    (observation : ledger'.observation = ledger.observation) : ledger'.GoesBy applied := by
  unfold GoesBy at goesBy ⊢
  rw [same, failed, observation]
  exact goesBy

/-- A conclusion applies its probe unless a later one has been applied. -/
theorem conclude (goesBy : ledger.GoesBy applied) (call : ReserveCall)
    (probed : Except GoError DiskObservation) :
    (ledger.conclude call probed).1.GoesBy
      (if ledger.appliedProbe ≤ call.probeID then (call.probeID, probed) :: applied
        else applied) := by
  rcases ledger.conclude_cases call probed with ⟨e, answer, rfl, after⟩ |
    ⟨observation, rfl, ⟨-, answer, after⟩ | ⟨answer, after⟩ | ⟨-, after⟩⟩
  · rw [after]
    exact goesBy.failProbe _ _
  · rw [after]
    exact (goesBy.observe call.probeID observation).congr rfl rfl rfl
  · rw [after]
    exact (goesBy.observe call.probeID observation).congr rfl rfl rfl
  · rw [after]
    exact (goesBy.observe call.probeID observation).congr rfl rfl rfl

end GoesBy

end DiskPressureLedger

/-! ## Runs -/

namespace DiskSystem

variable {s s' : DiskSystem} {options : StoreOptions} {action : DiskAction}

/-- The ledger is balanced in all reachable states. -/
theorem Reachable.balanced (reached : Reachable options s) :
    s.ledger.Balanced options s.granted := by
  induction reached with
  | refl => exact ⟨⟨rfl, rfl, rfl, rfl, rfl, rfl⟩, rfl, rfl⟩
  | tail _ step ih =>
      obtain ⟨action, step⟩ := step
      cases step with
      | take => exact ⟨ih.setUp, ih.bytes, ih.inodes⟩
      | conclude _ => exact ih.conclude _ _
      | release mem => exact ih.release mem

/-- Its observation is that of the latest probe that was applied. -/
theorem Reachable.goesBy (reached : Reachable options s) : s.ledger.GoesBy s.applied := by
  induction reached with
  | refl => rfl
  | tail _ step ih =>
      obtain ⟨action, step⟩ := step
      cases step with
      | take => exact ih.congr rfl rfl rfl
      | conclude _ => exact ih.conclude _ _
      | release mem => exact ih.congr rfl rfl rfl

/-- A decision on an observation with room for the resume floors. -/
def SeesRoom (options : StoreOptions) (s : DiskSystem) : DiskAction → Prop
  | .conclude call (.ok observation) =>
      (s.ledger.observe call.probeID observation).Leaves options.diskResumeBytes
        options.diskResumeInodes
  | _ => False

/-- Steps none of which decides with room to resume. -/
def UntilRoom (options : StoreOptions) : DiskSystem → DiskSystem → Prop :=
  Relation.ReflTransGen fun s s' => ∃ action, Step s action s' ∧ ¬ s.SeesRoom options action

theorem canResume_observe (floored : options.Floored) (setUp : s.ledger.SetUp options)
    {call : ReserveCall} {observation : DiskObservation}
    (resumes : (s.ledger.observe call.probeID observation).canResume
      (s.ledger.observe call.probeID observation).currentBytes
      (s.ledger.observe call.probeID observation).currentInodes = true) :
    s.SeesRoom options (.conclude call (.ok observation)) := by
  obtain ⟨-, -, bytes, -, -, inodes⟩ := setUp.observe call.probeID observation
  have posBytes := UInt64.lt_trans (DiskPressureLedger.floors_pos floored .user).1
    floored.bytes.userStop_lt
  have posInodes := UInt64.lt_trans (DiskPressureLedger.floors_pos floored .user).2
    floored.inodes.userStop_lt
  rw [← bytes] at posBytes
  rw [← inodes] at posInodes
  have leaves := (DiskPressureLedger.canResume_iff posBytes posInodes).1 resumes
  rw [bytes, inodes] at leaves
  exact leaves

/-- Pressure lasts until a call sees room. -/
theorem Step.pressured (floored : options.Floored) (setUp : s.ledger.SetUp options)
    (step : s.Step action s') (closed : ¬ s.SeesRoom options action)
    (pressured : s.ledger.pressured = true) : s'.ledger.pressured = true := by
  cases step with
  | take => exact pressured
  | release mem => exact pressured
  | @conclude call probed mem =>
      rcases s.ledger.conclude_cases call probed with ⟨e, answer, rfl, after⟩ |
        ⟨observation, rfl, cases⟩
      · simp only [after]
        exact DiskPressureLedger.pressured_failProbe _ pressured
      have still : (s.ledger.observe call.probeID observation).updatePressure.pressured = true := by
        refine DiskPressureLedger.pressured_updatePressure ?_ ?_
        · simpa using pressured
        · exact fun resumes => closed (canResume_observe floored setUp resumes)
      rcases cases with ⟨-, answer, after⟩ | ⟨answer, after⟩ | ⟨-, after⟩
      · simp only [after]
      · simp only [after]
        exact still
      · simp only [after]
        exact still

theorem Reachable.untilRoom (reached : Reachable options s) (run : UntilRoom options s s') :
    Reachable options s' := by
  induction run with
  | refl => exact reached
  | tail _ step ih =>
      obtain ⟨action, step, -⟩ := step
      exact Relation.ReflTransGen.tail ih ⟨action, step⟩

/-- It lasts over runs in which none does. -/
theorem UntilRoom.pressured (floored : options.Floored) (reached : Reachable options s)
    (run : UntilRoom options s s') (pressured : s.ledger.pressured = true) :
    s'.ledger.pressured = true := by
  induction run with
  | refl => exact pressured
  | tail before step ih =>
      obtain ⟨action, step, closed⟩ := step
      exact step.pressured floored (reached.untilRoom before).balanced.setUp closed ih

/-- Over any interleaving, the ledger's totals are the sums of the granted reservations, a
reservation leaves the floors of its kind on the observation that it was decided on, and under
pressure no user reservation is granted before a decision sees room to resume. -/
theorem ledger_safe (floored : options.Floored) (reached : Reachable options s) :
    s.ledger.reservedBytes.toNat = (s.granted.map fun r => r.bytes.toNat).sum ∧
      s.ledger.reservedInodes.toNat = (s.granted.map fun r => r.inodes.toNat).sum ∧
      (∀ call probed s', Step s (.conclude call probed) s' →
        ∀ reservation, (s.ledger.conclude call probed).2 = .ok reservation →
          reservation = ⟨call.bytes, call.inodes⟩ ∧
          s'.ledger.Leaves (DiskPressureLedger.floors options call.kind).1
            (DiskPressureLedger.floors options call.kind).2) ∧
      (s.ledger.pressured = true → ∀ s', UntilRoom options s s' →
        s'.ledger.pressured = true ∧
        ∀ call probed reservation, call.kind = .user →
          (s'.ledger.conclude call probed).2 = .ok reservation →
          s'.SeesRoom options (.conclude call probed)) := by
  have balanced := reached.balanced
  refine ⟨balanced.bytes, balanced.inodes, ?_, ?_⟩
  · intro call probed s' step reservation granted
    obtain ⟨observation, rfl, admitted, after⟩ := DiskPressureLedger.conclude_granted granted
    rw [after] at granted
    cases granted
    have setUp := (balanced.setUp.observe call.probeID observation).updatePressure
    refine ⟨rfl, ?_⟩
    cases step with
    | conclude mem =>
        simp only [after]
        exact DiskPressureLedger.leaves_debit floored setUp admitted
  · intro pressured s' run
    have still := run.pressured floored reached pressured
    refine ⟨still, ?_⟩
    intro call probed reservation user granted
    obtain ⟨observation, rfl, admitted, -⟩ := DiskPressureLedger.conclude_granted granted
    have setUp := (reached.untilRoom run).balanced.setUp
    have calm := ((DiskPressureLedger.checkReserve_eq_ok (setUp.observe _ _).updatePressure).1
      admitted).1 user
    by_contra closed
    have held : (s'.ledger.observe call.probeID observation).pressured = true := by
      simpa using still
    have pressured := DiskPressureLedger.pressured_updatePressure held
      fun resumes => closed (canResume_observe floored setUp resumes)
    rw [calm] at pressured
    cases pressured

theorem floored_defaults : StoreOptions.defaults.Floored :=
  StoreOptions.floored_normalize rfl

def roomy : DiskObservation := ⟨1024 * 1024 * 1024, 1000, true⟩

/-- A ledger with one probe behind it, and two calls that have their numbers. -/
def twoCalls : DiskSystem where
  ledger :=
    { DiskPressureLedger.new .defaults with
      observation := roomy
      hasObservation := true
      nextProbe := 3
      appliedProbe := 1 }
  calls := [⟨3, .user, 1, 1⟩, ⟨2, .user, 1, 1⟩]
  granted := [⟨0, 0⟩]
  applied := [(1, .ok roomy)]

theorem twoCalls_reached : Reachable .defaults twoCalls := by
  refine .tail (.tail (.tail (.tail .refl ⟨.take .control 0 0, .take⟩)
    ⟨.conclude ⟨1, .control, 0, 0⟩ (.ok roomy), .conclude ?_⟩)
    ⟨.take .user 1 1, .take⟩) ⟨.take .user 1 1, .take⟩
  exact List.mem_singleton.2 rfl

/-- The later call has got its reservation, another one has seen a full disk, and a third one has
its number. -/
def pressed : DiskSystem where
  ledger := ((twoCalls.ledger.conclude ⟨3, .user, 1, 1⟩ (.ok roomy)).1.takeProbe.conclude
    ⟨4, .user, 1, 1⟩ (.ok ⟨0, 0, true⟩)).1.takeProbe
  calls := [⟨5, .user, 1, 1⟩, ⟨2, .user, 1, 1⟩]
  granted := [⟨1, 1⟩, ⟨0, 0⟩]
  applied := [(4, .ok ⟨0, 0, true⟩), (3, .ok roomy), (1, .ok roomy)]

theorem pressed_reached : Reachable .defaults pressed :=
  .tail (.tail (.tail (.tail twoCalls_reached
    ⟨.conclude ⟨3, .user, 1, 1⟩ (.ok roomy), .conclude (List.mem_cons_self ..)⟩)
    ⟨.take .user 1 1, .take⟩)
    ⟨.conclude ⟨4, .user, 1, 1⟩ (.ok ⟨0, 0, true⟩), .conclude (List.mem_cons_self ..)⟩)
    ⟨.take .user 1 1, .take⟩

/-- Under pressure, with a reservation granted; the next one is granted on seeing room. -/
theorem ledger_safe_pressed :
    pressed.ledger.pressured = true ∧
      1 = (pressed.granted.map fun r => r.bytes.toNat).sum ∧
      (pressed.ledger.conclude ⟨5, .user, 1, 1⟩ (.ok roomy)).1.Leaves
        StoreOptions.defaults.diskUserStopBytes StoreOptions.defaults.diskUserStopInodes ∧
      pressed.SeesRoom .defaults (.conclude ⟨5, .user, 1, 1⟩ (.ok roomy)) := by
  obtain ⟨bytes, -, grants, resumes⟩ := ledger_safe floored_defaults pressed_reached
  have granted : (pressed.ledger.conclude ⟨5, .user, 1, 1⟩ (.ok roomy)).2 = .ok ⟨1, 1⟩ := rfl
  exact ⟨rfl, bytes, (grants _ _ _ (.conclude (List.mem_cons_self ..)) _ granted).2,
    (resumes rfl _ .refl).2 _ _ _ rfl granted⟩

/-! ## Fresh observations -/

/-- The ledger goes by a successful probe that is not older than the call's own probe and not
older than any probe applied so far. -/
def Fresh (s : DiskSystem) (call : ReserveCall) : Prop :=
  ∃ n older, s.applied = (n, .ok s.ledger.observation) :: older ∧ call.probeID ≤ n ∧
    ∀ probe ∈ older, probe.1 ≤ n

/-- The newest probe applied is later than the call's own probe, and it failed. -/
def Overtaken (s : DiskSystem) (call : ReserveCall) : Prop :=
  call.probeID < s.ledger.appliedProbe ∧ s.ledger.probeFailed = true

/-- A conclusion that grants a reservation or ends the pressure. -/
def Justified (s : DiskSystem) (call : ReserveCall) (probed : Except GoError DiskObservation) :
    Prop :=
  (∃ reservation, (s.ledger.conclude call probed).2 = .ok reservation) ∨
    (s.ledger.pressured = true ∧ (s.ledger.conclude call probed).1.pressured = false)

theorem Justified.probed {call : ReserveCall} {probed : Except GoError DiskObservation}
    (justified : s.Justified call probed) : ∃ observation, probed = .ok observation := by
  rcases justified with ⟨reservation, granted⟩ | ⟨pressured, calm⟩
  · obtain ⟨observation, rfl, -⟩ := DiskPressureLedger.conclude_granted granted
    exact ⟨observation, rfl⟩
  · rcases s.ledger.conclude_cases call probed with ⟨e, answer, rfl, after⟩ | ⟨observation, rfl, -⟩
    · rw [after, DiskPressureLedger.pressured_failProbe _ pressured] at calm
      cases calm
    · exact ⟨observation, rfl⟩

/-- In every reachable state, a conclusion that grants a reservation or ends the pressure goes
by a fresh observation exactly when its probe was not overtaken by one that failed. -/
theorem fresh_iff (reached : Reachable options s) {call : ReserveCall}
    {probed : Except GoError DiskObservation} (step : s.Step (.conclude call probed) s')
    (justified : s.Justified call probed) : s'.Fresh call ↔ ¬ s.Overtaken call := by
  obtain ⟨observation, rfl⟩ := justified.probed
  have before := reached.goesBy
  have reached' : Reachable options s' := .tail reached ⟨_, step⟩
  have after := reached'.goesBy
  cases step with
  | conclude mem =>
      by_cases later : s.ledger.appliedProbe ≤ call.probeID
      · simp only [if_pos later] at after
        obtain ⟨-, -, same, newest⟩ := after
        refine iff_of_true ⟨call.probeID, s.applied, ?_, UInt64.le_refl _, newest⟩ ?_
        · simp only [if_pos later, same]
        · exact fun overtaken => UInt64.not_lt.2 later overtaken.1
      · -- the ledger still goes by the newest probe applied before
        have earlier := UInt64.not_le.1 later
        simp only [if_neg later] at after
        rcases applied : s.applied with _ | ⟨⟨n, e | seen⟩, older⟩
        · rw [applied] at before
          rw [before] at earlier
          exact absurd earlier (UInt64.not_lt.2 (UInt64.zero_le))
        · rw [applied] at before
          refine iff_of_false ?_ (not_not_intro ⟨earlier, before.2.1⟩)
          intro fresh
          obtain ⟨m, others, newest, -⟩ := fresh
          simp only [if_neg later] at newest
          cases newest
        · rw [applied] at before after
          obtain ⟨last, calm, -, newest⟩ := before
          refine iff_of_true ⟨n, older, ?_, ?_, newest⟩ ?_
          · simp only [if_neg later, after.2.2.1]
          · rw [← last]
            exact UInt64.le_of_lt earlier
          · intro overtaken
            have failed := overtaken.2
            rw [calm] at failed
            cases failed

/-- The call that observes last is fresh, and was not overtaken. -/
theorem fresh_iff_twoCalls :
    DiskSystem.Fresh
        { ledger := (twoCalls.ledger.conclude ⟨3, .user, 1, 1⟩ (.ok roomy)).1
          calls := [⟨2, .user, 1, 1⟩]
          granted := [⟨1, 1⟩, ⟨0, 0⟩]
          applied := [(3, .ok roomy), (1, .ok roomy)] } ⟨3, .user, 1, 1⟩ ↔
      ¬ twoCalls.Overtaken ⟨3, .user, 1, 1⟩ :=
  fresh_iff twoCalls_reached (.conclude (List.mem_cons_self ..)) (.inl ⟨⟨1, 1⟩, rfl⟩)

/-- The second probe of `twoCalls` has failed. -/
def laterFailed (e : GoError) : DiskSystem where
  ledger := twoCalls.ledger.failProbe 3
  calls := [⟨2, .user, 1, 1⟩]
  granted := [⟨0, 0⟩]
  applied := [(3, .error e), (1, .ok roomy)]

theorem laterFailed_reached (e : GoError) : Reachable .defaults (laterFailed e) :=
  .tail twoCalls_reached
    ⟨.conclude ⟨3, .user, 1, 1⟩ (.error e), .conclude (List.mem_cons_self ..)⟩

/-- A call whose own probe saw a full disk is granted its reservation and ends the pressure that
a later failed probe has set: the ledger goes by the observation from before both. -/
theorem stale_grant : ∃ (s s' : DiskSystem) (call : ReserveCall) (reservation : DiskReservation),
    Reachable .defaults s ∧ s.Step (.conclude call (.ok ⟨0, 0, true⟩)) s' ∧
      call.kind = .user ∧ (s.ledger.conclude call (.ok ⟨0, 0, true⟩)).2 = .ok reservation ∧
      s.ledger.pressured = true ∧ s'.ledger.pressured = false ∧ ¬ s'.Fresh call := by
  refine ⟨laterFailed (.ofKind .errDevice), _, ⟨2, .user, 1, 1⟩, ⟨1, 1⟩, laterFailed_reached _,
    .conclude (List.mem_cons_self ..), rfl, rfl, rfl, rfl, ?_⟩
  intro fresh
  obtain ⟨n, older, newest, -⟩ := fresh
  cases newest

end DiskSystem

end Immulog
