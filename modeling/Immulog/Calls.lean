import Immulog.Appending
import Immulog.Frames
import Mathlib.Logic.Relation

/-!
The calls of a store as steps.

A `Call` is one section of the public interface that runs under the locks of the store.
`SystemRules` collects what a relation between worlds has to respect for every call to
stay inside it: it composes, it holds for everything that leaves the system logs alone,
and it holds for the appends of events.
-/

namespace Immulog

open Lib Proc

/-! ## User appends -/

/-- An append on an open user partition. -/
def appendTo (key : TopicKey) (call : AppendCall) (drawn : SegmentID) (free : Bool) :
    StoreM (List Record) := do
  let s ← .read
  match s.partitions[key]? with
  | none => .fail (.ofKind .errClosed)
  | some p => do
      let (p, outcome) ← .lift ((call.run p drawn free).atPath (userPath key))
      setPartition key p
      .check outcome

/-- An append to a user's partition changes nothing of the system. -/
theorem Quiet.appendTo (key : TopicKey) (call : AppendCall) (drawn : SegmentID) (free : Bool) :
    Quiet (appendTo key call drawn free) := by
  refine quietly.bind quietly.read fun s => ?_
  split
  · exact quietly.fail
  · refine quietly.bind (userFrame_lift (only_user (userPath_head key) _)) fun outcome => ?_
    exact quietly.bind (setPartition key _) fun _ => quietly.check

/-! ## Events in memory -/

section Events

variable {w w' : World} {value : Bytes} {drawn : SegmentID}

/-- Of the memory, an append to the catalog log changes that log only. -/
theorem memory_appendCatalog {r : Except GoError UInt64}
    (steps : Steps FS.device (appendCatalog value drawn) w r w') :
    ∃ catalog, w'.1 = { w.1 with catalog } := by
  rcases steps_lift_bind.1 (steps_read_bind.1 steps) with
    ⟨⟨catalog, outcome⟩, fs, -, later⟩ | ⟨e, fs, -, -, rfl⟩
  · obtain ⟨-, rfl⟩ := steps_check.1 (steps_update_bind.1 later)
    exact ⟨catalog, rfl⟩
  · exact ⟨w.1.catalog, rfl⟩

/-- Of the memory, an append to the offsets log changes that log only. -/
theorem memory_appendOffsets {base : UInt64} {r : Except GoError UInt64}
    (steps : Steps FS.device (appendOffsets base value drawn) w r w') :
    ∃ offsets, w'.1 = { w.1 with offsets } := by
  rcases steps_lift_bind.1 (steps_read_bind.1 steps) with
    ⟨⟨offsets, outcome⟩, fs, -, later⟩ | ⟨e, fs, -, -, rfl⟩
  · obtain ⟨-, rfl⟩ := steps_check.1 (steps_update_bind.1 later)
    exact ⟨offsets, rfl⟩
  · exact ⟨w.1.offsets, rfl⟩

/-- An event is applied to the catalog, or refused with the catalog as it was. -/
theorem steps_applyCatalog {offset : UInt64} {r : Except GoError Unit}
    (steps : Steps FS.device (applyCatalog offset value) w r w') :
    (∃ e, r = .error e ∧ w' = w ∧
        w.1.catalogState.apply (systemRecord clusterMetadataTopicID offset value) = .error e) ∨
      ∃ catalogState, r = .ok () ∧ w' = ({ w.1 with catalogState }, w.2) ∧
        w.1.catalogState.apply (systemRecord clusterMetadataTopicID offset value) =
          .ok catalogState := by
  rcases steps_check_bind.1 (steps_read_bind.1 steps) with
    ⟨catalogState, applied, later⟩ | ⟨e, refused, rfl, rfl⟩
  · obtain ⟨rfl, rfl⟩ := steps_update.1 later
    exact .inr ⟨catalogState, rfl, rfl, applied⟩
  · exact .inl ⟨e, rfl, rfl, refused⟩

/-- An event is applied to the projection of the offsets, or refused. -/
theorem steps_applyOffsets {base : UInt64} {r : Except GoError Unit}
    (steps : Steps FS.device (applyOffsets base value) w r w') :
    (∃ e, r = .error e ∧ w' = w ∧ w.1.offsetsState.apply w.1.catalogState
        (systemRecord consumerOffsetsTopicID base value) = .error e) ∨
      ∃ offsetsState, r = .ok () ∧ w' = ({ w.1 with offsetsState }, w.2) ∧
        w.1.offsetsState.apply w.1.catalogState
          (systemRecord consumerOffsetsTopicID base value) = .ok offsetsState := by
  rcases steps_check_bind.1 (steps_read_bind.1 steps) with
    ⟨offsetsState, applied, later⟩ | ⟨e, refused, rfl, rfl⟩
  · obtain ⟨rfl, rfl⟩ := steps_update.1 later
    exact .inr ⟨offsetsState, rfl, rfl, applied⟩
  · exact .inl ⟨e, rfl, rfl, refused⟩

/-- What an event of the offsets log can come to. -/
inductive OffsetsEventEnds (eventType : EventType) (body : Bytes) (drawn : SegmentID) (w : World) :
    Except GoError Unit → World → Prop where
  /-- The event is refused in front of the append. -/
  | refused {e : GoError} : OffsetsEventEnds eventType body drawn w (.error e) w
  | unappended {value : Bytes} {base : UInt64} {e : GoError} {w' : World} :
      encodeSystemEvent eventType body = .ok value → w.1.offsets.endOffset = .ok base →
      Steps FS.device (appendOffsets base value drawn) w (.error e) w' →
      OffsetsEventEnds eventType body drawn w (.error e) w'
  | unapplied {value : Bytes} {base place : UInt64} {e : GoError} {mid : World} :
      encodeSystemEvent eventType body = .ok value → w.1.offsets.endOffset = .ok base →
      Steps FS.device (appendOffsets base value drawn) w (.ok place) mid →
      mid.1.offsetsState.apply mid.1.catalogState (systemRecord consumerOffsetsTopicID base value) =
        .error e →
      OffsetsEventEnds eventType body drawn w
        (.error (.join [.ofKind .errGroupUnavailable, e])) (mid.1.fenceOffsets, mid.2)
  | applied {value : Bytes} {base place : UInt64} {mid : World} {offsetsState : OffsetsProjection} :
      encodeSystemEvent eventType body = .ok value → w.1.offsets.endOffset = .ok base →
      Steps FS.device (appendOffsets base value drawn) w (.ok place) mid →
      mid.1.offsetsState.apply mid.1.catalogState (systemRecord consumerOffsetsTopicID base value) =
        .ok offsetsState →
      OffsetsEventEnds eventType body drawn w (.ok ()) ({ mid.1 with offsetsState }, mid.2)

/-- The four ends of an offsets event: refused, not written, written and applied, or written
only. -/
theorem steps_appendOffsetsEventLocked {eventType : EventType} {body : Bytes}
    {r : Except GoError Unit}
    (steps : Steps FS.device (appendOffsetsEventLocked eventType body drawn) w r w') :
    OffsetsEventEnds eventType body drawn w r w' := by
  rcases steps_check_bind.1 steps with ⟨value, encoded, steps⟩ | ⟨e, -, rfl, rfl⟩
  swap
  · exact .refused
  rw [steps_read_bind] at steps
  rcases steps_check_bind.1 steps with ⟨base, stop, steps⟩ | ⟨e, -, rfl, rfl⟩
  swap
  · exact .refused
  rcases steps_check_bind.1 steps with ⟨_, -, steps⟩ | ⟨e, -, rfl, rfl⟩
  swap
  · exact .refused
  rcases steps_bind.1 steps with ⟨place, mid, appending, steps⟩ | ⟨e, rfl, appending⟩
  swap
  · exact .unappended encoded stop appending
  obtain ⟨outcome, left, applying, ending⟩ := steps_attempt_bind.1 steps
  rcases steps_applyOffsets applying with ⟨e, rfl, rfl, refused⟩ | ⟨state, rfl, rfl, applied⟩
  · dsimp only at ending
    rw [steps_update_bind] at ending
    obtain ⟨rfl, rfl⟩ := steps_fail.1 ending
    exact .unapplied encoded stop appending refused
  · obtain ⟨rfl, rfl⟩ := steps_pure.1 ending
    exact .applied encoded stop appending applied

end Events

/-! ## Relations that the appends of events respect -/

/-- What a relation has to respect for every procedure of a store to stay inside it. -/
structure SystemRules (R : World → World → Prop) : Prop where
  composes : Composes R
  user : ∀ {w w'}, UserFrame w w' → R w w'
  fenceMetadata : ∀ w : World, R w (w.1.fenceMetadata, w.2)
  fenceOffsets : ∀ w : World, R w (w.1.fenceOffsets, w.2)
  /-- A catalog append that fails. -/
  unappended : ∀ {value drawn w e w'}, Steps FS.device (appendCatalog value drawn) w (.error e) w' →
    R w w'
  /-- A catalog event that is appended and applied. -/
  applied : ∀ {value drawn w base mid offset w'},
    Steps FS.device (appendCatalog value drawn) w (.ok base) mid →
    offset = w.1.catalog.logEnd ∨ offset = mid.1.catalog.logEnd - 1 →
    Steps FS.device (applyCatalog offset value) mid (.ok ()) w' → R w w'
  /-- A catalog event that is appended and not applied. -/
  unapplied : ∀ {value drawn w base mid offset e w'},
    Steps FS.device (appendCatalog value drawn) w (.ok base) mid →
    offset = w.1.catalog.logEnd ∨ offset = mid.1.catalog.logEnd - 1 →
    Steps FS.device (applyCatalog offset value) mid (.error e) w' →
    R w (w'.1.fenceMetadata, w'.2)
  offsetsEvent : ∀ eventType body drawn,
    Within FS.device R (appendOffsetsEventLocked eventType body drawn)

namespace SystemRules

variable {R : World → World → Prop} (rules : SystemRules R)
include rules

/-- Quiet procedures keep to every relation with rules. -/
theorem quiet {α : Type} {m : StoreM α} (quiet : Quiet m) : Within FS.device R m :=
  fun w r w' steps => rules.user (quiet w r w' steps)

/-! ### Consumers -/

/-- What a failed append is told as may fence the groups. -/
theorem groupAppendError (e : GoError) : Within FS.device R (groupAppendError e) := by
  unfold Immulog.groupAppendError
  split
  · exact rules.composes.bind (within_update rules.fenceOffsets) fun _ => rules.composes.fail
  · exact rules.composes.fail

theorem commitAppendError (e : GoError) : Within FS.device R (commitAppendError e) := by
  unfold Immulog.commitAppendError
  split
  · exact rules.composes.bind (within_update rules.fenceOffsets) fun _ => rules.composes.fail
  · exact rules.groupAppendError e

theorem appendEventOr {onError : GoError → StoreM Unit}
    (failing : ∀ e, Within FS.device R (onError e)) (eventType : EventType) (body : Bytes)
    (drawn : SegmentID) : Within FS.device R (appendEventOr onError eventType body drawn) := by
  refine rules.composes.bind (Composes.attempt (rules.offsetsEvent _ _ _)) fun outcome => ?_
  split
  · exact rules.composes.pure
  · exact failing _

theorem createGroup (groupID : Bytes) (start : UInt8) (starts : List (TopicKey × UInt64))
    (drawn : SegmentID) : Within FS.device R (createGroup groupID start starts drawn) :=
  rules.composes.bind rules.composes.read fun _ => rules.composes.bind rules.composes.check fun _ =>
    rules.appendEventOr rules.groupAppendError _ _ _

theorem assignConsumer (groupID : Bytes) (key : TopicKey) (options : ConsumerOptions) (now : Int)
    (draws : ConsumerDraws) (s : Store) (user : Partition) :
    Within FS.device R (assignConsumer groupID key options now draws s user) := by
  refine rules.composes.bind (rules.quiet (.currentGroup _)) fun group => ?_
  refine rules.composes.bind rules.composes.check fun _ => ?_
  refine rules.composes.bind rules.composes.check fun resume => ?_
  refine rules.composes.bind rules.composes.check fun _ => ?_
  refine rules.composes.bind (rules.quiet (.assignmentReason _ _ _)) fun reason => ?_
  refine rules.composes.bind rules.composes.check fun body => ?_
  refine rules.composes.bind (rules.appendEventOr rules.groupAppendError _ _ _) fun _ => ?_
  exact rules.composes.bind (rules.quiet (.currentGroup _)) fun _ =>
    rules.quiet (.addConsumer _ _ _)

theorem openConsumer (groupID : Bytes) (key : TopicKey) (options : ConsumerOptions) (now : Int)
    (draws : ConsumerDraws) :
    Within FS.device R (Store.openConsumer groupID key options now draws) := by
  refine rules.composes.bind rules.composes.check fun options => ?_
  refine rules.composes.bind rules.composes.read fun s => ?_
  refine rules.composes.bind rules.composes.check fun _ => ?_
  refine rules.composes.bind rules.composes.check fun _ => ?_
  refine rules.composes.bind (rules.quiet (.openConsumerPartitionLocked _ _)) fun user => ?_
  refine rules.composes.bind rules.composes.check fun _ => ?_
  dsimp only
  split
  · refine rules.composes.bind rules.composes.check fun initial => ?_
    exact rules.composes.bind (rules.createGroup _ _ _ _) fun _ =>
      rules.assignConsumer _ _ _ _ _ _ _
  · exact rules.assignConsumer _ _ _ _ _ _ _

/-- The assignment of a group is written behind the checks of its request. -/
theorem assignGroup (groupID : Bytes) (request : GroupRequest) (now : Int) (draws : ConsumerDraws)
    (s : Store) : Within FS.device R (assignGroup groupID request now draws s) := by
  refine rules.composes.bind (rules.quiet (.currentGroup _)) fun group => ?_
  refine rules.composes.bind rules.composes.check fun _ => ?_
  refine rules.composes.bind rules.composes.check fun _ => ?_
  refine rules.composes.bind rules.composes.check fun _ => ?_
  refine rules.composes.bind rules.composes.check fun prepared => ?_
  refine rules.composes.bind (rules.quiet (.assignKeys _ _ _ _)) fun assignments => ?_
  refine rules.composes.bind (rules.quiet (.assignmentReason _ _ _)) fun reason => ?_
  refine rules.composes.bind rules.composes.check fun body => ?_
  refine rules.composes.bind (rules.appendEventOr rules.groupAppendError _ _ _) fun _ => ?_
  exact rules.composes.bind (rules.quiet (.currentGroup _)) fun _ =>
    rules.quiet (.addGroupConsumer _)

theorem installGroup (groupID : Bytes) (request : GroupRequest) (now : Int)
    (draws : ConsumerDraws) : Within FS.device R (installGroup groupID request now draws) := by
  refine rules.composes.bind rules.composes.read fun s => ?_
  refine rules.composes.bind rules.composes.check fun _ => ?_
  have creating := rules.composes.bind (rules.createGroup groupID request.options.start
    request.starts.toList draws.created) fun _ => rules.assignGroup groupID request now draws s
  dsimp only
  split
  · split
    · exact rules.composes.bind (rules.quiet (.checkStarts _ _)) fun _ => creating
    · exact creating
  · exact rules.assignGroup _ _ _ _ _

theorem openConsumerGroup (groupID : Bytes) (specs : List (List TopicKey))
    (options : ConsumerGroupOptions) (clock : Clock) (draws : ConsumerDraws) :
    Within FS.device R (Store.openConsumerGroup groupID specs options clock draws) := by
  refine rules.composes.bind rules.composes.check fun request => ?_
  refine rules.composes.bind rules.composes.read fun s => ?_
  refine rules.composes.bind rules.composes.check fun _ => ?_
  refine rules.composes.bind rules.composes.check fun _ => ?_
  refine rules.composes.bind (rules.quiet (.reusableGroupConsumer _ _ _)) fun reusable => ?_
  split
  · exact rules.composes.pure
  · exact rules.installGroup _ _ _ _

/-- A commit is written behind the checks of its position. -/
theorem commitProgress (groupID : Bytes) (session : Session) (generation : UInt64) (key : TopicKey)
    (delivered : UInt64) (partition : Partition) (next : UInt64) (drawn : SegmentID) :
    Within FS.device R
      (commitProgress groupID session generation key delivered partition next drawn) := by
  refine rules.composes.bind rules.composes.read fun s => ?_
  refine rules.composes.bind rules.composes.check fun _ => ?_
  refine rules.composes.bind rules.composes.check fun _ => ?_
  refine rules.composes.bind rules.composes.check fun stop => ?_
  refine rules.composes.bind rules.composes.check fun _ => ?_
  split
  · exact rules.composes.pure
  · exact rules.composes.bind rules.composes.check fun _ =>
      rules.appendEventOr rules.commitAppendError _ _ _

theorem commit (handle : Nat) (next : UInt64) (clock : Clock) (drawn : SegmentID) :
    Within FS.device R (Consumer.commit handle next clock drawn) := by
  refine rules.composes.bind (rules.quiet (.consumerAt _)) fun consumer => ?_
  refine rules.composes.bind rules.composes.check fun _ => ?_
  refine rules.composes.bind rules.composes.read fun s => ?_
  refine rules.composes.bind rules.composes.check fun _ => ?_
  refine rules.composes.bind (rules.quiet (.beginOperationLocked _ _)) fun partition => ?_
  refine rules.composes.bind (Composes.attempt (rules.commitProgress _ _ _ _ _ _ _ _)) fun _ => ?_
  exact rules.composes.bind (rules.quiet (.endOperationLocked _ _)) fun _ => rules.composes.check

theorem revoke (groupID : Bytes) (generation : UInt64) (drawn : SegmentID) :
    Within FS.device R (Consumer.revoke groupID generation drawn) :=
  rules.composes.bind rules.composes.read fun _ => rules.composes.bind rules.composes.check fun _ =>
    rules.offsetsEvent _ _ _

theorem close (handle : Nat) (drawn : SegmentID) :
    Within FS.device R (Consumer.close handle drawn) := by
  refine rules.composes.bind (rules.quiet (.consumerAt _)) fun consumer => ?_
  refine rules.composes.bind rules.composes.read fun s => ?_
  split
  · exact rules.composes.pure
  refine rules.composes.bind rules.composes.check fun _ => ?_
  split
  · exact rules.quiet (.setConsumer _ _)
  split
  · exact rules.composes.bind (rules.quiet (.retire _ _)) fun _ => rules.composes.fail
  dsimp only
  split
  · refine rules.composes.bind (Composes.attempt (rules.revoke _ _ _)) fun outcome => ?_
    refine rules.composes.bind (rules.quiet (.retire _ _)) fun _ => ?_
    split
    · exact rules.composes.pure
    · exact rules.groupAppendError _
  · exact rules.quiet (.retire _ _)

/-- A commit through the handle of a group. -/
theorem commitGroup (handle : Nat) (key : TopicKey) (next : UInt64) (clock : Clock)
    (drawn : SegmentID) :
    Within FS.device R (GroupConsumer.commit handle key next clock drawn) := by
  refine rules.composes.bind (rules.quiet (.groupConsumerAt _)) fun consumer => ?_
  refine rules.composes.bind rules.composes.check fun cursor => ?_
  refine rules.composes.bind rules.composes.check fun _ => ?_
  refine rules.composes.bind rules.composes.read fun s => ?_
  refine rules.composes.bind rules.composes.check fun _ => ?_
  refine rules.composes.bind (rules.quiet (.beginCursorOperationLocked _ _ _ _)) fun partition => ?_
  refine rules.composes.bind (Composes.attempt (rules.commitProgress _ _ _ _ _ _ _ _)) fun _ => ?_
  exact rules.composes.bind (rules.quiet (.endCursorOperationLocked _ _ _ _)) fun _ =>
    rules.composes.check

theorem closeGroup (handle : Nat) (drawn : SegmentID) :
    Within FS.device R (GroupConsumer.close handle drawn) := by
  refine rules.composes.bind (rules.quiet (.groupConsumerAt _)) fun consumer => ?_
  refine rules.composes.bind rules.composes.read fun s => ?_
  refine rules.composes.bind rules.composes.check fun _ => ?_
  split
  · exact rules.quiet (.setGroupConsumer _ fun _ => rfl)
  split
  · exact rules.composes.bind (rules.quiet (.retireGroup _ _)) fun _ => rules.composes.fail
  dsimp only
  split
  · refine rules.composes.bind (Composes.attempt (rules.revoke _ _ _)) fun outcome => ?_
    refine rules.composes.bind (rules.quiet (.retireGroup _ _)) fun _ => ?_
    split
    · exact rules.composes.pure
    · exact rules.groupAppendError _
  · exact rules.quiet (.retireGroup _ _)

/-! ### Topics and retention -/

/-- The append of a catalog event and what follows it.  `offset` is where the event is
applied. -/
theorem catalogEvent {α : Type} {value : Bytes} {drawn : SegmentID} (offset : Store → UInt64)
    {failing unapplied : GoError → StoreM α} {done : StoreM α} {w w' : World} {r : Except GoError α}
    (place : ∀ base mid, Steps FS.device (appendCatalog value drawn) w (.ok base) mid →
      offset mid.1 = w.1.catalog.logEnd ∨ offset mid.1 = mid.1.catalog.logEnd - 1)
    (within : ∀ e, Within FS.device R (failing e)) (within' : ∀ e, Within FS.device R (unapplied e))
    (after : Within FS.device R done)
    (steps : Steps FS.device (do
      match ← (appendCatalog value drawn).attempt with
      | .error e => failing e
      | .ok _ => do
          let s ← .read
          match ← (applyCatalog (offset s) value).attempt with
          | .error e => do
              .update Store.fenceMetadata
              unapplied e
          | .ok _ => done) w r w') : R w w' := by
  obtain ⟨outcome, mid, appending, rest⟩ := steps_attempt_bind.1 steps
  cases outcome with
  | error e => exact rules.composes.trans (rules.unappended appending) (within e _ _ _ rest)
  | ok base =>
      obtain ⟨applied, left, applying, ending⟩ := steps_attempt_bind.1 (steps_read_bind.1 rest)
      have here := place base mid appending
      cases applied with
      | error e =>
          refine rules.composes.trans (rules.unapplied appending here applying) ?_
          exact within' e _ _ _ (steps_update_bind.1 ending)
      | ok _ =>
          exact rules.composes.trans (rules.applied appending here applying) (after _ _ _ ending)

/-- The event of a new topic is written and applied, or the topic is given up. -/
theorem registerTopic (name value : Bytes) (prepared : List Partition) (drawn : SegmentID) :
    Within FS.device R (registerTopic name value prepared drawn) := by
  intro w r w' steps
  refine rules.catalogEvent (fun s => s.catalog.logEnd - 1) (fun _ _ _ => .inr rfl)
    (fun e => ?_) (fun e => ?_) ?_ steps
  · refine rules.composes.bind (rules.quiet (.closePrepared _)) fun _ => ?_
    dsimp only
    split
    · exact rules.composes.bind (within_update rules.fenceMetadata) fun _ => rules.composes.fail
    · exact rules.composes.fail
  · exact rules.composes.bind (rules.quiet (.closePrepared _)) fun _ => rules.composes.fail
  · refine rules.composes.bind (rules.quiet (userFrame_update fun _ => rfl)) fun _ => ?_
    refine rules.composes.bind rules.composes.read fun s => ?_
    split
    · exact rules.composes.fail
    · exact rules.composes.pure

theorem createTopic (name : Bytes) (partitions : UInt32) (options : OpenOptions)
    (draws : TopicDraws) :
    Within FS.device R (Store.createTopic name partitions options draws) := by
  refine rules.composes.bind rules.composes.check fun config => ?_
  refine rules.composes.bind rules.composes.read fun s => ?_
  refine rules.composes.bind rules.composes.check fun _ => ?_
  refine rules.composes.bind (rules.quiet (userFrame_lift (only_prepareTopicStorage _))) fun _ => ?_
  refine rules.composes.bind
    (rules.quiet (userFrame_lift (only_preparePartitions _ _ _ _ _ _ _))) fun found => ?_
  obtain ⟨prepared, outcome⟩ := found
  dsimp only
  split
  · exact rules.composes.bind (rules.quiet (.closePrepared _)) fun _ => rules.composes.fail
  · exact rules.registerTopic _ _ _ _

/-- A retention event moves the start of its partition. -/
theorem advanceStart {key : TopicKey} {s : Store} {p : Partition} {proposal : RetentionProposal}
    {value : Bytes} {drawn : SegmentID} {w w' : World} {r : Except GoError (List Segment)}
    (same : s.catalog.logEnd = w.1.catalog.logEnd)
    (steps : Steps FS.device (advanceStart key s p proposal value drawn) w r w') : R w w' := by
  refine rules.catalogEvent (fun _ => s.catalog.logEnd) (fun _ _ _ => .inl same) (fun e => ?_)
    (fun e => ?_) ?_ steps
  · dsimp only
    split
    · refine rules.composes.bind (within_update rules.fenceMetadata) fun _ => ?_
      exact rules.composes.bind (rules.quiet (.setPartition _ _)) fun _ => rules.composes.fail
    · exact rules.composes.fail
  · exact rules.composes.bind (rules.quiet (.setPartition _ _)) fun _ => rules.composes.fail
  · exact rules.composes.bind (rules.quiet (.setPartition _ _)) fun _ => rules.composes.pure

end SystemRules

/-! ### One pass of retention -/

/-- What a pass over one partition has found and planned in front of its event: the
partition and its descriptor, the proposal, and the world in which the event is appended. -/
structure Plans (key : TopicKey) (nowMillis : Int64) (drawn : SegmentID) (w mid : World)
    (before after : Partition) (descriptor : TopicPartition) (proposal : RetentionProposal) :
    Prop where
  partition : w.1.partitions[key]? = some before
  isOpen : before.closed = false ∧ before.closing = false ∧ before.unavailable = false
  metadata : w.1.checkMetadata = .ok ()
  cataloged : w.1.catalogState.partition? key = some descriptor
  anchor : validateRetainedAnchor before descriptor = .ok ()
  planned : ∃ fs', Prog.Runs FS.device
      ((planRetentionLocked before descriptor.config nowMillis drawn).atPath (userPath key)) w.2
      (.ok (after, .ok (some proposal))) fs' ∧
    mid = ({ w.1 with partitions := w.1.partitions.insert key after }, fs')

/-- A pass that ends before its event. -/
inductive StopsRetaining (key : TopicKey) (nowMillis : Int64) (drawn : SegmentID) (w : World) :
    World → Prop where
  | refused : StopsRetaining key nowMillis drawn w w
  /-- The first segment is not the one that the catalog names. -/
  | fenced {p : Partition} : w.1.partitions[key]? = some p → StopsRetaining key nowMillis drawn w
      ({ w.1 with partitions := w.1.partitions.insert key p.fenced }, w.2)
  | failed {p : Partition} {config : PartitionConfigV1} {e : GoError} {fs : FS Name} :
      w.1.partitions[key]? = some p → Prog.Runs FS.device
        ((planRetentionLocked p config nowMillis drawn).atPath (userPath key)) w.2 (.error e) fs →
      StopsRetaining key nowMillis drawn w (w.1, fs)
  | planned {p q : Partition} {config : PartitionConfigV1}
      {planned : Except GoError (Option RetentionProposal)} {fs : FS Name} :
      w.1.partitions[key]? = some p → Prog.Runs FS.device
        ((planRetentionLocked p config nowMillis drawn).atPath (userPath key)) w.2
        (.ok (q, planned)) fs →
      StopsRetaining key nowMillis drawn w
        ({ w.1 with partitions := w.1.partitions.insert key q }, fs)

/-- A pass appends an event for its plan, or ends before that. -/
theorem steps_retainLocked {key : TopicKey} {nowMillis : Int64} {drawn catalogDrawn : SegmentID}
    {w w' : World} {r : Except GoError (List Segment)}
    (steps : Steps FS.device (retainLocked key nowMillis drawn catalogDrawn) w r w') :
    (StopsRetaining key nowMillis drawn w w' ∧ ∀ retired, r = .ok retired → retired = []) ∨
      ∃ mid before after descriptor proposal value,
        Plans key nowMillis drawn w mid before after descriptor proposal ∧
        w.1.retentionEvent after descriptor proposal nowMillis = .ok value ∧
        Steps FS.device (advanceStart key w.1 after proposal value catalogDrawn) mid r w' := by
  have refused : ∀ {e}, .error e = r → StopsRetaining key nowMillis drawn w w' →
      StopsRetaining key nowMillis drawn w w' ∧ ∀ retired, r = .ok retired → retired = [] := by
    intro e failed stops
    refine ⟨stops, fun retired done => ?_⟩
    rw [← failed] at done
    cases done
  unfold retainLocked at steps
  rw [steps_read_bind] at steps
  split at steps
  swap
  · obtain ⟨failed, rfl⟩ := steps_fail.1 steps
    exact .inl (refused failed .refused)
  rename_i before found
  rcases steps_check_bind.1 steps with ⟨_, notClosed, steps⟩ | ⟨e, -, failed, rfl⟩
  swap
  · exact .inl (refused failed.symm .refused)
  rcases steps_check_bind.1 steps with ⟨_, notClosing, steps⟩ | ⟨e, -, failed, rfl⟩
  swap
  · exact .inl (refused failed.symm .refused)
  rcases steps_check_bind.1 steps with ⟨_, available, steps⟩ | ⟨e, -, failed, rfl⟩
  swap
  · exact .inl (refused failed.symm .refused)
  rcases steps_check_bind.1 steps with ⟨_, metadata, steps⟩ | ⟨e, -, failed, rfl⟩
  swap
  · exact .inl (refused failed.symm .refused)
  split at steps
  swap
  · obtain ⟨failed, rfl⟩ := steps_fail.1 steps
    exact .inl (refused failed .refused)
  rename_i descriptor cataloged
  unfold setPartition at steps
  split at steps
  · rw [steps_update_bind] at steps
    obtain ⟨failed, rfl⟩ := steps_fail.1 steps
    exact .inl (refused failed (.fenced found))
  rename_i anchor
  rcases steps_lift_bind.1 steps with ⟨⟨after, planned⟩, fs', ran, steps⟩ |
    ⟨e, fs', ran, failed, rfl⟩
  swap
  · exact .inl (refused failed.symm (.failed found ran))
  dsimp only at steps
  rw [steps_update_bind] at steps
  rcases steps_check_bind.1 steps with ⟨found', rfl, advancing⟩ | ⟨e, -, failed, rfl⟩
  swap
  · exact .inl (refused failed.symm (.planned found ran))
  cases found' with
  | none =>
      obtain ⟨rfl, rfl⟩ := steps_pure.1 advancing
      exact .inl ⟨.planned found ran, fun retired same => (Except.ok.inj same).symm⟩
  | some proposal =>
      rcases steps_check_bind.1 advancing with ⟨value, encoded, ending⟩ | ⟨e, -, failed, rfl⟩
      swap
      · exact .inl (refused failed.symm (.planned found ran))
      simp only [failIf_eq_ok, not_or, Bool.not_eq_true] at notClosed notClosing available
      exact .inr ⟨_, before, after, descriptor, proposal, value,
        { partition := found, isOpen := ⟨notClosed, notClosing.1, available⟩, metadata, cataloged,
          anchor, planned := ⟨fs', ran, rfl⟩ }, encoded, ending⟩

/-- What a program in a partition's directory does, with the partition it leaves. -/
theorem userFrame_partition {α : Type} {key : TopicKey} {m : DirM α} {result : Except GoError α}
    {w : World} {fs : FS Name}
    (ran : Prog.Runs FS.device (m.atPath (userPath key)) w.2 result fs) (p : Partition) :
    UserFrame w (w.1, fs) ∧
      UserFrame w ({ w.1 with partitions := w.1.partitions.insert key p }, fs) := by
  have frame : UserFrame w (w.1, fs) :=
    userFrame_lift (only_user (userPath_head key) _) w result (w.1, fs) (steps_lift.2 ⟨rfl, ran⟩)
  exact ⟨frame, rfl, frame.files, List.prefix_refl _⟩

/-- A pass that stops before its event has only rolled a segment. -/
theorem StopsRetaining.frame {key : TopicKey} {nowMillis : Int64} {drawn : SegmentID}
    {w w' : World} (stops : StopsRetaining key nowMillis drawn w w') : UserFrame w w' := by
  cases stops with
  | refused => exact quietly.refl w
  | fenced _ => exact ⟨rfl, fun _ _ => rfl, List.prefix_refl _⟩
  | @failed p _ _ _ _ ran => exact (userFrame_partition ran p).1
  | @planned _ q _ _ _ _ ran => exact (userFrame_partition ran q).2

namespace SystemRules

variable {R : World → World → Prop} (rules : SystemRules R)
include rules

/-- One pass over a partition, up to its event or through it. -/
theorem retainLocked (key : TopicKey) (nowMillis : Int64) (drawn catalogDrawn : SegmentID) :
    Within FS.device R (retainLocked key nowMillis drawn catalogDrawn) := by
  intro w r w' steps
  rcases steps_retainLocked steps with
    ⟨stops, -⟩ | ⟨mid, before, after, descriptor, proposal, value, plans, -, advancing⟩
  · exact rules.user stops.frame
  · obtain ⟨fs', ran, rfl⟩ := plans.planned
    have frame := (userFrame_partition ran after).2
    exact rules.composes.trans (rules.user frame) (rules.advanceStart rfl advancing)

theorem retainPartitionAt (key : TopicKey) (nowMillis : Int64) (drawn catalogDrawn : SegmentID) :
    Within FS.device R (retainPartitionAt key nowMillis drawn catalogDrawn) := by
  refine rules.composes.bind (rules.retainLocked _ _ _ _) fun retired => ?_
  split
  · exact rules.quiet (userFrame_lift (only_user (userPath_head key) _))
  · exact rules.composes.pure

end SystemRules

/-! ## Runs of a store -/

/-- One section of the public interface under the locks of the store.  A `Poll` has three;
the result that its second one delivers is any result here. -/
inductive Call where
  | openPartition (key : TopicKey) (options : OpenOptions) (drawn : SegmentID)
  | openTopic (name : Bytes) (draw : Nat → SegmentID)
  | createTopic (name : Bytes) (partitions : UInt32) (options : OpenOptions) (draws : TopicDraws)
  | append (key : TopicKey) (call : AppendCall) (drawn : SegmentID) (free : Bool)
  | fetch (key : TopicKey) (free : Bool) (offset : UInt64) (options : FetchOptions)
  | openConsumer (groupID : Bytes) (key : TopicKey) (options : ConsumerOptions) (now : Int)
      (draws : ConsumerDraws)
  | openConsumerGroup (groupID : Bytes) (specs : List (List TopicKey))
      (options : ConsumerGroupOptions) (clock : Clock) (draws : ConsumerDraws)
  | beginPoll (handle : Nat) (options : PollOptions) (clock : Clock)
  | finishPoll (handle : Nat) (result : FetchResult) (clock : Clock)
  | endPoll (handle : Nat) (now : Int)
  | commit (handle : Nat) (next : UInt64) (clock : Clock) (drawn : SegmentID)
  | close (handle : Nat) (drawn : SegmentID)
  | beginGroupPoll (handle : Nat) (key : TopicKey) (options : PollOptions) (clock : Clock)
  | finishGroupPoll (handle : Nat) (key : TopicKey) (cursor : GroupCursor) (result : FetchResult)
      (clock : Clock)
  | endGroupPoll (handle : Nat) (key : TopicKey) (cursor : GroupCursor) (now : Int)
  | commitGroup (handle : Nat) (key : TopicKey) (next : UInt64) (clock : Clock) (drawn : SegmentID)
  | closeGroup (handle : Nat) (drawn : SegmentID)
  | openRetention (key : TopicKey) (drawn : SegmentID)
  | retain (key : TopicKey) (nowMillis : Int64) (drawn catalogDrawn : SegmentID)
  | beginRelease (key : TopicKey)
  | finishRelease (key : TopicKey)

/-- The procedure of a call, without its result. -/
def Call.exec : Call → StoreM Unit
  | .openPartition key options drawn => do let _ ← Store.openPartition key options drawn
  | .openTopic name draw => do let _ ← Store.openTopic name draw
  | .createTopic name partitions options draws => do
      let _ ← Store.createTopic name partitions options draws
  | .append key call drawn free => do let _ ← appendTo key call drawn free
  | .fetch key free offset options => do let _ ← fetchPartition key free offset options
  | .openConsumer groupID key options now draws => do
      let _ ← Store.openConsumer groupID key options now draws
  | .openConsumerGroup groupID specs options clock draws => do
      let _ ← Store.openConsumerGroup groupID specs options clock draws
  | .beginPoll handle options clock => do let _ ← Consumer.beginPoll handle options clock
  | .finishPoll handle result clock => Consumer.finishPoll handle result clock
  | .endPoll handle now => endOperationLocked handle now
  | .commit handle next clock drawn => Consumer.commit handle next clock drawn
  | .close handle drawn => Consumer.close handle drawn
  | .beginGroupPoll handle key options clock => do
      let _ ← GroupConsumer.beginPoll handle key options clock
  | .finishGroupPoll handle key cursor result clock =>
      GroupConsumer.finishPoll handle key cursor result clock
  | .endGroupPoll handle key cursor now =>
      GroupConsumer.endCursorOperationLocked handle key cursor now
  | .commitGroup handle key next clock drawn => GroupConsumer.commit handle key next clock drawn
  | .closeGroup handle drawn => GroupConsumer.close handle drawn
  | .openRetention key drawn => do let _ ← openRetentionPartition key drawn
  | .retain key nowMillis drawn catalogDrawn => retainPartitionAt key nowMillis drawn catalogDrawn
  | .beginRelease key => do let _ ← beginReleaseRetention key
  | .finishRelease key => finishReleaseRetention key

/-- One call leads from a world to the next, whatever it returns. -/
def Called (w w' : World) : Prop :=
  ∃ (call : Call) (r : Except GoError Unit), Steps FS.device call.exec w r w'

/-- Any number of calls, one after the other. -/
abbrev StoreRun : World → World → Prop :=
  Relation.ReflTransGen Called

namespace SystemRules

variable {R : World → World → Prop} (rules : SystemRules R)
include rules

/-- Every call stays inside a relation that the appends of events respect. -/
theorem call (call : Call) : Within FS.device R call.exec := by
  have only {α : Type} {m : StoreM α} (within : Within FS.device R m) :
      Within FS.device R (do let _ ← m : StoreM Unit) :=
    rules.composes.bind within fun _ => rules.composes.pure
  cases call with
  | openPartition key options drawn => exact only (rules.quiet (.openPartition _ _ _))
  | openTopic name draw => exact only (rules.quiet (.openTopic _ _))
  | createTopic name partitions options draws => exact only (rules.createTopic _ _ _ _)
  | append key call drawn free => exact only (rules.quiet (.appendTo _ _ _ _))
  | fetch key free offset options => exact only (rules.quiet (.fetchPartition _ _ _ _))
  | openConsumer groupID key options now draws => exact only (rules.openConsumer _ _ _ _ _)
  | openConsumerGroup groupID specs options clock draws =>
      exact only (rules.openConsumerGroup _ _ _ _ _)
  | beginPoll handle options clock => exact only (rules.quiet (.beginPoll _ _ _))
  | finishPoll handle result clock => exact rules.quiet (.finishPoll _ _ _)
  | endPoll handle now => exact rules.quiet (.endOperationLocked _ _)
  | commit handle next clock drawn => exact rules.commit _ _ _ _
  | close handle drawn => exact rules.close _ _
  | beginGroupPoll handle key options clock => exact only (rules.quiet (.beginGroupPoll _ _ _ _))
  | finishGroupPoll handle key cursor result clock => exact rules.quiet (.finishGroupPoll _ _ _ _ _)
  | endGroupPoll handle key cursor now => exact rules.quiet (.endCursorOperationLocked _ _ _ _)
  | commitGroup handle key next clock drawn => exact rules.commitGroup _ _ _ _ _
  | closeGroup handle drawn => exact rules.closeGroup _ _
  | openRetention key drawn => exact only (rules.quiet (.openRetentionPartition _ _))
  | retain key nowMillis drawn catalogDrawn => exact rules.retainPartitionAt _ _ _ _
  | beginRelease key => exact only (rules.quiet (.beginReleaseRetention _))
  | finishRelease key => exact rules.quiet (.finishReleaseRetention _)

/-- A relation with rules holds along every run of the store. -/
theorem run {w w' : World} (run : StoreRun w w') : R w w' := by
  induction run with
  | refl => exact rules.composes.refl w
  | tail _ last ih =>
      obtain ⟨call, r, steps⟩ := last
      exact rules.composes.trans ih (rules.call call _ r _ steps)

end SystemRules

end Immulog
