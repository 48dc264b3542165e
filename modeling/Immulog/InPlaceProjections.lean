import Immulog.Lib.InPlace
import Immulog.OffsetRuns

/-!
The two projections as the source changes them (`catalogProjection.apply` in
`src/storage/catalog.go`, `offsetsProjection.apply` in
`src/storage/offsets_projection.go`): every assignment is a write of its own, in the
order of the source, and an error leaves what has been written by then.

The maps a handler builds on the way (explicit starts, members, subscriptions,
owners, the copy of a group's progress) are its own until it assigns them.
-/

namespace Immulog

open Lib Std

/-! ## The catalog -/

namespace CatalogProjection

open InPlace

def modifyTopic (topic : TopicID) (f : CatalogTopic → CatalogTopic)
    (projection : CatalogProjection) : CatalogProjection :=
  { projection with topicsByID := projection.topicsByID.modify topic f }

/-- An assignment through a pointer to a topic of the projection. -/
def writeTopic (topic : TopicID) (f : CatalogTopic → CatalogTopic) :
    InPlace GoError CatalogProjection Unit :=
  write (modifyTopic topic f)

end CatalogProjection

def CatalogTopic.modifyPartition (partition : UInt32) (f : TopicPartition → TopicPartition)
    (topic : CatalogTopic) : CatalogTopic :=
  { topic with
    descriptor :=
      { topic.descriptor with
        partitions := topic.descriptor.partitions.modify partition.toNat f } }

/-- `topic.retired[partition]`, made when there is none. -/
def CatalogTopic.makeRetired (partition : UInt32) (topic : CatalogTopic) : CatalogTopic :=
  { topic with
    retired :=
      if partition ∈ topic.retired then topic.retired else topic.retired.insert partition ∅ }

def CatalogTopic.retire (partition : UInt32) (retired : RetiredSegmentEvent)
    (topic : CatalogTopic) : CatalogTopic :=
  { topic with retired := topic.retired.modify partition (·.insert retired.base retired) }

namespace CatalogProjection

open InPlace

def applyStoreInitializedInPlace (offset : UInt64) (payload : Bytes) :
    InPlace GoError CatalogProjection Unit := do
  let projection ← state
  check (failIf (offset ≠ 0 ∨ projection.revision ≠ 0)
    (corrupt .errInvalidRecord "duplicate or misplaced StoreInitialized"))
  let event ← check (decodeStoreInitializedPayload payload)
  write ({ · with storeID := event.storeID })
  write ({ · with initialized := event })
  write ({ · with config := event.catalogConfig })
  write ({ · with offsetsConfig := event.offsetsConfig })
  write ({ · with revision := 1 })

def applyTopicCreatedInPlace (offset : UInt64) (payload : Bytes) :
    InPlace GoError CatalogProjection Unit := do
  let projection ← state
  check (failIf (projection.revision = 0)
    (corrupt .errInvalidRecord "TopicCreated precedes StoreInitialized"))
  let event ← check (decodeTopicCreatedPayload payload)
  check (failIf (event.storeID ≠ projection.storeID ∨ event.expectedCatalogNext ≠ offset)
    (corrupt .errInvalidRecord "TopicCreated store or catalog revision mismatch"))
  check (failIf (event.name ∈ projection.topicsByName)
    (corrupt .errInvalidRecord "duplicate topic name in catalog"))
  check (failIf (event.topicID ∈ projection.topicsByID)
    (corrupt .errInvalidRecord "duplicate topic ID in catalog"))
  write fun p => { p with topicsByName := p.topicsByName.insert event.name event.topicID }
  write fun p =>
    { p with topicsByID := p.topicsByID.insert event.topicID (.ofCreated offset event) }
  write ({ · with revision := offset + 1 })

/-- The writes of a retention event, through the pointers to its topic and its
partition. -/
def writeLogStartAdvanced (offset : UInt64) (event : PartitionLogStartAdvancedEvent) :
    InPlace GoError CatalogProjection Unit := do
  writeTopic event.key.topic (.makeRetired event.key.partition)
  event.retired.forM fun retired =>
    writeTopic event.key.topic (.retire event.key.partition retired)
  writeTopic event.key.topic (.modifyPartition event.key.partition
    ({ · with retainedL := event.newL }))
  writeTopic event.key.topic (.modifyPartition event.key.partition
    ({ · with currentRetainedSegment := event.retainedAnchor.id }))
  writeTopic event.key.topic (.modifyPartition event.key.partition
    ({ · with currentRetainedHeaderHash := event.retainedAnchor.headerHash }))
  writeTopic event.key.topic (.modifyPartition event.key.partition
    ({ · with boundaryCatalogNext := offset + 1 }))
  writeTopic event.key.topic (.modifyPartition event.key.partition fun p =>
    { p with
      maximumRecordedRetirementH :=
        if p.maximumRecordedRetirementH < event.evaluatedDurableEnd then event.evaluatedDurableEnd
        else p.maximumRecordedRetirementH })
  write ({ · with revision := offset + 1 })

def applyLogStartAdvancedInPlace (offset : UInt64) (payload : Bytes) :
    InPlace GoError CatalogProjection Unit := do
  let projection ← state
  let event ← check (decodePartitionLogStartAdvancedPayload payload)
  check (failIf (event.storeID ≠ projection.storeID ∨ event.expectedCatalogNext ≠ offset)
    (corrupt .errInvalidRecord "retention event store or catalog revision mismatch"))
  let unknown := corrupt .errInvalidRecord "retention event references an unknown partition"
  let some topic := projection.topicsByID[event.key.topic]? | check (throw unknown)
  let some partition := topic.descriptor.partitions[event.key.partition.toNat]?
    | check (throw unknown)
  check (partition.checkRetention event)
  writeLogStartAdvanced offset event

/-- `catalogProjection.apply` -/
def applyInPlace (record : Record) : InPlace GoError CatalogProjection Unit := do
  let (eventType, payload) ← check (decodeSystemEvent record clusterMetadataTopicID)
  if eventType = eventStoreInitialized then
    applyStoreInitializedInPlace record.offset payload
  else if eventType = eventTopicCreated then
    applyTopicCreatedInPlace record.offset payload
  else if eventType = eventPartitionLogStartAdvanced then
    applyLogStartAdvancedInPlace record.offset payload
  else check (throw (⟨[.errUnsupportedFormat], ["unsupported catalog event"]⟩))

/-! ## The catalog's writes come last -/

theorem applyStoreInitialized_applies (p : CatalogProjection) (offset : UInt64) (payload : Bytes) :
    Applies (applyStoreInitializedInPlace offset payload) p
      (p.applyStoreInitialized offset payload) := by
  refine applies_state (applies_check fun _ => applies_check fun event => ?_)
  rfl

theorem applyTopicCreated_applies (p : CatalogProjection) (offset : UInt64) (payload : Bytes) :
    Applies (applyTopicCreatedInPlace offset payload) p (p.applyTopicCreated offset payload) := by
  refine applies_state (applies_check fun _ => applies_check fun event => ?_)
  refine applies_check fun _ => applies_check fun _ => applies_check fun _ => ?_
  rfl

theorem modifyTopic_modifyTopic (topic : TopicID) (f g : CatalogTopic → CatalogTopic)
    (p : CatalogProjection) :
    modifyTopic topic g (modifyTopic topic f p) = modifyTopic topic (fun t => g (f t)) p := by
  simp only [modifyTopic, modify_modify]
  rfl

theorem foldl_modifyTopic {ι : Type} (topic : TopicID) (f : ι → CatalogTopic → CatalogTopic)
    (items : List ι) (p : CatalogProjection) :
    items.foldl (fun p x => modifyTopic topic (f x) p) p =
      modifyTopic topic (fun t => items.foldl (fun t x => f x t) t) p := by
  induction items generalizing p with
  | nil => simp [modifyTopic, modify_id]
  | cons x items ih =>
      rw [List.foldl_cons, ih, modifyTopic_modifyTopic]
      rfl

end CatalogProjection

namespace CatalogTopic

theorem foldl_retire (partition : UInt32) (retired : List RetiredSegmentEvent)
    (topic : CatalogTopic) :
    retired.foldl (fun topic item => retire partition item topic) topic =
      { topic with
        retired := topic.retired.modify partition fun byBase =>
          retired.foldl (fun byBase item => byBase.insert item.base item) byBase } := by
  induction retired generalizing topic with
  | nil => simp [modify_id]
  | cons item retired ih =>
      rw [List.foldl_cons, ih]
      simp only [retire, modify_modify]
      rfl

/-- Two changes of one partition are one change. -/
theorem modifyPartition_modifyPartition (partition : UInt32)
    (f g : TopicPartition → TopicPartition) (topic : CatalogTopic) :
    modifyPartition partition g (modifyPartition partition f topic) =
      modifyPartition partition (fun p => g (f p)) topic := by
  simp only [modifyPartition, List.modify_modify_eq]
  rfl

theorem advanced_eq (topic : CatalogTopic) (offset : UInt64)
    (event : PartitionLogStartAdvancedEvent) :
    topic.advanced offset event =
      modifyPartition event.key.partition (·.advanced offset event)
        { topic with retired := topic.retired.addAll event.key.partition event.retired } := rfl

theorem retired_made (partition : UInt32) (retired : List RetiredSegmentEvent)
    (topic : CatalogTopic) :
    retired.foldl (fun topic item => retire partition item topic) (makeRetired partition topic) =
      { topic with retired := topic.retired.addAll partition retired } := by
  rw [foldl_retire, makeRetired, RetiredInventory.addAll, modify_made]

end CatalogTopic

namespace CatalogProjection

open InPlace

/-- The writes of a retirement, one after another, are the new state of the projection. -/
theorem writes_logStartAdvanced (offset : UInt64) (event : PartitionLogStartAdvancedEvent) :
    Writes (writeLogStartAdvanced offset event) fun p =>
      { modifyTopic event.key.topic (·.advanced offset event) p with revision := offset + 1 } := by
  have topic (f : CatalogTopic → CatalogTopic) :
      Writes (writeTopic event.key.topic f) (modifyTopic event.key.topic f) := writes_write _
  rw [writeLogStartAdvanced]
  refine .of_eq (.bind (topic _) (.bind (writes_forM (fun item => topic _) event.retired)
    (.bind (topic _) (.bind (topic _) (.bind (topic _) (.bind (topic _) (.bind (topic _)
      (writes_write _)))))))) ?_
  intro p
  refine congrArg (fun q : CatalogProjection => { q with revision := offset + 1 }) ?_
  simp only [foldl_modifyTopic, modifyTopic_modifyTopic,
    CatalogTopic.retired_made, CatalogTopic.modifyPartition_modifyPartition,
    CatalogTopic.advanced_eq, TopicPartition.advanced]

theorem applyLogStartAdvanced_applies (p : CatalogProjection) (offset : UInt64)
    (payload : Bytes) :
    Applies (applyLogStartAdvancedInPlace offset payload) p
      (p.applyLogStartAdvanced offset payload) := by
  refine applies_state (applies_check fun event => applies_check fun _ => ?_)
  cases found : p.topicsByID[event.key.topic]? with
  | none => rfl
  | some topic =>
      simp only
      cases inside : topic.descriptor.partitions[event.key.partition.toNat]? with
      | none => rfl
      | some partition =>
          refine applies_check fun _ => ?_
          rw [insert_eq_modify (f := (CatalogTopic.advanced · offset event)) found]
          exact (writes_logStartAdvanced offset event).applies p

/-- A record changes the catalog in place exactly as the copy is changed, or not at all. -/
theorem apply_applies (p : CatalogProjection) (record : Record) :
    Applies (applyInPlace record) p (p.apply record) := by
  refine applies_check fun event => ?_
  dsimp only
  split
  · exact applyStoreInitialized_applies ..
  split
  · exact applyTopicCreated_applies ..
  split
  · exact applyLogStartAdvanced_applies ..
  · rfl

end CatalogProjection

/-! ## The offsets -/

namespace OffsetsProjection

open EventCursor Parsing

/-- An assignment through the pointer to a group of the projection. -/
def writeGroup (groupID : Bytes) (f : OffsetGroup → OffsetGroup) :
    Parsing GoError OffsetsProjection Unit :=
  write fun p => { p with groups := p.groups.modify groupID f }

def applyGroupCreatedInPlace (offset : UInt64) (payload : Bytes) (catalog : CatalogProjection)
    (catalogNext : UInt64) : Parsing GoError OffsetsProjection Unit := do
  let projection ← state
  let groupID ← .read (stringValue maxGroupIDBytes)
  .read (Cursor.ensure (groupID ∈ projection.groups)
    (corrupt .errInvalidRecord "duplicate GroupCreated event"))
  let startMode ← .read u8
  .read (Cursor.ensure (startMode < 1 ∨ 3 < startMode) (unsupported "unsupported group start mode"))
  .read expectReserved
  let count ← .read u32
  .read (Cursor.ensure ((startMode = 1 ∨ startMode = 2) ∧ count ≠ 0 ∨ startMode = 3 ∧ count = 0)
    (corrupt .errInvalidRecord "group start policy and explicit starts disagree"))
  let (explicit, _) ←
    .read (Cursor.loop (explicitStep catalog catalogNext) count.toNat (∅, none))
  .read finishEvent
  write fun p => { p with
    groups := p.groups.insert groupID
      { creationOffset := offset
        creationBody := payload
        generation := 0
        assignmentOffset := 0
        assignmentBody := []
        assignmentOwner := ∅
        assignmentMember := ∅
        assignmentInstance := 0
        creationStartMode := startMode
        explicitStarts := explicit
        progress := ∅ } }
  write ({ · with revision := offset + 1 })

def applyAssignmentInPlace (offset : UInt64) (payload : Bytes) (catalog : CatalogProjection)
    (catalogNext : UInt64) : Parsing GoError OffsetsProjection Unit := do
  let projection ← state
  let groupID ← .read (stringValue maxGroupIDBytes)
  let some group := projection.groups[groupID]?
    | .read (Cursor.fail (corrupt .errInvalidRecord "assignment references an unknown group"))
  -- `progressState` starts as a copy: its loop never reaches the group's own map.
  let copied := group.progress
  let assignmentInstance ← .read (requireID "assignment instance ID")
  let expected ← .read u64
  let newGeneration ← .read u64
  .read (Cursor.ensure (expected ≠ group.generation ∨ newGeneration ≠ expected + 1)
    (corrupt .errInvalidRecord "assignment generation does not match projected state"))
  let _ ← .read u8
  .read expectReserved
  let members ← .read u32
  let ⟨memberIDs, subscribed, _⟩ ←
    .read (Cursor.loop (memberStep catalog catalogNext) members.toNat ⟨∅, ∅, none⟩)
  let assignments ← .read u32
  let ⟨owners, progressState, _⟩ ←
    .read (Cursor.loop (assignmentStep subscribed) assignments.toNat ⟨∅, copied, none⟩)
  .read (Cursor.ensure (owners.size ≠ subscribed.size)
    (corrupt .errInvalidRecord "assignment does not cover every subscription"))
  .read finishEvent
  writeGroup groupID ({ · with progress := progressState })
  writeGroup groupID ({ · with generation := newGeneration })
  writeGroup groupID ({ · with assignmentOffset := offset })
  writeGroup groupID ({ · with assignmentBody := payload })
  writeGroup groupID ({ · with assignmentOwner := owners })
  writeGroup groupID ({ · with assignmentMember := memberIDs })
  writeGroup groupID ({ · with assignmentInstance := assignmentInstance })
  write ({ · with revision := offset + 1 })

/-- The position a commit event expects before it. -/
def checkPrevious (progress : OffsetProgress) (previousKind : UInt8) (expectedPrevious : UInt64) :
    Cursor GoError Unit :=
  if previousKind = 0 then
    Cursor.ensure (progress.hasCommit = true ∨ expectedPrevious ≠ progress.initialNext)
      (corrupt .errInvalidRecord "commit baseline does not match state")
  else
    Cursor.ensure (progress.hasCommit = false ∨ expectedPrevious ≠ progress.committedNext)
      (corrupt .errInvalidRecord "commit previous position does not match state")

def applyCommitInPlace (offset : UInt64) (catalog : CatalogProjection) (catalogNext : UInt64) :
    Parsing GoError OffsetsProjection Unit := do
  let projection ← state
  let groupID ← .read (stringValue maxGroupIDBytes)
  let some group := projection.groups[groupID]?
    | .read (Cursor.fail (corrupt .errInvalidRecord "commit references an unknown group"))
  let commitInstance ← .read (requireID "commit instance ID")
  let session ← .read (requireID "commit member session ID")
  let generation ← .read u64
  let key ← .read decodeTopicKey
  let previousKind ← .read u8
  .read (Cursor.ensure (1 < previousKind) (unsupported "unsupported commit previous-state kind"))
  .read expectReserved
  let expectedPrevious ← .read u64
  let next ← .read u64
  .read finishEvent
  let _ ← .read (Cursor.lift (catalogPartition catalog key catalogNext))
  let token := corrupt .errInvalidRecord "commit ownership token does not match assignment"
  .read (Cursor.ensure (generation ≠ group.generation) token)
  let some progress := group.progress[key]? | .read (Cursor.fail token)
  .read (Cursor.ensure (group.assignmentOwner[key]? ≠ some session ∨
    commitInstance ≠ group.assignmentInstance) token)
  .read (checkPrevious progress previousKind expectedPrevious)
  .read (Cursor.ensure (next < expectedPrevious)
    (corrupt .errInvalidRecord "commit regresses position"))
  writeGroup groupID fun group =>
    { group with
      progress := group.progress.insert key
        { progress with hasCommit := true, committedNext := next } }
  write ({ · with revision := offset + 1 })

/-- `offsetsProjection.apply`; the catalog may be nil. -/
def applyInPlace (catalog : Option CatalogProjection) (record : Record) :
    InPlace GoError OffsetsProjection Unit := do
  let (eventType, payload) ← InPlace.check (decodeSystemEvent record consumerOffsetsTopicID)
  Parsing.readFrom payload do
    let projection ← state
    let encodedStore ← .read id
    .read (Cursor.ensure (encodedStore ≠ projection.storeID)
      (corrupt .errInvalidRecord "offset event StoreID mismatch"))
    let catalogNext ← .read u64
    let unavailable := corrupt .errInvalidRecord "offset event catalog revision is unavailable"
    let some catalog := catalog | .read (Cursor.fail unavailable)
    .read (Cursor.ensure (catalogNext = 0 ∨ catalog.revision < catalogNext) unavailable)
    if eventType = eventGroupCreated then
      applyGroupCreatedInPlace record.offset payload catalog catalogNext
    else if eventType = eventLocalAssignmentChanged then
      applyAssignmentInPlace record.offset payload catalog catalogNext
    else if eventType = eventOffsetCommitted then
      applyCommitInPlace record.offset catalog catalogNext
    else .read (Cursor.fail (corrupt .errInvalidRecord "invalid offsets event type"))

/-! ## The offsets' writes come last -/

theorem applyGroupCreated_applies (p : OffsetsProjection) (offset : UInt64) (payload : Bytes)
    (catalog : CatalogProjection) (catalogNext : UInt64) :
    Applies (applyGroupCreatedInPlace offset payload catalog catalogNext) p
      (p.applyGroupCreated offset payload catalog catalogNext) := by
  refine applies_state (applies_read fun groupID => applies_read fun _ => ?_)
  refine applies_read fun startMode => applies_read fun _ => applies_read fun _ => ?_
  refine applies_read fun count => applies_read fun _ => applies_read fun starts => ?_
  refine applies_read fun _ => applies_writes fun _ => ?_
  rfl

theorem applyAssignment_applies (p : OffsetsProjection) (offset : UInt64) (payload : Bytes)
    (catalog : CatalogProjection) (catalogNext : UInt64) :
    Applies (applyAssignmentInPlace offset payload catalog catalogNext) p
      (p.applyAssignment offset payload catalog catalogNext) := by
  refine applies_state (applies_read fun groupID => ?_)
  cases found : p.groups[groupID]? with
  | none => exact applies_fail
  | some group =>
      refine applies_read fun assignmentInstance => applies_read fun expected => ?_
      refine applies_read fun newGeneration => applies_read fun _ => applies_read fun _ => ?_
      refine applies_read fun _ => applies_read fun members => applies_read fun memberState => ?_
      refine applies_read fun assignments => applies_read fun assigned => ?_
      refine applies_read fun _ => applies_read fun _ => applies_writes fun bs => ?_
      change (Except.ok ((), bs), OffsetsProjection.mk p.storeID (offset + 1)
        (((((((p.groups.modify groupID _).modify groupID _).modify groupID _).modify groupID
          _).modify groupID _).modify groupID _).modify groupID _)) = _
      simp only [modify_modify]
      rw [← insert_eq_modify found]
      rfl

theorem applyCommit_applies (p : OffsetsProjection) (offset : UInt64)
    (catalog : CatalogProjection) (catalogNext : UInt64) :
    Applies (applyCommitInPlace offset catalog catalogNext) p
      (p.applyCommit offset catalog catalogNext) := by
  refine applies_state (applies_read fun groupID => ?_)
  cases found : p.groups[groupID]? with
  | none => exact applies_fail
  | some group =>
      refine applies_read fun commitInstance => applies_read fun session => ?_
      refine applies_read fun generation => applies_read fun key => ?_
      refine applies_read fun previousKind => applies_read fun _ => applies_read fun _ => ?_
      refine applies_read fun expectedPrevious => applies_read fun next => ?_
      refine applies_read fun _ => applies_read fun _ => applies_read fun _ => ?_
      cases group.progress[key]? with
      | none => exact applies_fail
      | some progress =>
          refine applies_read fun _ => ?_
          rw [checkPrevious]
          -- The two kinds of previous position are checked apart and written alike.
          split
          all_goals
            refine applies_read fun _ => applies_read fun _ => applies_writes fun bs => ?_
            change (Except.ok ((), bs),
              OffsetsProjection.mk p.storeID (offset + 1) (p.groups.modify groupID _)) = _
            rw [← insert_eq_modify found]

/-- A nil catalog ends every event at the check of its revision. -/
theorem apply_nil_applies (p : OffsetsProjection) (record : Record) :
    InPlace.Applies (applyInPlace none record) p (do
      let (_, payload) ← decodeSystemEvent record consumerOffsetsTopicID
      Cursor.readFrom payload do
        let encodedStore ← id
        Cursor.ensure (encodedStore ≠ p.storeID)
          (corrupt .errInvalidRecord "offset event StoreID mismatch")
        let _ ← u64
        Cursor.fail
          (corrupt .errInvalidRecord "offset event catalog revision is unavailable")) := by
  refine InPlace.applies_check fun event => ?_
  refine applies_state (applies_read fun store => ?_) event.2
  exact applies_read fun _ => applies_read fun _ => applies_fail

/-- The same for the projection of the offsets. -/
theorem apply_applies (p : OffsetsProjection) (catalog : CatalogProjection) (record : Record) :
    InPlace.Applies (applyInPlace (some catalog) record) p (apply catalog p record) := by
  refine InPlace.applies_check fun event => ?_
  refine applies_state (applies_read fun store => ?_) event.2
  refine applies_read fun _ => applies_read fun catalogNext => applies_read fun _ => ?_
  split
  · exact applyGroupCreated_applies p record.offset event.2 catalog catalogNext
  split
  · exact applyAssignment_applies p record.offset event.2 catalog catalogNext
  split
  · exact applyCommit_applies p record.offset catalog catalogNext
  · exact applies_fail

end OffsetsProjection

/-! ## Rejected records -/

/-- A record that either projection rejects leaves all of it as it was. -/
theorem rejected_events_change_nothing (record : Record) (e : GoError) :
    (∀ p p' : CatalogProjection,
      CatalogProjection.applyInPlace record p = (.error e, p') → p' = p) ∧
    ∀ (catalog : Option CatalogProjection) (p p' : OffsetsProjection),
      OffsetsProjection.applyInPlace catalog record p = (.error e, p') → p' = p := by
  constructor
  · intro p p' failed
    exact (CatalogProjection.apply_applies p record).unchanged failed
  · intro catalog p p' failed
    cases catalog with
    | none => exact (OffsetsProjection.apply_nil_applies p record).unchanged failed
    | some catalog => exact (OffsetsProjection.apply_applies p catalog record).unchanged failed

namespace Refused

open OffsetsProjection (createdOffsets sampleAssignment)

/-- A catalog with a topic whose partition has a limit on its size. -/
def catalog : CatalogProjection :=
  (newCatalogProjection.after 0 (.storeInitialized sampleInitialized)).after 1
    (.topicCreated retainedTopic)

/-- The start moves to three, but the only listed segment ends at two. -/
def uncovered : Record :=
  catalogRecord 2 (.logStartAdvanced (sampleRetirement 2 0 3 ⟨6, 6⟩ [⟨0, 2, 100, ⟨3, 3⟩⟩]))

/-- The assignment of the samples with one more byte behind its last entry. -/
def overlong : Record :=
  systemRecord consumerOffsetsTopicID 1
    (envelope eventLocalAssignmentChanged (sampleAssignment.bytes ++ [0]))

def gap : GoError :=
  corrupt .errInvalidRecord "retention retirement list does not cover the boundary"

def surplus : GoError := corrupt .errInvalidRecord "trailing system event bytes"

/-- Both events pass all checks of their handlers but the last one. -/
theorem rejected_unchanged :
    (∃ p', CatalogProjection.applyInPlace uncovered catalog = (.error gap, p') ∧
      p' = catalog) ∧
    ∃ p', OffsetsProjection.applyInPlace (some sampleCatalog) overlong createdOffsets =
        (.error surplus, p') ∧
      p' = createdOffsets := by
  have refused : (CatalogProjection.applyInPlace uncovered catalog).1 = .error gap := by
    decide +kernel
  have refused' : (OffsetsProjection.applyInPlace (some sampleCatalog) overlong
      createdOffsets).1 = .error surplus := by
    decide +kernel
  have outcome := Prod.fst_eq_iff.1 refused
  have outcome' := Prod.fst_eq_iff.1 refused'
  exact ⟨⟨_, outcome, (rejected_events_change_nothing uncovered gap).1 _ _ outcome⟩,
    ⟨_, outcome', (rejected_events_change_nothing overlong surplus).2 _ _ _ outcome'⟩⟩

end Refused

end Immulog
