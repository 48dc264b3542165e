import Immulog.Catalog

/-!
The offsets projection (`src/storage/offsets_projection.go`): groups, assignments
and committed positions, as replaying the consumer-offsets log yields them.
-/

namespace Immulog

open Lib Std

structure OffsetProgress where
  initialNext : UInt64
  hasCommit : Bool
  committedNext : UInt64
  deriving DecidableEq, Repr

structure OffsetGroup where
  creationOffset : UInt64
  creationBody : Bytes
  generation : UInt64
  assignmentOffset : UInt64
  assignmentBody : Bytes
  assignmentOwner : ExtTreeMap TopicKey Session
  assignmentMember : GoSet Session
  assignmentInstance : StoreID
  creationStartMode : UInt8
  explicitStarts : ExtTreeMap TopicKey UInt64
  progress : ExtTreeMap TopicKey OffsetProgress
  deriving DecidableEq

structure OffsetsProjection where
  storeID : StoreID
  revision : UInt64
  groups : ExtTreeMap Bytes OffsetGroup
  deriving DecidableEq

def newOffsetsProjection (storeID : StoreID) : OffsetsProjection where
  storeID := storeID
  revision := 0
  groups := ∅

def latestNext (progress : OffsetProgress) : UInt64 :=
  if progress.hasCommit then progress.committedNext else progress.initialNext

def catalogPartition (catalog : CatalogProjection) (key : TopicKey) (catalogNext : UInt64) :
    Except GoError TopicPartition := do
  let unknown := corrupt .errInvalidRecord "offset event references an unknown topic partition"
  let some topic := catalog.topicsByID[key.topic]? | throw unknown
  let some partition := topic.descriptor.partitions[key.partition.toNat]? | throw unknown
  failIf (catalogNext < topic.creationOffset + 1)
    (corrupt .errInvalidRecord
      "offset event references a topic created after its catalog revision")
  return partition

namespace OffsetsProjection

open EventCursor

/-- One explicit start: the map so far and the key before. -/
def explicitStep (catalog : CatalogProjection) (catalogNext : UInt64)
    (state : ExtTreeMap TopicKey UInt64 × Option TopicKey) :
    Cursor GoError (ExtTreeMap TopicKey UInt64 × Option TopicKey) := do
  let key ← decodeTopicKey
  Cursor.ensure (Misordered state.2 key)
    (corrupt .errInvalidRecord "group explicit starts are not canonical")
  let _ ← Cursor.lift (catalogPartition catalog key catalogNext)
  let next ← u64
  return (state.1.insert key next, some key)

def applyGroupCreated (projection : OffsetsProjection) (offset : UInt64) (payload : Bytes)
    (catalog : CatalogProjection) (catalogNext : UInt64) : Cursor GoError OffsetsProjection := do
  let groupID ← stringValue maxGroupIDBytes
  Cursor.ensure (groupID ∈ projection.groups)
    (corrupt .errInvalidRecord "duplicate GroupCreated event")
  let startMode ← u8
  Cursor.ensure (startMode < 1 ∨ 3 < startMode) (unsupported "unsupported group start mode")
  expectReserved
  let count ← u32
  Cursor.ensure ((startMode = 1 ∨ startMode = 2) ∧ count ≠ 0 ∨ startMode = 3 ∧ count = 0)
    (corrupt .errInvalidRecord "group start policy and explicit starts disagree")
  let (explicit, _) ← Cursor.loop (explicitStep catalog catalogNext) count.toNat (∅, none)
  finishEvent
  return { projection with
    revision := offset + 1
    groups := projection.groups.insert groupID
      { creationOffset := offset
        creationBody := payload
        generation := 0
        assignmentOffset := 0
        assignmentBody := []
        assignmentOwner := ∅
        assignmentMember := ∅
        assignmentInstance := 0
        creationStartMode := startMode
        explicitStarts := explicit
        progress := ∅ } }

/-- One subscription of a member: the subscribed keys so far and the key before. -/
def subscriptionStep (catalog : CatalogProjection) (catalogNext : UInt64) (session : Session)
    (state : ExtTreeMap TopicKey Session × Option TopicKey) :
    Cursor GoError (ExtTreeMap TopicKey Session × Option TopicKey) := do
  let key ← decodeTopicKey
  Cursor.ensure (Misordered state.2 key)
    (corrupt .errInvalidRecord "member subscriptions are not canonical")
  let _ ← Cursor.lift (catalogPartition catalog key catalogNext)
  Cursor.ensure (key ∈ state.1)
    (corrupt .errInvalidRecord "subscription key has multiple owners")
  return (state.1.insert key session, some key)

structure MemberState where
  memberIDs : GoSet Session
  subscribed : ExtTreeMap TopicKey Session
  previousSession : Option Session

def memberStep (catalog : CatalogProjection) (catalogNext : UInt64) (state : MemberState) :
    Cursor GoError MemberState := do
  let session ← requireID "assignment session ID"
  Cursor.ensure (Misordered state.previousSession session)
    (corrupt .errInvalidRecord "assignment members are not canonical")
  let subscriptions ← u32
  let (subscribed, _) ← Cursor.loop (subscriptionStep catalog catalogNext session)
    subscriptions.toNat (state.subscribed, none)
  return { memberIDs := state.memberIDs.insert session ()
           subscribed := subscribed
           previousSession := some session }

structure AssignmentState where
  owners : ExtTreeMap TopicKey Session
  progressState : ExtTreeMap TopicKey OffsetProgress
  previousKey : Option TopicKey

def assignmentStep (subscribed : ExtTreeMap TopicKey Session) (state : AssignmentState) :
    Cursor GoError AssignmentState := do
  let key ← decodeTopicKey
  Cursor.ensure (Misordered state.previousKey key)
    (corrupt .errInvalidRecord "assignments are not canonical")
  let owner ← requireID "assignment owner session ID"
  Cursor.ensure (subscribed.getD key 0 ≠ owner)
    (corrupt .errInvalidRecord "assignment owner is not the key subscriber")
  let resume ← u64
  let action ← u8
  Cursor.ensure (1 < action) (unsupported "unsupported assignment baseline action")
  expectReserved
  let initial ← u64
  let progress := state.progressState[key]?
  if action = 1 then
    Cursor.ensure (progress.isSome = true ∨ initial ≠ resume)
      (corrupt .errInvalidRecord "assignment creates an existing baseline")
    return { owners := state.owners.insert key owner
             progressState := state.progressState.insert key ⟨initial, false, 0⟩
             previousKey := some key }
  else
    Cursor.ensure (initial ≠ 0 ∨ progress.map latestNext ≠ some resume)
      (corrupt .errInvalidRecord "assignment baseline reuse does not match state")
    return { state with owners := state.owners.insert key owner, previousKey := some key }

def applyAssignment (projection : OffsetsProjection) (offset : UInt64) (payload : Bytes)
    (catalog : CatalogProjection) (catalogNext : UInt64) : Cursor GoError OffsetsProjection := do
  let groupID ← stringValue maxGroupIDBytes
  let some group := projection.groups[groupID]?
    | Cursor.fail (corrupt .errInvalidRecord "assignment references an unknown group")
  let assignmentInstance ← requireID "assignment instance ID"
  let expected ← u64
  let newGeneration ← u64
  Cursor.ensure (expected ≠ group.generation ∨ newGeneration ≠ expected + 1)
    (corrupt .errInvalidRecord "assignment generation does not match projected state")
  let _ ← u8
  expectReserved
  let members ← u32
  let ⟨memberIDs, subscribed, _⟩ ← Cursor.loop (memberStep catalog catalogNext) members.toNat
    ⟨∅, ∅, none⟩
  let assignments ← u32
  let ⟨owners, progressState, _⟩ ← Cursor.loop (assignmentStep subscribed) assignments.toNat
    ⟨∅, group.progress, none⟩
  Cursor.ensure (owners.size ≠ subscribed.size)
    (corrupt .errInvalidRecord "assignment does not cover every subscription")
  finishEvent
  return { projection with
    revision := offset + 1
    groups := projection.groups.insert groupID
      { group with
        progress := progressState
        generation := newGeneration
        assignmentOffset := offset
        assignmentBody := payload
        assignmentOwner := owners
        assignmentMember := memberIDs
        assignmentInstance := assignmentInstance } }

def applyCommit (projection : OffsetsProjection) (offset : UInt64)
    (catalog : CatalogProjection) (catalogNext : UInt64) : Cursor GoError OffsetsProjection := do
  let groupID ← stringValue maxGroupIDBytes
  let some group := projection.groups[groupID]?
    | Cursor.fail (corrupt .errInvalidRecord "commit references an unknown group")
  let commitInstance ← requireID "commit instance ID"
  let session ← requireID "commit member session ID"
  let generation ← u64
  let key ← decodeTopicKey
  let previousKind ← u8
  Cursor.ensure (1 < previousKind) (unsupported "unsupported commit previous-state kind")
  expectReserved
  let expectedPrevious ← u64
  let next ← u64
  finishEvent
  let _ ← Cursor.lift (catalogPartition catalog key catalogNext)
  let token := corrupt .errInvalidRecord "commit ownership token does not match assignment"
  Cursor.ensure (generation ≠ group.generation) token
  let some progress := group.progress[key]? | Cursor.fail token
  Cursor.ensure (group.assignmentOwner[key]? ≠ some session ∨
    commitInstance ≠ group.assignmentInstance) token
  if previousKind = 0 then
    Cursor.ensure (progress.hasCommit = true ∨ expectedPrevious ≠ progress.initialNext)
      (corrupt .errInvalidRecord "commit baseline does not match state")
  else
    Cursor.ensure (progress.hasCommit = false ∨ expectedPrevious ≠ progress.committedNext)
      (corrupt .errInvalidRecord "commit previous position does not match state")
  Cursor.ensure (next < expectedPrevious)
    (corrupt .errInvalidRecord "commit regresses position")
  return { projection with
    revision := offset + 1
    groups := projection.groups.insert groupID
      { group with
        progress := group.progress.insert key
          { progress with hasCommit := true, committedNext := next } } }

/-- A catalog is always at hand. -/
def apply (catalog : CatalogProjection) (projection : OffsetsProjection) (record : Record) :
    Except GoError OffsetsProjection := do
  let (eventType, payload) ← decodeSystemEvent record consumerOffsetsTopicID
  Cursor.readFrom payload do
    let encodedStore ← id
    Cursor.ensure (encodedStore ≠ projection.storeID)
      (corrupt .errInvalidRecord "offset event StoreID mismatch")
    let catalogNext ← u64
    Cursor.ensure (catalogNext = 0 ∨ catalog.revision < catalogNext)
      (corrupt .errInvalidRecord "offset event catalog revision is unavailable")
    if eventType = eventGroupCreated then
      projection.applyGroupCreated record.offset payload catalog catalogNext
    else if eventType = eventLocalAssignmentChanged then
      projection.applyAssignment record.offset payload catalog catalogNext
    else if eventType = eventOffsetCommitted then
      projection.applyCommit record.offset catalog catalogNext
    else Cursor.fail (corrupt .errInvalidRecord "invalid offsets event type")

end OffsetsProjection

end Immulog
