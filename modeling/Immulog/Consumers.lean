import Immulog.Lib.Sorting
import Immulog.Topics

/-!
Consumers and consumer groups (`src/storage/consumer.go` and `group_consumer.go`).

The handles are kept by number.  Every call that takes a lock of the store is one step;
a `Poll` takes it twice, before and after it fetches.  The clock is an argument: `now`,
and the start of the earliest operation that waits on the handle, which keeps its lease
alive.
-/

namespace Immulog

open Lib Std

/-! ## Bodies of the events -/

def groupStartEarliest : UInt8 := 1
def groupStartLatest : UInt8 := 2
def groupStartExplicit : UInt8 := 3

/-- The fields that every event of the offsets log begins with. -/
def encodeEventFront (storeID : StoreID) (catalogNext : UInt64) (groupID : Bytes) :
    Except GoError Bytes :=
  appendString (putID storeID ++ putUint64 catalogNext) groupID maxGroupIDBytes

/-- `encodeGroupCreatedGroupBody`, with the explicit starts in key order. -/
def encodeGroupCreatedBody (storeID : StoreID) (catalogNext : UInt64) (groupID : Bytes)
    (start : UInt8) (starts : List (TopicKey × UInt64)) : Except GoError Bytes := do
  let body ← encodeEventFront storeID catalogNext groupID
  return body ++ [start, 0, 0, 0] ++ putUint32 (.ofNat starts.length) ++
    starts.flatMap fun entry => putID entry.1.topic ++ putUint32 entry.1.partition ++
      putUint64 entry.2

structure GroupAssignment where
  key : TopicKey
  owner : Session
  resume : UInt64
  createBaseline : Bool
  deriving DecidableEq, Repr

/-- `encodeGroupAssignmentBody`, with the assignments in key order. -/
def encodeGroupAssignmentBody (storeID : StoreID) (catalogNext : UInt64) (groupID : Bytes)
    (generation : UInt64) (reason : UInt8) (members : List (Session × List TopicKey))
    (assignments : List GroupAssignment) : Except GoError Bytes := do
  let body ← encodeEventFront storeID catalogNext groupID
  return body ++ putID storeID ++ putUint64 generation ++ putUint64 (generation + 1) ++
    [reason, 0, 0, 0] ++ putUint32 (.ofNat members.length) ++
    (members.flatMap fun member => putID member.1 ++ putUint32 (.ofNat member.2.length) ++
      member.2.flatMap fun key => putID key.topic ++ putUint32 key.partition) ++
    putUint32 (.ofNat assignments.length) ++
    assignments.flatMap fun a => putID a.key.topic ++ putUint32 a.key.partition ++ putID a.owner ++
      putUint64 a.resume ++
      if a.createBaseline then [1, 0, 0, 0] ++ putUint64 a.resume else [0, 0, 0, 0] ++ putUint64 0

/-- `encodeAssignmentBody`: one member with one key. -/
def encodeAssignmentBody (storeID : StoreID) (catalogNext : UInt64) (groupID : Bytes)
    (session : Session) (generation : UInt64) (reason : UInt8) (key : TopicKey) (resume : UInt64)
    (createBaseline : Bool) : Except GoError Bytes :=
  encodeGroupAssignmentBody storeID catalogNext groupID generation reason [(session, [key])]
    [⟨key, session, resume, createBaseline⟩]

/-- `encodeEmptyAssignmentBody`: a revocation. -/
def encodeEmptyAssignmentBody (storeID : StoreID) (catalogNext : UInt64) (groupID : Bytes)
    (generation : UInt64) : Except GoError Bytes :=
  encodeGroupAssignmentBody storeID catalogNext groupID generation 2 [] []

def encodeCommitBody (storeID : StoreID) (catalogNext : UInt64) (groupID : Bytes)
    (session : Session) (generation : UInt64) (key : TopicKey) (progress : OffsetProgress)
    (next : UInt64) : Except GoError Bytes := do
  let body ← encodeEventFront storeID catalogNext groupID
  return body ++ putID storeID ++ putID session ++ putUint64 generation ++ putID key.topic ++
    putUint32 key.partition ++
    (if progress.hasCommit then [1, 0, 0, 0] ++ putUint64 progress.committedNext
      else [0, 0, 0, 0] ++ putUint64 progress.initialNext) ++ putUint64 next

/-! ## Appending to the offsets log -/

def Store.fenceOffsets (s : Store) : Store :=
  { s with offsetsUnavailable := true }

/-- `AppendBatch` of one event on the offsets log. -/
def appendOffsets (base : UInt64) (value : Bytes) (drawn : SegmentID) : StoreM UInt64 := do
  let s ← .read
  let (offsets, outcome) ← .lift ((appendBatch s.offsets
    (systemBatch consumerOffsetsTopicID base value) drawn true).atPath s.offsetsPath)
  .update fun s => { s with offsets }
  .check outcome

/-- Apply an event that was appended at the given offset. -/
def applyOffsets (base : UInt64) (value : Bytes) : StoreM Unit := do
  let s ← .read
  let offsetsState ← .check
    (s.offsetsState.apply s.catalogState (systemRecord consumerOffsetsTopicID base value))
  .update fun s => { s with offsetsState }

def appendOffsetsEventLocked (eventType : EventType) (body : Bytes) (drawn : SegmentID) :
    StoreM Unit := do
  let value ← .check (encodeSystemEvent eventType body)
  let s ← .read
  let base ← .check s.offsets.endOffset
  .check (systemEventAdmission s.offsets consumerOffsetsTopicID base value
    s.options.maxOffsetsHistoryBytes)
  let _ ← appendOffsets base value drawn
  match ← (applyOffsets base value).attempt with
  | .ok _ => return ()
  | .error e => do
      .update Store.fenceOffsets
      .fail (.join [.ofKind .errGroupUnavailable, e])

/-- What a failed append of a group event is told as; some errors fence the groups. -/
def groupAppendError (e : GoError) : StoreM Unit :=
  if e.is .errAppendOutcomeUnknown ∨ e.is .errPartitionUnavailable ∨
      e.is .errGroupUnavailable then do
    .update Store.fenceOffsets
    .fail (.join [.ofKind .errGroupUnavailable, e])
  else .fail e

def commitAppendError (e : GoError) : StoreM Unit :=
  if e.is .errAppendOutcomeUnknown then do
    .update Store.fenceOffsets
    .fail (.join [.ofKind .errCommitOutcomeUnknown, e])
  else groupAppendError e

/-- Append an event; `onError` tells what its failure is returned as. -/
def appendEventOr (onError : GoError → StoreM Unit) (eventType : EventType) (body : Bytes)
    (drawn : SegmentID) : StoreM Unit := do
  match ← (appendOffsetsEventLocked eventType body drawn).attempt with
  | .ok _ => return ()
  | .error e => onError e

/-! ## Start positions -/

/-- The start policy on a partition; `resolveGroupStart` is the same. -/
def resolveConsumerStart (p : Partition) (start : UInt8) (explicit : UInt64) :
    Except GoError UInt64 := do
  p.checkOpen
  if start = groupStartEarliest then return p.logStart
  else if start = groupStartLatest then return p.logEnd
  else if start = groupStartExplicit then
    failIf (explicit < p.logStart ∨ p.logEnd < explicit) (.ofKind .errOffsetOutOfRange)
    return explicit
  else throw (.join [.ofKind .errInvalidArgument, .new "consumer start policy is invalid"])

def Partition.validateReadOffset (p : Partition) (offset : UInt64) : Except GoError Unit := do
  p.checkOpen
  failIf (offset < p.logStart ∨ p.logEnd < offset) (.ofKind .errOffsetOutOfRange)

def groupHasProjectionKey (group : OffsetGroup) (key : TopicKey) : Bool :=
  key ∈ group.progress ∨ key ∈ group.explicitStarts

/-- The keys among the given ones that a group does not count yet. -/
def missingKeys (group : Option OffsetGroup) (keys : List TopicKey) : Nat :=
  match group with
  | none => keys.length
  | some group => (keys.filter fun key => groupHasProjectionKey group key = false).length

/-- Room for a group with the given keys. -/
def Store.admitGroup (s : Store) (groupID : Bytes) (keys : List TopicKey) : Except GoError Unit :=
  let group := s.offsetsState.groups[groupID]?
  admitOffsetsProjectionGrowth s.offsetsState s.options (if group.isNone then 1 else 0)
    (missingKeys group keys)

def newConsumerSession (drawn : Session) : Session :=
  if drawn = 0 then 1 else drawn

/-- Append the `GroupCreated` event of a group that does not exist yet. -/
def createGroup (groupID : Bytes) (start : UInt8) (starts : List (TopicKey × UInt64))
    (drawn : SegmentID) : StoreM Unit := do
  let s ← .read
  let body ← .check (encodeGroupCreatedBody s.storeID s.catalogState.revision groupID start starts)
  appendEventOr groupAppendError eventGroupCreated body drawn

/-- The group under a name; the callers have created it. -/
def currentGroup (groupID : Bytes) : StoreM OffsetGroup := do
  let s ← .read
  match s.offsetsState.groups[groupID]? with
  | some group => return group
  | none => .fail (.ofKind .errGroupUnavailable)

def policyDiffers (group : OffsetGroup) (start : UInt8) : Except GoError Unit :=
  failIf (group.creationStartMode ≠ start) (.join [.ofKind .errInvalidArgument,
    .new "consumer start policy differs from the durable group policy"])

def generationExhausted (group : OffsetGroup) : Except GoError Unit :=
  failIf (group.generation = 0xFFFFFFFFFFFFFFFF) (.join [.ofKind .errResourceLimit,
    .new "consumer group generation is exhausted"])

/-- Why a group is assigned anew; an expired group is taken off the list. -/
def assignmentReason (groupID : Bytes) (group : OffsetGroup) (live : Bool) : StoreM UInt8 := do
  let s ← .read
  if s.expiredGroups groupID then
    .update fun s => { s with expiredGroups := Function.update s.expiredGroups groupID false }
    return 4
  else if live then return 3
  else if group.generation ≠ 0 then return 5
  else return 1

/-! ## `OpenConsumer` -/

structure ConsumerOptions where
  start : UInt8
  explicitStart : UInt64
  progressTimeout : Int
  fetch : PollOptions

def defaultConsumerProgressTimeout : Int := 30 * 1000000000
def minConsumerProgressTimeout : Int := millisecond
def maxConsumerProgressTimeout : Int := 24 * 60 * 60 * 1000000000

/-- `normalizeFetchOptions` -/
def normalizePollOptions (options : PollOptions) : Except GoError PollOptions := do
  let fetch ← normalizeFetchOptions options.toFetchOptions
  failIf (options.maxWait < 0 ∨ maxConsumerProgressTimeout < options.maxWait)
    (.join [.ofKind .errInvalidArgument,
      .new s!"fetch wait {durationString options.maxWait} is outside [0s,24h]"])
  return { fetch with maxWait := options.maxWait }

/-- A subscription names a partition that can exist. -/
def InvalidSubscription (key : TopicKey) : Prop :=
  ¬ OrdinaryTopicID key.topic ∨ int32Max < key.partition

instance (key : TopicKey) : Decidable (InvalidSubscription key) :=
  inferInstanceAs (Decidable (_ ∨ _))

/-- The range of a progress timeout; `what` names the timeout. -/
def timeoutOutside (what : String) (timeout : Int) : Except GoError Unit :=
  let least := durationString minConsumerProgressTimeout
  let greatest := durationString maxConsumerProgressTimeout
  failIf (timeout < minConsumerProgressTimeout ∨ maxConsumerProgressTimeout < timeout)
    (.join [.ofKind .errInvalidArgument,
      .new s!"{what} {durationString timeout} is outside [{least}, {greatest}]"])

def invalidStart (message : String) (start : UInt8) : Except GoError Unit :=
  failIf (start ≠ groupStartEarliest ∧ start ≠ groupStartLatest ∧ start ≠ groupStartExplicit)
    (.join [.ofKind .errInvalidArgument, .new message])

/-- The arguments with their defaults.  The fetch options are checked, but kept as they
were given. -/
def checkConsumerArguments (groupID : Bytes) (key : TopicKey) (options : ConsumerOptions) :
    Except GoError ConsumerOptions := do
  let _ ← appendString [] groupID maxGroupIDBytes
  failIf (InvalidSubscription key)
    (.join [.ofKind .errInvalidArgument, .new "consumer topic partition is invalid"])
  let start := orDefault options.start groupStartEarliest
  let progressTimeout := orDefault options.progressTimeout defaultConsumerProgressTimeout
  timeoutOutside "consumer progress timeout" progressTimeout
  invalidStart "consumer start policy is invalid" start
  failIf (start ≠ groupStartExplicit ∧ options.explicitStart ≠ 0)
    (.join [.ofKind .errInvalidArgument, .new "explicit start requires GroupStartExplicit"])
  let _ ← normalizePollOptions options.fetch
  return { options with start, progressTimeout }

/-- Where a consumer goes on: at its durable position, or at the start of its policy. -/
def consumerResume (user : Partition) (group : OffsetGroup) (key : TopicKey)
    (options : ConsumerOptions) : Except GoError UInt64 :=
  match group.progress[key]? with
  | some progress => do
      user.validateReadOffset (latestNext progress)
      return latestNext progress
  | none =>
      if options.start = groupStartExplicit then do
        failIf (group.explicitStarts[key]? ≠ some options.explicitStart)
          (.join [.ofKind .errInvalidArgument,
            .new "explicit group start was not persisted for this partition"])
        return options.explicitStart
      else resolveConsumerStart user options.start options.explicitStart

/-- The random identities that a call draws, and the order in which it ranges over the explicit
starts: Go leaves the order of a map open. -/
structure ConsumerDraws where
  partitions : TopicKey → SegmentID
  sessions : Nat → Session
  created : SegmentID
  assigned : SegmentID
  ranged : List (TopicKey × UInt64) → List (TopicKey × UInt64)
  ranged_perm : ∀ starts, (ranged starts).Perm starts

/-- Keep a new handle. -/
def addConsumer (groupID : Bytes) (key : TopicKey) (consumer : Consumer) : StoreM Nat := do
  let s ← .read
  let handle := s.consumerHandles.length
  .update fun s => { s with
    consumerHandles := s.consumerHandles ++ [consumer]
    consumers := Function.update s.consumers groupID
      (Function.update (s.consumers groupID) key (some handle)) }
  return handle

/-- The second part of `OpenConsumer`: the group exists, and the consumer gets its
assignment.  `s` is the store in front of the call. -/
def assignConsumer (groupID : Bytes) (key : TopicKey) (options : ConsumerOptions) (now : Int)
    (draws : ConsumerDraws) (s : Store) (user : Partition) : StoreM Nat := do
  let group ← currentGroup groupID
  .check (policyDiffers group options.start)
  let resume ← .check (consumerResume user group key options)
  .check (generationExhausted group)
  let session := newConsumerSession (draws.sessions 0)
  let reason ← assignmentReason groupID group
    ((s.consumers groupID key).isSome || (s.groupConsumers groupID).isSome)
  let body ← .check (encodeAssignmentBody s.storeID s.catalogState.revision groupID session
    group.generation reason key resume (decide (key ∉ group.progress)))
  appendEventOr groupAppendError eventLocalAssignmentChanged body draws.assigned
  let group ← currentGroup groupID
  addConsumer groupID key
    { groupID, key, session
      generation := group.generation
      fetch := options.fetch
      progressTimeout := options.progressTimeout
      next := resume
      delivered := resume
      deadline := now + options.progressTimeout
      operationActive := false
      expired := false
      closed := false }

/-- `OpenConsumer`: the handle. -/
def Store.openConsumer (groupID : Bytes) (key : TopicKey) (options : ConsumerOptions) (now : Int)
    (draws : ConsumerDraws) : StoreM Nat := do
  let options ← .check (checkConsumerArguments groupID key options)
  let s ← .read
  .check (failIf (s.closing = true) (.ofKind .errClosing))
  .check s.checkOffsets
  let user ← openConsumerPartitionLocked key (draws.partitions key)
  .check (s.admitGroup groupID [key])
  if (s.offsetsState.groups[groupID]?).isNone then
    let initial ← .check (resolveConsumerStart user options.start options.explicitStart)
    createGroup groupID options.start
      (if options.start = groupStartExplicit then [(key, initial)] else []) draws.created
  assignConsumer groupID key options now draws s user

/-! ## `OpenConsumerGroup` -/

structure ConsumerGroupOptions where
  start : UInt8
  explicitStarts : List (TopicKey × UInt64)
  fetch : PollOptions
  progressTimeout : Int

/-- The time of a call, and the start of the earliest operation that waits on the
handle it looks at. -/
structure Clock where
  now : Int
  earliest : Option Int

def Clock.startedBefore (clock : Clock) (deadline : Int) : Bool :=
  clock.earliest.any (· < deadline)

def normalizeConsumerGroupOptions (options : ConsumerGroupOptions) :
    Except GoError ConsumerGroupOptions := do
  let start := orDefault options.start groupStartEarliest
  invalidStart "consumer group start policy is invalid" start
  let progressTimeout := orDefault options.progressTimeout defaultConsumerProgressTimeout
  timeoutOutside "consumer group progress timeout" progressTimeout
  let fetch ← normalizePollOptions options.fetch
  return { options with start, progressTimeout, fetch }

/-- The loop over the sorted subscriptions of a member. -/
def addSubscriptions : Option TopicKey → List TopicKey → GoSet TopicKey →
    Except GoError (GoSet TopicKey)
  | _, [], keys => return keys
  | previous, key :: rest, keys => do
      failIf (previous = some key) (.join [.ofKind .errInvalidArgument,
        .new "consumer group member has duplicate subscriptions"])
      failIf (key ∈ keys)
        (.join [.ofKind .errInvalidArgument, .new "consumer group subscriptions overlap"])
      failIf (maxSubscriptionKeys < (keys.insert key ()).size)
        (.join [.ofKind .errResourceLimit, .new "consumer group subscription count exceeds limit"])
      addSubscriptions (some key) rest (keys.insert key ())

def sortKeys (keys : List TopicKey) : List TopicKey :=
  sortBy compareTopicKey keys

/-- The loop over the members: the sorted subscriptions so far, and all their keys. -/
def canonicalMembers : List (List TopicKey) → List (List TopicKey) → GoSet TopicKey →
    Except GoError (List (List TopicKey) × GoSet TopicKey)
  | [], members, keys => return (members, keys)
  | subscriptions :: rest, members, keys => do
      failIf (∃ key ∈ subscriptions, InvalidSubscription key)
        (.join [.ofKind .errInvalidArgument, .new "consumer group subscription is invalid"])
      let keys ← addSubscriptions none (sortKeys subscriptions) keys
      canonicalMembers rest (members ++ [sortKeys subscriptions]) keys

/-- The members in an order that does not depend on the caller's. -/
def canonicalGroupMembers (specs : List (List TopicKey)) :
    Except GoError (List (List TopicKey) × GoSet TopicKey) := do
  failIf (specs.length = 0 ∨ maxAssignmentMembers < specs.length)
    (.join [.ofKind .errInvalidArgument, .new "consumer group member count is outside limits"])
  let (members, keys) ← canonicalMembers specs [] ∅
  return (sortBy (List.compareLex compareTopicKey) members, keys)

def explicitStartMap : List (TopicKey × UInt64) → ExtTreeMap TopicKey UInt64 →
    Except GoError (ExtTreeMap TopicKey UInt64)
  | [], starts => return starts
  | (key, next) :: rest, starts => do
      failIf (InvalidSubscription key)
        (.join [.ofKind .errInvalidArgument, .new "explicit consumer start is invalid"])
      failIf (key ∈ starts)
        (.join [.ofKind .errInvalidArgument, .new "duplicate explicit consumer start"])
      explicitStartMap rest (starts.insert key next)

def sameKeySet (keys : GoSet TopicKey) (starts : ExtTreeMap TopicKey UInt64) : Bool :=
  keys.size = starts.size ∧ ∀ entry ∈ keys.toList, entry.1 ∈ starts

def explicitStartsMatchKeys (stored current : ExtTreeMap TopicKey UInt64) : Bool :=
  ∀ entry ∈ current.toList, stored[entry.1]? = some entry.2

/-- What a call asks for, in canonical form. -/
structure GroupRequest where
  options : ConsumerGroupOptions
  members : List (List TopicKey)
  keys : GoSet TopicKey
  starts : ExtTreeMap TopicKey UInt64

def checkGroupArguments (groupID : Bytes) (specs : List (List TopicKey))
    (options : ConsumerGroupOptions) : Except GoError GroupRequest := do
  let _ ← appendString [] groupID maxGroupIDBytes
  let options ← normalizeConsumerGroupOptions options
  let (members, keys) ← canonicalGroupMembers specs
  let starts ← explicitStartMap options.explicitStarts ∅
  failIf (options.start = groupStartExplicit ∧ sameKeySet keys starts = false)
    (.join [.ofKind .errInvalidArgument,
      .new "explicit starts must cover exactly the group subscriptions"])
  failIf (options.start ≠ groupStartExplicit ∧ starts.size ≠ 0)
    (.join [.ofKind .errInvalidArgument, .new "explicit starts require GroupStartExplicit"])
  return { options, members, keys, starts }

/-- A member whose lease has run out. -/
def GroupConsumer.someExpired (consumer : GroupConsumer) (clock : Clock) : Bool :=
  consumer.members.toList.any fun member =>
    member.2.inFlight = 0 ∧ member.2.deadline ≤ clock.now ∧
      clock.startedBefore member.2.deadline = false

/-- Whether a handle is live, and whether it has expired. -/
def Store.liveGroupConsumerLocked (s : Store) (groupID : Bytes) (handle : Nat)
    (consumer : GroupConsumer) (group : Option OffsetGroup) (clock : Clock) : Bool × Bool :=
  match group with
  | none => (false, false)
  | some group =>
      if consumer.closed ∨ s.groupConsumers groupID ≠ some handle ∨
          group.generation ≠ consumer.generation ∨ group.assignmentInstance ≠ s.storeID then
        (false, false)
      else if consumer.someExpired clock then (false, true)
      else
        (decide (group.assignmentMember.size = consumer.members.size ∧
          group.assignmentOwner.size = consumer.cursors.size ∧
          (∀ member ∈ consumer.members.toList, member.1 ∈ group.assignmentMember) ∧
          ∀ cursor ∈ consumer.cursors.toList,
            group.assignmentOwner[cursor.1]? = some cursor.2.owner), false)

def groupConsumerMatches (consumer : GroupConsumer) (group : OffsetGroup) (request : GroupRequest) :
    Bool :=
  consumer.membership = request.members ∧ consumer.fetch = request.options.fetch ∧
    consumer.progressTimeout = request.options.progressTimeout ∧
    group.creationStartMode = request.options.start ∧ group.explicitStarts = request.starts

/-- The live handle of a group that a call may reuse; an expired one is dropped. -/
def reusableGroupConsumer (groupID : Bytes) (request : GroupRequest) (clock : Clock) :
    StoreM (Option Nat) := do
  let s ← .read
  let group := s.offsetsState.groups[groupID]?
  match s.groupConsumers groupID with
  | none => return none
  | some handle =>
      match s.groupHandles[handle]? with
      | none => return none
      | some current => do
          let (live, expired) := s.liveGroupConsumerLocked groupID handle current group clock
          if expired then
            .update fun s => { s with
              groupConsumers := Function.update s.groupConsumers groupID none
              expiredGroups := Function.update s.expiredGroups groupID true }
          if live && group.any fun group => groupConsumerMatches current group request then
            return some handle
          else return none

/-- A new group's explicit starts must lie inside their partitions. -/
def checkStarts (draw : TopicKey → SegmentID) : List (TopicKey × UInt64) → StoreM Unit
  | [] => return ()
  | (key, next) :: rest => do
      let partition ← openConsumerPartitionLocked key (draw key)
      let _ ← .check (resolveConsumerStart partition groupStartExplicit next)
      checkStarts draw rest

/-- The members with fresh sessions, in the order of their sessions. -/
def prepareGroupMembers (members : List (List TopicKey)) (sessions : Nat → Session) :
    Except GoError (List (Session × List TopicKey)) := do
  let prepared := sortBy (fun left right => compare left.1 right.1)
    (members.mapIdx fun index subscriptions =>
      (newConsumerSession (sessions index), subscriptions))
  failIf (¬ (prepared.map Prod.fst).Nodup)
    (.join [.ofKind .errResourceLimit, .new "consumer group session ID collision"])
  return prepared

/-- Where a group goes on in one partition. -/
def groupResume (partition : Partition) (group : OffsetGroup) (key : TopicKey) (start : UInt8) :
    Except GoError UInt64 :=
  match group.progress[key]? with
  | some progress => do
      partition.validateReadOffset (latestNext progress)
      return latestNext progress
  | none =>
      if start = groupStartExplicit then
        resolveConsumerStart partition start (group.explicitStarts.getD key 0)
      else resolveConsumerStart partition start 0

/-- Open the partitions of the subscriptions, one after the other, and assign them. -/
def assignKeys (group : OffsetGroup) (start : UInt8) (draw : TopicKey → SegmentID) :
    List (Session × TopicKey) → StoreM (List GroupAssignment)
  | [] => return []
  | (owner, key) :: rest => do
      let partition ← openConsumerPartitionLocked key (draw key)
      let resume ← .check (groupResume partition group key start)
      let others ← assignKeys group start draw rest
      return ⟨key, owner, resume, decide (key ∉ group.progress)⟩ :: others

def sortAssignments (assignments : List GroupAssignment) : List GroupAssignment :=
  sortBy (fun left right => compareTopicKey left.key right.key) assignments

/-- Keep a new handle. -/
def addGroupConsumer (consumer : GroupConsumer) : StoreM Nat := do
  let s ← .read
  let handle := s.groupHandles.length
  .update fun s => { s with
    groupHandles := s.groupHandles ++ [consumer]
    groupConsumers := Function.update s.groupConsumers consumer.groupID (some handle) }
  return handle

/-- The second part of `OpenConsumerGroup`: the group exists, and its members get their
assignments.  `s` is the store in front of it. -/
def assignGroup (groupID : Bytes) (request : GroupRequest) (now : Int) (draws : ConsumerDraws)
    (s : Store) : StoreM Nat := do
  let group ← currentGroup groupID
  .check (policyDiffers group request.options.start)
  .check (failIf (request.options.start = groupStartExplicit ∧
      explicitStartsMatchKeys group.explicitStarts request.starts = false)
    (.join [.ofKind .errInvalidArgument,
      .new "explicit group starts differ from the durable group policy"]))
  .check (generationExhausted group)
  let prepared ← .check (prepareGroupMembers request.members draws.sessions)
  let assignments ← assignKeys group request.options.start draws.partitions
    (prepared.flatMap fun member => member.2.map fun key => (member.1, key))
  let reason ← assignmentReason groupID group (s.groupConsumers groupID).isSome
  let body ← .check (encodeGroupAssignmentBody s.storeID s.catalogState.revision groupID
    group.generation reason prepared (sortAssignments assignments))
  appendEventOr groupAppendError eventLocalAssignmentChanged body draws.assigned
  let group ← currentGroup groupID
  addGroupConsumer
    { groupID
      generation := group.generation
      fetch := request.options.fetch
      progressTimeout := request.options.progressTimeout
      membership := request.members
      members := .ofList (prepared.map fun member =>
        (member.1, ⟨member.1, member.2, now + request.options.progressTimeout, 0⟩)) compare
      cursors := .ofList (assignments.map fun a => (a.key, ⟨a.owner, a.resume, a.resume, false⟩))
        compare
      closed := false }

/-- Install a membership that differs from the live one. -/
def installGroup (groupID : Bytes) (request : GroupRequest) (now : Int) (draws : ConsumerDraws) :
    StoreM Nat := do
  let s ← .read
  .check (s.admitGroup groupID (request.keys.toList.map Prod.fst))
  if (s.offsetsState.groups[groupID]?).isNone then
    if request.options.start = groupStartExplicit then
      checkStarts draws.partitions (draws.ranged request.starts.toList)
    createGroup groupID request.options.start request.starts.toList draws.created
  assignGroup groupID request now draws s

/-- `OpenConsumerGroup`: the handle. -/
def Store.openConsumerGroup (groupID : Bytes) (specs : List (List TopicKey))
    (options : ConsumerGroupOptions) (clock : Clock) (draws : ConsumerDraws) : StoreM Nat := do
  let request ← .check (checkGroupArguments groupID specs options)
  let s ← .read
  .check (failIf (s.closing = true) (.ofKind .errClosing))
  .check s.checkOffsets
  match ← reusableGroupConsumer groupID request clock with
  | some handle => return handle
  | none => installGroup groupID request clock.now draws

/-! ## Leases and fences -/

/-- Change a handle of `OpenConsumer`. -/
def setConsumer (handle : Nat) (f : Consumer → Consumer) : StoreM Unit :=
  .update fun s => { s with consumerHandles := s.consumerHandles.modify handle f }

/-- Take a handle off the live consumers. -/
def Store.dropConsumer (s : Store) (consumer : Consumer) : Store :=
  { s with
    consumers := Function.update s.consumers consumer.groupID
      (Function.update (s.consumers consumer.groupID) consumer.key none) }

/-- The assignment that the offsets log records is the handle's own. -/
def Store.holdsAssignment (s : Store) (consumer : Consumer) : Bool :=
  (s.offsetsState.groups[consumer.groupID]?).any fun group =>
    group.generation = consumer.generation ∧ group.assignmentInstance = s.storeID ∧
      group.assignmentOwner.getD consumer.key 0 = consumer.session

def Consumer.leaseExpired (consumer : Consumer) (clock : Clock) : Bool :=
  consumer.expired ∨ (consumer.operationActive = false ∧ consumer.deadline ≤ clock.now ∧
    clock.startedBefore consumer.deadline = false)

/-- The handle under its number; the callers hold one that was given out. -/
def consumerAt (handle : Nat) : StoreM Consumer := do
  let s ← .read
  match s.consumerHandles[handle]? with
  | some consumer => return consumer
  | none => .fail (.ofKind .errClosed)

/-- The fence in front of every operation of a consumer. -/
def activePartitionLocked (handle : Nat) (clock : Clock) : StoreM Partition := do
  let consumer ← consumerAt handle
  let s ← .read
  .check (failIf (consumer.closed = true ∨ s.closed = true) (.ofKind .errClosed))
  .check (failIf (s.closing = true) (.ofKind .errClosing))
  if consumer.leaseExpired clock then
    setConsumer handle fun consumer => { consumer with expired := true }
    .update fun s => { s.dropConsumer consumer with
      expiredGroups := Function.update s.expiredGroups consumer.groupID true }
    .fail (.ofKind .errAssignmentLost)
  else
    .check (failIf (s.offsetsUnavailable = true) (.ofKind .errGroupUnavailable))
    .check (failIf (s.consumers consumer.groupID consumer.key ≠ some handle)
      (.ofKind .errAssignmentLost))
    .check (failIf (s.holdsAssignment consumer = false) (.ofKind .errAssignmentLost))
    match s.partitions[consumer.key]? with
    | none => .fail (.ofKind .errAssignmentLost)
    | some partition => return partition

def beginOperationLocked (handle : Nat) (clock : Clock) : StoreM Partition := do
  let partition ← activePartitionLocked handle clock
  setConsumer handle fun consumer => { consumer with
    operationActive := true, deadline := clock.now + consumer.progressTimeout }
  return partition

def endOperationLocked (handle : Nat) (now : Int) : StoreM Unit := do
  let s ← .read
  setConsumer handle fun consumer =>
    if consumer.closed = false ∧ s.closed = false ∧
        s.consumers consumer.groupID consumer.key = some handle then
      { consumer with operationActive := false, deadline := now + consumer.progressTimeout }
    else { consumer with operationActive := false }

/-! ## Fetching -/

/-- `Fetch` on an open partition; some errors fence it. -/
def fetchPartition (key : TopicKey) (free : Bool) (offset : UInt64) (options : FetchOptions) :
    StoreM FetchResult := do
  let s ← .read
  match s.partitions[key]? with
  | none => .fail (.ofKind .errClosed)
  | some partition => do
      let fs ← .lift .get
      match fetch ((fs (userPath key)).getD ∅) partition free offset options with
      | .ok result => return result
      | .error e => do
          if shouldFenceFetchError e then setPartition key partition.fenced
          .fail e

/-- The options of a `Poll`: those of the handle unless the call limits the records or the
bytes itself. -/
def resolvePollOptions (own options : PollOptions) (progressTimeout : Int) :
    Except GoError PollOptions := do
  let options := if options.maxRecords = 0 ∧ options.maxBytes = 0 then
      if options.maxWait ≠ 0 then { own with maxWait := options.maxWait } else own
    else options
  let options ← normalizePollOptions options
  let wait := durationString options.maxWait
  let limit := durationString progressTimeout
  failIf (options.maxWait ≠ 0 ∧ progressTimeout ≤ options.maxWait)
    (.join [.ofKind .errInvalidArgument,
      .new s!"poll wait {wait} must be below the progress timeout {limit}"])
  return options

/-! ## Consumers -/

namespace Consumer

/-- The first part of `Poll`: where to fetch, and with which options. -/
def beginPoll (handle : Nat) (options : PollOptions) (clock : Clock) :
    StoreM (TopicKey × UInt64 × PollOptions) := do
  let consumer ← consumerAt handle
  .check (failIf (consumer.operationActive = true) (.ofKind .errConcurrentOperation))
  let options ← .check (resolvePollOptions consumer.fetch options consumer.progressTimeout)
  let _ ← beginOperationLocked handle clock
  return (consumer.key, consumer.next, options)

/-- The last part of `Poll`: the records are delivered if the fence still lets them pass. -/
def finishPoll (handle : Nat) (result : FetchResult) (clock : Clock) : StoreM Unit := do
  let _ ← activePartitionLocked handle clock
  setConsumer handle fun consumer => { consumer with
    next := result.nextOffset, delivered := result.nextOffset }

end Consumer

/-- The part of both commits behind their fences. -/
def commitProgress (groupID : Bytes) (session : Session) (generation : UInt64) (key : TopicKey)
    (delivered : UInt64) (partition : Partition) (next : UInt64) (drawn : SegmentID) :
    StoreM Unit := do
  let s ← .read
  let progress := ((s.offsetsState.groups[groupID]?).bind fun group => group.progress[key]?).getD
    ⟨0, false, 0⟩
  .check (failIf (next < latestNext progress) (.ofKind .errCommitRegression))
  .check (failIf (delivered < next) (.ofKind .errInvalidCommit))
  let stop ← .check partition.endOffset
  .check (failIf (stop < next) (.ofKind .errInvalidCommit))
  if progress.hasCommit ∧ next = latestNext progress then return ()
  else
    let body ← .check (encodeCommitBody s.storeID s.catalogState.revision groupID session generation
      key progress next)
    appendEventOr commitAppendError eventOffsetCommitted body drawn

namespace Consumer

def commit (handle : Nat) (next : UInt64) (clock : Clock) (drawn : SegmentID) : StoreM Unit := do
  let consumer ← consumerAt handle
  .check (failIf (consumer.operationActive = true) (.ofKind .errConcurrentOperation))
  let s ← .read
  .check (failIf (s.closing = true) (.ofKind .errClosing))
  let partition ← beginOperationLocked handle clock
  let outcome ← (commitProgress consumer.groupID consumer.session consumer.generation consumer.key
    consumer.delivered partition next drawn).attempt
  endOperationLocked handle clock.now
  .check outcome

/-- Mark a handle as closed and take it off the live consumers. -/
def retire (handle : Nat) (consumer : Consumer) : StoreM Unit := do
  setConsumer handle fun consumer => { consumer with closed := true }
  .update fun s => s.dropConsumer consumer

/-- The revocation of a handle that still owns its key. -/
def revoke (groupID : Bytes) (generation : UInt64) (drawn : SegmentID) : StoreM Unit := do
  let s ← .read
  let body ← .check (encodeEmptyAssignmentBody s.storeID s.catalogState.revision groupID generation)
  appendOffsetsEventLocked eventLocalAssignmentChanged body drawn

def close (handle : Nat) (drawn : SegmentID) : StoreM Unit := do
  let consumer ← consumerAt handle
  let s ← .read
  if consumer.closed then return ()
  else
    .check (failIf (s.closing = true) (.ofKind .errClosing))
    if s.closed ∨ s.consumers consumer.groupID consumer.key ≠ some handle then
      setConsumer handle fun consumer => { consumer with closed := true }
    else if s.offsetsUnavailable then
      retire handle consumer
      .fail (.ofKind .errGroupUnavailable)
    else
      let current := (s.offsetsState.groups[consumer.groupID]?).any fun group =>
        group.generation = consumer.generation ∧
          group.assignmentOwner.getD consumer.key 0 = consumer.session ∧
          group.generation ≠ 0xFFFFFFFFFFFFFFFF
      if current then
        let outcome ← (revoke consumer.groupID consumer.generation drawn).attempt
        retire handle consumer
        match outcome with
        | .ok _ => return ()
        | .error e => groupAppendError e
      else retire handle consumer

end Consumer

/-! ## Group consumers -/

/-- Change a handle of `OpenConsumerGroup`. -/
def setGroupConsumer (handle : Nat) (f : GroupConsumer → GroupConsumer) : StoreM Unit :=
  .update fun s => { s with groupHandles := s.groupHandles.modify handle f }

def Store.dropGroupConsumer (s : Store) (groupID : Bytes) : Store :=
  { s with groupConsumers := Function.update s.groupConsumers groupID none }

def Store.expireGroup (s : Store) (groupID : Bytes) : Store :=
  { s with expiredGroups := Function.update s.expiredGroups groupID true }

def groupConsumerAt (handle : Nat) : StoreM GroupConsumer := do
  let s ← .read
  match s.groupHandles[handle]? with
  | some consumer => return consumer
  | none => .fail (.ofKind .errClosed)

def assignmentLost (reason : String) : GoError :=
  ⟨[.errAssignmentLost], [reason]⟩

namespace GroupConsumer

def cursor (consumer : GroupConsumer) (key : TopicKey) : Except GoError GroupCursor := do
  failIf (consumer.closed = true) (.ofKind .errClosed)
  match consumer.cursors[key]? with
  | some cursor => return cursor
  | none => throw (.join [.ofKind .errInvalidArgument,
      .new "partition is not assigned to this consumer group"])

/-- The fence in front of every operation of a group consumer. -/
def activeCursorLocked (handle : Nat) (key : TopicKey) (cursor : GroupCursor) (clock : Clock) :
    StoreM Partition := do
  let consumer ← groupConsumerAt handle
  let s ← .read
  .check (failIf (consumer.closed = true ∨ s.closed = true) (.ofKind .errClosed))
  .check (failIf (s.closing = true) (.ofKind .errClosing))
  if s.offsetsUnavailable then
    .update fun s => s.expireGroup consumer.groupID
    .fail (.ofKind .errGroupUnavailable)
  else
    .check (failIf (s.groupConsumers consumer.groupID ≠ some handle)
      (assignmentLost "live consumer was replaced"))
    if consumer.someExpired clock then
      .update fun s => (s.dropGroupConsumer consumer.groupID).expireGroup consumer.groupID
      .fail (assignmentLost "member progress deadline expired")
    else
      match s.offsetsState.groups[consumer.groupID]? with
      | none => .fail (assignmentLost "durable group assignment is missing")
      | some group => do
          .check (failIf (group.generation ≠ consumer.generation)
            (assignmentLost "durable group generation changed"))
          .check (failIf (group.assignmentInstance ≠ s.storeID)
            (assignmentLost "durable assignment belongs to another store instance"))
          .check (failIf (group.assignmentOwner.getD key 0 ≠ cursor.owner)
            (assignmentLost "cursor assignment owner changed"))
          match s.partitions[key]? with
          | none => .fail (assignmentLost "assigned partition is unavailable")
          | some partition => return partition

/-- Change a cursor of a handle. -/
def setCursor (handle : Nat) (key : TopicKey) (f : GroupCursor → GroupCursor) : StoreM Unit :=
  setGroupConsumer handle fun consumer =>
    { consumer with cursors := consumer.cursors.alter key (Option.map f) }

/-- Change a member of a handle. -/
def setMember (handle : Nat) (session : Session) (f : GroupMember → GroupMember) : StoreM Unit :=
  setGroupConsumer handle fun consumer =>
    { consumer with members := consumer.members.alter session (Option.map f) }

def beginCursorOperationLocked (handle : Nat) (key : TopicKey) (cursor : GroupCursor)
    (clock : Clock) : StoreM Partition := do
  let consumer ← groupConsumerAt handle
  let partition ← activeCursorLocked handle key cursor clock
  setMember handle cursor.owner fun member => { member with
    inFlight := member.inFlight + 1, deadline := clock.now + consumer.progressTimeout }
  setCursor handle key fun cursor => { cursor with busy := true }
  return partition

def endCursorOperationLocked (handle : Nat) (key : TopicKey) (cursor : GroupCursor) (now : Int) :
    StoreM Unit := do
  let consumer ← groupConsumerAt handle
  let s ← .read
  setCursor handle key fun cursor => { cursor with busy := false }
  setMember handle cursor.owner fun member =>
    if member.inFlight = 0 then member
    else if member.inFlight = 1 ∧ consumer.closed = false ∧ s.closed = false ∧
        s.groupConsumers consumer.groupID = some handle then
      { member with inFlight := 0, deadline := now + consumer.progressTimeout }
    else { member with inFlight := member.inFlight - 1 }

/-- The first part of `Poll`: where to fetch, and with which options. -/
def beginPoll (handle : Nat) (key : TopicKey) (options : PollOptions) (clock : Clock) :
    StoreM (UInt64 × PollOptions) := do
  let consumer ← groupConsumerAt handle
  let cursor ← .check (consumer.cursor key)
  .check (failIf (cursor.busy = true) (.ofKind .errConcurrentOperation))
  let options ← .check (resolvePollOptions consumer.fetch options consumer.progressTimeout)
  let _ ← beginCursorOperationLocked handle key cursor clock
  return (cursor.next, options)

/-- The last part of `Poll`: the records are delivered if the fence still lets them pass. -/
def finishPoll (handle : Nat) (key : TopicKey) (cursor : GroupCursor) (result : FetchResult)
    (clock : Clock) : StoreM Unit := do
  let _ ← activeCursorLocked handle key cursor clock
  setCursor handle key fun cursor => { cursor with
    next := result.nextOffset, delivered := result.nextOffset }

def commit (handle : Nat) (key : TopicKey) (next : UInt64) (clock : Clock) (drawn : SegmentID) :
    StoreM Unit := do
  let consumer ← groupConsumerAt handle
  let cursor ← .check (consumer.cursor key)
  .check (failIf (cursor.busy = true) (.ofKind .errConcurrentOperation))
  let s ← .read
  .check (failIf (s.closing = true) (.ofKind .errClosing))
  let partition ← beginCursorOperationLocked handle key cursor clock
  let outcome ← (commitProgress consumer.groupID cursor.owner consumer.generation key
    cursor.delivered partition next drawn).attempt
  endCursorOperationLocked handle key cursor clock.now
  .check outcome

/-- Mark a handle as closed and take it off the live consumers. -/
def retire (handle : Nat) (consumer : GroupConsumer) : StoreM Unit := do
  setGroupConsumer handle fun consumer => { consumer with closed := true }
  .update fun s => s.dropGroupConsumer consumer.groupID

def close (handle : Nat) (drawn : SegmentID) : StoreM Unit := do
  let consumer ← groupConsumerAt handle
  let s ← .read
  .check (failIf (s.closing = true) (.ofKind .errClosing))
  if consumer.closed ∨ s.closed ∨ s.groupConsumers consumer.groupID ≠ some handle then
    setGroupConsumer handle fun consumer => { consumer with closed := true }
  else if s.offsetsUnavailable then
    retire handle consumer
    .fail (.ofKind .errGroupUnavailable)
  else
    let current := (s.offsetsState.groups[consumer.groupID]?).any fun group =>
      group.generation = consumer.generation ∧ group.generation ≠ 0xFFFFFFFFFFFFFFFF
    if current then
      let outcome ← (Consumer.revoke consumer.groupID consumer.generation drawn).attempt
      retire handle consumer
      match outcome with
      | .ok _ => return ()
      | .error e => groupAppendError e
    else retire handle consumer

end GroupConsumer

end Immulog
