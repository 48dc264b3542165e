import Immulog.OffsetRuns

/-!
The grammar of offsets events (`src/storage/events_validation.go`).

`validateOffsetsEvent` states the grammar of the consumer-offsets log.  Replay does not
call it; the projection's own checks leave out the limits on counts, the range of the
assignment reason and the last generation.
-/

namespace Immulog

open Lib Std EventCursor

/-! ## The validator -/

/-- One explicit start, behind the key before it. -/
def validateStart (previous : Option TopicKey) : Cursor GoError (Option TopicKey) := do
  let key ← decodeTopicKey
  Cursor.ensure (Misordered previous key)
    (corrupt .errInvalidRecord "group explicit starts are not canonical")
  let _ ← u64
  return some key

def validateGroupCreated : Cursor GoError Unit := do
  let _ ← stringValue maxGroupIDBytes
  let startMode ← u8
  expectReserved
  let count ← u32
  Cursor.ensure (maxSubscriptionKeys < count.toNat)
    (corrupt .errInvalidRecord "group explicit start count exceeds limit")
  Cursor.ensure ((startMode = 1 ∨ startMode = 2) ∧ count ≠ 0)
    (corrupt .errInvalidRecord "group start mode has explicit starts")
  Cursor.ensure (startMode = 3 ∧ count = 0)
    (corrupt .errInvalidRecord "explicit group start mode has no starts")
  Cursor.ensure (startMode < 1 ∨ 3 < startMode) (unsupported "unsupported group start mode")
  let _ ← Cursor.loop validateStart count.toNat none
  finishEvent

/-- One subscription of a member, behind the key before it. -/
def validateSubscription (previous : Option TopicKey) : Cursor GoError (Option TopicKey) := do
  let key ← decodeTopicKey
  Cursor.ensure (Misordered previous key)
    (corrupt .errInvalidRecord "member subscriptions are not canonical")
  return some key

/-- The members so far: their sessions, the last of them, and how many keys they
subscribe to. -/
structure MemberScan where
  memberIDs : GoSet Session
  previousSession : Option Session
  totalSubscriptions : Nat

def validateMember (scan : MemberScan) : Cursor GoError MemberScan := do
  let session ← requireID "assignment session ID"
  Cursor.ensure (Misordered scan.previousSession session)
    (corrupt .errInvalidRecord "assignment members are not canonical")
  let subscriptions ← u32
  Cursor.ensure (maxSubscriptionKeys < scan.totalSubscriptions + subscriptions.toNat)
    (corrupt .errInvalidRecord "subscription key count exceeds limit")
  let _ ← Cursor.loop validateSubscription subscriptions.toNat none
  return { memberIDs := scan.memberIDs.insert session ()
           previousSession := some session
           totalSubscriptions := scan.totalSubscriptions + subscriptions.toNat }

/-- One assignment: the key before it and the keys assigned so far. -/
def validateAssignment (memberIDs : GoSet Session) (state : Option TopicKey × GoSet TopicKey) :
    Cursor GoError (Option TopicKey × GoSet TopicKey) := do
  let key ← decodeTopicKey
  Cursor.ensure (Misordered state.1 key)
    (corrupt .errInvalidRecord "assignments are not canonical")
  let owner ← requireID "assignment owner session ID"
  Cursor.ensure (owner ∉ memberIDs)
    (corrupt .errInvalidRecord "assignment owner is not a member")
  Cursor.ensure (key ∈ state.2) (corrupt .errInvalidRecord "duplicate assignment key")
  let _ ← u64
  let action ← u8
  Cursor.ensure (1 < action) (unsupported "unsupported assignment baseline action")
  expectReserved
  let initial ← u64
  Cursor.ensure (action = 0 ∧ initial ≠ 0)
    (corrupt .errInvalidRecord "reused assignment baseline has initial offset")
  return (some key, state.2.insert key ())

/-- The part of an assignment event behind its members. -/
def validateAssignments (scan : MemberScan) : Cursor GoError Unit := do
  let assignments ← u32
  Cursor.ensure (scan.totalSubscriptions < assignments.toNat)
    (corrupt .errInvalidRecord "assignment count exceeds subscribed keys")
  let _ ← Cursor.loop (validateAssignment scan.memberIDs) assignments.toNat (none, ∅)
  finishEvent

def validateLocalAssignmentChanged : Cursor GoError Unit := do
  let _ ← stringValue maxGroupIDBytes
  let _ ← requireID "assignment instance ID"
  let expected ← u64
  let next ← u64
  Cursor.ensure (expected = 0xFFFFFFFFFFFFFFFF ∨ next ≠ expected + 1)
    (corrupt .errInvalidRecord "assignment generation does not advance by one")
  let reason ← u8
  Cursor.ensure (reason < 1 ∨ 6 < reason) (unsupported "unsupported assignment-change reason")
  expectReserved
  let members ← u32
  Cursor.ensure (maxAssignmentMembers < members.toNat)
    (corrupt .errInvalidRecord "assignment member count exceeds limit")
  let scan ← Cursor.loop validateMember members.toNat ⟨∅, none, 0⟩
  validateAssignments scan

def validateOffsetCommitted : Cursor GoError Unit := do
  let _ ← stringValue maxGroupIDBytes
  let _ ← requireID "commit instance ID"
  let _ ← requireID "commit member session ID"
  let _ ← u64
  let _ ← decodeTopicKey
  let previousKind ← u8
  Cursor.ensure (1 < previousKind) (unsupported "unsupported commit previous-state kind")
  expectReserved
  let _ ← u64
  let _ ← u64
  finishEvent

def validateOffsetsEvent (eventType : EventType) (payload : Bytes) (storeID : StoreID) :
    Except GoError Unit :=
  Cursor.readFrom payload do
    let encodedStore ← EventCursor.id
    Cursor.ensure (encodedStore ≠ storeID)
      (corrupt .errInvalidRecord "offset event StoreID mismatch")
    let _ ← u64
    if eventType = eventGroupCreated then validateGroupCreated
    else if eventType = eventLocalAssignmentChanged then validateLocalAssignmentChanged
    else if eventType = eventOffsetCommitted then validateOffsetCommitted
    else Cursor.fail (corrupt .errInvalidRecord "invalid offsets event type")

/-! ## What the projection leaves unchecked -/

/-- The limits of the grammar. -/
def OffsetsEvent.InGrammar : OffsetsEvent → Prop
  | groupCreated event => event.starts.length ≤ maxSubscriptionKeys
  | assignmentChanged event =>
      event.expected ≠ 0xFFFFFFFFFFFFFFFF ∧ (1 ≤ event.reason ∧ event.reason ≤ 6) ∧
        event.members.length ≤ maxAssignmentMembers ∧
        (subscribedKeys event.members).length ≤ maxSubscriptionKeys
  | offsetCommitted _ => True

section Validation

variable {catalog : CatalogProjection} {p : OffsetsProjection} {rest : Bytes}

open Cursor

theorem run_validateStarts {next : UInt64} {starts : List (TopicKey × UInt64)}
    (allowed : Allowed (fun done start => KnownKey catalog next start.1 ∧
      InOrder (done.map Prod.fst) start.1) starts) :
    Parses (loop validateStart starts.length none) (starts.flatMap startBytes)
      (starts.map Prod.fst).getLast? := by
  refine Parses.loop startBytes (fun done => (done.map Prod.fst).getLast?) ?_
  intro done start left split rest
  obtain ⟨⟨valid, -⟩, ordered⟩ := allowed done start left split
  rw [startBytes, List.append_assoc, validateStart, (parses_decodeTopicKey valid).run_bind,
    run_ensure_bind_eq_ok]
  refine ⟨ordered, ?_⟩
  rw [(parses_u64 start.2).run_bind]
  exact run_pure_eq_ok.2 ⟨by simp, rfl⟩

theorem run_validateGroupCreated {event : GroupCreatedEvent} (accepted : event.Accepted catalog p)
    {u : Unit} :
    validateGroupCreated (putString event.group ++ ([event.startMode] ++ ([0, 0, 0] ++
        (putUint32 (.ofNat event.starts.length) ++ event.starts.flatMap startBytes)))) =
        .ok (u, rest) ↔
      event.starts.length ≤ maxSubscriptionKeys ∧ rest = [] := by
  have count := toNat_ofNat32 accepted.short
  have none : event.starts = [] ↔ UInt32.ofNat event.starts.length = 0 := by
    rw [← List.length_eq_zero_iff, ← UInt32.toNat_inj, count]
    rfl
  have policy := accepted.policy
  rw [← OffsetsProjection.startPolicy_iff accepted.mode, none] at policy
  have loops := (run_validateStarts accepted.starts).run_bind (fun _ => finishEvent) []
  rw [List.append_nil] at loops
  rw [validateGroupCreated,
    (parses_stringValue OffsetsProjection.groupIDBytes_lt accepted.addressed.group).run_bind,
    (parses_u8 _).run_bind, parses_expectReserved.run_bind, (parses_u32 _).run_bind,
    run_ensure_bind_eq_ok, run_ensure_bind_eq_ok, run_ensure_bind_eq_ok, run_ensure_bind_eq_ok,
    count, loops, run_finishEvent_eq_ok]
  have mode : ¬ (event.startMode < 1 ∨ 3 < event.startMode) := by
    rw [not_or, UInt8.not_lt, UInt8.not_lt]
    exact accepted.mode
  simp only [Nat.not_lt, policy.1, policy.2, mode, not_false_eq_true, true_and]

/-! ### Assignments -/

theorem run_validateSubscriptions {next : UInt64} {session : Session}
    {m : ExtTreeMap TopicKey Session} {keys : List TopicKey}
    (allowed : Allowed (fun before key => KnownKey catalog next key ∧ InOrder before key ∧
      key ∉ insertKeys session before m) keys) :
    Parses (loop validateSubscription keys.length none) (keys.flatMap TopicKey.bytes)
      keys.getLast? := by
  refine Parses.loop TopicKey.bytes List.getLast? ?_
  intro done key left split rest
  obtain ⟨⟨valid, -⟩, ordered, -⟩ := allowed done key left split
  rw [validateSubscription, (parses_decodeTopicKey valid).run_bind, run_ensure_bind_eq_ok]
  exact ⟨ordered, run_pure_eq_ok.2 ⟨by simp, rfl⟩⟩

def scanOf (members : List AssignmentMember) : MemberScan :=
  ⟨memberSet members, (members.map AssignmentMember.session).getLast?,
    (subscribedKeys members).length⟩

theorem run_validateMembers {next : UInt64} {members : List AssignmentMember}
    (allowed : Allowed (AssignmentMember.Follows catalog next) members) {scan : MemberScan}
    {rest rest' : Bytes} :
    loop validateMember members.length (scanOf [])
        (members.flatMap AssignmentMember.bytes ++ rest) = .ok (scan, rest') ↔
      Allowed (fun done member =>
          (subscribedKeys done).length + member.subscriptions.length ≤ maxSubscriptionKeys)
        members ∧
        scan = scanOf members ∧ rest' = rest := by
  refine run_loop_items AssignmentMember.bytes scanOf _ ?_
  intro done member left split scan' rest rest'
  have follows := allowed done member left split
  have count := toNat_ofNat32 follows.short
  have keys := (run_validateSubscriptions follows.keys).run_bind (fun _ =>
    (pure (scanOf (done ++ [member])) : Cursor GoError MemberScan)) rest
  have next : scanOf (done ++ [member]) = ⟨(scanOf done).memberIDs.insert member.session (),
      some member.session,
      (scanOf done).totalSubscriptions + (UInt32.ofNat member.subscriptions.length).toNat⟩ := by
    rw [count]
    simp [scanOf]
  rw [next] at keys ⊢
  rw [AssignmentMember.bytes, List.append_assoc, List.append_assoc, validateMember,
    (parses_requireID follows.session _).run_bind, run_ensure_bind_eq_ok, (parses_u32 _).run_bind,
    run_ensure_bind_eq_ok, count]
  rw [count] at keys
  rw [keys, run_pure_eq_ok, Nat.not_lt]
  constructor
  · rintro ⟨-, few, rfl, rfl⟩
    exact ⟨few, rfl, rfl⟩
  · rintro ⟨few, rfl, rfl⟩
    exact ⟨follows.ordered, few, rfl, rfl⟩

/-- The sums so far stay below a limit exactly when the whole sum does. -/
theorem allowed_keys_iff {members : List AssignmentMember} {limit : Nat} :
    Allowed (fun done member =>
        (subscribedKeys done).length + member.subscriptions.length ≤ limit) members ↔
      members = [] ∨ (subscribedKeys members).length ≤ limit := by
  induction members using List.reverseRecOn with
  | nil => simp
  | append_singleton members member ih =>
      rw [allowed_concat, ih, subscribedKeys_concat, List.length_append]
      constructor
      · intro both
        exact .inr both.2
      · intro either
        rcases either with empty | few
        · simp at empty
        · exact ⟨.inr (by omega), few⟩

/-- The keys that entries assign. -/
def assignedKeys (entries : List AssignmentEntry) : GoSet TopicKey :=
  entries.foldl (fun m entry => m.insert entry.key ()) ∅

theorem run_validateAssignments {members : List AssignmentMember}
    {progress : ExtTreeMap TopicKey OffsetProgress} {entries : List AssignmentEntry}
    (allowed : Allowed (AssignmentEntry.Follows (subscribedBy members) progress) entries) :
    Parses (loop (validateAssignment (memberSet members)) entries.length (none, ∅))
      (entries.flatMap AssignmentEntry.bytes)
      ((entries.map AssignmentEntry.key).getLast?, assignedKeys entries) := by
  refine Parses.loop AssignmentEntry.bytes
    (fun done => ((done.map AssignmentEntry.key).getLast?, assignedKeys done)) ?_
  intro done entry left split rest
  have follows := allowed done entry left split
  obtain ⟨member, mem, owner, -⟩ := getElem?_subscribedBy follows.subscriber
  have known : entry.owner ∈ memberSet members := mem_memberSet.2 ⟨member, mem, owner⟩
  have fresh : entry.key ∉ assignedKeys done := by
    have distinct := nodup_assigned allowed
    rw [split, List.map_append, List.nodup_append] at distinct
    unfold assignedKeys
    rw [contains_foldl_insert (f := AssignmentEntry.key)]
    rintro (⟨other, inside, same⟩ | none)
    · exact distinct.2.2 _ (List.mem_map_of_mem inside) entry.key (by simp) same
    · simp at none
  have small : ¬ (1 < entry.action) ∧ ¬ (entry.action = 0 ∧ entry.initial ≠ 0) := by
    rcases follows.baseline with ⟨create, -, -⟩ | ⟨reuse, zero, -⟩
    · rw [create]
      exact ⟨by decide, fun wrong => by simp at wrong⟩
    · rw [reuse]
      exact ⟨by decide, fun wrong => wrong.2 zero⟩
  rw [AssignmentEntry.bytes, List.append_assoc, List.append_assoc, List.append_assoc,
    List.append_assoc, List.append_assoc, validateAssignment,
    (parses_decodeTopicKey follows.key).run_bind, run_ensure_bind_eq_ok]
  refine ⟨follows.ordered, ?_⟩
  rw [(parses_requireID follows.owner _).run_bind, run_ensure_bind_eq_ok, run_ensure_bind_eq_ok]
  refine ⟨not_not.2 known, fresh, ?_⟩
  rw [(parses_u64 _).run_bind, (parses_u8 _).run_bind, run_ensure_bind_eq_ok]
  refine ⟨small.1, ?_⟩
  rw [parses_expectReserved.run_bind, (parses_u64 _).run_bind, run_ensure_bind_eq_ok]
  exact ⟨small.2, run_pure_eq_ok.2 ⟨by simp [assignedKeys], rfl⟩⟩

theorem run_validateLocalAssignmentChanged {group : OffsetGroup} {event : AssignmentEvent}
    (accepted : event.Accepted catalog p group) {u : Unit} :
    validateLocalAssignmentChanged (putString event.group ++ (putID event.assignmentInstance ++
        (putUint64 event.expected ++ (putUint64 event.newGeneration ++ ([event.reason] ++
        ([0, 0, 0] ++ (putUint32 (.ofNat event.members.length) ++
        (event.members.flatMap AssignmentMember.bytes ++
        (putUint32 (.ofNat event.assignments.length) ++
          event.assignments.flatMap AssignmentEntry.bytes))))))))) = .ok (u, rest) ↔
      (OffsetsEvent.assignmentChanged event).InGrammar ∧ rest = [] := by
  have wellFormed := accepted.wellFormed
  have count := toNat_ofNat32 wellFormed.fewMembers
  have count' := toNat_ofNat32 wellFormed.fewAssignments
  -- as many assignments as subscribed keys
  have covers : ¬ (scanOf event.members).totalSubscriptions < event.assignments.length := by
    have owners : (ownersOf event.assignments).size = event.assignments.length :=
      size_foldl_insert (nodup_assigned accepted.assignments)
    have keys := size_subscribedBy wellFormed.members
    have same := wellFormed.covers
    change ¬ (subscribedKeys event.members).length < _
    omega
  have entries := (run_validateAssignments accepted.assignments).run_bind (fun _ => finishEvent) []
  rw [List.append_nil] at entries
  rw [validateLocalAssignmentChanged,
    (parses_stringValue OffsetsProjection.groupIDBytes_lt accepted.addressed.group).run_bind,
    (parses_requireID wellFormed.assignmentInstance _).run_bind, (parses_u64 _).run_bind,
    (parses_u64 _).run_bind, run_ensure_bind_eq_ok, (parses_u8 _).run_bind, run_ensure_bind_eq_ok,
    parses_expectReserved.run_bind, (parses_u32 _).run_bind, run_ensure_bind_eq_ok, count,
    run_bind_eq_ok]
  simp only [show (⟨∅, none, 0⟩ : MemberScan) = scanOf [] from rfl,
    run_validateMembers wellFormed.members, allowed_keys_iff]
  have some_keys : event.members = [] ∨
      (subscribedKeys event.members).length ≤ maxSubscriptionKeys ↔
      (subscribedKeys event.members).length ≤ maxSubscriptionKeys := by
    rw [or_iff_right_iff_imp]
    intro none
    simp [subscribedKeys, none]
  have reason : ¬ (event.reason < 1 ∨ 6 < event.reason) ↔ 1 ≤ event.reason ∧ event.reason ≤ 6 := by
    rw [not_or, UInt8.not_lt, UInt8.not_lt]
  have generation : ¬ (event.expected = 0xFFFFFFFFFFFFFFFF ∨
      event.newGeneration ≠ event.expected + 1) ↔ event.expected ≠ 0xFFFFFFFFFFFFFFFF := by
    simp [accepted.newGeneration]
  have ending : validateAssignments (scanOf event.members)
      (putUint32 (.ofNat event.assignments.length) ++
        event.assignments.flatMap AssignmentEntry.bytes) = .ok (u, rest) ↔ rest = [] := by
    rw [validateAssignments, (parses_u32 _).run_bind, run_ensure_bind_eq_ok, count']
    refine (and_iff_right covers).trans ?_
    rw [show (scanOf event.members).memberIDs = memberSet event.members from rfl, entries,
      run_finishEvent_eq_ok]
    exact and_iff_right rfl
  rw [reason, generation, Nat.not_lt]
  unfold OffsetsEvent.InGrammar
  constructor
  · rintro ⟨last, known, few, _, _, ⟨keys, rfl, rfl⟩, later⟩
    exact ⟨⟨last, known, few, some_keys.1 keys⟩, ending.1 later⟩
  · rintro ⟨⟨last, known, few, keys⟩, done⟩
    exact ⟨last, known, few, _, _, ⟨some_keys.2 keys, rfl, rfl⟩, ending.2 done⟩

theorem run_validateOffsetCommitted {group : OffsetGroup} {progress : OffsetProgress}
    {event : CommitEvent} (accepted : event.Accepted catalog p group progress) {u : Unit} :
    validateOffsetCommitted (putString event.group ++ (putID event.commitInstance ++
        (putID event.session ++ (putUint64 event.generation ++ (event.key.bytes ++
        ([event.previousKind] ++ ([0, 0, 0] ++
        (putUint64 event.expectedPrevious ++ putUint64 event.next)))))))) = .ok (u, rest) ↔
      rest = [] := by
  have small : ¬ 1 < event.previousKind := by
    rcases accepted.previous with ⟨zero, -⟩ | ⟨one, -⟩
    · rw [zero]
      decide
    · rw [one]
      decide
  have ending := (parses_u64 event.next).run_bind (fun _ => finishEvent) []
  rw [List.append_nil] at ending
  rw [validateOffsetCommitted,
    (parses_stringValue OffsetsProjection.groupIDBytes_lt accepted.addressed.group).run_bind,
    (parses_requireID accepted.commitInstance _).run_bind,
    (parses_requireID accepted.session _).run_bind, (parses_u64 _).run_bind,
    (parses_decodeTopicKey accepted.key.1).run_bind, (parses_u8 _).run_bind, run_ensure_bind_eq_ok]
  refine (and_iff_right small).trans ?_
  rw [parses_expectReserved.run_bind, (parses_u64 _).run_bind, ending, run_finishEvent_eq_ok]
  exact and_iff_right rfl

/-- The fields in front of every event. -/
theorem validateOffsetsEvent_front {eventType : EventType} {storeID : StoreID} {next : UInt64}
    {body : Bytes} :
    validateOffsetsEvent eventType (putID storeID ++ (putUint64 next ++ body)) storeID = .ok () ↔
      ∃ rest, (if eventType = eventGroupCreated then validateGroupCreated
        else if eventType = eventLocalAssignmentChanged then validateLocalAssignmentChanged
        else if eventType = eventOffsetCommitted then validateOffsetCommitted
        else Cursor.fail (corrupt .errInvalidRecord "invalid offsets event type")) body =
          .ok ((), rest) := by
  rw [validateOffsetsEvent, readFrom_eq_ok]
  refine exists_congr fun rest => ?_
  rw [(parses_id storeID).run_bind, run_ensure_bind_eq_ok]
  refine (and_iff_right (not_not.2 rfl)).trans ?_
  rw [(parses_u64 next).run_bind]

end Validation

/-- The validator takes an accepted event exactly when it is within the limits. -/
theorem OffsetsEvent.Accepted.validate_iff {catalog : CatalogProjection} {p : OffsetsProjection}
    {event : OffsetsEvent} (accepted : event.Accepted catalog p) :
    validateOffsetsEvent event.eventType event.bytes p.storeID = .ok () ↔ event.InGrammar := by
  cases event with
  | groupCreated event =>
      have store := accepted.addressed.store
      rw [← store]
      refine validateOffsetsEvent_front.trans ?_
      simp only [OffsetsEvent.eventType]
      refine (exists_congr fun rest => run_validateGroupCreated accepted).trans ?_
      simp [OffsetsEvent.InGrammar]
  | assignmentChanged event =>
      obtain ⟨group, accepted⟩ := accepted
      have store := accepted.addressed.store
      rw [← store]
      refine validateOffsetsEvent_front.trans ?_
      simp only [OffsetsEvent.eventType, if_true]
      refine (exists_congr fun rest => run_validateLocalAssignmentChanged accepted).trans ?_
      simp
  | offsetCommitted event =>
      obtain ⟨group, progress, accepted⟩ := accepted
      have store := accepted.addressed.store
      rw [← store]
      refine validateOffsetsEvent_front.trans ?_
      have other : ¬ eventOffsetCommitted = eventLocalAssignmentChanged := by decide
      simp only [OffsetsEvent.eventType, if_true, if_neg other]
      refine (exists_congr fun rest => run_validateOffsetCommitted accepted).trans ?_
      simp [OffsetsEvent.InGrammar]

/-- An event that the projection accepts keeps to the grammar exactly when it is within the
limits on counts, reason and generation, which the projection does not check. -/
theorem validate_accepted_iff {catalog : CatalogProjection} {p p' : OffsetsProjection}
    {record : Record} (applied : OffsetsProjection.apply catalog p record = .ok p') :
    ∃ event : OffsetsEvent,
      decodeSystemEvent record consumerOffsetsTopicID = .ok (event.eventType, event.bytes) ∧
        (validateOffsetsEvent event.eventType event.bytes p.storeID = .ok () ↔
          event.InGrammar) := by
  obtain ⟨event, carries, accepted, -⟩ := OffsetsProjection.apply_eq_ok.1 applied
  exact ⟨event, carries.decode, accepted.validate_iff⟩

section Sample

open OffsetsProjection (createdOffsets offsetsRecord sampleAssignment sampleOffsets)

/-- The assignment of the samples is accepted, and it keeps to the grammar. -/
theorem validate_accepted_iff_sample : ∃ event : OffsetsEvent,
    OffsetsProjection.apply sampleCatalog createdOffsets
        (offsetsRecord 1 (.assignmentChanged sampleAssignment)) = .ok sampleOffsets ∧
      decodeSystemEvent (offsetsRecord 1 (.assignmentChanged sampleAssignment))
        consumerOffsetsTopicID = .ok (event.eventType, event.bytes) ∧
      validateOffsetsEvent event.eventType event.bytes createdOffsets.storeID = .ok () ∧
      event.InGrammar := by
  have applied : OffsetsProjection.apply sampleCatalog createdOffsets
      (offsetsRecord 1 (.assignmentChanged sampleAssignment)) = .ok sampleOffsets := by
    decide +kernel
  have carried : decodeSystemEvent (offsetsRecord 1 (.assignmentChanged sampleAssignment))
      consumerOffsetsTopicID = .ok (eventLocalAssignmentChanged, sampleAssignment.bytes) := by
    decide +kernel
  have valid : validateOffsetsEvent eventLocalAssignmentChanged sampleAssignment.bytes
      createdOffsets.storeID = .ok () := by
    decide +kernel
  obtain ⟨event, decoded, grammar⟩ := validate_accepted_iff applied
  obtain ⟨type, bytes⟩ := Prod.mk.inj (Except.ok.inj (decoded.symm.trans carried))
  rw [← type, ← bytes] at valid
  exact ⟨event, applied, decoded, valid, grammar.1 valid⟩

/-- An assignment without a reason. -/
def reasonless : AssignmentEvent :=
  { sampleAssignment with reason := 0 }

/-- Replay takes an assignment event without a reason, which the grammar refuses. -/
theorem reasonless_accepted :
    ∃ p', OffsetsProjection.apply sampleCatalog createdOffsets
        (systemRecord consumerOffsetsTopicID 1
          (envelope eventLocalAssignmentChanged reasonless.bytes)) = .ok p' ∧
      validateOffsetsEvent eventLocalAssignmentChanged reasonless.bytes createdOffsets.storeID ≠
        .ok () := by
  have applied : OffsetsProjection.apply sampleCatalog createdOffsets
      (systemRecord consumerOffsetsTopicID 1
        (envelope eventLocalAssignmentChanged reasonless.bytes)) =
          .ok (createdOffsets.after 1 (.assignmentChanged reasonless)) := by
    decide +kernel
  exact ⟨_, applied, by decide +kernel⟩

end Sample

end Immulog
