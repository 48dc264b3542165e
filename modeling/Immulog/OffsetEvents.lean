import Immulog.Offsets

/-!
What the offsets projection accepts.

The three payloads of the consumer-offsets log as structures, with the bytes they
are written as; `apply_eq_ok` says that a record is applied exactly when it carries
such an event and the projection takes it, and what becomes of the projection.
-/

namespace Immulog

open Lib Std

/-! ## Payloads -/

structure GroupCreatedEvent where
  storeID : StoreID
  catalogNext : UInt64
  group : Bytes
  startMode : UInt8
  starts : List (TopicKey × UInt64)
  deriving DecidableEq, Repr

structure AssignmentMember where
  session : Session
  subscriptions : List TopicKey
  deriving DecidableEq, Repr

structure AssignmentEntry where
  key : TopicKey
  owner : Session
  resume : UInt64
  action : UInt8
  initial : UInt64
  deriving DecidableEq, Repr

structure AssignmentEvent where
  storeID : StoreID
  catalogNext : UInt64
  group : Bytes
  assignmentInstance : StoreID
  expected : UInt64
  newGeneration : UInt64
  reason : UInt8
  members : List AssignmentMember
  assignments : List AssignmentEntry
  deriving DecidableEq, Repr

structure CommitEvent where
  storeID : StoreID
  catalogNext : UInt64
  group : Bytes
  commitInstance : StoreID
  session : Session
  generation : UInt64
  key : TopicKey
  previousKind : UInt8
  expectedPrevious : UInt64
  next : UInt64
  deriving DecidableEq, Repr

/-- An explicit start. -/
def startBytes (start : TopicKey × UInt64) : Bytes :=
  start.1.bytes ++ putUint64 start.2

def GroupCreatedEvent.bytes (event : GroupCreatedEvent) : Bytes :=
  putID event.storeID ++ (putUint64 event.catalogNext ++ (putString event.group ++
    ([event.startMode] ++ ([0, 0, 0] ++ (putUint32 (.ofNat event.starts.length) ++
      event.starts.flatMap startBytes)))))

def AssignmentMember.bytes (member : AssignmentMember) : Bytes :=
  putID member.session ++ (putUint32 (.ofNat member.subscriptions.length) ++
    member.subscriptions.flatMap TopicKey.bytes)

def AssignmentEntry.bytes (entry : AssignmentEntry) : Bytes :=
  entry.key.bytes ++ (putID entry.owner ++ (putUint64 entry.resume ++ ([entry.action] ++
    ([0, 0, 0] ++ putUint64 entry.initial))))

def AssignmentEvent.bytes (event : AssignmentEvent) : Bytes :=
  putID event.storeID ++ (putUint64 event.catalogNext ++ (putString event.group ++
    (putID event.assignmentInstance ++ (putUint64 event.expected ++
    (putUint64 event.newGeneration ++ ([event.reason] ++ ([0, 0, 0] ++
    (putUint32 (.ofNat event.members.length) ++ (event.members.flatMap AssignmentMember.bytes ++
    (putUint32 (.ofNat event.assignments.length) ++
      event.assignments.flatMap AssignmentEntry.bytes))))))))))

def CommitEvent.bytes (event : CommitEvent) : Bytes :=
  putID event.storeID ++ (putUint64 event.catalogNext ++ (putString event.group ++
    (putID event.commitInstance ++ (putID event.session ++ (putUint64 event.generation ++
    (event.key.bytes ++ ([event.previousKind] ++ ([0, 0, 0] ++
    (putUint64 event.expectedPrevious ++ putUint64 event.next)))))))))

/-! ## Acceptance -/

/-- The key names a partition that exists at the catalog revision. -/
def KnownKey (catalog : CatalogProjection) (catalogNext : UInt64) (key : TopicKey) : Prop :=
  key.Valid ∧ ∃ partition, catalogPartition catalog key catalogNext = .ok partition

def insertKeys (session : Session) (keys : List TopicKey) (m : ExtTreeMap TopicKey Session) :
    ExtTreeMap TopicKey Session :=
  keys.foldl (fun m key => m.insert key session) m

/-- The subscribed keys of the members, with their subscribers. -/
def subscribedBy (members : List AssignmentMember) : ExtTreeMap TopicKey Session :=
  members.foldl (fun m member => insertKeys member.session member.subscriptions m) ∅

/-- All keys of the members. -/
def subscribedKeys (members : List AssignmentMember) : List TopicKey :=
  members.flatMap AssignmentMember.subscriptions

def memberSet (members : List AssignmentMember) : GoSet Session :=
  members.foldl (fun m member => m.insert member.session ()) ∅

def ownersOf (assignments : List AssignmentEntry) : ExtTreeMap TopicKey Session :=
  assignments.foldl (fun m entry => m.insert entry.key entry.owner) ∅

/-- Progress with the baselines that the assignments create. -/
def progressAfter (progress : ExtTreeMap TopicKey OffsetProgress)
    (assignments : List AssignmentEntry) : ExtTreeMap TopicKey OffsetProgress :=
  assignments.foldl (fun m entry =>
    if entry.action = 1 then m.insert entry.key ⟨entry.initial, false, 0⟩ else m) progress

/-- A member that may follow the ones before it. -/
structure AssignmentMember.Follows (catalog : CatalogProjection) (catalogNext : UInt64)
    (done : List AssignmentMember) (member : AssignmentMember) : Prop where
  session : member.session ≠ 0
  ordered : InOrder (done.map AssignmentMember.session) member.session
  short : member.subscriptions.length < 2 ^ 32
  keys : Cursor.Allowed (fun before key => KnownKey catalog catalogNext key ∧ InOrder before key ∧
    key ∉ insertKeys member.session before (subscribedBy done)) member.subscriptions

/-- The baseline of an entry agrees with the progress it finds. -/
def AssignmentEntry.Baseline (progress : ExtTreeMap TopicKey OffsetProgress)
    (entry : AssignmentEntry) : Prop :=
  (entry.action = 1 ∧ progress[entry.key]? = none ∧ entry.initial = entry.resume) ∨
    (entry.action = 0 ∧ entry.initial = 0 ∧ progress[entry.key]?.map latestNext = some entry.resume)

/-- An entry that may follow the ones before it. -/
structure AssignmentEntry.Follows (subscribed : ExtTreeMap TopicKey Session)
    (progress : ExtTreeMap TopicKey OffsetProgress) (done : List AssignmentEntry)
    (entry : AssignmentEntry) : Prop where
  key : entry.key.Valid
  ordered : InOrder (done.map AssignmentEntry.key) entry.key
  owner : entry.owner ≠ 0
  subscriber : subscribed[entry.key]? = some entry.owner
  baseline : entry.Baseline (progressAfter progress done)

/-- Explicit starts by key. -/
def startsMap (starts : List (TopicKey × UInt64)) : ExtTreeMap TopicKey UInt64 :=
  starts.foldl (fun m start => m.insert start.1 start.2) ∅

section Concat

@[simp] theorem startsMap_concat (done : List (TopicKey × UInt64)) (start : TopicKey × UInt64) :
    startsMap (done ++ [start]) = (startsMap done).insert start.1 start.2 := by
  simp [startsMap]

@[simp] theorem insertKeys_concat (session : Session) (done : List TopicKey) (key : TopicKey)
    (m : ExtTreeMap TopicKey Session) :
    insertKeys session (done ++ [key]) m = (insertKeys session done m).insert key session := by
  simp [insertKeys]

/-- The members are folded one by one, as the source reads them. -/
@[simp] theorem subscribedBy_concat (done : List AssignmentMember) (member : AssignmentMember) :
    subscribedBy (done ++ [member]) =
      insertKeys member.session member.subscriptions (subscribedBy done) := by
  simp [subscribedBy]

@[simp] theorem subscribedKeys_concat (done : List AssignmentMember) (member : AssignmentMember) :
    subscribedKeys (done ++ [member]) = subscribedKeys done ++ member.subscriptions := by
  simp [subscribedKeys]

@[simp] theorem memberSet_concat (done : List AssignmentMember) (member : AssignmentMember) :
    memberSet (done ++ [member]) = (memberSet done).insert member.session () := by
  simp [memberSet]

@[simp] theorem ownersOf_concat (done : List AssignmentEntry) (entry : AssignmentEntry) :
    ownersOf (done ++ [entry]) = (ownersOf done).insert entry.key entry.owner := by
  simp [ownersOf]

/-- Only entries that create a baseline change the progress. -/
@[simp] theorem progressAfter_concat (progress : ExtTreeMap TopicKey OffsetProgress)
    (done : List AssignmentEntry) (entry : AssignmentEntry) :
    progressAfter progress (done ++ [entry]) =
      if entry.action = 1 then
        (progressAfter progress done).insert entry.key ⟨entry.initial, false, 0⟩
      else progressAfter progress done := by
  simp [progressAfter]

/-- Members subscribe to different keys. -/
theorem size_subscribedBy {catalog : CatalogProjection} {next : UInt64}
    {members : List AssignmentMember}
    (allowed : Cursor.Allowed (AssignmentMember.Follows catalog next) members) :
    (subscribedBy members).size = (subscribedKeys members).length := by
  have inserted : ∀ (session : Session) (m : ExtTreeMap TopicKey Session) (keys : List TopicKey),
      Cursor.Allowed (fun before key => key ∉ insertKeys session before m) keys →
      (insertKeys session keys m).size = m.size + keys.length := by
    intro session m keys fresh
    induction keys using List.reverseRecOn with
    | nil => simp [insertKeys]
    | append_singleton keys key ih =>
        obtain ⟨earlier, new⟩ := Cursor.allowed_concat.1 fresh
        rw [← ExtTreeMap.contains_iff_mem] at new
        rw [insertKeys_concat, ExtTreeMap.size_insert, if_neg new, ih earlier]
        simp [Nat.add_assoc]
  induction members using List.reverseRecOn with
  | nil => rfl
  | append_singleton members member ih =>
      obtain ⟨earlier, follows⟩ := Cursor.allowed_concat.1 allowed
      rw [subscribedBy_concat, subscribedKeys_concat, List.length_append, ← ih earlier]
      exact inserted _ _ _ (follows.keys.mono fun _ _ ok => ok.2.2)

end Concat

/-! ## The loops -/

namespace OffsetsProjection

open Cursor EventCursor

variable {catalog : CatalogProjection} {catalogNext : UInt64}

/-- The loop over explicit starts accepts known keys in order. -/
theorem run_explicitLoop_eq_ok {n : Nat}
    {s' : ExtTreeMap TopicKey UInt64 × Option TopicKey} {bs rest : Bytes} :
    loop (explicitStep catalog catalogNext) n (∅, none) bs = .ok (s', rest) ↔
      ∃ starts : List (TopicKey × UInt64), starts.length = n ∧
        Allowed (fun done start => KnownKey catalog catalogNext start.1 ∧
          InOrder (done.map Prod.fst) start.1) starts ∧
        s' = (startsMap starts, (starts.map Prod.fst).getLast?) ∧
        bs = starts.flatMap startBytes ++ rest := by
  refine run_loop_eq_ok startBytes
    (fun starts => (startsMap starts, (starts.map Prod.fst).getLast?))
    _ ?_
  intro done s' bs rest _
  simp only [explicitStep, run_bind_eq_ok, run_decodeTopicKey_eq_ok, ↓run_ensure_bind_eq_ok,
    run_lift_eq_ok, run_u64_eq_ok, run_pure_eq_ok]
  constructor
  · rintro ⟨key, _, ⟨valid, rfl⟩, ordered, p, _, ⟨known, rfl⟩, next, _, rfl, rfl, rfl⟩
    exact ⟨(key, next), ⟨⟨valid, p, known⟩, ordered⟩, by simp, by simp [startBytes]⟩
  · rintro ⟨start, ⟨⟨valid, p, known⟩, ordered⟩, rfl, rfl⟩
    exact ⟨start.1, _, ⟨valid, by simp [startBytes]⟩, ordered, p, _, ⟨known, rfl⟩, start.2, _, rfl,
      by simp, rfl⟩

/-- The loop over the subscriptions of one member. -/
theorem run_subscriptionLoop_eq_ok {session : Session} {start : ExtTreeMap TopicKey Session}
    {n : Nat} {s' : ExtTreeMap TopicKey Session × Option TopicKey} {bs rest : Bytes} :
    loop (subscriptionStep catalog catalogNext session) n (start, none) bs = .ok (s', rest) ↔
      ∃ keys : List TopicKey, keys.length = n ∧
        Allowed (fun before key => KnownKey catalog catalogNext key ∧ InOrder before key ∧
          key ∉ insertKeys session before start) keys ∧
        s' = (insertKeys session keys start, keys.getLast?) ∧
        bs = keys.flatMap TopicKey.bytes ++ rest := by
  refine run_loop_eq_ok TopicKey.bytes (fun keys => (insertKeys session keys start, keys.getLast?))
    _ ?_
  intro done s' bs rest _
  simp only [subscriptionStep, run_bind_eq_ok, run_decodeTopicKey_eq_ok, ↓run_ensure_bind_eq_ok,
    run_lift_eq_ok, run_pure_eq_ok]
  constructor
  · rintro ⟨key, _, ⟨valid, rfl⟩, ordered, p, _, ⟨known, rfl⟩, fresh, rfl, rfl⟩
    exact ⟨key, ⟨⟨valid, p, known⟩, ordered, fresh⟩, by simp, rfl⟩
  · rintro ⟨key, ⟨⟨valid, p, known⟩, ordered, fresh⟩, rfl, rfl⟩
    exact ⟨key, _, ⟨valid, rfl⟩, ordered, p, _, ⟨known, rfl⟩, fresh, by simp, rfl⟩

/-- The loop over the members: sessions in order, and no key subscribed twice. -/
theorem run_memberLoop_eq_ok {n : Nat} {s' : MemberState} {bs rest : Bytes} :
    loop (memberStep catalog catalogNext) n ⟨∅, ∅, none⟩ bs = .ok (s', rest) ↔
      ∃ members : List AssignmentMember, members.length = n ∧
        Allowed (AssignmentMember.Follows catalog catalogNext) members ∧
        s' = ⟨memberSet members, subscribedBy members,
          (members.map AssignmentMember.session).getLast?⟩ ∧
        bs = members.flatMap AssignmentMember.bytes ++ rest := by
  refine run_loop_eq_ok AssignmentMember.bytes (fun members => MemberState.mk (memberSet members)
    (subscribedBy members) (members.map AssignmentMember.session).getLast?) _ ?_
  intro done s' bs rest _
  simp only [memberStep, run_bind_eq_ok, run_requireID_eq_ok, ↓run_ensure_bind_eq_ok, run_u32_eq_ok,
    run_subscriptionLoop_eq_ok, run_pure_eq_ok]
  constructor
  · rintro ⟨session, _, ⟨nonzero, rfl⟩, ordered, count, _, rfl, _, _,
      ⟨keys, size, allowed, rfl, rfl⟩, rfl, rfl⟩
    have full : UInt32.ofNat keys.length = count := by rw [size, UInt32.ofNat_toNat]
    refine ⟨⟨session, keys⟩, ⟨nonzero, ordered, ?_, allowed⟩, ?_, ?_⟩
    · exact size ▸ count.toNat_lt
    · simp
    · simp [AssignmentMember.bytes, full]
  · rintro ⟨member, ⟨nonzero, ordered, short, allowed⟩, rfl, rfl⟩
    refine ⟨member.session, _, ⟨nonzero, by simp [AssignmentMember.bytes]⟩, ordered,
      .ofNat member.subscriptions.length, _, rfl, _, _,
      ⟨member.subscriptions, (toNat_ofNat32 short).symm, allowed, rfl, rfl⟩, ?_, rfl⟩
    simp

/-- The loop over the assignments, each owned by its subscriber. -/
theorem run_assignmentLoop_eq_ok {subscribed : ExtTreeMap TopicKey Session}
    {progress : ExtTreeMap TopicKey OffsetProgress} {n : Nat} {s' : AssignmentState}
    {bs rest : Bytes} :
    loop (assignmentStep subscribed) n ⟨∅, progress, none⟩ bs = .ok (s', rest) ↔
      ∃ entries : List AssignmentEntry, entries.length = n ∧
        Allowed (AssignmentEntry.Follows subscribed progress) entries ∧
        s' = ⟨ownersOf entries, progressAfter progress entries,
          (entries.map AssignmentEntry.key).getLast?⟩ ∧
        bs = entries.flatMap AssignmentEntry.bytes ++ rest := by
  refine run_loop_eq_ok AssignmentEntry.bytes (fun entries => AssignmentState.mk (ownersOf entries)
    (progressAfter progress entries) (entries.map AssignmentEntry.key).getLast?) _ ?_
  intro done s' bs rest _
  simp only [assignmentStep, run_bind_eq_ok, run_decodeTopicKey_eq_ok, run_requireID_eq_ok,
    ↓run_ensure_bind_eq_ok, run_u64_eq_ok, run_u8_eq_ok, run_expectReserved_eq_ok, ne_eq,
    Decidable.not_not, UInt8.not_lt]
  constructor
  · rintro ⟨key, _, ⟨valid, rfl⟩, ordered, owner, _, ⟨nonzero, rfl⟩, subscriber, resume, _, rfl,
      action, _, rfl, small, _, _, rfl, initial, _, rfl, last⟩
    have known : subscribed[key]? = some owner := by
      rw [ExtTreeMap.getD_eq_getD_getElem?] at subscriber
      cases found : subscribed[key]? with
      | none =>
          rw [found] at subscriber
          exact absurd subscriber.symm nonzero
      | some session =>
          rw [found] at subscriber
          exact congrArg some subscriber
    have size : AssignmentEntry.bytes ⟨key, owner, resume, action, initial⟩ ++ rest =
        key.bytes ++ (putID owner ++ (putUint64 resume ++ ([action] ++ ([0, 0, 0] ++
          (putUint64 initial ++ rest))))) := by
      simp [AssignmentEntry.bytes]
    split at last
    · rename_i create
      simp only [↓run_ensure_bind_eq_ok, run_pure_eq_ok, not_or, Decidable.not_not] at last
      obtain ⟨⟨fresh, same⟩, rfl, rfl⟩ := last
      refine ⟨⟨key, owner, resume, action, initial⟩, ⟨valid, ordered, nonzero, known, .inl ?_⟩,
        ?_, size.symm⟩
      · exact ⟨create, by simpa using fresh, same⟩
      · simp [create]
    · rename_i reuse
      simp only [↓run_ensure_bind_eq_ok, run_pure_eq_ok, not_or, Decidable.not_not] at last
      obtain ⟨⟨zero, same⟩, rfl, rfl⟩ := last
      have zeroAction : action = 0 := by
        rw [UInt8.le_iff_toNat_le] at small
        rw [← UInt8.toNat_inj] at reuse ⊢
        simp at small reuse ⊢
        omega
      refine ⟨⟨key, owner, resume, action, initial⟩, ⟨valid, ordered, nonzero, known, .inr ?_⟩,
        ?_, size.symm⟩
      · exact ⟨zeroAction, zero, same⟩
      · simp [zeroAction]
  · rintro ⟨entry, ⟨valid, ordered, nonzero, known, baseline⟩, rfl, rfl⟩
    have subscriber : subscribed.getD entry.key 0 = entry.owner := by
      rw [ExtTreeMap.getD_eq_getD_getElem?, known]
      rfl
    have small : entry.action ≤ 1 := by
      rcases baseline with ⟨create, -, -⟩ | ⟨reuse, -, -⟩
      · rw [create]
        decide
      · rw [reuse]
        decide
    refine ⟨entry.key, _, ⟨valid, by simp [AssignmentEntry.bytes]⟩, ordered, entry.owner, _,
      ⟨nonzero, rfl⟩, subscriber, entry.resume, _, rfl, entry.action, _, rfl, small, (), _, rfl,
      entry.initial, rest, rfl, ?_⟩
    rcases baseline with ⟨create, fresh, same⟩ | ⟨reuse, zero, same⟩
    · rw [if_pos create]
      simp [↓run_ensure_bind_eq_ok, run_pure_eq_ok, fresh, same, create]
    · have other : ¬ entry.action = 1 := by
        rw [reuse]
        decide
      rw [if_neg other]
      simp [↓run_ensure_bind_eq_ok, run_pure_eq_ok, zero, same, other]

end OffsetsProjection

/-! ## Events -/

inductive OffsetsEvent where
  | groupCreated (event : GroupCreatedEvent)
  | assignmentChanged (event : AssignmentEvent)
  | offsetCommitted (event : CommitEvent)

namespace OffsetGroup

def ofCreated (offset : UInt64) (event : GroupCreatedEvent) : OffsetGroup where
  creationOffset := offset
  creationBody := event.bytes
  generation := 0
  assignmentOffset := 0
  assignmentBody := []
  assignmentOwner := ∅
  assignmentMember := ∅
  assignmentInstance := 0
  creationStartMode := event.startMode
  explicitStarts := startsMap event.starts
  progress := ∅

def assigned (group : OffsetGroup) (offset : UInt64) (event : AssignmentEvent) : OffsetGroup :=
  { group with
    progress := progressAfter group.progress event.assignments
    generation := event.newGeneration
    assignmentOffset := offset
    assignmentBody := event.bytes
    assignmentOwner := ownersOf event.assignments
    assignmentMember := memberSet event.members
    assignmentInstance := event.assignmentInstance }

def committed (group : OffsetGroup) (event : CommitEvent) : OffsetGroup :=
  { group with
    progress := group.progress.modify event.key fun progress =>
      { progress with hasCommit := true, committedNext := event.next } }

end OffsetGroup

/-- The store, catalog revision and group that every event of the log names. -/
structure Addressed (catalog : CatalogProjection) (p : OffsetsProjection) (storeID : StoreID)
    (catalogNext : UInt64) (group : Bytes) : Prop where
  store : storeID = p.storeID
  positive : catalogNext ≠ 0
  known : catalogNext ≤ catalog.revision
  group : ValidString maxGroupIDBytes group

structure GroupCreatedEvent.Accepted (catalog : CatalogProjection) (p : OffsetsProjection)
    (event : GroupCreatedEvent) : Prop where
  addressed : Addressed catalog p event.storeID event.catalogNext event.group
  fresh : event.group ∉ p.groups
  mode : 1 ≤ event.startMode ∧ event.startMode ≤ 3
  policy : event.starts = [] ↔ event.startMode ≠ 3
  short : event.starts.length < 2 ^ 32
  starts : Cursor.Allowed (fun done start => KnownKey catalog event.catalogNext start.1 ∧
    InOrder (done.map Prod.fst) start.1) event.starts

/-- What an assignment needs apart from the state of its group. -/
structure AssignmentEvent.WellFormed (catalog : CatalogProjection) (event : AssignmentEvent) :
    Prop where
  assignmentInstance : event.assignmentInstance ≠ 0
  fewMembers : event.members.length < 2 ^ 32
  members : Cursor.Allowed (AssignmentMember.Follows catalog event.catalogNext) event.members
  fewAssignments : event.assignments.length < 2 ^ 32
  covers : (ownersOf event.assignments).size = (subscribedBy event.members).size

structure AssignmentEvent.Accepted (catalog : CatalogProjection) (p : OffsetsProjection)
    (group : OffsetGroup) (event : AssignmentEvent) : Prop where
  addressed : Addressed catalog p event.storeID event.catalogNext event.group
  found : p.groups[event.group]? = some group
  wellFormed : event.WellFormed catalog
  expected : event.expected = group.generation
  newGeneration : event.newGeneration = event.expected + 1
  assignments : Cursor.Allowed
    (AssignmentEntry.Follows (subscribedBy event.members) group.progress) event.assignments

structure CommitEvent.Accepted (catalog : CatalogProjection) (p : OffsetsProjection)
    (group : OffsetGroup) (progress : OffsetProgress) (event : CommitEvent) : Prop where
  addressed : Addressed catalog p event.storeID event.catalogNext event.group
  found : p.groups[event.group]? = some group
  commitInstance : event.commitInstance ≠ 0
  session : event.session ≠ 0
  key : KnownKey catalog event.catalogNext event.key
  generation : event.generation = group.generation
  baseline : group.progress[event.key]? = some progress
  owner : group.assignmentOwner[event.key]? = some event.session
  sameInstance : event.commitInstance = group.assignmentInstance
  previous : (event.previousKind = 0 ∧ progress.hasCommit = false ∧
      event.expectedPrevious = progress.initialNext) ∨
    (event.previousKind = 1 ∧ progress.hasCommit = true ∧
      event.expectedPrevious = progress.committedNext)
  advances : event.expectedPrevious ≤ event.next

namespace OffsetsEvent

def eventType : OffsetsEvent → EventType
  | groupCreated _ => eventGroupCreated
  | assignmentChanged _ => eventLocalAssignmentChanged
  | offsetCommitted _ => eventOffsetCommitted

def bytes : OffsetsEvent → Bytes
  | groupCreated event => event.bytes
  | assignmentChanged event => event.bytes
  | offsetCommitted event => event.bytes

def Accepted (catalog : CatalogProjection) (p : OffsetsProjection) : OffsetsEvent → Prop
  | groupCreated event => event.Accepted catalog p
  | assignmentChanged event => ∃ group, event.Accepted catalog p group
  | offsetCommitted event => ∃ group progress, event.Accepted catalog p group progress

end OffsetsEvent

namespace OffsetsProjection

def after (p : OffsetsProjection) (offset : UInt64) : OffsetsEvent → OffsetsProjection
  | .groupCreated event =>
      { p with
        revision := offset + 1
        groups := p.groups.insert event.group (.ofCreated offset event) }
  | .assignmentChanged event =>
      { p with
        revision := offset + 1
        groups := p.groups.modify event.group (·.assigned offset event) }
  | .offsetCommitted event =>
      { p with
        revision := offset + 1
        groups := p.groups.modify event.group (·.committed event) }

theorem groupIDBytes_lt : maxGroupIDBytes < 2 ^ 32 := by
  decide

/-- Explicit starts are there exactly when the start mode asks for them. -/
theorem startPolicy_iff {mode : UInt8} {none : Prop} (range : 1 ≤ mode ∧ mode ≤ 3) :
    (¬ ((mode = 1 ∨ mode = 2) ∧ ¬ none) ∧ ¬ (mode = 3 ∧ none)) ↔ (none ↔ mode ≠ 3) := by
  have known : mode = 1 ∨ mode = 2 ∨ mode = 3 := by
    obtain ⟨low, high⟩ := range
    rw [UInt8.le_iff_toNat_le] at low high
    simp only [← UInt8.toNat_inj]
    simp at low high ⊢
    omega
  rcases known with rfl | rfl | rfl <;> by_cases none <;> simp_all

open Cursor EventCursor

variable {catalog : CatalogProjection} {p p' : OffsetsProjection} {offset catalogNext : UInt64}
  {storeID : StoreID} {bs rest : Bytes}

/-- A GroupCreated payload behind the fields that every event starts with. -/
theorem run_applyGroupCreated_eq_ok {payload : Bytes}
    (front : payload = putID storeID ++ (putUint64 catalogNext ++ bs))
    (addressed : storeID = p.storeID ∧ catalogNext ≠ 0 ∧ catalogNext ≤ catalog.revision) :
    applyGroupCreated p offset payload catalog catalogNext bs = .ok (p', rest) ↔
      rest = [] ∧ ∃ event : GroupCreatedEvent, payload = event.bytes ∧ event.storeID = storeID ∧
        event.catalogNext = catalogNext ∧ event.Accepted catalog p ∧
        p' = p.after offset (.groupCreated event) := by
  simp only [applyGroupCreated, run_bind_eq_ok, run_stringValue_eq_ok groupIDBytes_lt,
    ↓run_ensure_bind_eq_ok, run_u8_eq_ok, run_expectReserved_eq_ok, run_u32_eq_ok,
    run_explicitLoop_eq_ok, run_finishEvent_eq_ok, run_pure_eq_ok, not_or, UInt8.not_lt]
  constructor
  · rintro ⟨group, _, ⟨validGroup, rfl⟩, fresh, mode, _, rfl, range, _, _, rfl, count, _,
      rfl, policy, _, _, ⟨starts, size, allowed, rfl, rfl⟩, _, _, ⟨rfl, rfl⟩, rfl, rfl⟩
    have full : UInt32.ofNat starts.length = count := by rw [size, UInt32.ofNat_toNat]
    have whole : payload = GroupCreatedEvent.bytes ⟨storeID, catalogNext, group, mode, starts⟩ := by
      simp [front, GroupCreatedEvent.bytes, full]
    refine ⟨rfl, ⟨storeID, catalogNext, group, mode, starts⟩, whole, rfl, rfl,
      ⟨⟨addressed.1, addressed.2.1, addressed.2.2, validGroup⟩, fresh, range, ?_,
        size ▸ count.toNat_lt, allowed⟩, ?_⟩
    · have none : starts = [] ↔ count = 0 := by
        rw [← List.length_eq_zero_iff, size, ← UInt32.toNat_inj]
        rfl
      rw [← startPolicy_iff range, none]
      exact policy
    · simp [after, OffsetGroup.ofCreated, whole]
  · rintro ⟨rfl, event, whole, rfl, rfl, accepted, rfl⟩
    have tail : bs = putString event.group ++ ([event.startMode] ++ ([0, 0, 0] ++
        (putUint32 (.ofNat event.starts.length) ++ event.starts.flatMap startBytes))) := by
      rw [front, GroupCreatedEvent.bytes] at whole
      simpa using whole
    have count := toNat_ofNat32 accepted.short
    refine ⟨event.group, _, ⟨accepted.addressed.group, tail⟩, accepted.fresh,
      event.startMode, _, rfl, accepted.mode, (), _, rfl, .ofNat event.starts.length, _, rfl, ?_,
      (startsMap event.starts, _), [], ⟨event.starts, count.symm, accepted.starts, rfl, by simp⟩,
      (), [], ⟨rfl, rfl⟩, ?_, rfl⟩
    · have none : event.starts = [] ↔ UInt32.ofNat event.starts.length = 0 := by
        rw [← List.length_eq_zero_iff, ← UInt32.toNat_inj, count]
        rfl
      have policy := accepted.policy
      rw [← startPolicy_iff accepted.mode, none] at policy
      exact policy
    · simp [after, OffsetGroup.ofCreated, whole]

/-- The handler of assignments accepts the bytes of accepted events. -/
theorem run_applyAssignment_eq_ok {payload : Bytes}
    (front : payload = putID storeID ++ (putUint64 catalogNext ++ bs))
    (addressed : storeID = p.storeID ∧ catalogNext ≠ 0 ∧ catalogNext ≤ catalog.revision) :
    applyAssignment p offset payload catalog catalogNext bs = .ok (p', rest) ↔
      rest = [] ∧ ∃ event : AssignmentEvent, payload = event.bytes ∧ event.storeID = storeID ∧
        event.catalogNext = catalogNext ∧ (∃ group, event.Accepted catalog p group) ∧
        p' = p.after offset (.assignmentChanged event) := by
  simp only [applyAssignment, run_bind_eq_ok, run_stringValue_eq_ok groupIDBytes_lt]
  constructor
  · rintro ⟨groupID, _, ⟨validGroup, rfl⟩, later⟩
    cases found : p.groups[groupID]? with
    | none => simp [found, Cursor.fail] at later
    | some group =>
        simp only [found, run_bind_eq_ok, run_requireID_eq_ok, run_u64_eq_ok, run_u32_eq_ok,
          ↓run_ensure_bind_eq_ok, run_u8_eq_ok, run_expectReserved_eq_ok, run_memberLoop_eq_ok,
          not_or, ne_eq, Decidable.not_not] at later
        obtain ⟨inst, _, ⟨nonzero, rfl⟩, expected, _, rfl, generation, _, rfl,
          ⟨sameGeneration, next⟩, reason, _, rfl, _, _, rfl, memberCount, _, rfl, _, _,
          ⟨members, memberSize, membersOk, rfl, rfl⟩, later⟩ := later
        simp only [run_assignmentLoop_eq_ok] at later
        obtain ⟨count, _, rfl, _, _, ⟨entries, size, entriesOk, rfl, rfl⟩, later⟩ := later
        simp only [run_finishEvent_eq_ok, run_pure_eq_ok] at later
        obtain ⟨covers, _, _, ⟨rfl, rfl⟩, rfl, rfl⟩ := later
        have fullMembers : UInt32.ofNat members.length = memberCount := by
          rw [memberSize, UInt32.ofNat_toNat]
        have full : UInt32.ofNat entries.length = count := by rw [size, UInt32.ofNat_toNat]
        have whole : payload = AssignmentEvent.bytes ⟨storeID, catalogNext, groupID, inst, expected,
            generation, reason, members, entries⟩ := by
          simp [front, AssignmentEvent.bytes, full, fullMembers]
        refine ⟨rfl, ⟨storeID, catalogNext, groupID, inst, expected, generation, reason, members,
          entries⟩, whole, rfl, rfl, ⟨group, ⟨addressed.1, addressed.2.1, addressed.2.2,
          validGroup⟩, found, ⟨nonzero, memberSize ▸ memberCount.toNat_lt, membersOk,
          size ▸ count.toNat_lt, covers⟩, sameGeneration, next, entriesOk⟩, ?_⟩
        rw [after, ← insert_eq_modify (f := (OffsetGroup.assigned · offset _)) found]
        simp [OffsetGroup.assigned, whole]
  · rintro ⟨rfl, event, whole, rfl, rfl, ⟨group, accepted⟩, rfl⟩
    have tail : bs = putString event.group ++ (putID event.assignmentInstance ++
        (putUint64 event.expected ++ (putUint64 event.newGeneration ++ ([event.reason] ++
        ([0, 0, 0] ++ (putUint32 (.ofNat event.members.length) ++
        (event.members.flatMap AssignmentMember.bytes ++
        (putUint32 (.ofNat event.assignments.length) ++
          event.assignments.flatMap AssignmentEntry.bytes)))))))) := by
      rw [front, AssignmentEvent.bytes] at whole
      simpa using whole
    refine ⟨event.group, _, ⟨accepted.addressed.group, tail⟩, ?_⟩
    simp only [accepted.found, run_bind_eq_ok, run_requireID_eq_ok, run_u64_eq_ok, run_u32_eq_ok,
      ↓run_ensure_bind_eq_ok, run_u8_eq_ok, run_expectReserved_eq_ok, run_memberLoop_eq_ok,
      not_or, ne_eq, Decidable.not_not]
    refine ⟨_, _, ⟨accepted.wellFormed.assignmentInstance, rfl⟩, event.expected, _, rfl,
      event.newGeneration, _, rfl, ⟨accepted.expected, accepted.newGeneration⟩,
      event.reason, _, rfl, (), _, rfl, .ofNat event.members.length, _, rfl, _, _,
      ⟨event.members, (toNat_ofNat32 accepted.wellFormed.fewMembers).symm,
        accepted.wellFormed.members, rfl, rfl⟩, ?_⟩
    simp only [run_assignmentLoop_eq_ok]
    refine ⟨.ofNat event.assignments.length, _, rfl, _, [],
      ⟨event.assignments, (toNat_ofNat32 accepted.wellFormed.fewAssignments).symm,
        accepted.assignments, rfl, by simp⟩, ?_⟩
    simp only [run_finishEvent_eq_ok, run_pure_eq_ok]
    refine ⟨accepted.wellFormed.covers, (), [], by simp, ?_, rfl⟩
    rw [after, ← insert_eq_modify (f := (OffsetGroup.assigned · offset event)) accepted.found]
    simp [OffsetGroup.assigned, whole]

/-- The handler of commits accepts the bytes of accepted events. -/
theorem run_applyCommit_eq_ok {payload : Bytes}
    (front : payload = putID storeID ++ (putUint64 catalogNext ++ bs))
    (addressed : storeID = p.storeID ∧ catalogNext ≠ 0 ∧ catalogNext ≤ catalog.revision) :
    applyCommit p offset catalog catalogNext bs = .ok (p', rest) ↔
      rest = [] ∧ ∃ event : CommitEvent, payload = event.bytes ∧ event.storeID = storeID ∧
        event.catalogNext = catalogNext ∧
        (∃ group progress, event.Accepted catalog p group progress) ∧
        p' = p.after offset (.offsetCommitted event) := by
  simp only [applyCommit, run_bind_eq_ok, run_stringValue_eq_ok groupIDBytes_lt]
  constructor
  · rintro ⟨groupID, _, ⟨validGroup, rfl⟩, later⟩
    cases found : p.groups[groupID]? with
    | none => simp [found, Cursor.fail] at later
    | some group =>
        simp only [found, run_bind_eq_ok, run_requireID_eq_ok, run_u64_eq_ok,
          run_decodeTopicKey_eq_ok, ↓run_ensure_bind_eq_ok, run_u8_eq_ok, run_expectReserved_eq_ok,
          run_finishEvent_eq_ok, run_lift_eq_ok, ne_eq, Decidable.not_not, UInt8.not_lt] at later
        obtain ⟨inst, _, ⟨instNonzero, rfl⟩, session, _, ⟨sessionNonzero, rfl⟩, generation, _, rfl,
          key, _, ⟨validKey, rfl⟩, kind, _, rfl, smallKind, _, _, rfl, expected, _, rfl,
          next, _, rfl, _, _, ⟨rfl, rfl⟩, partition, _, ⟨known, rfl⟩, sameGeneration, later⟩ :=
          later
        cases stored : group.progress[key]? with
        | none => simp [stored, Cursor.fail] at later
        | some progress =>
            simp only [stored, ↓run_ensure_bind_eq_ok, not_or, Decidable.not_not] at later
            obtain ⟨⟨owner, sameInstance⟩, later⟩ := later
            have whole : payload = CommitEvent.bytes ⟨storeID, catalogNext, groupID, inst, session,
                generation, key, kind, expected, next⟩ := by
              simp [front, CommitEvent.bytes]
            have previous : rest = [] ∧ ((kind = 0 ∧ progress.hasCommit = false ∧
                expected = progress.initialNext) ∨ (kind = 1 ∧ progress.hasCommit = true ∧
                expected = progress.committedNext)) ∧ expected ≤ next ∧
                p' = { p with
                  revision := offset + 1
                  groups := p.groups.insert groupID
                    { group with
                      progress := group.progress.insert key
                        { progress with hasCommit := true, committedNext := next } } } := by
              split at later
              · rename_i zero
                simp only [↓run_ensure_bind_eq_ok, run_pure_eq_ok, not_or, Decidable.not_not,
                  UInt64.not_lt] at later
                obtain ⟨⟨noCommit, same⟩, advances, rfl, rfl⟩ := later
                exact ⟨rfl, .inl ⟨zero, by simpa using noCommit, same⟩, advances, rfl⟩
              · rename_i other
                simp only [↓run_ensure_bind_eq_ok, run_pure_eq_ok, not_or, Decidable.not_not,
                  UInt64.not_lt] at later
                obtain ⟨⟨commit, same⟩, advances, rfl, rfl⟩ := later
                have one : kind = 1 := by
                  rw [UInt8.le_iff_toNat_le] at smallKind
                  rw [← UInt8.toNat_inj] at other ⊢
                  simp at smallKind other ⊢
                  omega
                exact ⟨rfl, .inr ⟨one, by simpa using commit, same⟩, advances, rfl⟩
            obtain ⟨rfl, previous, advances, rfl⟩ := previous
            refine ⟨rfl, ⟨storeID, catalogNext, groupID, inst, session, generation, key, kind,
              expected, next⟩, whole, rfl, rfl, ⟨group, progress,
                ⟨addressed.1, addressed.2.1, addressed.2.2, validGroup⟩, found, instNonzero,
                sessionNonzero, ⟨validKey, partition, known⟩, sameGeneration, stored, owner,
                sameInstance, previous, advances⟩, ?_⟩
            rw [after, ← insert_eq_modify (f := (OffsetGroup.committed · _)) found,
              OffsetGroup.committed, ← insert_eq_modify stored]
  · rintro ⟨rfl, event, whole, rfl, rfl, ⟨group, progress, accepted⟩, rfl⟩
    have tail : bs = putString event.group ++ (putID event.commitInstance ++ (putID event.session ++
        (putUint64 event.generation ++ (event.key.bytes ++ ([event.previousKind] ++ ([0, 0, 0] ++
        (putUint64 event.expectedPrevious ++ putUint64 event.next))))))) := by
      rw [front, CommitEvent.bytes] at whole
      simpa using whole
    obtain ⟨validKey, partition, known⟩ := accepted.key
    refine ⟨event.group, _, ⟨accepted.addressed.group, tail⟩, ?_⟩
    simp only [accepted.found, run_bind_eq_ok, run_requireID_eq_ok, run_u64_eq_ok,
      run_decodeTopicKey_eq_ok, ↓run_ensure_bind_eq_ok, run_u8_eq_ok, run_expectReserved_eq_ok,
      run_finishEvent_eq_ok, run_lift_eq_ok, ne_eq, Decidable.not_not, UInt8.not_lt]
    have smallKind : event.previousKind ≤ 1 := by
      rcases accepted.previous with ⟨zero, -⟩ | ⟨one, -⟩
      · rw [zero]
        decide
      · rw [one]
        decide
    refine ⟨_, _, ⟨accepted.commitInstance, rfl⟩, _, _, ⟨accepted.session, rfl⟩,
      event.generation, _, rfl, event.key, _, ⟨validKey, rfl⟩, event.previousKind, _, rfl,
      smallKind, (), _, rfl, event.expectedPrevious, _, rfl, event.next, [], by simp, (), [],
      ⟨rfl, rfl⟩, partition, [], ⟨known, rfl⟩, accepted.generation, ?_⟩
    simp only [accepted.baseline, ↓run_ensure_bind_eq_ok, not_or, Decidable.not_not]
    refine ⟨⟨accepted.owner, accepted.sameInstance⟩, ?_⟩
    have result : p.after offset (.offsetCommitted event) =
        { p with
          revision := offset + 1
          groups := p.groups.insert event.group
            { group with
              progress := group.progress.insert event.key
                { progress with hasCommit := true, committedNext := event.next } } } := by
      rw [after, ← insert_eq_modify (f := (OffsetGroup.committed · event)) accepted.found,
        OffsetGroup.committed, ← insert_eq_modify accepted.baseline]
    rw [result]
    rcases accepted.previous with ⟨zero, noCommit, same⟩ | ⟨one, commit, same⟩
    · rw [if_pos zero]
      simp [↓run_ensure_bind_eq_ok, run_pure_eq_ok, noCommit, ← same, accepted.advances]
    · have nonzero : ¬ event.previousKind = 0 := by
        rw [one]
        decide
      rw [if_neg nonzero]
      simp [↓run_ensure_bind_eq_ok, run_pure_eq_ok, commit, ← same, accepted.advances]

/-- The projection accepts a record exactly when it carries an accepted event. -/
theorem apply_eq_ok {record : Record} :
    apply catalog p record = .ok p' ↔
      ∃ event : OffsetsEvent,
        record.Carries consumerOffsetsTopicID event.eventType event.bytes ∧
        event.Accepted catalog p ∧ p' = p.after record.offset event := by
  constructor
  · intro applied
    obtain ⟨⟨eventType, payload⟩, decoded, applied⟩ := bind_eq_ok.1 applied
    have carries := Record.Carries.of_decode decoded
    simp only [readFrom_eq_ok, run_bind_eq_ok, run_id_eq_ok, run_u64_eq_ok, ↓run_ensure_bind_eq_ok,
      ne_eq, Decidable.not_not, not_or, UInt64.not_lt] at applied
    obtain ⟨rest, storeID, _, rfl, store, catalogNext, bs, rfl, known, applied⟩ := applied
    split at applied
    · rename_i kind
      subst kind
      obtain ⟨-, event, whole, -, -, accepted, rfl⟩ :=
        (run_applyGroupCreated_eq_ok rfl ⟨store, known⟩).1 applied
      rw [whole] at carries
      exact ⟨.groupCreated event, carries, accepted, rfl⟩
    split at applied
    · rename_i kind
      subst kind
      obtain ⟨-, event, whole, -, -, accepted, rfl⟩ :=
        (run_applyAssignment_eq_ok rfl ⟨store, known⟩).1 applied
      rw [whole] at carries
      exact ⟨.assignmentChanged event, carries, accepted, rfl⟩
    split at applied
    · rename_i kind
      subst kind
      obtain ⟨-, event, whole, -, -, accepted, rfl⟩ :=
        (run_applyCommit_eq_ok rfl ⟨store, known⟩).1 applied
      rw [whole] at carries
      exact ⟨.offsetCommitted event, carries, accepted, rfl⟩
    · simp [Cursor.fail] at applied
  · rintro ⟨event, carries, accepted, rfl⟩
    rw [apply, carries.decode, ok_bind]
    simp only [readFrom_eq_ok, run_bind_eq_ok, run_id_eq_ok, run_u64_eq_ok, ↓run_ensure_bind_eq_ok,
      ne_eq, Decidable.not_not, not_or, UInt64.not_lt]
    cases event with
    | groupCreated event =>
        have addressed := accepted.addressed
        have front : event.bytes = putID event.storeID ++ (putUint64 event.catalogNext ++ _) := rfl
        refine ⟨[], event.storeID, _, front, addressed.store, event.catalogNext, _, rfl,
          ⟨addressed.positive, addressed.known⟩, ?_⟩
        exact (run_applyGroupCreated_eq_ok front
          ⟨addressed.store, addressed.positive, addressed.known⟩).2
          ⟨rfl, event, rfl, rfl, rfl, accepted, rfl⟩
    | assignmentChanged event =>
        obtain ⟨group, accepted⟩ := accepted
        have addressed := accepted.addressed
        have front : event.bytes = putID event.storeID ++ (putUint64 event.catalogNext ++ _) := rfl
        refine ⟨[], event.storeID, _, front, addressed.store, event.catalogNext, _, rfl,
          ⟨addressed.positive, addressed.known⟩, ?_⟩
        exact (run_applyAssignment_eq_ok front
          ⟨addressed.store, addressed.positive, addressed.known⟩).2
          ⟨rfl, event, rfl, rfl, rfl, ⟨group, accepted⟩, rfl⟩
    | offsetCommitted event =>
        obtain ⟨group, progress, accepted⟩ := accepted
        have addressed := accepted.addressed
        have front : event.bytes = putID event.storeID ++ (putUint64 event.catalogNext ++ _) := rfl
        refine ⟨[], event.storeID, _, front, addressed.store, event.catalogNext, _, rfl,
          ⟨addressed.positive, addressed.known⟩, ?_⟩
        exact (run_applyCommit_eq_ok front
          ⟨addressed.store, addressed.positive, addressed.known⟩).2
          ⟨rfl, event, rfl, rfl, rfl, ⟨group, progress, accepted⟩, rfl⟩

end OffsetsProjection

end Immulog
