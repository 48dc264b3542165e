import Immulog.GroupRequests

/-!
The events that consumers and groups write.

The bodies of `Consumers` are the bytes of the events that the offsets projection reads,
so that what a call appends can be told as an event.  An assignment whose members and
entries are in order is accepted by the projection, and the calls put them in order.
-/

namespace Immulog

open Lib Proc Std

/-! ## Bodies as events -/

/-- The entry of an assignment; a baseline starts where it resumes. -/
def GroupAssignment.entry (a : GroupAssignment) : AssignmentEntry :=
  ⟨a.key, a.owner, a.resume, if a.createBaseline then 1 else 0,
    if a.createBaseline then a.resume else 0⟩

/-- The event of `encodeGroupAssignmentBody`. -/
def assignmentEvent (storeID : StoreID) (catalogNext : UInt64) (groupID : Bytes)
    (generation : UInt64) (reason : UInt8) (members : List (Session × List TopicKey))
    (assignments : List GroupAssignment) : AssignmentEvent where
  storeID := storeID
  catalogNext := catalogNext
  group := groupID
  assignmentInstance := storeID
  expected := generation
  newGeneration := generation + 1
  reason := reason
  members := members.map fun member => ⟨member.1, member.2⟩
  assignments := assignments.map GroupAssignment.entry

section Bodies

variable {storeID : StoreID} {catalogNext : UInt64} {groupID body : Bytes}

theorem encodeEventFront_eq_ok : encodeEventFront storeID catalogNext groupID = .ok body ↔
    ValidString maxGroupIDBytes groupID ∧
      body = putID storeID ++ (putUint64 catalogNext ++ putString groupID) := by
  rw [encodeEventFront, appendString_eq_ok, List.append_assoc]

theorem encodeGroupCreatedBody_eq_ok {start : UInt8} {starts : List (TopicKey × UInt64)} :
    encodeGroupCreatedBody storeID catalogNext groupID start starts = .ok body ↔
      ValidString maxGroupIDBytes groupID ∧
        body = (GroupCreatedEvent.mk storeID catalogNext groupID start starts).bytes := by
  have each : (fun entry : TopicKey × UInt64 =>
      putID entry.1.topic ++ putUint32 entry.1.partition ++
      putUint64 entry.2) = startBytes := by
    funext entry
    simp [startBytes, TopicKey.bytes]
  simp only [encodeGroupCreatedBody, bind_eq_ok, encodeEventFront_eq_ok, pure_eq_ok,
    Except.ok.injEq, each]
  constructor
  · rintro ⟨front, ⟨valid, rfl⟩, rfl⟩
    exact ⟨valid, by simp [GroupCreatedEvent.bytes]⟩
  · rintro ⟨valid, rfl⟩
    exact ⟨_, ⟨valid, rfl⟩, by simp [GroupCreatedEvent.bytes]⟩

theorem GroupAssignment.entry_bytes (a : GroupAssignment) :
    putID a.key.topic ++ putUint32 a.key.partition ++ putID a.owner ++ putUint64 a.resume ++
      (if a.createBaseline then [1, 0, 0, 0] ++ putUint64 a.resume
        else [0, 0, 0, 0] ++ putUint64 0) = a.entry.bytes := by
  cases baseline : a.createBaseline <;>
  simp [GroupAssignment.entry, AssignmentEntry.bytes, TopicKey.bytes, baseline]

theorem encodeGroupAssignmentBody_eq_ok {generation : UInt64} {reason : UInt8}
    {members : List (Session × List TopicKey)} {assignments : List GroupAssignment} :
    encodeGroupAssignmentBody storeID catalogNext groupID generation reason members assignments =
        .ok body ↔
      ValidString maxGroupIDBytes groupID ∧
        body = (assignmentEvent storeID catalogNext groupID generation reason members
          assignments).bytes := by
  have each : (fun member : Session × List TopicKey => putID member.1 ++
      putUint32 (.ofNat member.2.length) ++ member.2.flatMap fun key => putID key.topic ++
        putUint32 key.partition) = AssignmentMember.bytes ∘ fun member => ⟨member.1, member.2⟩ := by
    funext member
    have keys : (fun key : TopicKey => putID key.topic ++ putUint32 key.partition) =
        TopicKey.bytes := by
      funext key
      simp [TopicKey.bytes]
    simp [AssignmentMember.bytes, keys]
  have entries : (fun a : GroupAssignment => putID a.key.topic ++ putUint32 a.key.partition ++
      putID a.owner ++ putUint64 a.resume ++ (if a.createBaseline then [1, 0, 0, 0] ++
        putUint64 a.resume else [0, 0, 0, 0] ++ putUint64 0)) =
        AssignmentEntry.bytes ∘ GroupAssignment.entry :=
    funext fun a => a.entry_bytes
  simp only [encodeGroupAssignmentBody, bind_eq_ok, encodeEventFront_eq_ok, pure_eq_ok,
    Except.ok.injEq, each, entries]
  constructor
  · rintro ⟨front, ⟨valid, rfl⟩, rfl⟩
    exact ⟨valid, by simp [AssignmentEvent.bytes, assignmentEvent, List.flatMap_map,
      Function.comp_def]⟩
  · rintro ⟨valid, rfl⟩
    exact ⟨_, ⟨valid, rfl⟩, by
      simp [AssignmentEvent.bytes, assignmentEvent, List.flatMap_map, Function.comp_def]⟩

end Bodies

/-- An event that the projection accepts is applied as it was enveloped. -/
theorem OffsetsEvent.Accepted.applied {catalog : CatalogProjection} {p : OffsetsProjection}
    {event : OffsetsEvent} {value : Bytes} (accepted : event.Accepted catalog p)
    (enveloped : encodeSystemEvent event.eventType event.bytes = .ok value) (offset : UInt64) :
    p.apply catalog (systemRecord consumerOffsetsTopicID offset value) =
      .ok (p.after offset event) := by
  obtain ⟨nonzero, short, rfl⟩ := encodeSystemEvent_eq_ok.1 enveloped
  refine OffsetsProjection.apply_eq_ok.2 ⟨event, ?_, accepted, rfl⟩
  refine carries_systemRecord nonzero short ?_
  cases event <;> rfl

/-! ## Assignments in order -/

section Order

variable {catalog : CatalogProjection} {catalogNext : UInt64} {members : List AssignmentMember}
  {entries : List AssignmentEntry}

/-- The members of an assignment, as the calls prepare them. -/
structure MembersOrdered (catalog : CatalogProjection) (catalogNext : UInt64)
    (members : List AssignmentMember) : Prop where
  nonzero : ∀ member ∈ members, member.session ≠ 0
  sessions : (members.map AssignmentMember.session).Pairwise fun a b => compare a b = .lt
  keys : ∀ member ∈ members, member.subscriptions.Pairwise fun a b => compare a b = .lt
  distinct : (subscribedKeys members).Nodup
  few : (subscribedKeys members).length < 2 ^ 32
  known : ∀ key ∈ subscribedKeys members, KnownKey catalog catalogNext key

theorem MembersOrdered.allowed (ordered : MembersOrdered catalog catalogNext members) :
    Cursor.Allowed (AssignmentMember.Follows catalog catalogNext) members := by
  rintro done member left rfl
  have here : member ∈ done ++ member :: left := by simp
  have inside : ∀ key ∈ member.subscriptions,
      key ∈ subscribedKeys (done ++ member :: left) := fun key mem =>
    List.mem_flatMap.2 ⟨member, here, mem⟩
  have distinct := ordered.distinct
  simp only [subscribedKeys, List.flatMap_append, List.flatMap_cons] at distinct
  rw [List.nodup_append] at distinct
  obtain ⟨-, distinct, apart⟩ := distinct
  rw [List.nodup_append] at distinct
  refine ⟨ordered.nonzero member here, inOrder_of_pairwise ordered.sessions done member left rfl,
    ?_, ?_⟩
  · have few := ordered.few
    simp only [subscribedKeys, List.flatMap_append, List.flatMap_cons, List.length_append] at few
    omega
  · rintro before key after split
    have ascending : (member.subscriptions.map fun key => key).Pairwise fun a b =>
        compare a b = .lt := by
      simpa using ordered.keys member here
    have first := inOrder_of_pairwise ascending before key after split
    simp only [List.map_id'] at first
    have listed : key ∈ member.subscriptions := by simp [split]
    refine ⟨ordered.known key (inside key listed), first, ?_⟩
    rw [mem_insertKeys, mem_subscribedBy]
    rintro (earlier | ⟨other, mem, there⟩)
    · have once := distinct.1
      rw [split, List.nodup_append] at once
      exact once.2.2 key earlier key (by simp) rfl
    · exact apart key (List.mem_flatMap.2 ⟨other, mem, there⟩) key
        (List.mem_append_left _ listed) rfl

/-- With distinct keys, every key finds its member. -/
theorem subscriber_of_listed (distinct : (subscribedKeys members).Nodup)
    {member : AssignmentMember} (mem : member ∈ members) {key : TopicKey}
    (listed : key ∈ member.subscriptions) : (subscribedBy members)[key]? = some member.session := by
  induction members using List.reverseRecOn with
  | nil => simp at mem
  | append_singleton members last ih =>
      simp only [subscribedKeys, List.flatMap_append, List.flatMap_singleton] at distinct
      rw [List.nodup_append] at distinct
      rw [subscribedBy_concat, insertKeys]
      rcases List.mem_append.1 mem with mem | mem
      · have elsewhere : key ∉ last.subscriptions.map fun key => key := by
          intro again
          rw [List.map_id'] at again
          exact distinct.2.2 key (List.mem_flatMap.2 ⟨member, mem, listed⟩) key again rfl
        rw [getElem?_foldl_insert_of_not_mem (f := fun key : TopicKey => key) elsewhere]
        exact ih distinct.1 mem
      · obtain rfl := List.mem_singleton.1 mem
        exact getElem?_foldl_insert (f := fun key : TopicKey => key)
          (g := fun _ => member.session) (by simpa using distinct.2.1) listed

/-- The entries of an assignment, as the calls prepare them. -/
structure EntriesOrdered (members : List AssignmentMember)
    (progress : ExtTreeMap TopicKey OffsetProgress) (entries : List AssignmentEntry) : Prop where
  keys : (entries.map AssignmentEntry.key).Pairwise fun a b => compare a b = .lt
  covers : entries.length = (subscribedKeys members).length
  owners : ∀ entry ∈ entries, ∃ member ∈ members, entry.key ∈ member.subscriptions ∧
    entry.owner = member.session
  baselines : ∀ entry ∈ entries, entry.Baseline progress

theorem EntriesOrdered.allowed {progress : ExtTreeMap TopicKey OffsetProgress}
    (ordered : EntriesOrdered members progress entries)
    (members_ordered : MembersOrdered catalog catalogNext members) :
    Cursor.Allowed (AssignmentEntry.Follows (subscribedBy members) progress) entries := by
  rintro done entry left rfl
  have here : entry ∈ done ++ entry :: left := by simp
  obtain ⟨member, mem, listed, owner⟩ := ordered.owners entry here
  have known := members_ordered.known entry.key (List.mem_flatMap.2 ⟨member, mem, listed⟩)
  have distinct := nodup_of_ascending ordered.keys
  rw [List.map_append, List.map_cons, List.nodup_append] at distinct
  have fresh : entry.key ∉ done.map AssignmentEntry.key := fun earlier =>
    distinct.2.2 entry.key earlier entry.key (by simp) rfl
  refine ⟨known.1, inOrder_of_pairwise ordered.keys done entry left rfl, ?_, ?_, ?_⟩
  · rw [owner]
    exact members_ordered.nonzero member mem
  · rw [owner]
    exact subscriber_of_listed members_ordered.distinct mem listed
  · have baseline := ordered.baselines entry here
    rwa [AssignmentEntry.Baseline, ← getElem?_progressAfter_of_not_mem fresh] at baseline

/-- An assignment in order is accepted. -/
theorem AssignmentEvent.accepted_of_ordered {p : OffsetsProjection} {group : OffsetGroup}
    {event : AssignmentEvent}
    (addressed : Addressed catalog p event.storeID event.catalogNext event.group)
    (found : p.groups[event.group]? = some group) (named : event.assignmentInstance ≠ 0)
    (few : event.members.length < 2 ^ 32)
    (members_ordered : MembersOrdered catalog event.catalogNext event.members)
    (ordered : EntriesOrdered event.members group.progress event.assignments)
    (expected : event.expected = group.generation)
    (newGeneration : event.newGeneration = event.expected + 1) :
    event.Accepted catalog p group where
  addressed := addressed
  found := found
  wellFormed :=
    { assignmentInstance := named
      fewMembers := few
      members := members_ordered.allowed
      fewAssignments := ordered.covers ▸ members_ordered.few
      covers := by
        rw [size_subscribedBy members_ordered.allowed, ownersOf,
          size_foldl_insert (nodup_of_ascending ordered.keys), ordered.covers] }
  expected := expected
  newGeneration := newGeneration
  assignments := ordered.allowed members_ordered

end Order

/-! ## New groups -/

/-- The creation of a group is accepted; only explicit starts need any, and they need one. -/
theorem groupCreated_accepted {catalog : CatalogProjection} {p : OffsetsProjection}
    {storeID : StoreID} {catalogNext : UInt64} {groupID : Bytes} {start : UInt8}
    {starts : ExtTreeMap TopicKey UInt64}
    (addressed : Addressed catalog p storeID catalogNext groupID) (fresh : groupID ∉ p.groups)
    (mode : 1 ≤ start ∧ start ≤ 3) (policy : starts.size = 0 ↔ start ≠ 3)
    (few : starts.size < 2 ^ 32) (known : ∀ key ∈ starts, KnownKey catalog catalogNext key) :
    (GroupCreatedEvent.mk storeID catalogNext groupID start starts.toList).Accepted catalog p where
  addressed := addressed
  fresh := fresh
  mode := mode
  policy := by rw [← policy, ← List.length_eq_zero_iff, ExtTreeMap.length_toList]
  short := by rwa [ExtTreeMap.length_toList]
  starts := by
    intro done entry left split
    change starts.toList = done ++ entry :: left at split
    refine ⟨known entry.1 ?_,
      inOrder_of_pairwise (ascending_keys_toList starts) done entry left split⟩
    have mem : entry ∈ starts.toList := by
      rw [split]
      simp
    rw [← ExtTreeMap.isSome_getElem?_iff_mem, ExtTreeMap.mem_toList_iff_getElem?_eq_some.1 mem]
    rfl

/-- The body of a new group is applied as its event. -/
theorem createdBody_applied {catalog : CatalogProjection} {p : OffsetsProjection}
    {storeID : StoreID} {catalogNext : UInt64} {groupID body value : Bytes} {start : UInt8}
    {starts : List (TopicKey × UInt64)}
    (accepted : (GroupCreatedEvent.mk storeID catalogNext groupID start starts).Accepted catalog p)
    (encoded : encodeGroupCreatedBody storeID catalogNext groupID start starts = .ok body)
    (enveloped : encodeSystemEvent eventGroupCreated body = .ok value) (offset : UInt64) :
    p.apply catalog (systemRecord consumerOffsetsTopicID offset value) =
      .ok (p.after offset (.groupCreated ⟨storeID, catalogNext, groupID, start, starts⟩)) := by
  obtain ⟨-, rfl⟩ := encodeGroupCreatedBody_eq_ok.1 encoded
  have applies : (OffsetsEvent.groupCreated ⟨storeID, catalogNext, groupID, start, starts⟩).Accepted
      catalog p := accepted
  exact applies.applied enveloped offset

/-! ## The assignments of a call -/

section Prepared

variable {members : List (List TopicKey)} {sessions : Nat → Session}
  {prepared : List (Session × List TopicKey)} {assignments : List GroupAssignment}
  {catalog : CatalogProjection} {catalogNext : UInt64} {group : OffsetGroup}

/-- The members with their sessions, as an event lists them. -/
def eventMembers (prepared : List (Session × List TopicKey)) : List AssignmentMember :=
  prepared.map fun member => ⟨member.1, member.2⟩

theorem subscribedKeys_eventMembers :
    subscribedKeys (eventMembers prepared) = (prepared.map Prod.snd).flatten := by
  rw [subscribedKeys, eventMembers, List.flatMap_map, List.flatMap_def]

theorem newConsumerSession_ne_zero (drawn : Session) : newConsumerSession drawn ≠ 0 := by
  unfold newConsumerSession
  split
  · decide
  · assumption

/-- The sessions are distinct and ascend, and every member keeps its keys. -/
theorem prepareGroupMembers_ok (prepares : prepareGroupMembers members sessions = .ok prepared) :
    (prepared.map Prod.fst).Pairwise (fun a b => compare a b = .lt) ∧
      (∀ member ∈ prepared, member.1 ≠ 0) ∧ (prepared.map Prod.snd).Perm members := by
  simp only [prepareGroupMembers, bind_eq_ok, failIf_eq_ok, exists_const, not_not, pure_eq_ok,
    Except.ok.injEq] at prepares
  obtain ⟨distinct, rfl⟩ := prepares
  have perm := perm_sortBy (fun left right => compare left.1 right.1)
    (members.mapIdx fun index subscriptions =>
      (newConsumerSession (sessions index), subscriptions))
  refine ⟨ascending_sortBy_on ((perm.map Prod.fst).nodup_iff.1 distinct), ?_, ?_⟩
  · intro member mem
    obtain ⟨index, inside, rfl⟩ := List.mem_mapIdx.1 (perm.mem_iff.1 mem)
    exact newConsumerSession_ne_zero _
  · refine (perm.map Prod.snd).trans ?_
    simp [List.mapIdx_eq_zipIdx_map, Function.comp_def]

/-- The members of a call are in order. -/
theorem membersOrdered_of_prepared
    (prepares : prepareGroupMembers members sessions = .ok prepared)
    (ascending : ∀ keys ∈ members, keys.Pairwise fun a b => compare a b = .lt)
    (distinct : members.flatten.Nodup) (few : members.flatten.length < 2 ^ 32)
    (known : ∀ key ∈ members.flatten, KnownKey catalog catalogNext key) :
    MembersOrdered catalog catalogNext (eventMembers prepared) := by
  obtain ⟨sessions, nonzero, perm⟩ := prepareGroupMembers_ok prepares
  have keys := perm.flatten
  refine ⟨?_, ?_, ?_, ?_, ?_, ?_⟩
  · intro member mem
    obtain ⟨origin, inside, rfl⟩ := List.mem_map.1 mem
    exact nonzero origin inside
  · rw [eventMembers, List.map_map]
    exact sessions
  · intro member mem
    obtain ⟨origin, inside, rfl⟩ := List.mem_map.1 mem
    exact ascending origin.2 (perm.mem_iff.1 (List.mem_map_of_mem inside))
  · rw [subscribedKeys_eventMembers]
    exact keys.nodup_iff.2 distinct
  · rw [subscribedKeys_eventMembers, keys.length_eq]
    exact few
  · intro key mem
    rw [subscribedKeys_eventMembers] at mem
    exact known key (keys.mem_iff.1 mem)

/-- An assignment resumes where the group's progress is, and otherwise makes a baseline. -/
structure GroupAssignment.Resumes (group : OffsetGroup) (a : GroupAssignment) : Prop where
  create : a.createBaseline = decide (a.key ∉ group.progress)
  resume : ∀ progress, group.progress[a.key]? = some progress → a.resume = latestNext progress

theorem GroupAssignment.Resumes.baseline {a : GroupAssignment} (resumes : a.Resumes group) :
    a.entry.Baseline group.progress := by
  cases found : group.progress[a.key]? with
  | none =>
      have absent : a.key ∉ group.progress := by
        rw [← ExtTreeMap.isSome_getElem?_iff_mem, found]
        simp
      have create := resumes.create
      rw [decide_eq_true absent] at create
      refine .inl ⟨?_, found, ?_⟩
      · simp [GroupAssignment.entry, create]
      · simp [GroupAssignment.entry, create]
  | some progress =>
      have present : a.key ∈ group.progress := by
        rw [← ExtTreeMap.isSome_getElem?_iff_mem, found]
        rfl
      have create := resumes.create
      rw [decide_eq_false (not_not.2 present)] at create
      refine .inr ⟨?_, ?_, ?_⟩
      · simp [GroupAssignment.entry, create]
      · simp [GroupAssignment.entry, create]
      · simp [GroupAssignment.entry, found, resumes.resume progress found]

/-- Assignments of distinct keys are sorted into ascending ones. -/
theorem ascending_sortAssignments (distinct : (assignments.map GroupAssignment.key).Nodup) :
    ((sortAssignments assignments).map GroupAssignment.key).Pairwise
      fun a b => compare a b = .lt := by
  exact ascending_sortBy_on distinct

/-- The entries of a call are in order. -/
theorem entriesOrdered_of_assigned
    (distinct : (prepared.map Prod.snd).flatten.Nodup)
    (assigned : assignments.map (fun a => (a.owner, a.key)) =
      prepared.flatMap fun member => member.2.map fun key => (member.1, key))
    (resumes : ∀ a ∈ assignments, a.Resumes group) :
    EntriesOrdered (eventMembers prepared) group.progress
      ((sortAssignments assignments).map GroupAssignment.entry) := by
  have perm : (sortAssignments assignments).Perm assignments := perm_sortBy _ _
  have keys : assignments.map GroupAssignment.key = (prepared.map Prod.snd).flatten := by
    have projected := congrArg (List.map Prod.snd) assigned
    rw [List.map_map, List.map_flatMap] at projected
    rw [← List.flatMap_def]
    simpa [Function.comp_def] using projected
  refine ⟨?_, ?_, ?_, ?_⟩
  · rw [List.map_map]
    exact ascending_sortAssignments (keys ▸ distinct)
  · rw [List.length_map, perm.length_eq, subscribedKeys_eventMembers, ← keys, List.length_map]
  · intro entry mem
    obtain ⟨a, inside, rfl⟩ := List.mem_map.1 mem
    have pair := List.mem_map_of_mem (f := fun a : GroupAssignment => (a.owner, a.key))
      (perm.mem_iff.1 inside)
    rw [assigned] at pair
    obtain ⟨member, there, listed⟩ := List.mem_flatMap.1 pair
    obtain ⟨key, subscribed, same⟩ := List.mem_map.1 listed
    obtain ⟨owner, rfl⟩ := Prod.mk.inj same
    exact ⟨⟨member.1, member.2⟩, List.mem_map_of_mem there, subscribed, owner.symm⟩
  · intro entry mem
    obtain ⟨a, inside, rfl⟩ := List.mem_map.1 mem
    exact (resumes a (perm.mem_iff.1 inside)).baseline

/-- The assignment of a call is accepted. -/
theorem assignmentEvent_accepted {p : OffsetsProjection} {storeID : StoreID} {groupID : Bytes}
    {reason : UInt8} (addressed : Addressed catalog p storeID catalogNext groupID)
    (found : p.groups[groupID]? = some group) (named : storeID ≠ 0)
    (prepares : prepareGroupMembers members sessions = .ok prepared)
    (many : members.length < 2 ^ 32)
    (ascending : ∀ keys ∈ members, keys.Pairwise fun a b => compare a b = .lt)
    (distinct : members.flatten.Nodup) (few : members.flatten.length < 2 ^ 32)
    (known : ∀ key ∈ members.flatten, KnownKey catalog catalogNext key)
    (assigned : assignments.map (fun a => (a.owner, a.key)) =
      prepared.flatMap fun member => member.2.map fun key => (member.1, key))
    (resumes : ∀ a ∈ assignments, a.Resumes group) :
    (assignmentEvent storeID catalogNext groupID group.generation reason prepared
      (sortAssignments assignments)).Accepted catalog p group := by
  have perm := (prepareGroupMembers_ok prepares).2.2
  refine AssignmentEvent.accepted_of_ordered addressed found named ?_
    (membersOrdered_of_prepared prepares ascending distinct few known)
    (entriesOrdered_of_assigned (perm.flatten.nodup_iff.2 distinct) assigned resumes) rfl rfl
  have length := perm.length_eq
  rw [List.length_map] at length
  rw [assignmentEvent, List.length_map, length]
  exact many

/-- The body of an assignment is applied as its event. -/
theorem assignmentBody_applied {p : OffsetsProjection} {storeID : StoreID}
    {groupID body value : Bytes} {reason : UInt8}
    (accepted : (assignmentEvent storeID catalogNext groupID group.generation reason prepared
      (sortAssignments assignments)).Accepted catalog p group)
    (encoded : encodeGroupAssignmentBody storeID catalogNext groupID group.generation reason
      prepared (sortAssignments assignments) = .ok body)
    (enveloped : encodeSystemEvent eventLocalAssignmentChanged body = .ok value) (offset : UInt64) :
    p.apply catalog (systemRecord consumerOffsetsTopicID offset value) =
      .ok (p.after offset (.assignmentChanged (assignmentEvent storeID catalogNext groupID
        group.generation reason prepared (sortAssignments assignments)))) := by
  obtain ⟨-, rfl⟩ := encodeGroupAssignmentBody_eq_ok.1 encoded
  have applies : (OffsetsEvent.assignmentChanged (assignmentEvent storeID catalogNext groupID
      group.generation reason prepared (sortAssignments assignments))).Accepted catalog p :=
    ⟨group, accepted⟩
  exact applies.applied enveloped offset

end Prepared

end Immulog
