import Immulog.Options

/-!
What every accepted catalog history keeps.

Records at the offsets 0, 1, 2, … that the projection accepts one after the other leave
the names and the topics in step, and the retired segments of each partition form a
chain from offset zero to the retained start.
-/

namespace Immulog

open Lib Std

/-! ## Chains of retired segments -/

/-- The segments follow one another from `base` to `stop`. -/
def RetiredChain : UInt64 → List RetiredSegmentEvent → UInt64 → Prop
  | base, [], stop => base = stop
  | base, item :: rest, stop =>
      item.base = base ∧ item.base < item.stop ∧ RetiredChain item.stop rest stop

namespace RetiredChain

variable {base mid stop : UInt64} {items first second : List RetiredSegmentEvent}

/-- Retired segments come in chains, which can be joined. -/
theorem append (before : RetiredChain base first mid) (behind : RetiredChain mid second stop) :
    RetiredChain base (first ++ second) stop := by
  induction first generalizing base with
  | nil =>
      obtain rfl : base = mid := before
      exact behind
  | cons item first ih => exact ⟨before.1, before.2.1, ih before.2.2⟩

theorem le (chain : RetiredChain base items stop) : base ≤ stop := by
  induction items generalizing base with
  | nil => exact UInt64.le_of_eq chain
  | cons item items ih =>
      obtain ⟨rfl, extent, rest⟩ := chain
      exact UInt64.le_trans (UInt64.le_of_lt extent) (ih rest)

/-- A segment of the chain lies between its ends. -/
theorem within (chain : RetiredChain base items stop) {item : RetiredSegmentEvent}
    (mem : item ∈ items) : base ≤ item.base ∧ item.base < item.stop ∧ item.stop ≤ stop := by
  induction items generalizing base with
  | nil => cases mem
  | cons first items ih =>
      obtain ⟨rfl, extent, rest⟩ := chain
      rcases List.mem_cons.1 mem with rfl | later
      · exact ⟨UInt64.le_refl _, extent, rest.le⟩
      · obtain ⟨low, inside, high⟩ := ih rest later
        exact ⟨UInt64.le_trans (UInt64.le_of_lt extent) low, inside, high⟩

/-- No base is retired twice. -/
theorem nodup (chain : RetiredChain base items stop) :
    (items.map RetiredSegmentEvent.base).Nodup := by
  induction items generalizing base with
  | nil => exact List.nodup_nil
  | cons first items ih =>
      obtain ⟨rfl, extent, rest⟩ := chain
      rw [List.map_cons, List.nodup_cons]
      refine ⟨?_, ih rest⟩
      intro again
      obtain ⟨item, mem, same⟩ := List.mem_map.1 again
      have low := (rest.within mem).1
      rw [same] at low
      exact absurd extent (UInt64.not_lt.2 low)

/-- Every offset of the range lies in exactly one segment. -/
theorem covers (chain : RetiredChain base items stop) {offset : UInt64} (low : base ≤ offset)
    (high : offset < stop) :
    ∃ item ∈ items, (item.base ≤ offset ∧ offset < item.stop) ∧
      ∀ other ∈ items, other.base ≤ offset → offset < other.stop → other = item := by
  induction items generalizing base with
  | nil =>
      obtain rfl : base = stop := chain
      exact absurd high (UInt64.not_lt.2 low)
  | cons first items ih =>
      obtain ⟨rfl, extent, rest⟩ := chain
      by_cases here : offset < first.stop
      · refine ⟨first, List.mem_cons_self, ⟨low, here⟩, ?_⟩
        intro other mem below _
        rcases List.mem_cons.1 mem with rfl | later
        · rfl
        · have above := UInt64.le_trans (rest.within later).1 below
          exact absurd here (UInt64.not_lt.2 above)
      · obtain ⟨item, mem, inside, only⟩ := ih rest (UInt64.not_lt.1 here)
        refine ⟨item, List.mem_cons_of_mem _ mem, inside, ?_⟩
        intro other listed below above
        rcases List.mem_cons.1 listed with rfl | later
        · exact absurd above here
        · exact only other later below above

end RetiredChain

/-- The retirement list of an accepted event is a chain. -/
theorem retiredChain_of_steps {event : PartitionLogStartAdvancedEvent}
    {items : List RetiredSegmentEvent} {start stop : UInt64} {seen seen' : GoSet SegmentID}
    (ran : items.foldlM (retirementStep event) (start, seen) = .ok (stop, seen')) :
    RetiredChain start items stop := by
  induction items generalizing start seen with
  | nil =>
      rw [List.foldlM_nil, pure_eq_ok] at ran
      exact congrArg Prod.fst (Except.ok.inj ran)
  | cons item items ih =>
      rw [List.foldlM_cons] at ran
      obtain ⟨state, stepped, later⟩ := bind_eq_ok.1 ran
      simp only [retirementStep, bind_eq_ok, failIf_eq_ok, exists_const, not_or, not_not, ne_eq,
        UInt64.not_le, pure_eq_ok, Except.ok.injEq] at stepped
      obtain ⟨⟨here, extent, -, -⟩, -, -, rfl⟩ := stepped
      exact ⟨here, extent, ih later⟩

/-! ## The invariant -/

/-- The entries are keyed by their own base and tile the offsets below `stop`. -/
def Retires (byBase : ExtTreeMap UInt64 RetiredSegmentEvent) (stop : UInt64) : Prop :=
  ∃ items, RetiredChain 0 items stop ∧
    ∀ base item, byBase[base]? = some item ↔ item ∈ items ∧ item.base = base

theorem retires_empty : Retires ∅ 0 :=
  ⟨[], rfl, by simp⟩

/-- Segments that continue the chain can be added to the inventory. -/
theorem Retires.addAll {byBase : ExtTreeMap UInt64 RetiredSegmentEvent} {mid stop : UInt64}
    {items : List RetiredSegmentEvent} (before : Retires byBase mid)
    (behind : RetiredChain mid items stop) :
    Retires (items.foldl (fun byBase item => byBase.insert item.base item) byBase) stop := by
  obtain ⟨old, chain, keyed⟩ := before
  refine ⟨old ++ items, chain.append behind, ?_⟩
  intro base item
  constructor
  · intro found
    rcases mem_of_foldl_insert (f := RetiredSegmentEvent.base) found with
      ⟨listed, mem, rfl, rfl⟩ | earlier
    · exact ⟨List.mem_append_right _ mem, rfl⟩
    · obtain ⟨mem, same⟩ := (keyed base item).1 earlier
      exact ⟨List.mem_append_left _ mem, same⟩
  · intro listed
    obtain ⟨mem, rfl⟩ := listed
    rcases List.mem_append.1 mem with earlier | later
    · rw [getElem?_foldl_insert_of_not_mem (f := RetiredSegmentEvent.base)]
      · exact (keyed _ _).2 ⟨earlier, rfl⟩
      · intro again
        obtain ⟨other, inside, same⟩ := List.mem_map.1 again
        -- the added segments start where the old ones end
        have low := (behind.within inside).1
        obtain ⟨-, extent, high⟩ := chain.within earlier
        rw [same] at low
        exact absurd (UInt64.lt_of_lt_of_le extent high) (UInt64.not_lt.2 low)
    · exact getElem?_foldl_insert behind.nodup later

namespace TopicPartition

/-- A partition of a catalog of the given revision, with its retired segments. -/
structure History (revision : UInt64) (byBase : ExtTreeMap UInt64 RetiredSegmentEvent)
    (p : TopicPartition) : Prop where
  retires : Retires byBase p.retainedL
  recorded : p.retainedL ≤ p.maximumRecordedRetirementH
  boundary : p.boundaryCatalogNext ≤ revision

theorem History.mono {revision revision' : UInt64}
    {byBase : ExtTreeMap UInt64 RetiredSegmentEvent} {p : TopicPartition}
    (history : p.History revision byBase) (later : revision ≤ revision') :
    p.History revision' byBase :=
  { history with boundary := UInt64.le_trans history.boundary later }

/-- What an accepted retention event says about its partition. -/
theorem checkRetention_passed {p : TopicPartition} {event : PartitionLogStartAdvancedEvent}
    (checked : p.checkRetention event = .ok ()) :
    p.retainedL = event.expectedOldL ∧ event.expectedOldL < event.newL ∧
      event.newL ≤ event.evaluatedDurableEnd ∧
      p.maximumRecordedRetirementH ≤ event.evaluatedDurableEnd ∧
      RetiredChain event.expectedOldL event.retired event.newL := by
  simp only [checkRetention, bind_eq_ok, failIf_eq_ok, exists_const, not_or, not_not, ne_eq,
    UInt64.not_le, UInt64.not_lt, Prod.exists] at checked
  obtain ⟨⟨old, advances, covered⟩, -, grows, -, -, stop, seen, ran, rfl⟩ := checked
  exact ⟨old, advances, covered, grows, retiredChain_of_steps ran⟩

/-- A log start moves with the segments that are retired. -/
theorem History.advanced {revision offset : UInt64}
    {byBase : ExtTreeMap UInt64 RetiredSegmentEvent} {p : TopicPartition}
    {event : PartitionLogStartAdvancedEvent} (history : p.History revision byBase)
    (checked : p.checkRetention event = .ok ()) :
    (p.advanced offset event).History (offset + 1)
      (event.retired.foldl (fun byBase item => byBase.insert item.base item) byBase) := by
  obtain ⟨old, -, covered, -, chain⟩ := checkRetention_passed checked
  refine ⟨?_, ?_, UInt64.le_refl _⟩
  · refine Retires.addAll history.retires ?_
    rw [old]
    exact chain
  · unfold TopicPartition.advanced
    dsimp only
    split
    · exact covered
    · rename_i high
      exact UInt64.le_trans covered (UInt64.not_lt.1 high)

end TopicPartition

namespace CatalogTopic

/-- A topic of a catalog of the given revision. -/
structure History (revision : UInt64) (id : TopicID) (t : CatalogTopic) : Prop where
  id_eq : t.descriptor.id = id
  created : t.creationOffset < revision
  numbered : ∀ (index : Nat) (p : TopicPartition),
    t.descriptor.partitions[index]? = some p → p.partition.toNat = index
  partitions : ∀ p ∈ t.descriptor.partitions,
    p.History revision (t.retired.getD p.partition ∅)

theorem History.mono {revision revision' : UInt64} {id : TopicID} {t : CatalogTopic}
    (history : t.History revision id) (later : revision ≤ revision') : t.History revision' id :=
  { history with
    created := UInt64.lt_of_lt_of_le history.created later
    partitions := fun p mem => (history.partitions p mem).mono later }

/-- A new topic has no retired segments. -/
theorem history_ofCreated {offset : UInt64} {event : TopicCreatedEvent} (valid : event.Valid)
    (room : offset < offset + 1) :
    (CatalogTopic.ofCreated offset event).History (offset + 1) event.topicID where
  id_eq := rfl
  created := room
  numbered := by
    intro index p found
    simp only [ofCreated, List.getElem?_map, Option.map_eq_some_iff] at found
    obtain ⟨q, there, rfl⟩ := found
    have number := (valid.canonical (q, index) (List.mem_zipIdx_iff_getElem?.2 there)).1
    have inside := (List.getElem?_eq_some_iff.1 there).1
    have bound : event.partitions.length ≤ 65536 := valid.bounded
    change q.partition = .ofNat index at number
    change q.partition.toNat = index
    rw [number]
    exact toNat_ofNat32 (by omega)
  partitions := by
    intro p mem
    simp only [ofCreated, List.mem_map] at mem
    obtain ⟨q, -, rfl⟩ := mem
    refine ⟨?_, UInt64.le_refl _, UInt64.le_refl _⟩
    simpa [ofCreated, TopicPartition.ofCreated] using retires_empty

/-- An advance keeps the history of its topic. -/
theorem History.advanced {revision : UInt64} {t : CatalogTopic} {p : TopicPartition}
    {event : PartitionLogStartAdvancedEvent} (history : t.History revision event.key.topic)
    (room : revision < revision + 1)
    (found : t.descriptor.partitions[event.key.partition.toNat]? = some p)
    (checked : p.checkRetention event = .ok ()) :
    (t.advanced revision event).History (revision + 1) event.key.topic where
  id_eq := history.id_eq
  created := UInt64.lt_trans history.created room
  numbered := by
    intro index q there
    simp only [CatalogTopic.advanced, List.getElem?_modify] at there
    obtain ⟨before, was, rfl⟩ := Option.map_eq_some_iff.1 there
    have number := history.numbered index before was
    split
    · exact number
    · exact number
  partitions := by
    intro q mem
    obtain ⟨index, there⟩ := List.mem_iff_getElem?.1 mem
    simp only [CatalogTopic.advanced, List.getElem?_modify] at there
    obtain ⟨before, was, rfl⟩ := Option.map_eq_some_iff.1 there
    have number := history.numbered index before was
    have old := history.partitions before (List.mem_of_getElem? was)
    simp only [CatalogTopic.advanced, RetiredInventory.addAll]
    split
    · rename_i same
      subst same
      obtain rfl : p = before := Option.some.inj (found.symm.trans was)
      have key : event.key.partition = p.partition := UInt32.toNat_inj.1 number.symm
      rw [show (p.advanced revision event).partition = p.partition from rfl, key,
        ExtTreeMap.getD_insert_self]
      exact old.advanced checked
    · rename_i different
      have key : event.key.partition ≠ before.partition := by
        intro same
        rw [same] at different
        exact different number
      rw [ExtTreeMap.getD_insert]
      simp only [key, LawfulEqOrd.compare_eq_iff_eq, if_false]
      exact old.mono (UInt64.le_of_lt room)

end CatalogTopic

namespace CatalogProjection

/-- The names and the topics describe each other, and every topic is as its history has
left it. -/
structure History (p : CatalogProjection) : Prop where
  topics : ∀ (id : TopicID) (t : CatalogTopic), p.topicsByID[id]? = some t →
    t.History p.revision id
  names : ∀ (name : Bytes) (id : TopicID), p.topicsByName[name]? = some id ↔
    ∃ t, p.topicsByID[id]? = some t ∧ t.descriptor.name = name

/-- Topics stay, and the boundaries of their partitions only move up. -/
def Advances (p p' : CatalogProjection) : Prop :=
  ∀ (id : TopicID) (t : CatalogTopic), p.topicsByID[id]? = some t →
    ∃ t', p'.topicsByID[id]? = some t' ∧
      ∀ (index : Nat) (part : TopicPartition), t.descriptor.partitions[index]? = some part →
        ∃ part', t'.descriptor.partitions[index]? = some part' ∧
          part.retainedL ≤ part'.retainedL ∧
          part.maximumRecordedRetirementH ≤ part'.maximumRecordedRetirementH

theorem Advances.refl (p : CatalogProjection) : p.Advances p := by
  intro id t found
  exact ⟨t, found, fun index part there => ⟨part, there, UInt64.le_refl _, UInt64.le_refl _⟩⟩

theorem Advances.trans {p q r : CatalogProjection} (first : p.Advances q) (second : q.Advances r) :
    p.Advances r := by
  intro id t found
  obtain ⟨t', found', parts⟩ := first id t found
  obtain ⟨t'', found'', parts'⟩ := second id t' found'
  refine ⟨t'', found'', ?_⟩
  intro index part there
  obtain ⟨part', there', low, high⟩ := parts index part there
  obtain ⟨part'', there'', low', high'⟩ := parts' index part' there'
  exact ⟨part'', there'', UInt64.le_trans low low', UInt64.le_trans high high'⟩

theorem history_new : newCatalogProjection.History where
  topics := by simp [newCatalogProjection]
  names := by simp [newCatalogProjection]

/-- Every accepted event keeps the history of the catalog. -/
theorem History.after {p : CatalogProjection} (history : p.History) {event : CatalogEvent}
    (accepted : event.Accepted p p.revision) (room : p.revision < p.revision + 1) :
    (p.after p.revision event).History := by
  refine ⟨?_, names_after history.names accepted⟩
  intro id t found
  cases event with
  | storeInitialized event =>
      have fresh := accepted.2.1
      have created := (history.topics id t found).created
      rw [fresh] at created
      exact absurd created UInt64.not_lt_zero
  | topicCreated event =>
      obtain ⟨started, valid, store, expected, newName, newID⟩ := accepted
      simp only [CatalogProjection.after, ExtTreeMap.getElem?_insert] at found
      split at found
      · rename_i same
        obtain rfl : event.topicID = id := LawfulEqOrd.eq_of_compare same
        obtain rfl := Option.some.inj found
        exact CatalogTopic.history_ofCreated valid room
      · exact (history.topics id t found).mono (UInt64.le_of_lt room)
  | logStartAdvanced event =>
      obtain ⟨valid, store, expected, topic, partition, there, part, checked⟩ := accepted
      simp only [CatalogProjection.after, ExtTreeMap.getElem?_modify] at found
      split at found
      · rename_i same
        obtain rfl : event.key.topic = id := LawfulEqOrd.eq_of_compare same
        rw [there] at found
        obtain rfl := Option.some.inj found
        exact (history.topics _ _ there).advanced room part checked
      · exact (history.topics id t found).mono (UInt64.le_of_lt room)

/-- Every accepted event advances the catalog. -/
theorem advances_after {p : CatalogProjection} {event : CatalogEvent} {offset : UInt64}
    (accepted : event.Accepted p offset) : p.Advances (p.after offset event) := by
  intro id t found
  have same : ∀ (index : Nat) (part : TopicPartition), t.descriptor.partitions[index]? = some part →
      ∃ part', t.descriptor.partitions[index]? = some part' ∧ part.retainedL ≤ part'.retainedL ∧
        part.maximumRecordedRetirementH ≤ part'.maximumRecordedRetirementH :=
    fun index part there => ⟨part, there, UInt64.le_refl _, UInt64.le_refl _⟩
  cases event with
  | storeInitialized event => exact ⟨t, found, same⟩
  | topicCreated event =>
      obtain ⟨started, valid, store, expected, newName, newID⟩ := accepted
      refine ⟨t, ?_, same⟩
      simp only [CatalogProjection.after, ExtTreeMap.getElem?_insert]
      split
      · rename_i equal
        obtain rfl : event.topicID = id := LawfulEqOrd.eq_of_compare equal
        simp_all
      · exact found
  | logStartAdvanced event =>
      obtain ⟨valid, store, expected, topic, partition, there, part, checked⟩ := accepted
      simp only [CatalogProjection.after, ExtTreeMap.getElem?_modify]
      split
      · rename_i equal
        obtain rfl : event.key.topic = id := LawfulEqOrd.eq_of_compare equal
        obtain rfl : t = topic := Option.some.inj (found.symm.trans there)
        rw [found]
        refine ⟨_, rfl, ?_⟩
        intro index before was
        simp only [CatalogTopic.advanced, List.getElem?_modify, was]
        refine ⟨_, rfl, ?_⟩
        split
        · rename_i here
          subst here
          obtain rfl : partition = before := Option.some.inj (part.symm.trans was)
          obtain ⟨old, advances, covered, grows, -⟩ := TopicPartition.checkRetention_passed checked
          refine ⟨?_, ?_⟩
          · rw [old]
            exact UInt64.le_of_lt advances
          · unfold TopicPartition.advanced
            dsimp only
            split
            · rename_i low
              exact UInt64.le_of_lt low
            · exact UInt64.le_refl _
        · exact ⟨UInt64.le_refl _, UInt64.le_refl _⟩
      · exact ⟨t, found, same⟩

/-- A run over the records: the invariant, and the revision behind the last of them. -/
theorem replay_history {gap : GoError} {records : List Record} {p : CatalogProjection}
    (few : records.length < 2 ^ 64)
    (accepted : replayRecords apply gap newCatalogProjection 0 records = .ok p) :
    p.History ∧ p.revision = .ofNat records.length := by
  induction records using List.reverseRecOn generalizing p with
  | nil =>
      obtain rfl := Except.ok.inj accepted
      exact ⟨history_new, rfl⟩
  | append_singleton records r ih =>
      rw [List.length_append, List.length_singleton] at few ⊢
      obtain ⟨state, before, place, applied⟩ := replayRecords_snoc.1 accepted
      obtain ⟨history, revision⟩ := ih (by omega) before
      have here : r.offset = state.revision := by rw [place, revision, UInt64.zero_add]
      have room : state.revision < state.revision + 1 := by
        have small : state.revision.toNat < 2 ^ 64 - 1 := by
          rw [revision, toNat_ofNat64 (by omega)]
          omega
        rw [UInt64.lt_iff_toNat_lt, UInt64.toNat_add, UInt64.toNat_one]
        omega
      refine ⟨?_, ?_⟩
      · obtain ⟨event, -, taken, rfl⟩ := apply_eq_ok.1 applied
        rw [here] at taken ⊢
        exact history.after taken room
      · rw [revision_apply applied, here, revision, UInt64.ofNat_add]
        rfl

/-- So does a replay of records. -/
theorem replay_advances {gap : GoError} {p q : CatalogProjection} {offset : UInt64}
    {records : List Record} (accepted : replayRecords apply gap p offset records = .ok q) :
    p.Advances q := by
  induction records generalizing p offset with
  | nil =>
      obtain rfl := Except.ok.inj accepted
      exact .refl p
  | cons r records ih =>
      simp only [replayRecords, bind_eq_ok, failIf_eq_ok, exists_const] at accepted
      obtain ⟨-, mid, applied, later⟩ := accepted
      obtain ⟨event, -, taken, rfl⟩ := apply_eq_ok.1 applied
      exact (advances_after taken).trans (ih later)

end CatalogProjection

/-- After any records at the offsets 0, 1, 2, … that the empty projection accepts in turn,
the names and the topics describe the same topics, the retired segments of a partition tile
the offsets below its retained start, boundaries have only moved up since any earlier
record, and the revision is one past the last offset. -/
theorem catalog_history {gap : GoError} {records : List Record} {p : CatalogProjection}
    (few : records.length < 2 ^ 64)
    (accepted : replayRecords CatalogProjection.apply gap newCatalogProjection 0 records = .ok p) :
    p.revision.toNat = records.length ∧
      (∀ (name : Bytes) (id : TopicID), p.topicsByName[name]? = some id ↔
        ∃ t, p.topicsByID[id]? = some t ∧ t.descriptor.name = name) ∧
      (∀ (id : TopicID) (t : CatalogTopic), p.topicsByID[id]? = some t →
        t.descriptor.id = id ∧ t.creationOffset < p.revision ∧
        ∀ part ∈ t.descriptor.partitions,
          part.retainedL ≤ part.maximumRecordedRetirementH ∧
          part.boundaryCatalogNext ≤ p.revision ∧
          (∀ (base : UInt64) (item : RetiredSegmentEvent),
            (t.retired.getD part.partition ∅)[base]? = some item →
              item.base = base ∧ base < item.stop ∧ item.stop ≤ part.retainedL) ∧
          ∀ offset < part.retainedL, ∃! item : RetiredSegmentEvent,
            (t.retired.getD part.partition ∅)[item.base]? = some item ∧
              item.base ≤ offset ∧ offset < item.stop) ∧
      ∀ (front back : List Record) (q : CatalogProjection), records = front ++ back →
        replayRecords CatalogProjection.apply gap newCatalogProjection 0 front = .ok q →
        q.Advances p := by
  obtain ⟨history, revision⟩ := CatalogProjection.replay_history few accepted
  refine ⟨?_, history.names, ?_, ?_⟩
  · rw [revision]
    exact toNat_ofNat64 few
  · intro id t found
    have topic := history.topics id t found
    refine ⟨topic.id_eq, topic.created, ?_⟩
    intro part mem
    obtain ⟨⟨items, chain, keyed⟩, recorded, boundary⟩ := topic.partitions part mem
    refine ⟨recorded, boundary, ?_, ?_⟩
    · intro base item stored
      obtain ⟨listed, rfl⟩ := (keyed base item).1 stored
      exact ⟨rfl, (chain.within listed).2⟩
    · intro offset below
      obtain ⟨item, listed, inside, only⟩ := chain.covers UInt64.zero_le below
      refine ⟨item, ⟨(keyed _ _).2 ⟨listed, rfl⟩, inside⟩, ?_⟩
      rintro other ⟨stored, low, high⟩
      exact only other ((keyed _ _).1 stored).1 low high
  · intro front back q split earlier
    rw [split, replayRecords_append, earlier] at accepted
    exact CatalogProjection.replay_advances accepted

/-- A store that has just been initialized. -/
def sampleInitialized : StoreInitializedEvent :=
  ⟨1, ⟨1, 1⟩, ⟨2, 2⟩, systemPartitionConfig, systemPartitionConfig⟩

/-- A topic of one partition, as the second event of its catalog. -/
def sampleTopic : TopicCreatedEvent :=
  ⟨1, 1, 7, ascii ['t'], [⟨0, systemPartitionConfig, ⟨3, 3⟩⟩]⟩

def sampleCatalog : CatalogProjection :=
  (newCatalogProjection.after 0 (.storeInitialized sampleInitialized)).after 1
    (.topicCreated sampleTopic)

/-- The topic with a limit on the size of its partition. -/
def retainedTopic : TopicCreatedEvent :=
  { sampleTopic with
    partitions := [⟨0, { systemPartitionConfig with
      retentionMask := 2, retentionBytes := 1, retentionCheckMillis := 1 }, ⟨3, 3⟩⟩] }

/-- The start of its partition moves up, at an end of the log of nine. -/
def sampleRetirement (next oldL newL : UInt64) (successor : EventAnchor)
    (retired : List RetiredSegmentEvent) : PartitionLogStartAdvancedEvent :=
  ⟨1, next, ⟨7, 0⟩, oldL, newL, 9, successor, 2, 0, 100, retired⟩

def catalogRecord (offset : UInt64) (event : CatalogEvent) : Record :=
  systemRecord clusterMetadataTopicID offset (envelope event.eventType event.bytes)

/-- Two segments of the topic are retired, and then a third one. -/
def sampleRecords : List Record :=
  [catalogRecord 0 (.storeInitialized sampleInitialized),
    catalogRecord 1 (.topicCreated retainedTopic),
    catalogRecord 2 (.logStartAdvanced
      (sampleRetirement 2 0 3 ⟨6, 6⟩ [⟨0, 2, 100, ⟨3, 3⟩⟩, ⟨2, 3, 100, ⟨5, 5⟩⟩])),
    catalogRecord 3 (.logStartAdvanced (sampleRetirement 3 3 5 ⟨8, 8⟩ [⟨3, 5, 100, ⟨6, 6⟩⟩]))]

/-- The catalog that a replay ends with. -/
def replayed? (records : List Record) : Option CatalogProjection :=
  (replayRecords CatalogProjection.apply (.new "") newCatalogProjection 0 records).toOption

theorem replayed?_eq_some {records : List Record} {p : CatalogProjection}
    (found : replayed? records = some p) :
    replayRecords CatalogProjection.apply (.new "") newCatalogProjection 0 records = .ok p := by
  unfold replayed? at found
  cases result : replayRecords CatalogProjection.apply (.new "") newCatalogProjection 0 records with
  | error e =>
      rw [result] at found
      cases found
  | ok q =>
      rw [result] at found
      exact congrArg _ (Option.some.inj found)

/-- The two retirements leave the start of the partition at five, behind three segments that
cover what is gone. -/
theorem catalog_history_sample : ∃ q p t part,
    replayed? (sampleRecords.take 3) = some q ∧ replayed? sampleRecords = some p ∧
      q.Advances p ∧ p.revision.toNat = 4 ∧ p.topicsByID[(7 : TopicID)]? = some t ∧
      p.topicsByName[ascii ['t']]? = some 7 ∧ part ∈ t.descriptor.partitions ∧
      part.retainedL = 5 ∧ part.retainedL ≤ part.maximumRecordedRetirementH ∧
      (t.retired.getD part.partition ∅).size = 3 ∧
      ∃! item : RetiredSegmentEvent, (t.retired.getD part.partition ∅)[item.base]? = some item ∧
        item.base ≤ 4 ∧ 4 < item.stop := by
  have found : ∃ q ∈ replayed? (sampleRecords.take 3), ∃ p ∈ replayed? sampleRecords,
      ∃ t ∈ p.topicsByID[(7 : TopicID)]?, t.descriptor.name = ascii ['t'] ∧
        ∃ part ∈ t.descriptor.partitions, part.retainedL = 5 ∧
          (t.retired.getD part.partition ∅).size = 3 := by
    decide +kernel
  obtain ⟨q, before, p, after, t, found, name, part, mem, start, size⟩ := found
  obtain ⟨revision, names, topics, advances⟩ :=
    catalog_history (by decide) (replayed?_eq_some after)
  obtain ⟨-, -, partitions⟩ := topics 7 t found
  obtain ⟨recorded, -, -, covered⟩ := partitions part mem
  refine ⟨q, p, t, part, before, after, ?_, revision, found, ?_, mem, start, recorded, size, ?_⟩
  · exact advances _ _ q (List.take_append_drop 3 _).symm (replayed?_eq_some before)
  · exact (names _ _).2 ⟨t, found, name⟩
  · refine covered 4 ?_
    rw [start]
    decide

end Immulog
