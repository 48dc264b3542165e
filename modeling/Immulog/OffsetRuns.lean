import Immulog.CatalogHistory
import Immulog.OffsetHistory

/-!
What every accepted offsets history keeps.

The catalog may be another one at every record.  Owners are members with progress, a
progress entry stays with its baseline, and positions only move up.
-/

namespace Immulog

open Lib Std

/-! ## The invariant of a group -/

/-- Owners come from the assignments. -/
theorem getElem?_ownersOf {assignments : List AssignmentEntry} {key : TopicKey} {session : Session}
    (found : (ownersOf assignments)[key]? = some session) :
    ∃ entry ∈ assignments, entry.key = key ∧ entry.owner = session := by
  rcases mem_of_foldl_insert (f := AssignmentEntry.key) found with listed | before
  · exact listed
  · simp at before

theorem mem_memberSet {members : List AssignmentMember} {session : Session} :
    session ∈ memberSet members ↔ ∃ member ∈ members, member.session = session := by
  unfold memberSet
  rw [contains_foldl_insert (f := AssignmentMember.session)]
  simp

theorem getElem?_insertKeys {owner session : Session} {keys : List TopicKey}
    {m : ExtTreeMap TopicKey Session} {key : TopicKey}
    (found : (insertKeys owner keys m)[key]? = some session) :
    (key ∈ keys ∧ owner = session) ∨ m[key]? = some session := by
  rcases mem_of_foldl_insert (f := fun k : TopicKey => k) found with ⟨k, mem, rfl, same⟩ | before
  · exact .inl ⟨mem, same⟩
  · exact .inr before

/-- The subscriber of a key is one of the members, and the key is among its subscriptions. -/
theorem getElem?_subscribedBy {members : List AssignmentMember} {key : TopicKey}
    {session : Session} (found : (subscribedBy members)[key]? = some session) :
    ∃ member ∈ members, member.session = session ∧ key ∈ member.subscriptions := by
  induction members using List.reverseRecOn with
  | nil => simp [subscribedBy] at found
  | append_singleton members member ih =>
      rw [subscribedBy_concat] at found
      rcases getElem?_insertKeys found with ⟨mem, same⟩ | before
      · exact ⟨member, by simp, same, mem⟩
      · obtain ⟨other, mem, both⟩ := ih before
        exact ⟨other, List.mem_append_left _ mem, both⟩

/-- Owners are members and have progress, and a commit never lies below its baseline. -/
structure OffsetGroup.Sound (g : OffsetGroup) : Prop where
  owned : ∀ (key : TopicKey) (session : Session), g.assignmentOwner[key]? = some session →
    session ∈ g.assignmentMember ∧ key ∈ g.progress
  committed : ∀ (key : TopicKey) (progress : OffsetProgress), g.progress[key]? = some progress →
    progress.hasCommit = true → progress.initialNext ≤ progress.committedNext

/-- Progress stays with its baseline, and positions only move up. -/
def OffsetGroup.Keeps (g g' : OffsetGroup) : Prop :=
  ∀ (key : TopicKey) (progress : OffsetProgress), g.progress[key]? = some progress →
    ∃ progress', g'.progress[key]? = some progress' ∧
      progress'.initialNext = progress.initialNext ∧ latestNext progress ≤ latestNext progress'

namespace OffsetGroup

variable {catalog : CatalogProjection} {p : OffsetsProjection} {g : OffsetGroup}

theorem Keeps.refl (g : OffsetGroup) : g.Keeps g := by
  intro key progress found
  exact ⟨progress, found, rfl, UInt64.le_refl _⟩

theorem Keeps.trans {g g' g'' : OffsetGroup} (first : g.Keeps g') (second : g'.Keeps g'') :
    g.Keeps g'' := by
  intro key progress found
  obtain ⟨progress', found', same, up⟩ := first key progress found
  obtain ⟨progress'', found'', same', up'⟩ := second key progress' found'
  exact ⟨progress'', found'', same'.trans same, UInt64.le_trans up up'⟩

theorem sound_ofCreated (offset : UInt64) (event : GroupCreatedEvent) :
    (OffsetGroup.ofCreated offset event).Sound :=
  ⟨by simp [ofCreated], by simp [ofCreated]⟩

/-- An assignment leaves the progress it finds, and gives every key it lists an entry. -/
theorem progress_assigned {event : AssignmentEvent} (accepted : event.Accepted catalog p g)
    (offset : UInt64) (key : TopicKey) :
    (g.assigned offset event).progress[key]? = g.progress[key]? ∨
      g.progress[key]? = none ∧
        ∃ initial, (g.assigned offset event).progress[key]? = some ⟨initial, false, 0⟩ := by
  change (progressAfter g.progress event.assignments)[key]? = _ ∨ _ ∧
    ∃ initial, (progressAfter g.progress event.assignments)[key]? = _
  by_cases listed : key ∈ event.assignments.map AssignmentEntry.key
  · obtain ⟨entry, mem, rfl⟩ := List.mem_map.1 listed
    obtain ⟨baseline, stored⟩ := baseline_of_assigned accepted.assignments mem
    rcases baseline with ⟨create, fresh, -⟩ | ⟨reuse, -, -⟩
    · rw [if_pos create] at stored
      exact .inr ⟨fresh, entry.initial, stored⟩
    · rw [if_neg (by rw [reuse]; decide)] at stored
      exact .inl stored
  · exact .inl (getElem?_progressAfter_of_not_mem listed)

/-- An assignment keeps what a group has committed. -/
theorem keeps_assigned {event : AssignmentEvent} (accepted : event.Accepted catalog p g)
    {offset : UInt64} : g.Keeps (g.assigned offset event) := by
  intro key progress found
  rcases progress_assigned accepted offset key with same | ⟨fresh, -⟩
  · exact ⟨progress, same.trans found, rfl, UInt64.le_refl _⟩
  · rw [fresh] at found
    cases found

/-- After an assignment the owners are members again. -/
theorem Sound.assigned {event : AssignmentEvent} (sound : g.Sound)
    (accepted : event.Accepted catalog p g) {offset : UInt64} :
    (g.assigned offset event).Sound := by
  refine ⟨?_, ?_⟩
  · intro key session owns
    obtain ⟨entry, mem, rfl, rfl⟩ := getElem?_ownersOf owns
    obtain ⟨done, follows⟩ := accepted.assignments.mem mem
    obtain ⟨member, inside, same, -⟩ := getElem?_subscribedBy follows.subscriber
    refine ⟨mem_memberSet.2 ⟨member, inside, same⟩, ?_⟩
    obtain ⟨baseline, stored⟩ := baseline_of_assigned accepted.assignments mem
    rw [← ExtTreeMap.isSome_getElem?_iff_mem]
    change ((progressAfter g.progress event.assignments)[entry.key]?).isSome = true
    rw [stored]
    rcases baseline with ⟨create, -, -⟩ | ⟨reuse, -, latest⟩
    · rw [if_pos create]
      rfl
    · rw [if_neg (by rw [reuse]; decide)]
      obtain ⟨current, found, -⟩ := Option.map_eq_some_iff.1 latest
      rw [found]
      rfl
  · intro key progress found commit
    rcases progress_assigned accepted offset key with same | ⟨-, initial, new⟩
    · exact sound.committed key progress (same.symm.trans found) commit
    · obtain rfl := Option.some.inj (found.symm.trans new)
      cases commit

/-- A commit moves the position of its key up and leaves the others. -/
theorem progress_committed {event : CommitEvent} {current : OffsetProgress}
    (accepted : event.Accepted catalog p g current) (key : TopicKey) :
    (g.committed event).progress[key]? =
      if event.key = key then
        some { current with hasCommit := true, committedNext := event.next }
      else g.progress[key]? := by
  simp only [committed, ExtTreeMap.getElem?_modify, LawfulEqOrd.compare_eq_iff_eq]
  split
  · rename_i same
    subst same
    rw [accepted.baseline]
    rfl
  · rfl

/-- A commit continues the latest one. -/
theorem latest_eq_expectedPrevious {event : CommitEvent} {current : OffsetProgress}
    (accepted : event.Accepted catalog p g current) :
    latestNext current = event.expectedPrevious := by
  rcases accepted.previous with ⟨-, no, expected⟩ | ⟨-, yes, expected⟩
  · simp [latestNext, no, expected]
  · simp [latestNext, yes, expected]

/-- A commit keeps the offsets in order. -/
theorem keeps_committed {event : CommitEvent} {current : OffsetProgress}
    (accepted : event.Accepted catalog p g current) : g.Keeps (g.committed event) := by
  intro key progress found
  rw [progress_committed accepted key]
  split
  · rename_i same
    subst same
    obtain rfl := Option.some.inj (found.symm.trans accepted.baseline)
    refine ⟨_, rfl, rfl, ?_⟩
    rw [latest_eq_expectedPrevious accepted]
    exact accepted.advances
  · exact ⟨progress, found, rfl, UInt64.le_refl _⟩

theorem Sound.committing {event : CommitEvent} {current : OffsetProgress} (sound : g.Sound)
    (accepted : event.Accepted catalog p g current) : (g.committed event).Sound := by
  refine ⟨?_, ?_⟩
  · intro key session owns
    obtain ⟨member, progress⟩ := sound.owned key session owns
    refine ⟨member, ?_⟩
    obtain ⟨before, found⟩ := Option.isSome_iff_exists.1
      (ExtTreeMap.isSome_getElem?_iff_mem.2 progress)
    obtain ⟨after, found', -⟩ := keeps_committed accepted key before found
    rw [← ExtTreeMap.isSome_getElem?_iff_mem, found']
    rfl
  · intro key progress found commit
    rw [progress_committed accepted key] at found
    split at found
    · obtain rfl := Option.some.inj found
      refine UInt64.le_trans ?_ accepted.advances
      rcases accepted.previous with ⟨-, -, expected⟩ | ⟨-, yes, expected⟩
      · exact UInt64.le_of_eq expected.symm
      · rw [expected]
        exact sound.committed event.key current accepted.baseline yes
    · exact sound.committed key progress found commit

end OffsetGroup

/-! ## Runs -/

namespace OffsetsProjection

def Sound (p : OffsetsProjection) : Prop :=
  ∀ (id : Bytes) (g : OffsetGroup), p.groups[id]? = some g → g.Sound

/-- Groups stay, with what they keep. -/
def Keeps (p p' : OffsetsProjection) : Prop :=
  ∀ (id : Bytes) (g : OffsetGroup), p.groups[id]? = some g →
    ∃ g', p'.groups[id]? = some g' ∧ g.Keeps g'

theorem Keeps.refl (p : OffsetsProjection) : p.Keeps p := by
  intro id g found
  exact ⟨g, found, .refl g⟩

theorem Keeps.trans {p q r : OffsetsProjection} (first : p.Keeps q) (second : q.Keeps r) :
    p.Keeps r := by
  intro id g found
  obtain ⟨g', found', kept⟩ := first id g found
  obtain ⟨g'', found'', kept'⟩ := second id g' found'
  exact ⟨g'', found'', kept.trans kept'⟩

variable {catalog : CatalogProjection} {p : OffsetsProjection}

/-- Every accepted event keeps the projection sound. -/
theorem Sound.after (sound : p.Sound) {event : OffsetsEvent} (accepted : event.Accepted catalog p)
    {offset : UInt64} : (p.after offset event).Sound := by
  intro id g found
  cases event with
  | groupCreated event =>
      simp only [OffsetsProjection.after, ExtTreeMap.getElem?_insert] at found
      split at found
      · obtain rfl := Option.some.inj found
        exact OffsetGroup.sound_ofCreated offset event
      · exact sound id g found
  | assignmentChanged event =>
      obtain ⟨group, accepted⟩ := accepted
      simp only [OffsetsProjection.after, ExtTreeMap.getElem?_modify] at found
      split at found
      · rename_i same
        obtain rfl : event.group = id := LawfulEqOrd.eq_of_compare same
        rw [accepted.found] at found
        obtain rfl := Option.some.inj found
        exact (sound _ _ accepted.found).assigned accepted
      · exact sound id g found
  | offsetCommitted event =>
      obtain ⟨group, progress, accepted⟩ := accepted
      simp only [OffsetsProjection.after, ExtTreeMap.getElem?_modify] at found
      split at found
      · rename_i same
        obtain rfl : event.group = id := LawfulEqOrd.eq_of_compare same
        rw [accepted.found] at found
        obtain rfl := Option.some.inj found
        exact (sound _ _ accepted.found).committing accepted
      · exact sound id g found

/-- Every accepted event keeps the history of every group. -/
theorem keeps_after {event : OffsetsEvent} (accepted : event.Accepted catalog p) {offset : UInt64} :
    p.Keeps (p.after offset event) := by
  intro id g found
  cases event with
  | groupCreated event =>
      refine ⟨g, ?_, .refl g⟩
      simp only [OffsetsProjection.after, ExtTreeMap.getElem?_insert]
      split
      · rename_i same
        obtain rfl : event.group = id := LawfulEqOrd.eq_of_compare same
        have fresh := accepted.fresh
        rw [← ExtTreeMap.isSome_getElem?_iff_mem, found] at fresh
        exact absurd rfl fresh
      · exact found
  | assignmentChanged event =>
      obtain ⟨group, accepted⟩ := accepted
      simp only [OffsetsProjection.after, ExtTreeMap.getElem?_modify]
      split
      · rename_i same
        obtain rfl : event.group = id := LawfulEqOrd.eq_of_compare same
        obtain rfl := Option.some.inj (found.symm.trans accepted.found)
        rw [found]
        exact ⟨_, rfl, OffsetGroup.keeps_assigned accepted⟩
      · exact ⟨g, found, .refl g⟩
  | offsetCommitted event =>
      obtain ⟨group, progress, accepted⟩ := accepted
      simp only [OffsetsProjection.after, ExtTreeMap.getElem?_modify]
      split
      · rename_i same
        obtain rfl : event.group = id := LawfulEqOrd.eq_of_compare same
        obtain rfl := Option.some.inj (found.symm.trans accepted.found)
        rw [found]
        exact ⟨_, rfl, OffsetGroup.keeps_committed accepted⟩
      · exact ⟨g, found, .refl g⟩

/-- Records from an offset on, each accepted over the catalog of its own moment. -/
inductive Run : OffsetsProjection → UInt64 → List (CatalogProjection × Record) →
    OffsetsProjection → Prop where
  | nil {p : OffsetsProjection} {offset : UInt64} : Run p offset [] p
  | cons {p q r : OffsetsProjection} {offset : UInt64} {catalog : CatalogProjection}
      {record : Record} {later : List (CatalogProjection × Record)} :
      record.offset = offset → apply catalog p record = .ok q → Run q (offset + 1) later r →
      Run p offset ((catalog, record) :: later) r

namespace Run

variable {q : OffsetsProjection} {offset : UInt64} {steps : List (CatalogProjection × Record)}

/-- A run of events keeps the projection sound. -/
theorem sound (run : Run p offset steps q) (start : p.Sound) : q.Sound := by
  induction run with
  | nil => exact start
  | cons _ applied _ ih =>
      obtain ⟨event, -, accepted, rfl⟩ := apply_eq_ok.1 applied
      exact ih (start.after accepted)

/-- A run of events keeps every group. -/
theorem keeps (run : Run p offset steps q) : p.Keeps q := by
  induction run with
  | nil => exact .refl _
  | cons _ applied _ ih =>
      obtain ⟨event, -, accepted, rfl⟩ := apply_eq_ok.1 applied
      exact (keeps_after accepted).trans ih

/-- The revision is one past the last record. -/
theorem revision (run : Run p offset steps q) {last : CatalogProjection × Record}
    (ends : steps.getLast? = some last) : q.revision = last.2.offset + 1 := by
  induction run with
  | nil => cases ends
  | cons place applied later ih =>
      rw [List.getLast?_cons] at ends
      cases later with
      | nil =>
          obtain rfl := Option.some.inj ends
          exact revision_apply applied
      | cons place' applied' later' =>
          refine ih ?_
          rw [List.getLast?_cons]
          simpa [List.getLast?_cons] using ends

end Run

/-- After any records at the offsets 0, 1, 2, … that the empty projection accepts in turn,
over any catalogs: owners are members and have progress, commits lie above their baselines,
and the revision is one past the last record.  Whatever is accepted behind them keeps every
progress entry with its baseline and moves no position down, and a commit is accepted only
with the current generation, instance and owner. -/
theorem offsets_history {storeID : StoreID} {steps : List (CatalogProjection × Record)}
    {p : OffsetsProjection} (run : Run (newOffsetsProjection storeID) 0 steps p) :
    p.Sound ∧
      (∀ last, steps.getLast? = some last → p.revision = last.2.offset + 1) ∧
      (∀ (later : List (CatalogProjection × Record)) (q : OffsetsProjection),
        Run p (.ofNat steps.length) later q → p.Keeps q) ∧
      ∀ (catalog : CatalogProjection) (record : Record) (q : OffsetsProjection) (payload : Bytes),
        apply catalog p record = .ok q →
        decodeSystemEvent record consumerOffsetsTopicID = .ok (eventOffsetCommitted, payload) →
        ∃ (event : CommitEvent) (group : OffsetGroup), payload = event.bytes ∧
          p.groups[event.group]? = some group ∧ event.generation = group.generation ∧
          event.commitInstance = group.assignmentInstance ∧
          group.assignmentOwner[event.key]? = some event.session := by
  refine ⟨run.sound ?_, fun last ends => run.revision ends, fun later q behind => behind.keeps, ?_⟩
  · intro id g found
    simp [newOffsetsProjection] at found
  · intro catalog record q payload applied decoded
    obtain ⟨event, carries, accepted, rfl⟩ := apply_eq_ok.1 applied
    have same := carries.decode.symm.trans decoded
    simp only [Except.ok.injEq, Prod.mk.injEq] at same
    obtain ⟨kind, rfl⟩ := same
    cases event with
    | groupCreated event => cases kind
    | assignmentChanged event => cases kind
    | offsetCommitted event =>
        obtain ⟨group, progress, accepted⟩ := accepted
        exact ⟨event, group, rfl, accepted.found, accepted.generation, accepted.sameInstance,
          accepted.owner⟩

/-- A group of one member that owns the partition of the sample topic. -/
def sampleGroup : GroupCreatedEvent :=
  ⟨1, 2, ascii ['g'], 1, []⟩

def sampleAssignment : AssignmentEvent :=
  ⟨1, 2, ascii ['g'], 5, 0, 1, 1, [⟨9, [⟨7, 0⟩]⟩], [⟨⟨7, 0⟩, 9, 0, 1, 0⟩]⟩

/-- The group of the samples, created and nothing else. -/
def createdOffsets : OffsetsProjection :=
  (newOffsetsProjection 1).after 0 (.groupCreated sampleGroup)

def sampleOffsets : OffsetsProjection :=
  createdOffsets.after 1 (.assignmentChanged sampleAssignment)

def offsetsRecord (offset : UInt64) (event : OffsetsEvent) : Record :=
  systemRecord consumerOffsetsTopicID offset (envelope event.eventType event.bytes)

theorem sampleOffsets_run : Run (newOffsetsProjection 1) 0
    [(sampleCatalog, offsetsRecord 0 (.groupCreated sampleGroup)),
      (sampleCatalog, offsetsRecord 1 (.assignmentChanged sampleAssignment))] sampleOffsets := by
  have first : apply sampleCatalog (newOffsetsProjection 1)
      (offsetsRecord 0 (.groupCreated sampleGroup)) = .ok createdOffsets := by
    decide +kernel
  have second : apply sampleCatalog createdOffsets
      (offsetsRecord 1 (.assignmentChanged sampleAssignment)) = .ok sampleOffsets := by
    decide +kernel
  exact .cons rfl first (.cons rfl second .nil)

/-- Two events replayed: a group that is created, and its first assignment. -/
theorem offsets_history_sample : sampleOffsets.Sound ∧ sampleOffsets.revision = 2 :=
  ⟨(offsets_history sampleOffsets_run).1, (offsets_history sampleOffsets_run).2.1 _ rfl⟩

end OffsetsProjection

end Immulog
