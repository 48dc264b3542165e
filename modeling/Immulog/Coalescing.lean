import Immulog.Calls
import Immulog.GroupEvents
import Immulog.OffsetRuns
import Immulog.Reopen

/-!
Group requests that return a live handle.

A live handle is reused for a request in the canonical form of the one that made it.
The source compares the request's explicit starts with those of the durable group,
though, which may name more partitions; then an equivalent request is installed anew.
-/

namespace Immulog

open Lib Proc Std

/-! ## What every run keeps -/

/-- Handles given out stay what they were made as, and groups keep their start policy. -/
structure KeepsGroups (w w' : World) : Prop where
  handles : w.1.snapshots <+: w'.1.snapshots
  policies : ∀ (id : Bytes) (g : OffsetGroup), w.1.offsetsState.groups[id]? = some g →
    ∃ g', w'.1.offsetsState.groups[id]? = some g' ∧
      g'.creationStartMode = g.creationStartMode ∧ g'.explicitStarts = g.explicitStarts

/-- No event changes the start policy of a group. -/
theorem OffsetsProjection.policy_apply {catalog : CatalogProjection} {p p' : OffsetsProjection}
    {record : Record} (applied : p.apply catalog record = .ok p') {id : Bytes} {g : OffsetGroup}
    (found : p.groups[id]? = some g) :
    ∃ g', p'.groups[id]? = some g' ∧ g'.creationStartMode = g.creationStartMode ∧
      g'.explicitStarts = g.explicitStarts := by
  obtain ⟨event, -, accepted, rfl⟩ := OffsetsProjection.apply_eq_ok.1 applied
  cases event with
  | groupCreated event =>
      refine ⟨g, ?_, rfl, rfl⟩
      simp only [OffsetsProjection.after, ExtTreeMap.getElem?_insert]
      split
      · rename_i same
        obtain rfl : event.group = id := LawfulEqOrd.eq_of_compare same
        have fresh := accepted.fresh
        rw [← ExtTreeMap.isSome_getElem?_iff_mem, found] at fresh
        exact absurd rfl fresh
      · exact found
  | assignmentChanged event =>
      simp only [OffsetsProjection.after, ExtTreeMap.getElem?_modify]
      split
      · rename_i same
        obtain rfl : event.group = id := LawfulEqOrd.eq_of_compare same
        rw [found]
        exact ⟨_, rfl, rfl, rfl⟩
      · exact ⟨g, found, rfl, rfl⟩
  | offsetCommitted event =>
      simp only [OffsetsProjection.after, ExtTreeMap.getElem?_modify]
      split
      · rename_i same
        obtain rfl : event.group = id := LawfulEqOrd.eq_of_compare same
        rw [found]
        exact ⟨_, rfl, rfl, rfl⟩
      · exact ⟨g, found, rfl, rfl⟩

namespace KeepsGroups

theorem refl (w : World) : KeepsGroups w w :=
  ⟨List.prefix_refl _, fun _ g found => ⟨g, found, rfl, rfl⟩⟩

/-- Groups are kept along a run. -/
theorem trans {a b c : World} (first : KeepsGroups a b) (second : KeepsGroups b c) :
    KeepsGroups a c := by
  refine ⟨first.handles.trans second.handles, fun id g found => ?_⟩
  obtain ⟨g', found', start, starts⟩ := first.policies id g found
  obtain ⟨g'', found'', start', starts'⟩ := second.policies id g' found'
  exact ⟨g'', found'', start'.trans start, starts'.trans starts⟩

/-- Steps that touch neither the handles nor the offsets. -/
theorem of_same {w w' : World} (handles : w'.1.groupHandles = w.1.groupHandles)
    (offsets : w'.1.offsetsState = w.1.offsetsState) : KeepsGroups w w' := by
  refine ⟨?_, fun id g found => ⟨g, by rw [offsets]; exact found, rfl, rfl⟩⟩
  rw [Store.snapshots, Store.snapshots, handles]

/-- An offset event keeps all handles and the start policy of every group. -/
theorem appendOffsetsEventLocked (eventType : EventType) (body : Bytes) (drawn : SegmentID) :
    Within FS.device KeepsGroups (appendOffsetsEventLocked eventType body drawn) := by
  intro w r w' steps
  cases steps_appendOffsetsEventLocked steps with
  | refused => exact refl w
  | unappended _ _ appending =>
      obtain ⟨offsets, memory⟩ := memory_appendOffsets appending
      exact of_same (by rw [memory]) (by rw [memory])
  | @unapplied _ _ _ _ mid _ _ appending _ =>
      obtain ⟨offsets, memory⟩ := memory_appendOffsets appending
      have before : KeepsGroups w mid := of_same (by rw [memory]) (by rw [memory])
      exact before.trans (of_same rfl rfl)
  | @applied _ _ _ mid state _ _ appending applied =>
      obtain ⟨offsets, memory⟩ := memory_appendOffsets appending
      have before : KeepsGroups w mid := of_same (by rw [memory]) (by rw [memory])
      exact before.trans ⟨List.prefix_refl _, fun id g found =>
        OffsetsProjection.policy_apply applied found⟩

/-- None of the store's operations does. -/
theorem rules : SystemRules KeepsGroups where
  composes := ⟨refl, trans⟩
  user {w w'} frame := by
    have same : w'.1.offsetsState = w.1.offsetsState :=
      congrArg SystemPart.offsetsState frame.memory
    exact ⟨frame.handles, fun id g found => ⟨g, by rw [same]; exact found, rfl, rfl⟩⟩
  fenceMetadata w := of_same rfl rfl
  fenceOffsets w := of_same rfl rfl
  unappended steps := by
    obtain ⟨catalog, memory⟩ := memory_appendCatalog steps
    exact of_same (by rw [memory]) (by rw [memory])
  applied appending _ applying := by
    obtain ⟨catalog, memory⟩ := memory_appendCatalog appending
    rcases steps_applyCatalog applying with ⟨e, wrong, -⟩ | ⟨state, -, rfl, -⟩
    · cases wrong
    · exact of_same (by rw [memory]) (by rw [memory])
  unapplied {value drawn w base mid offset e w'} appending _ applying := by
    obtain ⟨catalog, memory⟩ := memory_appendCatalog appending
    rcases steps_applyCatalog applying with ⟨e, -, rfl, -⟩ | ⟨state, wrong, -⟩
    · have before : KeepsGroups w w' := of_same (by rw [memory]) (by rw [memory])
      exact before.trans (of_same rfl rfl)
    · cases wrong
  offsetsEvent := appendOffsetsEventLocked

end KeepsGroups

/-! ## Installing a snapshot -/

/-- The handle was made for the request, and the durable group has the request's start
policy and at least its explicit starts. -/
structure Installed (groupID : Bytes) (request : GroupRequest) (handle : Nat) (w : World) :
    Prop where
  made : ∃ generation, w.1.snapshots[handle]? = some
    ⟨groupID, generation, request.options.fetch, request.options.progressTimeout, request.members⟩
  policy : ∃ group, w.1.offsetsState.groups[groupID]? = some group ∧
    group.creationStartMode = request.options.start ∧
    (request.options.start = groupStartExplicit →
      explicitStartsMatchKeys group.explicitStarts request.starts = true)

/-- An installed group stays installed. -/
theorem Installed.keeps {groupID : Bytes} {request : GroupRequest} {handle : Nat} {w w' : World}
    (installed : Installed groupID request handle w) (keeps : KeepsGroups w w') :
    Installed groupID request handle w' := by
  obtain ⟨generation, made⟩ := installed.made
  obtain ⟨group, found, start, starts⟩ := installed.policy
  obtain ⟨group', found', start', starts'⟩ := keeps.policies groupID group found
  refine ⟨⟨generation, ?_⟩, group', found', start'.trans start, fun explicit => ?_⟩
  · obtain ⟨more, same⟩ := keeps.handles
    rw [← same, List.getElem?_append_left (List.getElem?_eq_some_iff.1 made).1]
    exact made
  · rw [starts']
    exact starts explicit

section Installing

variable {groupID : Bytes} {request : GroupRequest} {draws : ConsumerDraws} {now : Int}
  {w w' : World} {handle : Nat}

theorem steps_currentGroup {group : OffsetGroup}
    (steps : Steps FS.device (currentGroup groupID) w (.ok group) w') :
    w.1.offsetsState.groups[groupID]? = some group ∧ w = w' := by
  unfold currentGroup at steps
  rw [steps_read_bind] at steps
  split at steps
  · rename_i found
    obtain ⟨same, rfl⟩ := steps_pure.1 steps
    obtain rfl := Except.ok.inj same
    exact ⟨found, rfl⟩
  · cases (steps_fail.1 steps).1

/-- A new handle comes behind all the others. -/
theorem steps_addGroupConsumer {consumer : GroupConsumer}
    (steps : Steps FS.device (addGroupConsumer consumer) w (.ok handle) w') :
    handle = w.1.groupHandles.length ∧
      w'.1.snapshots = w.1.snapshots ++ [consumer.snapshot] ∧
      w'.1.offsetsState = w.1.offsetsState := by
  unfold addGroupConsumer at steps
  rw [steps_read_bind, steps_update_bind] at steps
  obtain ⟨same, rfl⟩ := steps_pure.1 steps
  exact ⟨(Except.ok.inj same).symm, by simp [Store.snapshots], rfl⟩

/-- A group that is assigned is installed under a handle of its own. -/
theorem steps_assignGroup {s : Store}
    (steps : Steps FS.device (assignGroup groupID request now draws s) w (.ok handle) w') :
    w.1.groupHandles.length ≤ handle ∧ Installed groupID request handle w' := by
  obtain ⟨group, w₁, reading, steps⟩ := steps_bind_ok.1 steps
  obtain ⟨found, rfl⟩ := steps_currentGroup reading
  obtain ⟨_, w₁, checking, steps⟩ := steps_bind_ok.1 steps
  obtain ⟨policy, rfl⟩ := steps_check.1 checking
  obtain ⟨_, w₁, checking, steps⟩ := steps_bind_ok.1 steps
  obtain ⟨starts, rfl⟩ := steps_check.1 checking
  obtain ⟨_, w₁, checking, steps⟩ := steps_bind_ok.1 steps
  obtain ⟨-, rfl⟩ := steps_check.1 checking
  obtain ⟨prepared, w₁, checking, steps⟩ := steps_bind_ok.1 steps
  obtain ⟨-, rfl⟩ := steps_check.1 checking
  obtain ⟨assignments, w₁, assigning, steps⟩ := steps_bind_ok.1 steps
  have before : KeepsGroups w w₁ := KeepsGroups.rules.quiet (.assignKeys _ _ _ _) _ _ _ assigning
  obtain ⟨reason, w₂, reading, steps⟩ := steps_bind_ok.1 steps
  replace before : KeepsGroups w w₂ :=
    before.trans (KeepsGroups.rules.quiet (.assignmentReason _ _ _) _ _ _ reading)
  obtain ⟨body, w₃, checking, steps⟩ := steps_bind_ok.1 steps
  obtain ⟨-, rfl⟩ := steps_check.1 checking
  obtain ⟨_, w₃, appending, steps⟩ := steps_bind_ok.1 steps
  replace before : KeepsGroups w w₃ := before.trans
    (KeepsGroups.rules.appendEventOr KeepsGroups.rules.groupAppendError _ _ _ _ _ _ appending)
  obtain ⟨group', w₄, reading, adding⟩ := steps_bind_ok.1 steps
  obtain ⟨-, rfl⟩ := steps_currentGroup reading
  obtain ⟨rfl, snapshots, offsets⟩ := steps_addGroupConsumer adding
  have longer := before.handles.length_le
  simp only [Store.snapshots, List.length_map] at longer
  obtain ⟨final, found', start, explicit⟩ := before.policies groupID group found
  simp only [policyDiffers, failIf_eq_ok, ne_eq, not_not] at policy
  simp only [failIf_eq_ok, not_and, Bool.not_eq_false] at starts
  refine ⟨longer, ⟨group'.generation, ?_⟩, final, ?_, ?_, ?_⟩
  · rw [snapshots]
    simp [Store.snapshots, GroupConsumer.snapshot]
  · rw [offsets]
    exact found'
  · rw [start, policy]
  · rw [explicit]
    exact starts

/-- And so is one that is created or resumed. -/
theorem steps_installGroup
    (steps : Steps FS.device (installGroup groupID request now draws) w (.ok handle) w') :
    w.1.groupHandles.length ≤ handle ∧ Installed groupID request handle w' := by
  have later : ∀ {mid : World} {s : Store}, KeepsGroups w mid →
      Steps FS.device (assignGroup groupID request now draws s) mid (.ok handle) w' →
      w.1.groupHandles.length ≤ handle ∧ Installed groupID request handle w' := by
    intro mid s before assigning
    obtain ⟨fresh, installed⟩ := steps_assignGroup assigning
    have longer := before.handles.length_le
    simp only [Store.snapshots, List.length_map] at longer
    exact ⟨longer.trans fresh, installed⟩
  unfold installGroup at steps
  rw [steps_read_bind] at steps
  obtain ⟨_, mid, checking, steps⟩ := steps_bind_ok.1 steps
  obtain ⟨-, rfl⟩ := steps_check.1 checking
  have created : ∀ {mid : World}, KeepsGroups w mid →
      Steps FS.device (do
        createGroup groupID request.options.start request.starts.toList draws.created
        assignGroup groupID request now draws w.1) mid (.ok handle) w' →
      w.1.groupHandles.length ≤ handle ∧ Installed groupID request handle w' := by
    intro mid before steps
    obtain ⟨_, mid', creating, steps⟩ := steps_bind_ok.1 steps
    exact later (before.trans (KeepsGroups.rules.createGroup _ _ _ _ _ _ _ creating)) steps
  dsimp only at steps
  split at steps
  · split at steps
    · obtain ⟨_, mid, opening, steps⟩ := steps_bind_ok.1 steps
      exact created (KeepsGroups.rules.quiet (.checkStarts _ _) _ _ _ opening) steps
    · exact created (.refl w) steps
  · exact later (.refl w) steps

end Installing

/-! ## Coalescing -/

/-- The store takes group calls, and the handle is the live one of its group. -/
def Store.LiveGroup (s : Store) (groupID : Bytes) (handle : Nat) (clock : Clock) : Prop :=
  s.checkOffsets = .ok () ∧ ∃ consumer, s.groupHandles[handle]? = some consumer ∧
    s.liveGroupConsumerLocked groupID handle consumer s.offsetsState.groups[groupID]? clock =
      (true, false)

instance (s : Store) (groupID : Bytes) (handle : Nat) (clock : Clock) :
    Decidable (s.LiveGroup groupID handle clock) :=
  decidable_of_iff (s.checkOffsets.toBool = true ∧ ∃ consumer ∈ s.groupHandles[handle]?,
    s.liveGroupConsumerLocked groupID handle consumer s.offsetsState.groups[groupID]? clock =
      (true, false)) (by
    refine and_congr_left fun _ => ?_
    cases s.checkOffsets <;> simp [Except.toBool])

/-- The explicit starts that the durable group keeps. -/
def Store.durableStarts (s : Store) (groupID : Bytes) : Option (ExtTreeMap TopicKey UInt64) :=
  (s.offsetsState.groups[groupID]?).map OffsetGroup.explicitStarts

section Coalescing

variable {groupID : Bytes} {request : GroupRequest} {handle : Nat} {w w' : World} {clock : Clock}

/-- A live handle is the one that the map of live groups names. -/
theorem current_of_live {s : Store} {consumer : GroupConsumer} {group : Option OffsetGroup}
    (live : s.liveGroupConsumerLocked groupID handle consumer group clock = (true, false)) :
    s.groupConsumers groupID = some handle ∧ group.isSome = true := by
  unfold Store.liveGroupConsumerLocked at live
  cases group with
  | none => cases live
  | some group =>
      refine ⟨?_, rfl⟩
      dsimp only at live
      split at live
      · cases live
      · rename_i passed
        simp only [not_or, ne_eq, not_not] at passed
        exact passed.2.1

/-- A live group is found again by the same request, and nothing changes. -/
theorem steps_reusableGroupConsumer {r : Except GoError (Option Nat)}
    (live : w.1.LiveGroup groupID handle clock)
    (steps : Steps FS.device (reusableGroupConsumer groupID request clock) w r w') :
    w' = w ∧ ∃ consumer group, w.1.groupHandles[handle]? = some consumer ∧
      w.1.offsetsState.groups[groupID]? = some group ∧
      r = .ok (if groupConsumerMatches consumer group request then some handle else none) := by
  obtain ⟨-, consumer, found, isLive⟩ := live
  obtain ⟨current, isSome⟩ := current_of_live isLive
  obtain ⟨group, group_eq⟩ := Option.isSome_iff_exists.1 isSome
  rw [group_eq] at isLive
  unfold reusableGroupConsumer at steps
  rw [steps_read_bind] at steps
  simp only [current, found, group_eq, isLive, Option.any_some, Bool.true_and, Bool.false_eq_true,
    if_false] at steps
  split at steps
  · rename_i matched
    obtain ⟨rfl, rfl⟩ := steps_pure.1 steps
    exact ⟨rfl, consumer, group, found, group_eq, by rw [if_pos matched]⟩
  · rename_i differs
    obtain ⟨rfl, rfl⟩ := steps_pure.1 steps
    exact ⟨rfl, consumer, group, found, group_eq, by rw [if_neg differs]⟩

/-- Whatever is reused was given out before. -/
theorem reused_lt {reused : Nat}
    (steps : Steps FS.device (reusableGroupConsumer groupID request clock) w
      (.ok (some reused)) w') :
    reused < w.1.groupHandles.length := by
  unfold reusableGroupConsumer at steps
  rw [steps_read_bind] at steps
  split at steps
  · cases (steps_pure.1 steps).1
  rename_i current _
  split at steps
  · cases (steps_pure.1 steps).1
  rename_i consumer found
  have inside : current < w.1.groupHandles.length := (List.getElem?_eq_some_iff.1 found).1
  have ending : ∀ {mid : World} {live : Bool},
      Steps FS.device (if live then pure (some current) else pure none : StoreM (Option Nat)) mid
        (.ok (some reused)) w' → reused < w.1.groupHandles.length := by
    intro mid live steps
    split at steps
    · obtain ⟨same, -⟩ := steps_pure.1 steps
      obtain rfl := Option.some.inj (Except.ok.inj same)
      exact inside
    · cases (steps_pure.1 steps).1
  dsimp only at steps
  split at steps
  · rw [steps_update_bind] at steps
    exact ending steps
  · exact ending steps

/-- The snapshot of a new handle is the one that its request asked for. -/
theorem steps_openConsumerGroup {specs : List (List TopicKey)} {options : ConsumerGroupOptions}
    {draws : ConsumerDraws}
    (steps : Steps FS.device (Store.openConsumerGroup groupID specs options clock draws) w
      (.ok handle) w') (new : w.1.groupHandles.length ≤ handle) :
    ∃ request, RequestAccepted groupID specs options request ∧
      Installed groupID request handle w' := by
  obtain ⟨request, mid, checking, steps⟩ := steps_bind_ok.1 steps
  obtain ⟨accepted, rfl⟩ := steps_check.1 checking
  rw [steps_read_bind] at steps
  obtain ⟨_, mid, checking, steps⟩ := steps_bind_ok.1 steps
  obtain ⟨-, rfl⟩ := steps_check.1 checking
  obtain ⟨_, mid, checking, steps⟩ := steps_bind_ok.1 steps
  obtain ⟨-, rfl⟩ := steps_check.1 checking
  obtain ⟨reused, mid, reusing, steps⟩ := steps_bind_ok.1 steps
  cases reused with
  | some reused =>
      obtain ⟨same, -⟩ := steps_pure.1 steps
      obtain rfl := Except.ok.inj same
      exact absurd (reused_lt reusing) (Nat.not_lt.2 new)
  | none => exact ⟨request, checkGroupArguments_eq_ok.1 accepted, (steps_installGroup steps).2⟩

/-- A handle matches the requests that agree with its own, if the durable group has no
other explicit starts. -/
theorem matches_iff {specs specs' : List (List TopicKey)} {options options' : ConsumerGroupOptions}
    {request' : GroupRequest} {consumer : GroupConsumer} {group : OffsetGroup}
    (accepted : RequestAccepted groupID specs options request)
    (accepted' : RequestAccepted groupID specs' options' request')
    (installed : Installed groupID request handle w)
    (found : w.1.groupHandles[handle]? = some consumer)
    (found' : w.1.offsetsState.groups[groupID]? = some group) :
    groupConsumerMatches consumer group request' = true ↔
      request.Agrees request' ∧ group.explicitStarts = request.starts := by
  obtain ⟨generation, made⟩ := installed.made
  obtain ⟨_, again, start, starts⟩ := installed.policy
  obtain rfl := Option.some.inj (found'.symm.trans again)
  rw [Store.snapshots, List.getElem?_map, found, Option.map_some, Option.some.injEq] at made
  have members : consumer.membership = request.members := congrArg Snapshot.membership made
  have fetch : consumer.fetch = request.options.fetch := congrArg Snapshot.fetch made
  have timeout : consumer.progressTimeout = request.options.progressTimeout :=
    congrArg Snapshot.progressTimeout made
  simp only [groupConsumerMatches, decide_eq_true_eq, members, fetch, timeout, start]
  constructor
  · rintro ⟨sameMembers, sameFetch, sameTimeout, sameStart, durable⟩
    have equal : request.starts = request'.starts := by
      by_cases explicit : request.options.start = groupStartExplicit
      · -- Both name the keys of the same members, and the group has the values of both.
        have keys : request.keys = request'.keys := by
          rw [accepted.keys_eq, accepted'.keys_eq]
          rw [accepted.members_eq, accepted'.members_eq, canonicalForm_eq_iff] at sameMembers
          exact addKeys_perm (nested_flatten sameMembers) ∅
        have covered := accepted.covered explicit
        have covered' := accepted'.covered (sameStart ▸ explicit)
        apply ExtTreeMap.ext_getElem?
        intro key
        cases asked : request.starts[key]? with
        | some next =>
            rw [← durable]
            exact (getElem?_of_startsMatch (starts explicit) asked).symm
        | none =>
            have absent : key ∉ request'.starts := by
              rw [mem_iff_of_sameKeySet covered', ← keys, ← mem_iff_of_sameKeySet covered,
                ← ExtTreeMap.isSome_getElem?_iff_mem, asked]
              simp
            rw [← ExtTreeMap.isSome_getElem?_iff_mem, Option.not_isSome_iff_eq_none] at absent
            exact absent.symm
      · have none := accepted.unneeded explicit
        have none' := accepted'.unneeded (sameStart ▸ explicit)
        rw [← ExtTreeMap.eq_empty_iff_size_eq_zero] at none none'
        rw [none, none']
    exact ⟨⟨sameMembers, sameStart, equal, sameFetch, sameTimeout⟩, durable.trans equal.symm⟩
  · rintro ⟨agrees, durable⟩
    exact ⟨agrees.members, agrees.fetch, agrees.timeout, agrees.start,
      durable.trans agrees.starts⟩

end Coalescing

/-- A request that asks for the same as the one that made a live handle returns that handle
and changes nothing, exactly if the durable group has the same explicit starts.  A request
that asks for anything else never returns the handle. -/
theorem coalesces_iff {groupID : Bytes} {specs specs' : List (List TopicKey)}
    {options options' : ConsumerGroupOptions} {clock clock' : Clock} {draws draws' : ConsumerDraws}
    {w₀ w₁ w₂ w₃ : World} {handle : Nat} {r : Except GoError Nat}
    (installing : Steps FS.device (Store.openConsumerGroup groupID specs options clock draws) w₀
      (.ok handle) w₁)
    (new : w₀.1.groupHandles.length ≤ handle) (run : StoreRun w₁ w₂)
    (live : w₂.1.LiveGroup groupID handle clock')
    (again : Steps FS.device (Store.openConsumerGroup groupID specs' options' clock' draws') w₂
      r w₃) :
    (SameRequest specs options specs' options' →
        ((r = .ok handle ∧ w₃ = w₂) ↔
          w₂.1.durableStarts groupID = some (mapOf options.explicitStarts))) ∧
      (¬ SameRequest specs options specs' options' → r ≠ .ok handle) := by
  obtain ⟨request, accepted, made⟩ := steps_openConsumerGroup installing new
  have installed : Installed groupID request handle w₂ := made.keeps (KeepsGroups.rules.run run)
  rcases steps_check_bind.1 again with ⟨request', arguments, steps⟩ | ⟨e, refused, rfl, rfl⟩
  swap
  · refine ⟨fun same => ?_, fun _ => by simp⟩
    obtain ⟨request', accepted'⟩ := accepted.again same
    rw [checkGroupArguments_eq_ok.2 accepted'] at refused
    cases refused
  have accepted' := checkGroupArguments_eq_ok.1 arguments
  rw [steps_read_bind] at steps
  have taken := live.1
  have notClosing : w₂.1.closing = false := by
    simp only [Store.checkOffsets, Store.checkOpen, bind_eq_ok, failIf_eq_ok, exists_const,
      Bool.not_eq_true] at taken
    exact taken.1.2
  rcases steps_check_bind.1 steps with ⟨_, -, steps⟩ | ⟨e, refused, -⟩
  swap
  · simp [notClosing, failIf] at refused
  rcases steps_check_bind.1 steps with ⟨_, -, steps⟩ | ⟨e, refused, -⟩
  swap
  · rw [taken] at refused
    cases refused
  rcases steps_bind.1 steps with ⟨reused, mid, reusing, steps⟩ | ⟨e, -, failed⟩
  swap
  · obtain ⟨-, _, _, -, -, wrong⟩ := steps_reusableGroupConsumer live failed
    cases wrong
  obtain ⟨rfl, consumer, group, found, found', same⟩ := steps_reusableGroupConsumer live reusing
  have iff := matches_iff accepted accepted' installed found found'
  have durable : mid.1.durableStarts groupID = some (mapOf options.explicitStarts) ↔
      group.explicitStarts = request.starts := by
    rw [Store.durableStarts, found', accepted.starts_eq]
    simp
  have inside : handle < mid.1.groupHandles.length := (List.getElem?_eq_some_iff.1 found).1
  rw [durable, ← accepted.agrees_iff accepted']
  by_cases matched : groupConsumerMatches consumer group request' = true
  · obtain ⟨agrees, starts⟩ := iff.1 matched
    rw [if_pos matched] at same
    obtain rfl := Except.ok.inj same
    obtain ⟨rfl, rfl⟩ := steps_pure.1 steps
    exact ⟨fun _ => ⟨fun _ => starts, fun _ => ⟨rfl, rfl⟩⟩, fun differs => absurd agrees differs⟩
  · rw [if_neg matched] at same
    obtain rfl := Except.ok.inj same
    have other : r ≠ .ok handle := by
      rintro rfl
      exact absurd inside (Nat.not_lt.2 (steps_installGroup steps).1)
    refine ⟨fun agrees => ⟨fun both => absurd both.1 other, fun starts => ?_⟩, fun _ => other⟩
    exact absurd (iff.2 ⟨agrees, starts⟩) matched

/-! ### A request that is installed twice -/

/-- A log to which events are appended without faults. -/
def logged (topic : TopicID) : List Bytes → Partition × Dir Name → Partition × Dir Name
  | [], log => log
  | value :: rest, (p, d) =>
      match Prog.run Dir.device (appendBatch p (systemBatch topic p.logEnd value) 0 true) d with
      | (.ok (p', _), d') => logged topic rest (p', d')
      | (.error _, d') => (p, d')

/-- How the first segment of a partition is recorded in the catalog. -/
def PartitionSpec.anchor (spec : PartitionSpec) (drawn : SegmentID) : EventAnchor :=
  ⟨(spec.firstHeader drawn).id, segmentHeaderHash (spec.firstHeader drawn).bytes⟩

namespace TwoPartitions

variable (config : PartitionConfigV1) (options : StoreOptions)

def keyA : TopicKey := ⟨7, 0⟩
def keyB : TopicKey := ⟨7, 1⟩

def catalogSpec : PartitionSpec :=
  firstSpec ⟨clusterMetadataTopicID, 0⟩ (by decide) systemPartitionConfig

def offsetsSpec : PartitionSpec :=
  firstSpec ⟨consumerOffsetsTopicID, 0⟩ (by decide) systemPartitionConfig

def specA : PartitionSpec := firstSpec keyA (by decide) config
def specB : PartitionSpec := firstSpec keyB (by decide) config

def initialized : StoreInitializedEvent :=
  ⟨1, catalogSpec.anchor 1, offsetsSpec.anchor 2, systemPartitionConfig, systemPartitionConfig⟩

/-- The topic of both partitions. -/
def topic : TopicCreatedEvent :=
  ⟨1, 1, 7, ascii ['t'],
    [⟨0, config, (specA config).anchor 3⟩, ⟨1, config, (specB config).anchor 4⟩]⟩

def catalog : CatalogProjection :=
  (newCatalogProjection.after 0 (.storeInitialized initialized)).after 1
    (.topicCreated (topic config))

/-- The catalog log with both events. -/
def catalogLog : Partition × Dir Name :=
  logged clusterMetadataTopicID [envelope eventStoreInitialized initialized.bytes,
    envelope eventTopicCreated (topic config).bytes]
      (catalogSpec.fresh ∅ 1, catalogSpec.created ∅ 1)

/-- A store without groups whose partitions are open; the second one is new. -/
def store (a : Partition) : Store where
  storeID := 1
  options := options
  metadataGeneration := 0
  catalog := (catalogLog config).1
  offsets := offsetsSpec.fresh ∅ 2
  catalogState := catalog config
  offsetsState := newOffsetsProjection 1
  partitions := mapOf [(keyA, a), (keyB, (specB config).fresh ∅ 4)]
  retentionPartitions := ∅
  consumerHandles := []
  consumers := fun _ _ => none
  groupHandles := []
  groupConsumers := fun _ => none
  expiredGroups := fun _ => false
  metadataUnavailable := false
  offsetsUnavailable := false
  closed := false
  closing := false

/-- The directories of the store. -/
def tree (a : Dir Name) : FS Name := fun path =>
  if path = clusterMetadataDir then some (catalogLog config).2
  else if path = consumerOffsetsDir then some (offsetsSpec.created ∅ 2)
  else if path = userPath keyA then some a
  else if path = userPath keyB then some ((specB config).created ∅ 4)
  else if path ∈ [[], [.system], [.system, .clusterMetadata], [.system, .consumerOffsets],
      topicsPath, topicPath 7] then some ∅
  else none

def world (a : Partition × Dir Name) : World :=
  (store config options a.1, tree config a.2)

def name : Bytes := ascii ['g']

/-- Explicit starts at zero for some keys, and defaults otherwise. -/
def explicitAt (keys : List TopicKey) : ConsumerGroupOptions :=
  ⟨groupStartExplicit, keys.map fun key => (key, 0), ⟨⟨0, 0⟩, 0⟩, 0⟩

def atStart : Clock := ⟨0, none⟩

def drawing (session : Session) : ConsumerDraws :=
  ⟨fun _ => 0, fun _ => session, 0, 0, id, fun _ => .refl _⟩

/-- Both partitions are new, and there is no group. -/
def start : World :=
  world systemPartitionConfig .defaults
    ((specA systemPartitionConfig).fresh ∅ 3, (specA systemPartitionConfig).created ∅ 3)

set_option maxRecDepth 10000 in
/-- The group has explicit starts for two keys, and a request for one of them is installed.
The same request again is not served by its live handle, but appends another assignment. -/
theorem equivalent_request_installed_again : ∃ w₁ w₂ w₃,
    Steps FS.device (Store.openConsumerGroup name [[keyA, keyB]] (explicitAt [keyA, keyB]) atStart
      (drawing 9)) start (.ok 0) w₁ ∧
    Steps FS.device (Store.openConsumerGroup name [[keyA]] (explicitAt [keyA]) atStart
      (drawing 10)) w₁ (.ok 1) w₂ ∧
    w₂.1.LiveGroup name 1 atStart ∧
    Steps FS.device (Store.openConsumerGroup name [[keyA]] (explicitAt [keyA]) atStart
      (drawing 11)) w₂ (.ok 2) w₃ ∧
    w₃.1.offsets.logEnd = w₂.1.offsets.logEnd + 1 := by
  have found : ∃ x ∈ run? FS.device (Store.openConsumerGroup name [[keyA, keyB]]
        (explicitAt [keyA, keyB]) atStart (drawing 9)) start, x.1 = 0 ∧
      ∃ y ∈ run? FS.device (Store.openConsumerGroup name [[keyA]] (explicitAt [keyA]) atStart
        (drawing 10)) x.2, y.1 = 1 ∧ y.2.1.LiveGroup name 1 atStart ∧
      ∃ z ∈ run? FS.device (Store.openConsumerGroup name [[keyA]] (explicitAt [keyA]) atStart
        (drawing 11)) y.2, z.1 = 2 ∧ z.2.1.offsets.logEnd = y.2.1.offsets.logEnd + 1 := by
    decide +kernel
  obtain ⟨⟨_, w₁⟩, first, rfl, ⟨_, w₂⟩, second, rfl, live, ⟨_, w₃⟩, third, rfl, longer⟩ := found
  exact ⟨w₁, w₂, w₃, steps_of_run? first, steps_of_run? second, live, steps_of_run? third, longer⟩

/-- The first request with everything in another order and its defaults spelled out. -/
def reordered : ConsumerGroupOptions :=
  ⟨groupStartExplicit, [(keyB, 0), (keyA, 0)], ⟨⟨defaultFetchRecords, defaultFetchBytes⟩, 0⟩,
    defaultConsumerProgressTimeout⟩

theorem same_reordered :
    SameRequest [[keyA, keyB]] (explicitAt [keyA, keyB]) [[keyB, keyA]] reordered where
  members := by
    have swapped : Multiset.ofList [keyA, keyB] = Multiset.ofList [keyB, keyA] :=
      Multiset.coe_eq_coe.2 (.swap _ _ _)
    simp [nested, swapped]
  start := rfl
  starts := .swap _ _ _
  fetch := rfl
  timeout := rfl

/-- The second request gets the handle that the first one has, and writes nothing. -/
theorem reordered_request_coalesces : ∃ w,
    Steps FS.device (Store.openConsumerGroup name [[keyA, keyB]] (explicitAt [keyA, keyB]) atStart
      (drawing 9)) start (.ok 0) w ∧ w.1.LiveGroup name 0 atStart ∧
    Steps FS.device (Store.openConsumerGroup name [[keyB, keyA]] reordered atStart (drawing 10)) w
      (.ok 0) w ∧
    w.1.durableStarts name = some (mapOf [(keyA, 0), (keyB, 0)]) := by
  have found : ∃ x ∈ run? FS.device (Store.openConsumerGroup name [[keyA, keyB]]
        (explicitAt [keyA, keyB]) atStart (drawing 9)) start, x.1 = 0 ∧
      x.2.1.LiveGroup name 0 atStart ∧
      x.2.1.durableStarts name = some (mapOf [(keyA, 0), (keyB, 0)]) ∧
      ∃ y ∈ run? FS.device (Store.openConsumerGroup name [[keyB, keyA]] reordered atStart
        (drawing 10)) x.2, y.1 = 0 := by
    decide +kernel
  obtain ⟨⟨_, w⟩, first, rfl, live, starts, ⟨_, w'⟩, again, rfl⟩ := found
  have first := steps_of_run? first
  have again := steps_of_run? again
  -- The theorem tells that the second request has changed nothing.
  obtain ⟨-, rfl⟩ :=
    ((coalesces_iff first (Nat.le_refl 0) .refl live again).1 same_reordered).2 starts
  exact ⟨_, first, live, again, starts⟩

end TwoPartitions

/-! ## Topics and progress -/

/-- Topics, groups and progress stay, and boundaries and positions only move up. -/
structure KeepsHistory (w w' : World) : Prop where
  topics : w.1.catalogState.Advances w'.1.catalogState
  groups : w.1.offsetsState.Keeps w'.1.offsetsState
  sound : w.1.offsetsState.Sound → w'.1.offsetsState.Sound

namespace KeepsHistory

/-- What changes neither projection keeps their history. -/
theorem of_same {w w' : World} (topics : w'.1.catalogState = w.1.catalogState)
    (groups : w'.1.offsetsState = w.1.offsetsState) : KeepsHistory w w' :=
  ⟨topics ▸ .refl _, groups ▸ .refl _, groups ▸ id⟩

/-- An event is applied only if it continues the history; all else leaves both projections. -/
theorem rules : SystemRules KeepsHistory where
  composes := ⟨fun _ => of_same rfl rfl, fun first second => ⟨first.topics.trans second.topics,
    first.groups.trans second.groups, second.sound ∘ first.sound⟩⟩
  user frame := of_same (congrArg SystemPart.catalogState frame.memory)
    (congrArg SystemPart.offsetsState frame.memory)
  fenceMetadata _ := of_same rfl rfl
  fenceOffsets _ := of_same rfl rfl
  unappended steps := by
    obtain ⟨catalog, memory⟩ := memory_appendCatalog steps
    exact of_same (by rw [memory]) (by rw [memory])
  applied appending _ applying := by
    obtain ⟨catalog, memory⟩ := memory_appendCatalog appending
    rcases steps_applyCatalog applying with ⟨e, wrong, -⟩ | ⟨state, -, rfl, applied⟩
    · cases wrong
    · obtain ⟨event, -, accepted, rfl⟩ := CatalogProjection.apply_eq_ok.1 applied
      rw [memory] at accepted ⊢
      exact ⟨CatalogProjection.advances_after accepted, .refl _, id⟩
  unapplied appending _ applying := by
    obtain ⟨catalog, memory⟩ := memory_appendCatalog appending
    rcases steps_applyCatalog applying with ⟨e, -, rfl, -⟩ | ⟨state, wrong, -⟩
    · rw [memory]
      exact of_same rfl rfl
    · cases wrong
  offsetsEvent eventType body drawn w r w' steps := by
    cases steps_appendOffsetsEventLocked steps with
    | refused => exact of_same rfl rfl
    | unappended _ _ appending =>
        obtain ⟨offsets, memory⟩ := memory_appendOffsets appending
        exact of_same (by rw [memory]) (by rw [memory])
    | unapplied _ _ appending _ =>
        obtain ⟨offsets, memory⟩ := memory_appendOffsets appending
        rw [memory]
        exact of_same rfl rfl
    | applied _ _ appending applied =>
        obtain ⟨offsets, memory⟩ := memory_appendOffsets appending
        obtain ⟨event, -, accepted, rfl⟩ := OffsetsProjection.apply_eq_ok.1 applied
        rw [memory] at accepted ⊢
        exact ⟨.refl _, OffsetsProjection.keeps_after accepted, (·.after accepted)⟩

end KeepsHistory

/-- Along every run of the store's operations, failed ones included, topics and groups stay, and log
starts and committed positions only move up. -/
theorem history_kept {w w' : World} (run : StoreRun w w') : KeepsHistory w w' :=
  KeepsHistory.rules.run run

/-- The run that creates the first group, and what it has kept. -/
theorem TwoPartitions.first_request_history : ∃ w : World, w.1.groupHandles.length = 1 ∧
    KeepsHistory start w := by
  have found : ∃ x ∈ run? FS.device (Store.openConsumerGroup name [[keyA, keyB]]
        (explicitAt [keyA, keyB]) atStart (drawing 9)) start, x.1 = 0 ∧
      x.2.1.groupHandles.length = 1 := by
    decide +kernel
  obtain ⟨⟨_, w⟩, first, rfl, count⟩ := found
  exact ⟨w, count, history_kept (.single ⟨.openConsumerGroup .., .ok (),
    steps_bind_ok.2 ⟨0, w, steps_of_run? first, steps_pure.2 ⟨rfl, rfl⟩⟩⟩)⟩

end Immulog
