import Immulog.OffsetEvents

/-!
The progress of the keys along the events of the consumer-offsets log.
-/

namespace Immulog

open Lib Std

/-! ## Keys of the catalog and of members -/

theorem mem_insertKeys {session : Session} {keys : List TopicKey} {m : ExtTreeMap TopicKey Session}
    {key : TopicKey} : key ∈ insertKeys session keys m ↔ key ∈ keys ∨ key ∈ m := by
  unfold insertKeys
  rw [contains_foldl_insert (f := fun k : TopicKey => k)]
  simp

/-- The subscribed keys are those of the members. -/
theorem mem_subscribedBy {members : List AssignmentMember} {key : TopicKey} :
    key ∈ subscribedBy members ↔ ∃ member ∈ members, key ∈ member.subscriptions := by
  induction members using List.reverseRecOn with
  | nil => simp [subscribedBy]
  | append_singleton members member ih =>
      rw [subscribedBy_concat, mem_insertKeys, ih]
      simp [or_and_right, exists_or, or_comm]

/-! ## Progress along an assignment -/

theorem progressAfter_append (progress : ExtTreeMap TopicKey OffsetProgress)
    (first second : List AssignmentEntry) :
    progressAfter progress (first ++ second) =
      progressAfter (progressAfter progress first) second := by
  simp [progressAfter]

/-- An assignment leaves the progress of other keys alone. -/
theorem getElem?_progressAfter_of_not_mem {progress : ExtTreeMap TopicKey OffsetProgress}
    {entries : List AssignmentEntry} {key : TopicKey}
    (absent : key ∉ entries.map AssignmentEntry.key) :
    (progressAfter progress entries)[key]? = progress[key]? := by
  induction entries using List.reverseRecOn with
  | nil => rfl
  | append_singleton entries entry ih =>
      rw [List.map_append, List.mem_append, not_or] at absent
      rw [progressAfter_concat]
      split
      · have other : entry.key ≠ key := fun same => absent.2 (by simp [same])
        rw [ExtTreeMap.getElem?_insert]
        simp [other, ih absent.1]
      · exact ih absent.1

variable {subscribed : ExtTreeMap TopicKey Session} {progress : ExtTreeMap TopicKey OffsetProgress}
  {entries : List AssignmentEntry}

/-- No key is assigned twice. -/
theorem nodup_assigned
    (allowed : Cursor.Allowed (AssignmentEntry.Follows subscribed progress) entries) :
    (entries.map AssignmentEntry.key).Nodup :=
  nodup_of_ascending (pairwise_of_inOrder (allowed.mono fun _ _ follows => follows.ordered))

/-- Each entry finds the progress from before the assignment and leaves a baseline. -/
theorem baseline_of_assigned {entry : AssignmentEntry}
    (allowed : Cursor.Allowed (AssignmentEntry.Follows subscribed progress) entries)
    (mem : entry ∈ entries) :
    entry.Baseline progress ∧
      (progressAfter progress entries)[entry.key]? =
        if entry.action = 1 then some ⟨entry.initial, false, 0⟩ else progress[entry.key]? := by
  have distinct := nodup_assigned allowed
  obtain ⟨done, left, rfl⟩ := List.append_of_mem mem
  have follows := allowed done entry left rfl
  rw [List.map_append, List.map_cons, List.nodup_append] at distinct
  obtain ⟨-, later, apart⟩ := distinct
  have before : entry.key ∉ done.map AssignmentEntry.key := by
    intro inside
    exact apart entry.key inside entry.key (by simp) rfl
  have same : (progressAfter progress done)[entry.key]? = progress[entry.key]? :=
    getElem?_progressAfter_of_not_mem before
  have split : done ++ entry :: left = (done ++ [entry]) ++ left := by simp
  refine ⟨?_, ?_⟩
  · simpa only [AssignmentEntry.Baseline, same] using follows.baseline
  · rw [split, progressAfter_append,
      getElem?_progressAfter_of_not_mem (List.nodup_cons.1 later).1, progressAfter_concat]
    split
    · simp
    · exact same

/-! ## Revisions -/

namespace OffsetsProjection

theorem revision_after {p : OffsetsProjection} {event : OffsetsEvent} {offset : UInt64} :
    (p.after offset event).revision = offset + 1 := by
  cases event <;> rfl

/-- An accepted record moves the revision behind itself. -/
theorem revision_apply {catalog : CatalogProjection} {p p' : OffsetsProjection}
    {record : Record} (applied : OffsetsProjection.apply catalog p record = .ok p') :
    p'.revision = record.offset + 1 := by
  obtain ⟨event, -, -, rfl⟩ := apply_eq_ok.1 applied
  exact revision_after

end OffsetsProjection

end Immulog
