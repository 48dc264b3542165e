import Immulog.Consumers
import Immulog.Retention

/-!
What the calls of a store leave alone.

`UserFrame` relates two worlds in which the system logs are the same: their partitions
and projections in memory, the fences, and every directory under `system`.  The handles
of groups only become more, and those that are there stay what they were made as.  All
the procedures that do not append a system event stay inside it.
-/

namespace Immulog

open Lib Proc

/-- A store and its tree of files. -/
abbrev World := Store × FS Name

/-- The part of a store that belongs to the system logs. -/
structure SystemPart where
  storeID : StoreID
  options : StoreOptions
  metadataGeneration : UInt64
  catalog : Partition
  offsets : Partition
  catalogState : CatalogProjection
  offsetsState : OffsetsProjection
  metadataUnavailable : Bool
  offsetsUnavailable : Bool

def Store.system (s : Store) : SystemPart :=
  { s with }

/-- What a handle of a group is made with and keeps. -/
structure Snapshot where
  groupID : Bytes
  generation : UInt64
  fetch : PollOptions
  progressTimeout : Int
  membership : List (List TopicKey)

def GroupConsumer.snapshot (consumer : GroupConsumer) : Snapshot :=
  { consumer with }

def Store.snapshots (s : Store) : List Snapshot :=
  s.groupHandles.map GroupConsumer.snapshot

/-- The system logs are as they were, and so are the handles given out so far. -/
structure UserFrame (w w' : World) : Prop where
  memory : w'.1.system = w.1.system
  files : ∀ path, path.head? = some Name.system → w'.2 path = w.2 path
  handles : w.1.snapshots <+: w'.1.snapshots

/-- The frame of user calls is kept by calls one after the other. -/
theorem quietly : Composes UserFrame where
  refl _ := ⟨rfl, fun _ _ => rfl, List.prefix_refl _⟩
  trans first second := ⟨second.memory.trans first.memory,
    fun path system => (second.files path system).trans (first.files path system),
    first.handles.trans second.handles⟩

/-! ## Operations outside of the system directories -/

/-- An operation that does not touch a system directory. -/
def UserOp (o : FsOp Name) : Prop :=
  ∀ path ∈ o.dirs, path.head? ≠ some .system

/-- Outside of the system directory any operation is a user's. -/
theorem userOp_inDir {path : Path Name} (user : path.head? ≠ some .system) (o : DirOp Name) :
    UserOp (.inDir path o) := by
  intro path' mem
  obtain rfl := List.mem_singleton.1 mem
  exact user

section Programs

variable {α : Type}

/-- Programs of user operations leave the system logs alone. -/
theorem userFrame_lift {p : FsM α} (only : p.Only UserOp) :
    Within FS.device UserFrame (.lift p : StoreM α) := by
  refine within_lift fun memory s result s' ran => ⟨rfl, fun path system => ?_, List.prefix_refl _⟩
  have untouched : p.Only fun o => path ∉ o.dirs := only.mono fun o user mem => user path mem system
  exact FS.runs_frame untouched ran

/-- A change of the store's memory that adds handles, or none. -/
theorem userFrame_extend {f : Store → Store} (same : ∀ s, (f s).system = s.system)
    (handles : ∀ s, s.snapshots <+: (f s).snapshots) :
    Within FS.device UserFrame (.update f : StoreM Unit) :=
  within_update fun w => ⟨same w.1, fun _ _ => rfl, handles w.1⟩

theorem userFrame_update {f : Store → Store}
    (same : ∀ s, ((f s).system, (f s).snapshots) = (s.system, s.snapshots)) :
    Within FS.device UserFrame (.update f : StoreM Unit) := by
  refine userFrame_extend (fun s => (Prod.mk.inj (same s)).1) fun s => ?_
  exact (Prod.mk.inj (same s)).2 ▸ List.prefix_refl _

/-- Making a path makes directories of its fronts only. -/
theorem only_mkdirAllFrom {P : FsOp Name → Prop} {front path : Path Name}
    (allowed : ∀ before name, before ++ [name] <+: front ++ path → P (.mkdir before name)) :
    (mkdirAllFrom front path).Only P := by
  induction path generalizing front with
  | nil => exact Prog.only_pure
  | cons name rest ih =>
      have split : front ++ name :: rest = front ++ [name] ++ rest := by simp
      have later : (mkdirAllFrom (front ++ [name]) rest).Only P :=
        ih fun before name' inside => allowed before name' (by rw [split]; exact inside)
      refine Prog.only_get.bind fun fs => ?_
      dsimp only
      split
      · have here := allowed front name (by rw [split]; exact List.prefix_append ..)
        exact (Prog.only_perform here).bind fun _ => later
      · exact later

/-- Making a directory under `topics` does not touch a system directory. -/
theorem only_mkdirAll {rest : Path Name} : (mkdirAll (.topics :: rest)).Only UserOp := by
  refine only_mkdirAllFrom fun before name inside path mem => ?_
  have front : path <+: .topics :: rest := by
    rw [List.nil_append] at inside
    rcases List.mem_cons.1 mem with rfl | last
    · exact (List.prefix_append _ _).trans inside
    · obtain rfl := List.mem_singleton.1 last
      exact inside
  cases path with
  | nil => simp
  | cons first path =>
      obtain ⟨rfl, -⟩ := List.cons_prefix_cons.1 front
      simp

theorem only_syncDir {path : Path Name} (user : path.head? ≠ some .system) (detail : String) :
    (syncDir path detail).Only UserOp :=
  Prog.only_perform (userOp_inDir user _)

/-- Whatever a partition does in a directory of a user, it does there. -/
theorem only_user {path : Path Name} (user : path.head? ≠ some .system) (p : DirM α) :
    (p.atPath path).Only UserOp :=
  Prog.only_atPath fun o => userOp_inDir user o

/-- No topic is kept under the system directory. -/
theorem userPath_head (key : TopicKey) : (userPath key).head? ≠ some .system := by
  simp [userPath, partitionPath]

theorem only_mkdirAndSyncPartition (key : TopicKey) : (mkdirAndSyncPartition key).Only UserOp :=
  only_mkdirAll.bind fun _ => (only_syncDir (by simp [topicPath]) _).bind fun _ =>
    only_syncDir (userPath_head key) _

/-- Opening a partition reads and writes its own directory. -/
theorem only_openPartitionAt {path : Path Name} (user : path.head? ≠ some .system)
    (drawn : SegmentID) (key : TopicKey) (options : PartitionOptions) (storeID : StoreID) :
    (openPartitionAt path drawn key options storeID).Only UserOp := by
  refine Prog.only_get.bind fun fs => ?_
  split
  · exact Prog.only_ofExcept
  · exact only_user user _

theorem only_prepareTopicStorage (topic : TopicID) : (prepareTopicStorage topic).Only UserOp := by
  have user : (topicPath topic).head? ≠ some .system := by simp [topicPath]
  exact only_mkdirAll.bind fun _ => (only_syncDir (by simp) _).bind fun _ =>
    (only_syncDir (by simp [topicsPath]) _).bind fun _ => (only_syncDir user _).bind fun _ =>
      (only_user user _).bind fun _ => only_syncDir user _

/-- Preparing the partitions of a new topic, however far it gets. -/
theorem only_preparePartitions (topic : TopicID) (options : PartitionOptions) (storeID : StoreID)
    (draw : Nat → SegmentID) (count index : Nat) (prepared : List Partition) :
    (preparePartitions topic options storeID draw count index prepared).Only UserOp := by
  induction count generalizing index prepared with
  | zero => exact Prog.only_pure
  | succ count ih =>
      refine Prog.Only.bind (Prog.Only.attempt ?_) fun outcome => ?_
      · exact only_mkdirAll.bind fun _ =>
          only_openPartitionAt (by simp [partitionPath]) _ _ _ _
      · split
        · exact Prog.only_pure
        · exact ih _ _

end Programs

/-! ## Procedures on user partitions -/

/-- The procedure never touches the system logs. -/
abbrev Quiet {α : Type} (m : StoreM α) : Prop :=
  Within FS.device UserFrame m

namespace Quiet

theorem setPartition (key : TopicKey) (p : Partition) : Quiet (setPartition key p) :=
  userFrame_update fun _ => rfl

/-- Closing a partition whose error nobody sees. -/
theorem closeQuietly {path : Path Name} (user : path.head? ≠ some .system) (p : Partition) :
    Quiet (closeQuietly path p) :=
  quietly.bind (Composes.attempt (userFrame_lift (only_user user _))) fun _ =>
    quietly.pure

/-- An open of a user's partition, also one that fails and removes what it has made. -/
theorem openUserPartition (key : TopicKey) (options : PartitionOptions)
    (anchor : Option TopicPartition) (drawn : SegmentID) :
    Quiet (openUserPartition key options anchor drawn) := by
  refine quietly.bind quietly.read fun s => ?_
  refine quietly.bind
    (userFrame_lift (only_openPartitionAt (userPath_head key) _ _ _ _)) fun opened => ?_
  split
  · exact quietly.bind (closeQuietly (userPath_head key) _) fun _ =>
      quietly.fail
  · exact quietly.bind (userFrame_update fun _ => rfl) fun _ => quietly.pure

/-- Making room among the open partitions. -/
theorem claimPartitionLocked (key : TopicKey) : Quiet (claimPartitionLocked key) := by
  refine quietly.bind quietly.read fun s => ?_
  split
  · exact quietly.pure
  · exact quietly.pure
  · exact quietly.fail
  · exact quietly.bind (userFrame_update fun _ => rfl) fun _ => quietly.pure

theorem openPartition (key : TopicKey) (options : OpenOptions) (drawn : SegmentID) :
    Quiet (Store.openPartition key options drawn) := by
  refine quietly.bind quietly.check fun _ => ?_
  refine quietly.bind quietly.check fun _ => ?_
  refine quietly.bind quietly.read fun s => ?_
  refine quietly.bind quietly.check fun _ => ?_
  refine quietly.bind quietly.check fun resolved => ?_
  refine quietly.bind (claimPartitionLocked key) fun claimed => ?_
  split
  · exact quietly.pure
  · refine quietly.bind quietly.check fun _ => ?_
    exact quietly.bind (userFrame_lift (only_mkdirAndSyncPartition key)) fun _ =>
      openUserPartition _ _ _ _

theorem openTopicPartition (key : TopicKey) (descriptor : TopicPartition) (drawn : SegmentID) :
    Quiet (openTopicPartition key descriptor drawn) := by
  refine quietly.bind (claimPartitionLocked key) fun claimed => ?_
  split
  · exact quietly.pure
  · exact openUserPartition _ _ _ _

theorem openTopicPartitions (topic : TopicID) (draw : Nat → SegmentID) (index : Nat)
    (descriptors : List TopicPartition) :
    Quiet (openTopicPartitions topic draw index descriptors) := by
  induction descriptors generalizing index with
  | nil => exact quietly.pure
  | cons descriptor rest ih =>
      refine quietly.bind (openTopicPartition _ _ _) fun p => ?_
      exact quietly.bind (ih _) fun _ => quietly.pure

/-- `OpenTopic` opens partitions, but no event is written for it. -/
theorem openTopic (name : Bytes) (draw : Nat → SegmentID) : Quiet (Store.openTopic name draw) := by
  refine quietly.bind quietly.read fun s => ?_
  refine quietly.bind quietly.check fun _ => ?_
  split
  · refine quietly.bind quietly.check fun _ => ?_
    exact quietly.bind quietly.check fun _ => openTopicPartitions _ _ _ _
  · exact quietly.fail

theorem openConsumerPartitionLocked (key : TopicKey) (drawn : SegmentID) :
    Quiet (openConsumerPartitionLocked key drawn) := by
  refine quietly.bind quietly.read fun s => ?_
  split
  · split
    · refine quietly.bind (claimPartitionLocked key) fun claimed => ?_
      split
      · exact quietly.pure
      · refine quietly.bind quietly.check fun _ => ?_
        exact quietly.bind (userFrame_lift (only_mkdirAndSyncPartition key)) fun _ =>
          openUserPartition _ _ _ _
    · exact quietly.fail
  · exact quietly.fail

/-- Retention opens a partition of its own if no caller has it open. -/
theorem openRetentionPartition (key : TopicKey) (drawn : SegmentID) :
    Quiet (openRetentionPartition key drawn) := by
  refine quietly.bind quietly.read fun s => ?_
  refine quietly.bind quietly.check fun _ => ?_
  refine quietly.bind quietly.check fun _ => ?_
  split
  · exact quietly.pure
  · split
    · refine quietly.bind quietly.check fun _ => ?_
      refine quietly.bind (openUserPartition _ _ _ _) fun p => ?_
      exact quietly.bind (userFrame_update fun _ => rfl) fun _ =>
        quietly.pure
    · exact quietly.fail

theorem beginReleaseRetention (key : TopicKey) : Quiet (beginReleaseRetention key) := by
  refine quietly.bind quietly.read fun s => ?_
  split
  · exact quietly.bind (userFrame_update fun _ => rfl) fun _ => quietly.pure
  · exact quietly.pure

theorem finishReleaseRetention (key : TopicKey) : Quiet (finishReleaseRetention key) := by
  refine quietly.bind quietly.read fun s => ?_
  split
  · exact quietly.bind (closeQuietly (userPath_head key) _) fun _ =>
      userFrame_update fun _ => rfl
  · exact quietly.pure

theorem closePrepared (prepared : List Partition) : Quiet (closePrepared prepared) := by
  induction prepared with
  | nil => exact quietly.pure
  | cons opened rest ih =>
      exact quietly.bind (closeQuietly (by simp [partitionPath]) _) fun _ => ih

/-! ## Consumers -/

/-- Looking a group up. -/
theorem currentGroup (groupID : Bytes) : Quiet (currentGroup groupID) := by
  refine quietly.bind quietly.read fun s => ?_
  split
  · exact quietly.pure
  · exact quietly.fail

theorem assignmentReason (groupID : Bytes) (group : OffsetGroup) (live : Bool) :
    Quiet (assignmentReason groupID group live) := by
  refine quietly.bind quietly.read fun s => ?_
  split
  · exact quietly.bind (userFrame_update fun _ => rfl) fun _ => quietly.pure
  · split
    · exact quietly.pure
    · split
      · exact quietly.pure
      · exact quietly.pure

theorem addConsumer (groupID : Bytes) (key : TopicKey) (consumer : Consumer) :
    Quiet (addConsumer groupID key consumer) :=
  quietly.bind quietly.read fun _ =>
    quietly.bind (userFrame_update fun _ => rfl) fun _ => quietly.pure

theorem addGroupConsumer (consumer : GroupConsumer) : Quiet (addGroupConsumer consumer) :=
  quietly.bind quietly.read fun _ => quietly.bind
    (userFrame_extend (fun _ => rfl) fun s => by simp [Store.snapshots]) fun _ => quietly.pure

/-- A live group that fits the request is handed out again. -/
theorem reusableGroupConsumer (groupID : Bytes) (request : GroupRequest) (clock : Clock) :
    Quiet (reusableGroupConsumer groupID request clock) := by
  refine quietly.bind quietly.read fun s => ?_
  split
  · exact quietly.pure
  · split
    · exact quietly.pure
    · dsimp only
      split
      · refine quietly.bind (userFrame_update fun _ => rfl) fun _ => ?_
        split
        · exact quietly.pure
        · exact quietly.pure
      · split
        · exact quietly.pure
        · exact quietly.pure

theorem checkStarts (draw : TopicKey → SegmentID) (starts : List (TopicKey × UInt64)) :
    Quiet (checkStarts draw starts) := by
  induction starts with
  | nil => exact quietly.pure
  | cons entry rest ih =>
      refine quietly.bind (openConsumerPartitionLocked _ _) fun p => ?_
      exact quietly.bind quietly.check fun _ => ih

/-- The positions of the keys of an assignment are read, or looked up in their logs. -/
theorem assignKeys (group : OffsetGroup) (start : UInt8) (draw : TopicKey → SegmentID)
    (keys : List (Session × TopicKey)) : Quiet (assignKeys group start draw keys) := by
  induction keys with
  | nil => exact quietly.pure
  | cons entry rest ih =>
      refine quietly.bind (openConsumerPartitionLocked _ _) fun p => ?_
      exact quietly.bind quietly.check fun _ => quietly.bind ih fun _ => quietly.pure

theorem setConsumer (handle : Nat) (f : Consumer → Consumer) : Quiet (setConsumer handle f) :=
  userFrame_update fun _ => rfl

theorem consumerAt (handle : Nat) : Quiet (consumerAt handle) := by
  refine quietly.bind quietly.read fun s => ?_
  split
  · exact quietly.pure
  · exact quietly.fail

/-- The checks that a consumer is still active. -/
theorem activePartitionLocked (handle : Nat) (clock : Clock) :
    Quiet (activePartitionLocked handle clock) := by
  refine quietly.bind (consumerAt handle) fun consumer => ?_
  refine quietly.bind quietly.read fun s => ?_
  refine quietly.bind quietly.check fun _ => ?_
  refine quietly.bind quietly.check fun _ => ?_
  split
  · refine quietly.bind (setConsumer handle _) fun _ => ?_
    exact quietly.bind (userFrame_update fun _ => rfl) fun _ => quietly.fail
  · refine quietly.bind quietly.check fun _ => ?_
    refine quietly.bind quietly.check fun _ => ?_
    refine quietly.bind quietly.check fun _ => ?_
    split
    · exact quietly.fail
    · exact quietly.pure

theorem beginOperationLocked (handle : Nat) (clock : Clock) :
    Quiet (beginOperationLocked handle clock) :=
  quietly.bind (activePartitionLocked handle clock) fun _ =>
    quietly.bind (setConsumer handle _) fun _ => quietly.pure

theorem endOperationLocked (handle : Nat) (now : Int) : Quiet (endOperationLocked handle now) :=
  quietly.bind quietly.read fun _ => setConsumer handle _

/-- A fetch reads files. -/
theorem fetchPartition (key : TopicKey) (free : Bool) (offset : UInt64) (options : FetchOptions) :
    Quiet (fetchPartition key free offset options) := by
  refine quietly.bind quietly.read fun s => ?_
  split
  · exact quietly.fail
  · refine quietly.bind (userFrame_lift Prog.only_get) fun fs => ?_
    split
    · exact quietly.pure
    · dsimp only
      split
      · exact quietly.bind (setPartition key _) fun _ => quietly.fail
      · exact quietly.fail

/-- The first section of `Poll`. -/
theorem beginPoll (handle : Nat) (options : PollOptions) (clock : Clock) :
    Quiet (Consumer.beginPoll handle options clock) := by
  refine quietly.bind (consumerAt handle) fun consumer => ?_
  refine quietly.bind quietly.check fun _ => ?_
  refine quietly.bind quietly.check fun _ => ?_
  exact quietly.bind (beginOperationLocked handle clock) fun _ => quietly.pure

theorem finishPoll (handle : Nat) (result : FetchResult) (clock : Clock) :
    Quiet (Consumer.finishPoll handle result clock) :=
  quietly.bind (activePartitionLocked handle clock) fun _ => setConsumer handle _

/-- The handle of a consumer is retired when its event is in the log. -/
theorem retire (handle : Nat) (consumer : Consumer) : Quiet (Consumer.retire handle consumer) :=
  quietly.bind (setConsumer handle _) fun _ => userFrame_update fun _ => rfl

/-! ## Group consumers -/

/-- Handles of groups may change behind the snapshot that they were made with. -/
theorem setGroupConsumer (handle : Nat) {f : GroupConsumer → GroupConsumer}
    (keeps : ∀ consumer, (f consumer).snapshot = consumer.snapshot) :
    Quiet (setGroupConsumer handle f) := by
  refine userFrame_extend (fun _ => rfl) fun s => ?_
  have same : (s.groupHandles.modify handle f).map GroupConsumer.snapshot = s.snapshots := by
    refine List.ext_getElem? fun index => ?_
    simp only [Store.snapshots, List.getElem?_map, List.getElem?_modify, Option.map_eq_map,
      Option.map_map]
    refine congrArg (fun g => Option.map g s.groupHandles[index]?) (funext fun consumer => ?_)
    simp only [Function.comp_apply]
    split
    · exact keeps consumer
    · rfl
  change s.snapshots <+: (s.groupHandles.modify handle f).map GroupConsumer.snapshot
  exact same ▸ List.prefix_refl _

theorem groupConsumerAt (handle : Nat) : Quiet (groupConsumerAt handle) := by
  refine quietly.bind quietly.read fun s => ?_
  split
  · exact quietly.pure
  · exact quietly.fail

/-- The checks that a cursor of a group is still active. -/
theorem activeCursorLocked (handle : Nat) (key : TopicKey) (cursor : GroupCursor) (clock : Clock) :
    Quiet (GroupConsumer.activeCursorLocked handle key cursor clock) := by
  refine quietly.bind (groupConsumerAt handle) fun consumer => ?_
  refine quietly.bind quietly.read fun s => ?_
  refine quietly.bind quietly.check fun _ => ?_
  refine quietly.bind quietly.check fun _ => ?_
  split
  · exact quietly.bind (userFrame_update fun _ => rfl) fun _ => quietly.fail
  · refine quietly.bind quietly.check fun _ => ?_
    split
    · exact quietly.bind (userFrame_update fun _ => rfl) fun _ => quietly.fail
    · split
      · exact quietly.fail
      · refine quietly.bind quietly.check fun _ => ?_
        refine quietly.bind quietly.check fun _ => ?_
        refine quietly.bind quietly.check fun _ => ?_
        split
        · exact quietly.fail
        · exact quietly.pure

theorem beginCursorOperationLocked (handle : Nat) (key : TopicKey) (cursor : GroupCursor)
    (clock : Clock) : Quiet (GroupConsumer.beginCursorOperationLocked handle key cursor clock) :=
  quietly.bind (groupConsumerAt handle) fun _ =>
    quietly.bind (activeCursorLocked handle key cursor clock) fun _ =>
      quietly.bind (setGroupConsumer handle fun _ => rfl) fun _ =>
        quietly.bind (setGroupConsumer handle fun _ => rfl) fun _ => quietly.pure

theorem endCursorOperationLocked (handle : Nat) (key : TopicKey) (cursor : GroupCursor)
    (now : Int) : Quiet (GroupConsumer.endCursorOperationLocked handle key cursor now) :=
  quietly.bind (groupConsumerAt handle) fun _ => quietly.bind quietly.read fun _ =>
    quietly.bind (setGroupConsumer handle fun _ => rfl) fun _ =>
      setGroupConsumer handle fun _ => rfl

/-- The first section of `Poll` for a group. -/
theorem beginGroupPoll (handle : Nat) (key : TopicKey) (options : PollOptions) (clock : Clock) :
    Quiet (GroupConsumer.beginPoll handle key options clock) := by
  refine quietly.bind (groupConsumerAt handle) fun consumer => ?_
  refine quietly.bind quietly.check fun _ => ?_
  refine quietly.bind quietly.check fun _ => ?_
  refine quietly.bind quietly.check fun _ => ?_
  exact quietly.bind (beginCursorOperationLocked handle key _ clock) fun _ => quietly.pure

theorem finishGroupPoll (handle : Nat) (key : TopicKey) (cursor : GroupCursor)
    (result : FetchResult) (clock : Clock) :
    Quiet (GroupConsumer.finishPoll handle key cursor result clock) :=
  quietly.bind (activeCursorLocked handle key cursor clock) fun _ =>
    setGroupConsumer handle fun _ => rfl

theorem retireGroup (handle : Nat) (consumer : GroupConsumer) :
    Quiet (GroupConsumer.retire handle consumer) :=
  quietly.bind (setGroupConsumer handle fun _ => rfl) fun _ => userFrame_update fun _ => rfl

end Quiet

end Immulog
