import Immulog.Appending
import Immulog.Durability
import Immulog.Lib.Mirror
import Immulog.ReadBack

/-!
Partitions whose directories differ in their index files.

Index files are read when a partition is opened and written when it rolls; nothing else
looks at them.  So the same calls over the two directories go the same way, and the two
partitions differ in nothing but their indexes, which reads do not depend on.
-/

namespace Immulog

open Lib

/-- Segments that differ in their indexes. -/
def Segment.Alike (s s' : Segment) : Prop :=
  ∃ offsetIndex timeIndex indexDirty, s' = s.withIndexes offsetIndex timeIndex indexDirty

/-- Partitions that differ in the indexes of their segments. -/
def Partition.Alike (p p' : Partition) : Prop :=
  ∃ closedSegments active, p' = { p with closedSegments, active } ∧
    List.Forall₂ Segment.Alike p.closedSegments closedSegments ∧ p.active.Alike active

/-- The same files apart from index files and their temporaries. -/
def SameButSidecars : Dir Name → Dir Name → Prop :=
  Dir.Agree Name.NotIndex

/-- The two programs do the same over directories that differ in their index files. -/
def Matched {α β : Type} (Q : α → β → Prop) (m : DirM α) (m' : DirM β) : Prop :=
  Prog.Mirrors Dir.device SameButSidecars Q m m'

/-- A program that succeeds over one directory succeeds over the other. -/
theorem Matched.run {α β : Type} {Q : α → β → Prop} {m : DirM α} {m' : DirM β} {d d' e : Dir Name}
    {a : α} (matched : Matched Q m m') (same : SameButSidecars d d')
    (ran : Prog.run Dir.device m d = (.ok a, e)) :
    ∃ b e', Prog.run Dir.device m' d' = (.ok b, e') ∧ SameButSidecars e e' ∧ Q a b := by
  obtain ⟨same', results⟩ := matched d d' same
  rw [ran] at same' results
  obtain ⟨b, found, related⟩ := results.of_ok
  exact ⟨b, _, Prod.ext found rfl, same', related⟩

theorem Segment.Alike.refl (s : Segment) : s.Alike s :=
  ⟨s.offsetIndex, s.timeIndex, s.indexDirty, rfl⟩

theorem Segment.Reindexed.alike {s s' : Segment} (reindexed : s.Reindexed s') : s.Alike s' := by
  obtain ⟨offsetIndex, timeIndex, indexDirty, same, -⟩ := reindexed
  exact ⟨offsetIndex, timeIndex, indexDirty, same⟩

/-- Segments that are like a third one are alike. -/
theorem Segment.Alike.both {s t t' : Segment} (first : s.Alike t) (second : s.Alike t') :
    t.Alike t' := by
  obtain ⟨_, _, _, rfl⟩ := first
  obtain ⟨offsetIndex, timeIndex, indexDirty, rfl⟩ := second
  exact ⟨offsetIndex, timeIndex, indexDirty, rfl⟩

theorem Segment.Alike.trans {s t u : Segment} (first : s.Alike t) (second : t.Alike u) :
    s.Alike u := by
  obtain ⟨_, _, _, rfl⟩ := first
  obtain ⟨offsetIndex, timeIndex, indexDirty, rfl⟩ := second
  exact ⟨offsetIndex, timeIndex, indexDirty, rfl⟩

/-! ## Appends -/

section Appends

variable {p p' : Partition}

theorem resultsIn_failIf {c c' : Prop} [Decidable c] [Decidable c'] (same : c' ↔ c) (e : GoError) :
    ResultsIn (fun _ _ => True) (failIf c e) (failIf c' e) := by
  unfold failIf
  by_cases holds : c
  · rw [if_pos holds, if_pos (same.2 holds)]
    rfl
  · rw [if_neg holds, if_neg (mt same.1 holds)]
    trivial

theorem matched_createSegment (drawn : SegmentID) (topic : TopicID) (partition : UInt32)
    (base : UInt64) :
    Matched (fun s s' => s = s') (createSegment drawn topic partition base)
      (createSegment drawn topic partition base) := by
  unfold createSegment
  refine (Prog.mirrors_ofExcept (resultsIn_refl _)).bind fun encoded _ same => ?_
  obtain rfl := same
  have temporary : Name.NotIndex (.segmentTmp (segmentID drawn)) := trivial
  have published : Name.NotIndex (.log base) := trivial
  refine (Prog.mirrors_createSynced temporary _ _ _ _).bind fun _ _ _ => ?_
  refine Prog.mirrors_get.bind fun dir dir' agree => ?_
  refine (Prog.mirrors_ofExcept (resultsIn_failIf (agree.mem published) _)).bind fun _ _ _ => ?_
  refine (Prog.mirrors_perform (Dir.Agree.respects ?_)).bind fun _ _ _ => ?_
  · simpa [DirOp.touches] using ⟨temporary, published⟩
  refine (Prog.mirrors_perform (Dir.Agree.respects ?_)).bind fun _ _ _ => Prog.mirrors_pure rfl
  simp [DirOp.touches]

/-- Publishing indexes changes nothing else of the segment. -/
theorem installed_alike {s t : Segment} {storeID : StoreID} {stride : UInt64}
    (installed : ∃ d, .ok t = (Prog.run Dir.device (installSegmentIndexes s storeID stride) d).1) :
    s.Alike t := by
  obtain ⟨d, ended⟩ := installed
  have ran := Prog.Runs.faultFree (D := Dir.device) (installSegmentIndexes s storeID stride) d
  exact ((runs_installSegmentIndexes ran).2 t ended.symm).alike

theorem matched_rollSegment (alike : p.Alike p') (drawn : SegmentID) :
    Matched (fun r r' => r.1.Alike r'.1 ∧ r'.2 = r.2) (rollSegment p drawn)
      (rollSegment p' drawn) := by
  obtain ⟨closedSegments, active, rfl, closed, like⟩ := alike
  unfold rollSegment
  refine (matched_createSegment drawn p.topic p.partition p.logEnd).attempt_bind ?_ ?_
  · exact fun e => Prog.mirrors_pure ⟨⟨closedSegments, active, rfl, closed, like⟩, rfl⟩
  · intro rolled _ same
    obtain rfl := same
    -- The indexes of the two sides may differ, and so may what becomes of publishing them.
    refine (Prog.mirrors_hidden (fun _ visible => only_installSegmentIndexes visible)
      fun _ visible => only_installSegmentIndexes visible).bind fun i i' ends => ?_
    refine Prog.mirrors_pure ⟨⟨_, rolled, rfl, ?_, .refl rolled⟩, rfl⟩
    refine List.rel_append closed (.cons ?_ .nil)
    refine Segment.Alike.both (s := p.active) ?_ (like.trans ?_)
    · cases i with
      | ok segment => exact installed_alike ends.1
      | error e => exact .refl _
    · cases i' with
      | ok segment => exact installed_alike ends.2
      | error e => exact .refl _

theorem matched_rollIfFull (alike : p.Alike p') (encoded : Bytes) (drawn : SegmentID) :
    Matched (fun r r' => r.1.Alike r'.1 ∧ r'.2 = r.2) (rollIfFull p encoded drawn)
      (rollIfFull p' encoded drawn) := by
  have rolled := matched_rollSegment alike drawn
  have same : p'.options = p.options ∧ p'.active.size = p.active.size := by
    obtain ⟨_, _, rfl, -, _, _, _, rfl⟩ := alike
    exact ⟨rfl, rfl⟩
  unfold rollIfFull
  rw [same.1, same.2]
  split
  · exact rolled
  · exact Prog.mirrors_pure ⟨alike, rfl⟩

theorem Partition.Alike.fenced (alike : p.Alike p') : p.fenced.Alike p'.fenced := by
  obtain ⟨closedSegments, active, rfl, closed, like⟩ := alike
  exact ⟨closedSegments, active, rfl, closed, like⟩

theorem Partition.Alike.extended (alike : p.Alike p') (batch : RecordBatch) (encoded : Bytes) :
    (p.extended batch encoded).Alike (p'.extended batch encoded) := by
  obtain ⟨closedSegments, _, rfl, closed, offsetIndex, timeIndex, indexDirty, rfl⟩ := alike
  exact ⟨closedSegments, _, rfl, closed, _, _, _, rfl⟩

theorem matched_writeBatch (alike : p.Alike p') (batch : RecordBatch) (encoded : Bytes) :
    Matched (fun r r' => r.1.Alike r'.1 ∧ r'.2 = r.2) (writeBatch p batch encoded)
      (writeBatch p' batch encoded) := by
  have fenced := alike.fenced
  have extended := alike.extended batch encoded
  have same : p'.active.name = p.active.name ∧ p'.active.size = p.active.size := by
    obtain ⟨_, _, rfl, -, _, _, _, rfl⟩ := alike
    exact ⟨rfl, rfl⟩
  have visible : ∀ name ∈ [p.active.name], Name.NotIndex name := by
    intro name mem
    obtain rfl := List.mem_singleton.1 mem
    trivial
  unfold writeBatch
  rw [same.1, same.2]
  refine (Prog.mirrors_perform (Dir.Agree.respects visible)).attempt_bind ?_ ?_
  · exact fun e => Prog.mirrors_pure ⟨fenced, rfl⟩
  · intro _ _ _
    refine (Prog.mirrors_perform (Dir.Agree.respects visible)).attempt_bind ?_ ?_
    · exact fun e => Prog.mirrors_pure ⟨fenced, rfl⟩
    · exact fun _ _ _ => Prog.mirrors_pure ⟨extended, rfl⟩

theorem Partition.Alike.checkAppend (alike : p.Alike p') (batch : RecordBatch) (encoded : Bytes) :
    Immulog.checkAppend p' batch encoded = Immulog.checkAppend p batch encoded := by
  obtain ⟨_, _, rfl, -, _, _, _, rfl⟩ := alike
  rfl

/-- Appends do not depend on the indexes. -/
theorem matched_appendEncodedLocked (alike : p.Alike p') (batch : RecordBatch) (encoded : Bytes)
    (drawn : SegmentID) :
    Matched (fun r r' => r.1.Alike r'.1 ∧ r'.2 = r.2) (appendEncodedLocked p batch encoded drawn)
      (appendEncodedLocked p' batch encoded drawn) := by
  unfold appendEncodedLocked
  rw [alike.checkAppend]
  split
  · exact Prog.mirrors_pure ⟨alike, rfl⟩
  · refine (matched_rollIfFull alike encoded drawn).bind fun r r' rolled => ?_
    obtain ⟨q, outcome⟩ := r
    obtain ⟨q', outcome'⟩ := r'
    obtain ⟨like, rfl : outcome' = outcome⟩ := rolled
    cases outcome' with
    | error e => exact Prog.mirrors_pure ⟨like, rfl⟩
    | ok _ => exact matched_writeBatch like batch encoded

theorem matched_appendAndPublish (alike : p.Alike p') (batch : RecordBatch) (encoded : Bytes)
    (drawn : SegmentID) (free : Bool) :
    Matched (fun r r' => r.1.Alike r'.1 ∧ r'.2 = r.2) (appendAndPublish p batch encoded drawn free)
      (appendAndPublish p' batch encoded drawn free) := by
  unfold appendAndPublish
  refine (matched_appendEncodedLocked alike batch encoded drawn).bind fun r r' appended => ?_
  obtain ⟨q, outcome⟩ := r
  obtain ⟨q', outcome'⟩ := r'
  obtain ⟨like, rfl : outcome' = outcome⟩ := appended
  cases outcome' with
  | error e => exact Prog.mirrors_pure ⟨like, rfl⟩
  | ok offset =>
      refine Prog.mirrors_pure ⟨?_, rfl⟩
      obtain ⟨closedSegments, active, rfl, closed, like⟩ := like
      exact ⟨closedSegments, active, rfl, closed, like⟩

theorem Partition.Alike.formBatch (alike : p.Alike p') (records : List Record) :
    Immulog.formBatch p' records = Immulog.formBatch p records := by
  obtain ⟨_, _, rfl, -, -⟩ := alike
  rfl

/-- Appends that encode first do not depend on the indexes. -/
theorem matched_appendBatch (alike : p.Alike p') (given : RecordBatch) (drawn : SegmentID)
    (free : Bool) :
    Matched (fun r r' => r.1.Alike r'.1 ∧ r'.2 = r.2) (appendBatch p given drawn free)
      (appendBatch p' given drawn free) := by
  have admitted : admitBatch p' given = admitBatch p given := by
    obtain ⟨_, _, rfl, -, -⟩ := alike
    rfl
  unfold appendBatch
  rw [admitted]
  cases admitBatch p given with
  | error e => exact Prog.mirrors_pure ⟨alike, rfl⟩
  | ok encoded => exact matched_appendAndPublish alike given encoded drawn free

/-- Appends are matched, with the same outcome. -/
theorem matched_run (alike : p.Alike p') (call : AppendCall) (drawn : SegmentID) (free : Bool) :
    Matched (fun r r' => r.1.Alike r'.1 ∧ r'.2 = r.2) (call.run p drawn free)
      (call.run p' drawn free) := by
  cases call with
  | batch given =>
      unfold AppendCall.run
      refine (matched_appendBatch alike given drawn free).bind fun r r' same =>
        Prog.mirrors_pure ⟨same.1, ?_⟩
      rw [same.2]
  | requests records =>
      have formed : encodeFormed p' (formBatch p records) =
          encodeFormed p (formBatch p records) := by
        obtain ⟨_, _, rfl, -, -⟩ := alike
        rfl
      simp only [AppendCall.run, writeRequests, alike.formBatch, formed]
      split
      · exact Prog.mirrors_pure ⟨alike, rfl⟩
      · refine (matched_appendAndPublish alike _ _ drawn free).bind fun r r' same =>
          Prog.mirrors_pure ⟨same.1, ?_⟩
        rw [same.2]

end Appends

/-! ## Opening -/

section Opening

variable {topic : TopicID} {partition : UInt32} {options : PartitionOptions} {storeID : StoreID}
  {drawn : SegmentID} {d d' e : Dir Name} {p p' : Partition}

/-- Recovery does not read the indexes. -/
theorem matched_recoverSegment (base expected : UInt64) (final : Bool) :
    Matched (fun s s' => s = s') (recoverSegment base topic partition final expected)
      (recoverSegment base topic partition final expected) := by
  have visible : Name.NotIndex (.log base) := trivial
  have touched : ∀ name ∈ [Name.log base], Name.NotIndex name := by simpa using visible
  unfold recoverSegment recoverSegmentAt
  refine Prog.mirrors_get.bind fun dir dir' agree => ?_
  rw [agree.read visible]
  refine (Prog.mirrors_ofExcept (resultsIn_refl _)).bind fun data _ same => ?_
  obtain rfl := same
  refine (Prog.mirrors_ofExcept (resultsIn_refl _)).bind fun read _ same => ?_
  obtain rfl := same
  obtain ⟨header, recovered, cut⟩ := read
  have truncated : Matched (fun _ _ => True) (truncateIf cut (.log base) recovered.position)
      (truncateIf cut (.log base) recovered.position) := by
    unfold truncateIf truncateTail
    split
    · exact (Prog.mirrors_perform (Dir.Agree.respects touched)).bind fun _ _ _ =>
        Prog.mirrors_perform (Dir.Agree.respects touched)
    · exact Prog.mirrors_pure trivial
  refine truncated.bind fun _ _ _ => ?_
  refine (Prog.mirrors_ofExcept (resultsIn_refl _)).bind fun _ _ _ => ?_
  exact Prog.mirrors_pure rfl

theorem matched_recoverSegments (bases : List UInt64) (expected : UInt64)
    {segments segments' : List Segment} (alike : List.Forall₂ Segment.Alike segments segments') :
    Matched (fun found found' => List.Forall₂ Segment.Alike found.1 found'.1 ∧ found'.2 = found.2)
      (recoverSegments topic partition options storeID bases expected segments)
      (recoverSegments topic partition options storeID bases expected segments') := by
  induction bases generalizing expected segments segments' with
  | nil => exact Prog.mirrors_pure ⟨alike, rfl⟩
  | cons base rest ih =>
      unfold recoverSegments
      refine (Prog.mirrors_ofExcept (resultsIn_refl _)).bind fun _ _ _ => ?_
      refine (matched_recoverSegment base expected rest.isEmpty).bind fun opened _ same => ?_
      obtain rfl := same
      refine Prog.mirrors_get.bind fun dir dir' _ => ?_
      refine ih opened.endOffset (List.rel_append alike (.cons ?_ .nil))
      have first := loadOrBuildIndexes_reindexed dir opened storeID options.indexStride
      have second := loadOrBuildIndexes_reindexed dir' opened storeID options.indexStride
      exact first.alike.both second.alike

/-- The last segment is the active one on both sides. -/
theorem matched_assemblePartition (tail : Option PartitionTail) {segments segments' : List Segment}
    (alike : List.Forall₂ Segment.Alike segments segments') (stop : UInt64) :
    Matched Partition.Alike
      (assemblePartition topic partition options storeID tail (segments, stop))
      (assemblePartition topic partition options storeID tail (segments', stop)) := by
  have reversed := List.forall₂_reverse_iff.2 alike
  rw [← segments.reverse_reverse, ← segments'.reverse_reverse]
  generalize segments.reverse = back at *
  generalize segments'.reverse = back' at *
  unfold assemblePartition
  cases reversed with
  | nil => exact Prog.mirrors_done rfl
  | @cons last last' front front' like rest =>
      simp only [List.reverse_cons, List.getLast?_concat, List.dropLast_concat]
      exact Prog.mirrors_pure ⟨front'.reverse, last', rfl, List.forall₂_reverse_iff.2 rest, like⟩

theorem SameButSidecars.discover (same : SameButSidecars d d') {bases : List UInt64}
    (found : discoverSegments d = .ok bases) : discoverSegments d' = .ok bases := by
  obtain ⟨files, small, stray, sorted⟩ := discoverSegments_eq_ok.1 found
  refine discoverSegments_eq_ok.2 ⟨fun base => ?_, small, fun text => ?_, sorted⟩
  · have visible : Name.NotIndex (.log base) := trivial
    rw [same.read visible]
    exact files base
  · have visible : Name.NotIndex (.strayLog text) := trivial
    rw [same.read visible]
    exact stray text

/-- A successful open is matched by one over the other directory. -/
theorem matched_open (same : SameButSidecars d d')
    (ran : Prog.run Dir.device (openPartition drawn topic partition options storeID) d =
      (.ok p, e)) :
    ∃ p' e', Prog.run Dir.device (openPartition drawn topic partition options storeID) d' =
      (.ok p', e') ∧ SameButSidecars e e' ∧ p.Alike p' := by
  obtain ⟨tail, _, making, made⟩ := Prog.run_bind_eq_ok.1 ran
  obtain ⟨maker, rfl⟩ := Prod.mk.inj making
  obtain ⟨dir, _, looking, looked⟩ := Prog.run_bind_eq_ok.1 made
  obtain ⟨here, rfl⟩ := Prod.mk.inj looking
  obtain rfl := Except.ok.inj here
  obtain ⟨bases, _, discovering, discovered⟩ := Prog.run_bind_eq_ok.1 looked
  obtain ⟨found, rfl⟩ := Prod.mk.inj discovering
  have again {m : DirM Partition} (matched : Matched Partition.Alike m m)
      (ran : Prog.run Dir.device m d = (.ok p, e)) := matched.run same ran
  have reopened := again ?_ discovered
  · obtain ⟨p', e', ran', same', like⟩ := reopened
    refine ⟨p', e', ?_, same', like⟩
    refine Prog.run_bind_eq_ok.2 ⟨tail, d', Prod.ext maker rfl, ?_⟩
    refine Prog.run_bind_eq_ok.2 ⟨d', d', rfl, ?_⟩
    exact Prog.run_bind_eq_ok.2 ⟨bases, d', Prod.ext (same.discover found) rfl, ran'⟩
  cases bases with
  | nil =>
      refine (matched_createSegment drawn topic partition options.initialOffset).bind
        fun created _ equal => ?_
      obtain rfl := equal
      refine Prog.mirrors_get.bind fun dir dir' _ => ?_
      have first := loadOrBuildIndexes_reindexed dir created storeID options.indexStride
      have second := loadOrBuildIndexes_reindexed dir' created storeID options.indexStride
      exact Prog.mirrors_pure ⟨[], _, rfl, .nil, first.alike.both second.alike⟩
  | cons first rest =>
      refine (Prog.mirrors_ofExcept (resultsIn_refl _)).bind fun _ _ _ => ?_
      refine (matched_recoverSegments (first :: rest) first .nil).bind fun loaded loaded' like => ?_
      obtain ⟨segments, stop⟩ := loaded
      obtain ⟨segments', stop'⟩ := loaded'
      obtain ⟨alike, rfl : stop' = stop⟩ := like
      exact matched_assemblePartition tail alike stop'

end Opening

/-! ## Reads -/

section Reads

variable {topic : TopicID} {partition : UInt32} {p p' : Partition} {d d' : Dir Name}
  {closed closed' : StoredSegments topic partition}
  {last last' : List (StoredBatch topic partition)}

/-- A segment over the same file represents the same batches, if its hints are valid. -/
theorem Segment.InDir.alike {s s' : Segment} {stored stored' : List (StoredBatch topic partition)}
    (held : s.InDir d stored) (held' : s'.InDir d' stored') (like : s.Alike s')
    (same : SameButSidecars d d') : s'.InDir d' stored := by
  obtain ⟨data, read, represents⟩ := held
  obtain ⟨_, -, represents'⟩ := held'
  have hints := represents'.hints
  obtain ⟨offsetIndex, timeIndex, indexDirty, rfl⟩ := like
  have visible : Name.NotIndex s.name := trivial
  exact ⟨data, (same.read visible).trans read, represents.withIndexes hints timeIndex indexDirty⟩

theorem Partition.Alike.segments (alike : p.Alike p') :
    List.Forall₂ Segment.Alike p.segments p'.segments := by
  obtain ⟨closedSegments, active, rfl, closed, like⟩ := alike
  exact List.rel_append closed (.cons like .nil)

/-- Both partitions hold the same batches in their segments. -/
theorem Partition.Alike.files (alike : p.Alike p') (same : SameButSidecars d d')
    (represents : p.Represents d closed last) (represents' : p'.Represents d' closed' last') :
    List.Forall₂ (Segment.InDir d') p'.segments (closed ++ [last]) := by
  have general : ∀ {segments segments' : List Segment} {contents contents' : StoredSegments topic
      partition}, List.Forall₂ Segment.Alike segments segments' →
      List.Forall₂ (Segment.InDir d) segments contents →
      List.Forall₂ (Segment.InDir d') segments' contents' →
      List.Forall₂ (Segment.InDir d') segments' contents := by
    intro segments segments' contents contents' like
    induction like generalizing contents contents' with
    | nil =>
        intro files files'
        cases files
        exact .nil
    | cons like _ ih =>
        intro files files'
        cases files with
        | cons held files =>
            cases files' with
            | cons held' files' => exact .cons (held.alike held' like same) (ih files files')
  exact general alike.segments represents.files represents'.files

/-- What reads look at first. -/
theorem Partition.Alike.same (alike : p.Alike p') :
    p'.checkOpen = p.checkOpen ∧ p'.logStart = p.logStart ∧ p'.logEnd = p.logEnd ∧
      p'.topic = p.topic ∧ p'.partition = p.partition ∧ p'.tail = p.tail := by
  obtain ⟨closedSegments, _, rfl, closed, _, _, _, rfl⟩ := alike
  refine ⟨rfl, ?_, rfl, rfl, rfl, rfl⟩
  cases closed_eq : p.closedSegments with
  | nil =>
      rw [closed_eq] at closed
      cases closed
      simp [Partition.logStart, Partition.segments, closed_eq, Segment.withIndexes]
  | cons s rest =>
      rw [closed_eq] at closed
      cases closed with
      | cons like _ =>
          obtain ⟨_, _, _, rfl⟩ := like
          simp [Partition.logStart, Partition.segments, closed_eq, Segment.withIndexes]

/-- Reads do not depend on the indexes. -/
theorem Partition.Alike.read_eq (alike : p.Alike p') (same : SameButSidecars d d')
    (represents : p.Represents d closed last) (represents' : p'.Represents d' closed' last')
    (offset : UInt64) (maxRecords : UInt32) :
    read d' p' offset maxRecords = read d p offset maxRecords := by
  have files' := alike.files same represents represents'
  obtain ⟨isOpen, start, stop, -⟩ := alike.same
  unfold read
  rw [isOpen, start, stop,
    readSegments_inDir represents.topic_eq represents.partition_eq represents.files,
    readSegments_inDir represents'.topic_eq represents'.partition_eq files']

/-- Fetches return the same with either index. -/
theorem Partition.Alike.fetch_eq (alike : p.Alike p') (same : SameButSidecars d d')
    (represents : p.Represents d closed last) (represents' : p'.Represents d' closed' last')
    (free : Bool) (offset : UInt64) (options : FetchOptions) :
    fetch d' p' free offset options = fetch d p free offset options := by
  have files' := alike.files same represents represents'
  obtain ⟨isOpen, start, stop, topicEq, partitionEq, tail⟩ := alike.same
  unfold fetch
  rw [isOpen, start, stop, topicEq, partitionEq, tail]
  simp only [fetchSegments_inDir represents.topic_eq represents.partition_eq represents.files,
    fetchSegments_inDir represents'.topic_eq represents'.partition_eq files']

end Reads

/-! ## Histories -/

/-- What one append is given. -/
structure AppendStep where
  call : AppendCall
  drawn : SegmentID
  free : Bool

/-- Appends one after the other, with the outcome of each. -/
def appendAll : List AppendStep → Partition →
    DirM (List (Except GoError (List Record)) × Partition)
  | [], p => pure ([], p)
  | step :: later, p => do
      let (q, outcome) ← step.call.run p step.drawn step.free
      let (outcomes, r) ← appendAll later q
      return (outcome :: outcomes, r)

theorem appendAll_represents {topic : TopicID} {partition : UInt32} {p q : Partition}
    {d e : Dir Name} {steps : List AppendStep} {outcomes : List (Except GoError (List Record))}
    {closed : StoredSegments topic partition} {last : List (StoredBatch topic partition)}
    (represents : p.Represents d closed last)
    (ran : Prog.run Dir.device (appendAll steps p) d = (.ok (outcomes, q), e)) :
    ∃ (closed' : StoredSegments topic partition) (last' : List (StoredBatch topic partition)),
      q.Represents e closed' last' := by
  induction steps generalizing p d outcomes closed last with
  | nil =>
      obtain ⟨same, rfl⟩ := Prod.mk.inj ran
      obtain ⟨rfl, rfl⟩ := Prod.mk.inj (Except.ok.inj same)
      exact ⟨closed, last, represents⟩
  | cons step later ih =>
      obtain ⟨⟨r, outcome⟩, mid, first, rest⟩ := Prog.run_bind_eq_ok.1 ran
      obtain ⟨⟨others, _⟩, _, after, ending⟩ := Prog.run_bind_eq_ok.1 rest
      obtain ⟨same, rfl⟩ := Prod.mk.inj ending
      obtain ⟨-, rfl⟩ := Prod.mk.inj (Except.ok.inj same)
      have steps : step.call.Steps (p, d) outcome (r, mid) :=
        ⟨step.drawn, step.free, .of_run first⟩
      obtain ⟨_, _, kept⟩ := steps.represents represents
      exact ih kept after

/-- Runs of appends are matched, with the same outcomes. -/
theorem matched_appendAll {p p' : Partition} (alike : p.Alike p') (steps : List AppendStep) :
    Matched (fun r r' => r'.1 = r.1 ∧ r.2.Alike r'.2) (appendAll steps p) (appendAll steps p') := by
  induction steps generalizing p p' with
  | nil => exact Prog.mirrors_pure ⟨rfl, alike⟩
  | cons step later ih =>
      refine (matched_run alike step.call step.drawn step.free).bind fun r r' first => ?_
      refine (ih first.1).bind fun t t' rest => Prog.mirrors_pure ⟨?_, rest.2⟩
      rw [first.2, rest.1]

/-- Whatever the index files hold: over directories that differ in nothing else, an open goes the
same way, and so do the appends and rolls behind it.  They have the same outcomes, and afterwards
every read and every fetch returns the same. -/
theorem sidecars_transparent {topic : TopicID} {partition : UInt32} {options : PartitionOptions}
    {storeID : StoreID} {drawn : SegmentID} {d d' opened : Dir Name} {p : Partition}
    (same : SameButSidecars d d')
    (opens : Prog.run Dir.device (openPartition drawn topic partition options storeID) d =
      (.ok p, opened)) :
    ∃ p' opened',
      Prog.run Dir.device (openPartition drawn topic partition options storeID) d' =
        (.ok p', opened') ∧
      ∀ steps outcomes q e,
        Prog.run Dir.device (appendAll steps p) opened = (.ok (outcomes, q), e) →
        ∃ q' e', Prog.run Dir.device (appendAll steps p') opened' = (.ok (outcomes, q'), e') ∧
          (∀ offset maxRecords, read e' q' offset maxRecords = read e q offset maxRecords) ∧
          ∀ free offset limits, fetch e' q' free offset limits = fetch e q free offset limits := by
  obtain ⟨p', opened', opens', sameOpened, like⟩ := matched_open same opens
  refine ⟨p', opened', opens', fun steps outcomes q e ran => ?_⟩
  obtain ⟨⟨_, q'⟩, e', ran', sameEnd, rfl, alike⟩ :=
    (matched_appendAll like steps).run sameOpened ran
  obtain ⟨-, closed, last, starts⟩ := runs_openPartition (.of_run opens)
  obtain ⟨-, closed', last', starts'⟩ := runs_openPartition (.of_run opens')
  obtain ⟨_, _, represents⟩ := appendAll_represents starts ran
  obtain ⟨_, _, represents'⟩ := appendAll_represents starts' ran'
  exact ⟨q', e', ran', alike.read_eq sameEnd represents represents',
    alike.fetch_eq sameEnd represents represents'⟩

namespace SmallLog

def recordAt (offset : UInt64) : Record :=
  { record with offset }

def batchAt (offset : UInt64) : RecordBatch :=
  { batch with baseOffset := offset, records := [recordAt offset] }

def stepAt (offset : UInt64) (drawn : SegmentID) : AppendStep :=
  ⟨.batch (batchAt offset), drawn, true⟩

/-- Segments with room for one of the batches. -/
def narrow (drawn : SegmentID) : DirM Partition :=
  openPartition drawn spec.topic spec.partition { spec.options with segmentBytes := 200 }
    spec.storeID

/-- Two segments with a record each, and the index of the first one. -/
def rolledDir : Dir Name :=
  (Prog.run Dir.device (narrow 1 >>= appendAll [stepAt 0 2, stepAt 1 3]) ∅).2

/-- The same, with an index that no store has written. -/
def strangeIndex : Dir Name :=
  rolledDir.insert (.index 0) ⟨some ⟨[1], [1]⟩, true⟩

theorem same_strangeIndex : SameButSidecars rolledDir strangeIndex := by
  intro name visible
  have other : name ≠ .index 0 := by
    rintro rfl
    exact visible
  rw [strangeIndex, AList.lookup_insert_ne other]

/-- Open, append one more record, and read all. -/
def appendAndRead : DirM (List Bool × Option (List Record)) := do
  let p ← narrow 4
  let (told, q) ← appendAll [stepAt 2 5] p
  return (told.map Except.toBool, (read (← Prog.get) q 0 0).toOption)

set_option maxRecDepth 10000 in
/-- With the strange index as without it: the append rolls, and three records are read. -/
theorem strangeIndex_transparent : ∃ p' opened' q' e' outcomes,
    Prog.run Dir.device (narrow 4) strangeIndex = (.ok p', opened') ∧
      Prog.run Dir.device (appendAll [stepAt 2 5] p') opened' = (.ok (outcomes, q'), e') ∧
      outcomes.map Except.toBool = [true] ∧
      read e' q' 0 0 = .ok [recordAt 0, recordAt 1, recordAt 2] := by
  have saw : (Prog.run Dir.device appendAndRead rolledDir).1.toOption =
      some ([true], some [recordAt 0, recordAt 1, recordAt 2]) := by
    decide +kernel
  rcases ran : Prog.run Dir.device appendAndRead rolledDir with ⟨result, stop⟩
  rw [ran] at saw
  cases result with
  | error e => cases saw
  | ok seen =>
      obtain ⟨p, opened, opens, ran⟩ := Prog.run_bind_eq_ok.1 ran
      obtain ⟨⟨outcomes, q⟩, e, appends, ending⟩ := Prog.run_bind_eq_ok.1 ran
      obtain ⟨same, -⟩ := Prod.mk.inj ending
      obtain rfl := Except.ok.inj same
      obtain ⟨told, found⟩ := Prod.mk.inj (Option.some.inj saw)
      obtain ⟨p', opened', opens', later⟩ := sidecars_transparent same_strangeIndex opens
      obtain ⟨q', e', appends', reads, -⟩ := later _ _ _ _ appends
      refine ⟨p', opened', q', e', outcomes, opens', appends', told, (reads 0 0).trans ?_⟩
      cases all : read e q 0 0 with
      | error failed => simp [all, Except.toOption] at found
      | ok records => simpa [all, Except.toOption] using found

end SmallLog

end Immulog
