import Immulog.Representation
import Immulog.Running

/-!
Appends and opens in which any filesystem operation may fail.

For every program of the partition engine there is one lemma that says what a run with
faults can do to the partition and to the segment files.  What the segments in memory
represent is kept by all of them.
-/

namespace Immulog

open Lib

/-! ## Changes to one segment file -/

/-- A name that ends in `.log`. -/
def Name.IsLog : Name → Prop
  | .log _ | .strayLog _ => True
  | _ => False

/-- The segment files are the same, apart from entries made durable. -/
def KeepsLogs (d d' : Dir Name) : Prop :=
  ∀ name : Name, name.IsLog → Entry.Settles (d.lookup name) (d'.lookup name)

/-- The segment files other than the one at `base` are the same. -/
def SameLogsBut (base : UInt64) (d d' : Dir Name) : Prop :=
  ∀ name : Name, name.IsLog → name ≠ .log base → Entry.Settles (d.lookup name) (d'.lookup name)

theorem KeepsLogs.refl (d : Dir Name) : KeepsLogs d d :=
  fun _ _ => .refl _

theorem KeepsLogs.but {d d' : Dir Name} (keeps : KeepsLogs d d') (base : UInt64) :
    SameLogsBut base d d' :=
  fun name isLog _ => keeps name isLog

theorem SameLogsBut.trans {base : UInt64} {a b c : Dir Name} (first : SameLogsBut base a b)
    (second : SameLogsBut base b c) : SameLogsBut base a c :=
  fun name isLog differ => (first name isLog differ).trans (second name isLog differ)

theorem KeepsLogs.read {d d' : Dir Name} (keeps : KeepsLogs d d') (base : UInt64) :
    d'.read? (.log base) = d.read? (.log base) :=
  Dir.read?_of_settles (keeps (.log base) trivial)

theorem SameLogsBut.read {base other : UInt64} {d d' : Dir Name} (same : SameLogsBut base d d')
    (differ : other ≠ base) : d'.read? (.log other) = d.read? (.log other) :=
  Dir.read?_of_settles (same (.log other) trivial (by simpa using differ))

theorem sameLogsBut_insert (d : Dir Name) (base : UInt64) (entry : Entry) :
    SameLogsBut base d (d.insert (.log base) entry) :=
  fun _ _ differ => .inl (AList.lookup_insert_ne differ)

/-- A program that touches index files only keeps the logs. -/
theorem keepsLogs_runs {α : Type} {m : DirM α} {d d' : Dir Name} {result : Except GoError α}
    (only : ∀ name : Name, name.NotIndex → m.Only fun o => name ∉ o.touches)
    (ran : Prog.Runs Dir.device m d result d') : KeepsLogs d d' := by
  intro name isLog
  refine Dir.runs_settles (only name ?_) ran
  cases name <;> trivial

/-! ## Creation -/

section Creation

variable {drawn : SegmentID} {topic : TopicID} {partition : UInt32} {base : UInt64}
  {d d' : Dir Name}

/-- Creation with faults: the new segment is absent, or complete with its header. -/
theorem runs_createSegment {result : Except GoError Segment}
    (ran : Prog.Runs Dir.device (createSegment drawn topic partition base) d result d') :
    SameLogsBut base d d' ∧
      (((∃ e, result = .error e) ∧
          Entry.Settles (d.lookup (.log base)) (d'.lookup (.log base))) ∨
        (.log base ∉ d ∧ (drawnHeader drawn topic partition base).Valid ∧
          d'.read? (.log base) = some (drawnHeader drawn topic partition base).bytes ∧
          (result = .ok (newSegment (drawnHeader drawn topic partition base)) ∨
            ∃ e, result = .error e))) := by
  have others : SameLogsBut base d d' := by
    intro name isLog differ
    refine Dir.runs_settles (only_createSegment ?_ differ) ran
    rintro rfl
    exact isLog
  refine ⟨others, ?_⟩
  have notTmp : Name.log base ∉ [Name.segmentTmp (segmentID drawn)] := by simp
  rcases Prog.runs_bind.1 ran with ⟨encoded, mid, encoding, later⟩ | ⟨e, rfl, failed⟩
  swap
  · exact .inl ⟨⟨e, rfl⟩, Dir.runs_settles Prog.only_ofExcept failed⟩
  obtain ⟨encodes, rfl⟩ := Prog.runs_ofExcept.1 encoding
  obtain ⟨valid, rfl⟩ := SegmentHeader.encode_eq_ok.1 encodes
  rcases Prog.runs_bind.1 later with ⟨_, mid, creating, later⟩ | ⟨e, rfl, failed⟩
  swap
  · exact .inl ⟨⟨e, rfl⟩, Dir.runs_settles
      (Prog.only_createSynced notTmp (fun _ => notTmp) notTmp) failed⟩
  rcases Prog.runs_createSynced creating with ⟨-, e, wrong⟩ | ⟨-, f, rfl, written⟩
  · cases wrong
  obtain rfl := written rfl
  have before : Entry.Settles (d.lookup (.log base)) ((d.insert (.segmentTmp (segmentID drawn))
      ⟨some ⟨[(drawnHeader drawn topic partition base).bytes].flatten,
        [(drawnHeader drawn topic partition base).bytes].flatten⟩, false⟩).lookup (.log base)) :=
    .inl (AList.lookup_insert_ne (by simp))
  rcases Prog.runs_bind.1 later with ⟨dir, mid, looking, later⟩ | ⟨e, -, failed⟩
  swap
  · cases (Prog.runs_get.1 failed).1
  obtain ⟨looked, rfl⟩ := Prog.runs_get.1 looking
  obtain rfl := Except.ok.inj looked
  rcases Prog.runs_bind.1 later with ⟨_, mid, checking, later⟩ | ⟨e, rfl, failed⟩
  swap
  · exact .inl ⟨⟨e, rfl⟩, before.trans (Dir.runs_settles Prog.only_ofExcept failed)⟩
  obtain ⟨checked, rfl⟩ := Prog.runs_ofExcept.1 checking
  have absent : .log base ∉ d := by
    simpa [AList.mem_insert] using failIf_eq_ok.1 checked
  rcases Prog.runs_bind.1 later with ⟨_, mid, moving, later⟩ | ⟨e, rfl, failed⟩
  swap
  · rcases Prog.runs_perform.1 failed with ⟨wrong, -⟩ | ⟨-, rfl | torn⟩
    · cases wrong
    · exact .inl ⟨⟨e, rfl⟩, before⟩
    · cases torn
  rcases Prog.runs_perform.1 moving with ⟨-, done⟩ | ⟨wrong, -⟩
  swap
  · cases wrong
  obtain rfl := Option.some.inj (Prog.exec_rename_insert.symm.trans done)
  have here := Prog.lookup_renamed d (.segmentTmp (segmentID drawn)) (.log base)
    [(drawnHeader drawn topic partition base).bytes].flatten
  refine .inr ⟨absent, valid, ?_⟩
  have quiet : Entry.Settles ((Prog.renamed d (.segmentTmp (segmentID drawn)) (.log base)
      [(drawnHeader drawn topic partition base).bytes].flatten).lookup (.log base))
      (d'.lookup (.log base)) := by
    refine Dir.runs_settles ?_ later
    exact (Prog.only_perform (by simp [DirOp.touches])).bind fun _ => Prog.only_pure
  refine ⟨?_, ?_⟩
  · rw [Dir.read?, Dir.file?, quiet.file, here]
    simp
  · rcases Prog.runs_bind.1 later with ⟨_, mid, -, ending⟩ | ⟨e, rfl, -⟩
    · exact .inl (Prog.runs_done.1 ending).1
    · exact .inr ⟨e, rfl⟩

end Creation

/-! ## Rolling -/

section Roll

variable {p : Partition} {drawn : SegmentID} {d d' : Dir Name}

/-- The active segment with other indexes in memory. -/
def Segment.Reindexed (s s' : Segment) : Prop :=
  ∃ offsetIndex timeIndex indexDirty, s' = s.withIndexes offsetIndex timeIndex indexDirty ∧
    (HintsOf s.batches s.offsetIndex → HintsOf s.batches offsetIndex)

theorem Segment.Reindexed.refl (s : Segment) : s.Reindexed s :=
  ⟨s.offsetIndex, s.timeIndex, s.indexDirty, rfl, id⟩

theorem runs_installSegmentIndexes {segment : Segment} {storeID : StoreID} {stride : UInt64}
    {result : Except GoError Segment}
    (ran : Prog.Runs Dir.device (installSegmentIndexes segment storeID stride) d result d') :
    KeepsLogs d d' ∧ ∀ s, result = .ok s → segment.Reindexed s := by
  refine ⟨keepsLogs_runs (fun _ notIndex => only_installSegmentIndexes notIndex) ran, ?_⟩
  rintro s rfl
  obtain ⟨_, _, -, later⟩ := Prog.runs_bind_ok.1 ran
  obtain ⟨_, _, -, ending⟩ := Prog.runs_bind_ok.1 later
  obtain rfl := Except.ok.inj (Prog.runs_done.1 ending).1
  exact ⟨_, _, _, rfl, fun _ => sampleBatchIndexes_hints _ _⟩

/-- A roll with faults. -/
theorem runs_rollSegment {result : Except GoError (Partition × Except GoError Unit)}
    (ran : Prog.Runs Dir.device (rollSegment p drawn) d result d') :
    SameLogsBut p.logEnd d d' ∧
      ((∃ e, result = .ok (p.fenced, .error (.join [.ofKind .errPartitionUnavailable, e])) ∧
          (Entry.Settles (d.lookup (.log p.logEnd)) (d'.lookup (.log p.logEnd)) ∨
            (.log p.logEnd ∉ d ∧ (drawnHeader drawn p.topic p.partition p.logEnd).Valid ∧
              d'.read? (.log p.logEnd) =
                some (drawnHeader drawn p.topic p.partition p.logEnd).bytes))) ∨
        ∃ sealed, p.active.Reindexed sealed ∧
          result = .ok (p.rolled sealed (drawnHeader drawn p.topic p.partition p.logEnd), .ok ()) ∧
          .log p.logEnd ∉ d ∧ (drawnHeader drawn p.topic p.partition p.logEnd).Valid ∧
          d'.read? (.log p.logEnd) =
            some (drawnHeader drawn p.topic p.partition p.logEnd).bytes) := by
  unfold rollSegment at ran
  rcases Prog.runs_bind.1 ran with ⟨outcome, mid, creating, later⟩ | ⟨e, -, failed⟩
  swap
  · obtain ⟨_, wrong, -⟩ := Prog.runs_attempt.1 failed
    cases wrong
  obtain ⟨inner, same, created⟩ := Prog.runs_attempt.1 creating
  obtain rfl := Except.ok.inj same
  obtain ⟨others, effect⟩ := runs_createSegment created
  cases outcome with
  | error e =>
      obtain ⟨rfl, rfl⟩ := Prog.runs_done.1 later
      refine ⟨others, .inl ⟨e, rfl, ?_⟩⟩
      rcases effect with ⟨-, settles⟩ | ⟨absent, valid, read, -⟩
      · exact .inl settles
      · exact .inr ⟨absent, valid, read⟩
  | ok rolled =>
      rcases effect with ⟨⟨e, wrong⟩, -⟩ | ⟨absent, valid, read, same | ⟨e, wrong⟩⟩
      · cases wrong
      · obtain rfl := Except.ok.inj same
        rcases Prog.runs_bind.1 later with ⟨installed, left, installing, ending⟩ | ⟨e, -, failed⟩
        · obtain ⟨outcome, same, ran⟩ := Prog.runs_attempt.1 installing
          obtain rfl := Except.ok.inj same
          obtain ⟨quiet, reindexed⟩ := runs_installSegmentIndexes ran
          have kept : left.read? (.log p.logEnd) =
              some (drawnHeader drawn p.topic p.partition p.logEnd).bytes := by
            rw [quiet.read, read]
          cases installed with
          | ok segment =>
              obtain ⟨rfl, rfl⟩ := Prog.runs_done.1 ending
              exact ⟨others.trans (quiet.but _), .inr ⟨segment, reindexed segment rfl, rfl, absent,
                valid, kept⟩⟩
          | error e =>
              obtain ⟨rfl, rfl⟩ := Prog.runs_done.1 ending
              exact ⟨others.trans (quiet.but _), .inr ⟨p.active, .refl _, rfl, absent, valid, kept⟩⟩
        · obtain ⟨_, wrong, -⟩ := Prog.runs_attempt.1 failed
          cases wrong
      · cases wrong

end Roll

/-! ## Writing -/

section Write

variable {p : Partition} {b : RecordBatch} {encoded : Bytes} {d d' : Dir Name}

/-- An append whose batch may or may not be in the log. -/
def unknownOutcome (e : GoError) : GoError :=
  .join [.ofKind .errAppendOutcomeUnknown, .ofKind .errPartitionUnavailable, e]

/-- A write with faults puts a beginning of the batch behind the segment's size; it is
acknowledged only when all of it is there. -/
theorem runs_writeBatch {result : Except GoError (Partition × Except GoError UInt64)}
    (ran : Prog.Runs Dir.device (writeBatch p b encoded) d result d') :
    SameLogsBut p.active.header.baseOffset d d' ∧
      ((result = .ok (p.extended b encoded, .ok b.baseOffset) ∧
          ∃ data, d.read? p.active.name = some data ∧
            d'.read? p.active.name = some (Dir.overwrite data p.active.size encoded)) ∨
        ∃ e, result = .ok (p.fenced, .error (unknownOutcome e)) ∧
          (d' = d ∨ ∃ data piece, piece <+: encoded ∧ d.read? p.active.name = some data ∧
            d'.read? p.active.name = some (Dir.overwrite data p.active.size piece))) := by
  have wrote : ∀ {piece : Bytes} {left : Dir Name},
      Dir.exec (.writeAt p.active.name p.active.size piece) d = some left →
      SameLogsBut p.active.header.baseOffset d left ∧
        ∃ data, d.read? p.active.name = some data ∧
          left.read? p.active.name = some (Dir.overwrite data p.active.size piece) := by
    intro piece left done
    obtain ⟨f, durable, found, rfl⟩ := Dir.modify_eq_some.1 done
    refine ⟨sameLogsBut_insert d _ _, f.data, read?_of_lookup found, ?_⟩
    exact read?_of_lookup (AList.lookup_insert d)
  simp only [writeBatch] at ran
  rcases Prog.runs_bind.1 ran with ⟨outcome, mid, writing, later⟩ | ⟨e, -, failed⟩
  swap
  · obtain ⟨_, wrong, -⟩ := Prog.runs_attempt.1 failed
    cases wrong
  obtain ⟨inner, same, performed⟩ := Prog.runs_attempt.1 writing
  obtain rfl := Except.ok.inj same
  rcases Prog.runs_perform.1 performed with ⟨rfl, done⟩ | ⟨rfl, torn⟩
  swap
  · obtain ⟨rfl, rfl⟩ := Prog.runs_done.1 later
    rcases torn with rfl | torn
    · exact ⟨(KeepsLogs.refl _).but _, .inr ⟨_, rfl, .inl rfl⟩⟩
    · cases torn with
      | writeAt count done =>
          obtain ⟨others, data, before, after⟩ := wrote done
          exact ⟨others, .inr ⟨_, rfl, .inr ⟨data, encoded.take count, List.take_prefix .., before,
            after⟩⟩⟩
  obtain ⟨others, data, before, after⟩ := wrote done
  rcases Prog.runs_bind.1 later with ⟨outcome, left, syncing, ending⟩ | ⟨e, -, failed⟩
  swap
  · obtain ⟨_, wrong, -⟩ := Prog.runs_attempt.1 failed
    cases wrong
  obtain ⟨inner, same, performed⟩ := Prog.runs_attempt.1 syncing
  obtain rfl := Except.ok.inj same
  rcases Prog.runs_perform.1 performed with ⟨rfl, done⟩ | ⟨rfl, rfl | torn⟩
  · obtain ⟨rfl, rfl⟩ := Prog.runs_done.1 ending
    obtain ⟨f, durable, found, rfl⟩ := Dir.modify_eq_some.1 done
    refine ⟨others.trans (sameLogsBut_insert mid _ _), .inl ⟨rfl, data, before, ?_⟩⟩
    rw [← after, read?_of_lookup found, read?_of_lookup (AList.lookup_insert mid)]
  · obtain ⟨rfl, rfl⟩ := Prog.runs_done.1 ending
    exact ⟨others, .inr ⟨_, rfl, .inr ⟨data, encoded, List.prefix_refl _, before, after⟩⟩⟩
  · cases torn

end Write

/-! ## Appending -/

/-- What an append has done before it writes: nothing, or a roll. -/
inductive RollsTo (p : Partition) (d : Dir Name) (encoded : Bytes) (drawn : SegmentID) :
    Partition → Dir Name → Prop where
  | fits : encoded.length + p.active.size ≤ p.options.segmentBytes.toNat →
      RollsTo p d encoded drawn p d
  | rolled {sealed : Segment} {d' : Dir Name} :
      p.options.segmentBytes.toNat < encoded.length + p.active.size → p.active.records ≠ 0 →
      p.active.Reindexed sealed → .log p.logEnd ∉ d →
      (drawnHeader drawn p.topic p.partition p.logEnd).Valid → SameLogsBut p.logEnd d d' →
      d'.read? (.log p.logEnd) = some (drawnHeader drawn p.topic p.partition p.logEnd).bytes →
      RollsTo p d encoded drawn
        (p.rolled sealed (drawnHeader drawn p.topic p.partition p.logEnd)) d'

/-- What an append with faults can do. -/
inductive Appends (p : Partition) (d : Dir Name) (b : RecordBatch) (encoded : Bytes)
    (drawn : SegmentID) : Partition → Dir Name → Except GoError UInt64 → Prop where
  /-- A check has failed. -/
  | refused {e : GoError} : checkAppend p b encoded = .error e →
      Appends p d b encoded drawn p d (.error e)
  /-- The roll has failed, perhaps with the new segment in place. -/
  | unrolled {d' : Dir Name} {e : GoError} : checkAppend p b encoded = .ok () →
      p.active.records ≠ 0 → SameLogsBut p.logEnd d d' →
      (Entry.Settles (d.lookup (.log p.logEnd)) (d'.lookup (.log p.logEnd)) ∨
        (.log p.logEnd ∉ d ∧ (drawnHeader drawn p.topic p.partition p.logEnd).Valid ∧
          d'.read? (.log p.logEnd) =
            some (drawnHeader drawn p.topic p.partition p.logEnd).bytes)) →
      Appends p d b encoded drawn p.fenced d'
        (.error (.join [.ofKind .errPartitionUnavailable, e]))
  /-- The write or the sync has failed. -/
  | unknown {q : Partition} {mid d' : Dir Name} {e : GoError} : checkAppend p b encoded = .ok () →
      RollsTo p d encoded drawn q mid → SameLogsBut q.active.header.baseOffset mid d' →
      (d' = mid ∨ ∃ data piece, piece <+: encoded ∧ mid.read? q.active.name = some data ∧
        d'.read? q.active.name = some (Dir.overwrite data q.active.size piece)) →
      Appends p d b encoded drawn q.fenced d' (.error (unknownOutcome e))
  | written {q : Partition} {mid d' : Dir Name} {data : Bytes} :
      checkAppend p b encoded = .ok () → RollsTo p d encoded drawn q mid →
      SameLogsBut q.active.header.baseOffset mid d' → mid.read? q.active.name = some data →
      d'.read? q.active.name = some (Dir.overwrite data q.active.size encoded) →
      Appends p d b encoded drawn (q.extended b encoded) d' (.ok b.baseOffset)

section Append

variable {p : Partition} {b : RecordBatch} {encoded : Bytes} {drawn : SegmentID}
  {d d' : Dir Name}

/-- However an append ends, failures included, it is one of the outcomes of `Appends`. -/
theorem runs_appendEncodedLocked {result : Except GoError (Partition × Except GoError UInt64)}
    (ran : Prog.Runs Dir.device (appendEncodedLocked p b encoded drawn) d result d') :
    ∃ p' outcome, result = .ok (p', outcome) ∧ Appends p d b encoded drawn p' d' outcome := by
  simp only [appendEncodedLocked] at ran
  cases passed : checkAppend p b encoded with
  | error e =>
      rw [passed] at ran
      obtain ⟨rfl, rfl⟩ := Prog.runs_done.1 ran
      exact ⟨p, _, rfl, .refused passed⟩
  | ok _ =>
      rw [passed] at ran
      have write : ∀ {q : Partition} {mid : Dir Name}, RollsTo p d encoded drawn q mid →
          Prog.Runs Dir.device (writeBatch q b encoded) mid result d' →
          ∃ p' outcome, result = .ok (p', outcome) ∧ Appends p d b encoded drawn p' d' outcome := by
        intro q mid rolls writing
        obtain ⟨others, ⟨rfl, data, before, after⟩ | ⟨e, rfl, left⟩⟩ := runs_writeBatch writing
        · exact ⟨_, _, rfl, .written passed rolls others before after⟩
        · exact ⟨_, _, rfl, .unknown passed rolls others left⟩
      unfold rollIfFull at ran
      by_cases full : p.options.segmentBytes.toNat < encoded.length + p.active.size
      · simp only [if_pos full] at ran
        have filled := (checkAppend_passed passed).2.2.2 full
        rcases Prog.runs_bind.1 ran with ⟨rolled, mid, rolling, later⟩ | ⟨e, -, failed⟩
        · obtain ⟨others, ⟨e, same, left⟩ | ⟨sealed, reindexed, same, absent, valid, read⟩⟩ :=
            runs_rollSegment rolling
          · obtain rfl := Except.ok.inj same
            obtain ⟨rfl, rfl⟩ := Prog.runs_done.1 later
            exact ⟨_, _, rfl, .unrolled passed filled others left⟩
          · obtain rfl := Except.ok.inj same
            exact write (.rolled full filled reindexed absent valid others read) later
        · obtain ⟨-, ⟨_, wrong, -⟩ | ⟨_, -, wrong, -⟩⟩ := runs_rollSegment failed
          · cases wrong
          · cases wrong
      · simp only [if_neg full] at ran
        rcases Prog.runs_bind.1 ran with ⟨rolled, mid, rolling, later⟩ | ⟨e, -, failed⟩
        · obtain ⟨same, rfl⟩ := Prog.runs_done.1 rolling
          obtain rfl := Except.ok.inj same
          exact write (.fits (Nat.not_lt.1 full)) later
        · cases (Prog.runs_done.1 failed).1

/-- The partition after the tail was offered the acknowledged records. -/
def Partition.told (p : Partition) (free : Bool) (records : List Record) :
    Except GoError UInt64 → Partition
  | .error _ => p
  | .ok _ => p.publishTail free records p.logEnd

theorem runs_appendAndPublish {free : Bool}
    {result : Except GoError (Partition × Except GoError UInt64)}
    (ran : Prog.Runs Dir.device (appendAndPublish p b encoded drawn free) d result d') :
    ∃ q outcome, Appends p d b encoded drawn q d' outcome ∧
      result = .ok (q.told free b.records outcome, outcome) := by
  unfold appendAndPublish at ran
  rcases Prog.runs_bind.1 ran with ⟨⟨q, outcome⟩, mid, appending, later⟩ | ⟨e, -, failed⟩
  · obtain ⟨p', outcome', same, appends⟩ := runs_appendEncodedLocked appending
    obtain ⟨rfl, rfl⟩ := Prod.mk.inj (Except.ok.inj same)
    cases outcome with
    | error e =>
        obtain ⟨rfl, rfl⟩ := Prog.runs_done.1 later
        exact ⟨q, _, appends, rfl⟩
    | ok offset =>
        obtain ⟨rfl, rfl⟩ := Prog.runs_done.1 later
        exact ⟨q, _, appends, rfl⟩
  · obtain ⟨_, _, wrong, -⟩ := runs_appendEncodedLocked failed
    cases wrong

/-- `AppendBatch` with faults: it is refused, or appends the encoded batch. -/
theorem runs_appendBatch {free : Bool}
    {result : Except GoError (Partition × Except GoError UInt64)}
    (ran : Prog.Runs Dir.device (appendBatch p b drawn free) d result d') :
    (∃ e, admitBatch p b = .error e ∧ result = .ok (p, .error e) ∧ d' = d) ∨
      (admitBatch p b = .ok b.bytes ∧ b.Valid ∧
        ∃ q outcome, Appends p d b b.bytes drawn q d' outcome ∧
          result = .ok (q.told free b.records outcome, outcome)) := by
  unfold appendBatch at ran
  cases admitted : admitBatch p b with
  | error e =>
      rw [admitted] at ran
      obtain ⟨rfl, rfl⟩ := Prog.runs_done.1 ran
      exact .inl ⟨e, rfl, rfl, rfl⟩
  | ok encoded =>
      rw [admitted] at ran
      obtain ⟨valid, rfl⟩ := admitBatch_valid admitted
      exact .inr ⟨rfl, valid, runs_appendAndPublish ran⟩

/-- The terminal writer with faults: the formed batch is refused, or appended. -/
theorem runs_writeRequests {records : List Record} {free : Bool}
    {result : Except GoError (Partition × Except GoError (List Record))}
    (ran : Prog.Runs Dir.device (writeRequests p records drawn free) d result d') :
    (∃ e, encodeFormed p (formBatch p records) = .error e ∧
        result = .ok (p, .error (requestError e)) ∧ d' = d) ∨
      (encodeFormed p (formBatch p records) = .ok (formBatch p records).bytes ∧
        (formBatch p records).Valid ∧
        ∃ q outcome, Appends p d (formBatch p records)
          (formBatch p records).bytes drawn q d' outcome ∧
          result = .ok (q.told free (formBatch p records).records outcome,
            (outcome.map fun _ => (formBatch p records).records).mapError requestError)) := by
  unfold writeRequests at ran
  cases formed : encodeFormed p (formBatch p records) with
  | error e =>
      simp only [formed] at ran
      obtain ⟨rfl, rfl⟩ := Prog.runs_done.1 ran
      exact .inl ⟨e, rfl, rfl, rfl⟩
  | ok encoded =>
      obtain ⟨valid, rfl⟩ := encodeFormed_valid formed
      simp only [formed] at ran
      refine .inr ⟨rfl, valid, ?_⟩
      rcases Prog.runs_bind.1 ran with ⟨told, mid, appending, later⟩ | ⟨e, -, failed⟩
      · obtain ⟨q, outcome, appends, same⟩ := runs_appendAndPublish appending
        obtain rfl := Except.ok.inj same
        obtain ⟨rfl, rfl⟩ := Prog.runs_done.1 later
        exact ⟨q, outcome, appends, rfl⟩
      · obtain ⟨_, _, -, wrong⟩ := runs_appendAndPublish failed
        cases wrong

end Append

end Immulog
