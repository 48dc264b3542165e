import Immulog.Calls
import Immulog.OffsetHistory
import Immulog.ReadBack
import Immulog.RetentionPolicy

/-!
The history budget of a system log.

An event is offered: admission looks at the bytes of the log and foretells whether the
writer will roll, and the writer decides again from its own state.  The two agree, so a
log that is within its limit stays there, whatever is offered and whatever fails.
-/

namespace Immulog

open Lib Proc

/-! ## The log -/

/-- A log under a configuration for system logs whose segments are not larger than
configured. -/
structure SystemLog (p : Partition) : Prop where
  configured : ∃ config : PartitionConfigV1, config.validate true = .ok () ∧
    p.options.segmentBytes = config.segmentMaxBytes ∧ p.options.batchBytes = config.maxBatchBytes
  within : ∀ s ∈ p.segments, s.size ≤ p.options.segmentBytes.toNat

/-! ## Admission -/

section Admission

variable {p : Partition} {incoming growth : Nat}

theorem usedBytes_eq_ok {segments : List Segment} {used total : Nat} (small : used ≤ maxUint64) :
    usedBytes segments used = .ok total ↔
      total = used + segmentBytes segments ∧ total ≤ maxUint64 := by
  induction segments generalizing used with
  | nil =>
      simp only [usedBytes, pure_eq_ok, Except.ok.injEq, segmentBytes, List.map_nil, List.sum_nil]
      omega
  | cons s segments ih =>
      simp only [usedBytes, bind_eq_ok, failIf_eq_ok, exists_const, Nat.not_lt, segmentBytes_cons]
      constructor
      · intro counted
        obtain ⟨fits, counted⟩ := counted
        have := (ih fits).1 counted
        omega
      · intro counted
        have fits : used + s.size ≤ maxUint64 := by omega
        exact ⟨fits, (ih fits).2 (by omega)⟩

/-- The growth that admission accounts for is the one that the writer causes. -/
theorem systemLogGrowth_eq_ok
    (words : p.active.size + incoming + segmentHeaderBytes.toNat < 2 ^ 64) :
    systemLogGrowth p incoming = .ok growth ↔
      growth = if 0 < p.active.records ∧
          p.options.segmentBytes.toNat < incoming + p.active.size then
        incoming + segmentHeaderBytes.toNat else incoming := by
  have fits : ¬ maxUint64 - segmentHeaderBytes.toNat < incoming := by
    rw [maxUint64]
    omega
  rw [systemLogGrowth, Nat.mod_eq_of_lt (by omega), Nat.add_comm p.active.size]
  simp only [fits, and_false, failIf_of_not not_false, ok_bind, pure_eq_ok, Except.ok.injEq,
    decide_eq_true_eq, eq_comm (a := growth)]

/-- Admission asks for a limit, and for the growth to stay within it. -/
theorem systemLogAdmission_eq_ok {limit : Nat} :
    systemLogAdmission p incoming limit = .ok () ↔
      limit ≠ 0 ∧ ∃ growth, systemLogGrowth p incoming = .ok growth ∧
        segmentBytes p.segments ≤ maxUint64 ∧
        (growth ≠ 0 → segmentBytes p.segments + growth ≤ limit) := by
  simp only [systemLogAdmission, bind_eq_ok, failIf_eq_ok, exists_const, not_and, Nat.not_lt,
    usedBytes_eq_ok (Nat.zero_le maxUint64), Nat.zero_add, ne_eq, and_assoc, exists_eq_left]

end Admission

/-! ## The writer -/

section Writer

variable {p q p' : Partition} {d mid d' : Dir Name} {b : RecordBatch} {encoded : Bytes}
  {drawn : SegmentID} {outcome : Except GoError UInt64}

/-- What the writer adds to the segments for a batch of so many bytes. -/
def Partition.growth (p : Partition) (incoming : Nat) : Nat :=
  if 0 < p.active.records ∧ p.options.segmentBytes.toNat < incoming + p.active.size then
    incoming + segmentHeaderBytes.toNat else incoming

theorem Partition.segmentBytes_eq (p : Partition) :
    segmentBytes p.segments = segmentBytes p.closedSegments + p.active.size := by
  simp [Partition.segments, segmentBytes]

/-- With the batch the files grow by what was foreseen, the header of a rolled segment included. -/
theorem RollsTo.growth (rolls : RollsTo p d encoded drawn q mid) :
    segmentBytes q.segments + encoded.length =
      segmentBytes p.segments + p.growth encoded.length := by
  cases rolls with
  | fits room =>
      rw [Partition.growth, if_neg fun full => absurd full.2 (Nat.not_lt.2 room)]
  | @rolled sealed _ full filled reindexed _ _ _ _ =>
      rw [Partition.growth, if_pos ⟨Nat.pos_of_ne_zero filled, full⟩, Partition.segmentBytes_eq,
        Partition.segmentBytes_eq]
      have closed : segmentBytes (p.closedSegments ++ [sealed]) =
          segmentBytes p.closedSegments + p.active.size := by
        simp [segmentBytes, reindexed.same.2.2.2]
      simp only [Partition.rolled, newSegment, closed]
      omega

/-- Every append grows the log by what the batch brings at most, and by exactly that when it
is acknowledged. -/
theorem Appends.growth (appends : Appends p d b encoded drawn p' d' outcome) :
    (segmentBytes p.segments ≤ segmentBytes p'.segments ∧
      segmentBytes p'.segments ≤ segmentBytes p.segments + p.growth encoded.length) ∧
    ∀ base, outcome = .ok base →
      segmentBytes p'.segments = segmentBytes p.segments + p.growth encoded.length := by
  cases appends with
  | refused _ => exact ⟨⟨Nat.le_refl _, Nat.le_add_right ..⟩, fun _ wrong => by cases wrong⟩
  | unrolled _ _ _ _ =>
      exact ⟨⟨Nat.le_refl _, Nat.le_add_right ..⟩, fun _ wrong => by cases wrong⟩
  | @unknown q _ _ _ _ rolls _ _ =>
      have grown := rolls.growth
      have same : segmentBytes q.fenced.segments = segmentBytes q.segments := rfl
      have least : encoded.length ≤ p.growth encoded.length := by
        unfold Partition.growth
        split <;> omega
      exact ⟨⟨by omega, by omega⟩, fun _ wrong => by cases wrong⟩
  | @written q _ _ _ _ rolls _ _ _ =>
      have grown := rolls.growth
      have more : segmentBytes (q.extended b encoded).segments =
          segmentBytes q.segments + encoded.length := by
        rw [Partition.segmentBytes_eq, Partition.segmentBytes_eq, Nat.add_assoc]
        rfl
      exact ⟨⟨by omega, by omega⟩, fun _ _ => by omega⟩

/-- An append has checked the size of its batch. -/
theorem checkAppend_bytes (passed : checkAppend p b encoded = .ok ()) :
    encoded.length ≤ p.options.batchBytes.toNat := by
  simp only [checkAppend, bind_eq_ok, failIf_eq_ok, exists_const, not_or, Nat.not_lt] at passed
  exact passed.2.2.2.1.2.2

namespace SystemLog

theorem bounds (log : SystemLog p) :
    segmentHeaderBytes.toNat + p.options.batchBytes.toNat ≤ p.options.segmentBytes.toNat ∧
      p.options.segmentBytes.toNat < 2 ^ 63 := by
  obtain ⟨config, valid, segment, batch⟩ := log.configured
  rw [segment, batch]
  exact PartitionConfigV1.segment_bounds valid

theorem active_le (log : SystemLog p) : p.active.size ≤ p.options.segmentBytes.toNat :=
  log.within p.active (by simp [Partition.segments])

/-- The same segments under the same options. -/
theorem of_eq (log : SystemLog p) (options : q.options = p.options)
    (segments : q.segments = p.segments) : SystemLog q :=
  ⟨by rw [options]; exact log.configured, by rw [options, segments]; exact log.within⟩

/-- After a roll there is room for every batch. -/
theorem rollsTo (log : SystemLog p) (rolls : RollsTo p d encoded drawn q mid)
    (small : encoded.length ≤ p.options.batchBytes.toNat) :
    SystemLog q ∧ encoded.length + q.active.size ≤ q.options.segmentBytes.toNat := by
  have bounds := log.bounds
  cases rolls with
  | fits room => exact ⟨log, room⟩
  | @rolled sealed _ full filled reindexed _ _ _ _ =>
      have size : (newSegment (drawnHeader drawn p.topic p.partition p.logEnd)).size =
          segmentHeaderBytes.toNat := rfl
      refine ⟨⟨log.configured, fun s mem => ?_⟩, ?_⟩
      · simp only [Partition.segments, Partition.rolled, List.mem_append, List.mem_singleton] at mem
        change s.size ≤ p.options.segmentBytes.toNat
        rcases mem with (mem | rfl) | rfl
        · exact log.within s (by simp [Partition.segments, mem])
        · rw [reindexed.same.2.2.2]
          exact log.active_le
        · omega
      · change encoded.length + segmentHeaderBytes.toNat ≤ p.options.segmentBytes.toNat
        omega

/-- Appends keep a system log within its segments. -/
theorem appends (log : SystemLog p) (appends : Appends p d b encoded drawn p' d' outcome) :
    SystemLog p' := by
  cases appends with
  | refused _ => exact log
  | unrolled _ _ _ _ => exact log.of_eq rfl rfl
  | unknown passed rolls _ _ => exact (log.rollsTo rolls (checkAppend_bytes passed)).1.of_eq rfl rfl
  | @written q _ _ _ passed rolls _ _ _ =>
      obtain ⟨rolled, room⟩ := log.rollsTo rolls (checkAppend_bytes passed)
      refine ⟨rolled.configured, fun s mem => ?_⟩
      change s ∈ q.closedSegments ++ [_] at mem
      rcases List.mem_append.1 mem with mem | mem
      · exact rolled.within s (by simp [Partition.segments, mem])
      · obtain rfl := List.mem_singleton.1 mem
        change q.active.size + encoded.length ≤ q.options.segmentBytes.toNat
        omega

end SystemLog

end Writer

/-! ## Offering events -/

/-- Offer an event to a log: admission, and then `AppendBatch` at the end of the log. -/
def offerEvent (p : Partition) (topic : TopicID) (value : Bytes) (limit : UInt64)
    (drawn : SegmentID) (free : Bool) : DirM (Partition × Except GoError UInt64) :=
  match systemEventAdmission p topic p.logEnd value limit with
  | .error e => return (p, .error e)
  | .ok _ => appendBatch p (systemBatch topic p.logEnd value) drawn free

section Offers

variable {topic : TopicID} {limit : UInt64} {p q p' : Partition} {d d' : Dir Name} {value : Bytes}
  {drawn : SegmentID} {free : Bool} {outcome : Except GoError UInt64}
  {result : Except GoError (Partition × Except GoError UInt64)}

/-- A refused event changes neither memory nor disk. -/
theorem runs_offerEvent_refused {e : GoError}
    (refused : systemEventAdmission p topic p.logEnd value limit = .error e)
    (ran : Prog.Runs Dir.device (offerEvent p topic value limit drawn free) d result d') :
    result = .ok (p, .error e) ∧ d' = d := by
  rw [offerEvent, refused] at ran
  obtain ⟨rfl, rfl⟩ := Prog.runs_done.1 ran
  exact ⟨rfl, rfl⟩

/-- An event that is admitted fits under the limit together with what it brings. -/
theorem systemEventAdmission_fits (log : SystemLog p)
    (admitted : systemEventAdmission p topic p.logEnd value limit = .ok ()) :
    (systemBatch topic p.logEnd value).Valid ∧
      systemLogGrowth p (systemBatch topic p.logEnd value).bytes.length =
        .ok (p.growth (systemBatch topic p.logEnd value).bytes.length) ∧
      segmentBytes p.segments + p.growth (systemBatch topic p.logEnd value).bytes.length ≤
        limit.toNat := by
  simp only [systemEventAdmission, bind_eq_ok, systemLogAdmission_eq_ok] at admitted
  obtain ⟨encoded, encodes, -, growth, accounted, -, fits⟩ := admitted
  obtain ⟨valid, rfl⟩ := RecordBatch.encode_eq_ok.1 encodes
  have total := valid.total_bounds
  have bounds := log.bounds
  have active := log.active_le
  have header : segmentHeaderBytes.toNat = 72 := rfl
  have batch : maxBatchBytes.toNat < 2 ^ 32 := maxBatchBytes.toNat_lt
  rw [RecordBatch.length_bytes] at accounted ⊢
  have exact' := (systemLogGrowth_eq_ok (by omega)).1 accounted
  rw [← Partition.growth] at exact'
  have positive : p.growth (systemBatch topic p.logEnd value).total ≠ 0 := by
    unfold Partition.growth
    split <;> omega
  rw [exact'] at fits accounted
  exact ⟨valid, accounted, fits positive⟩

/-- What one offered event does to the log. -/
structure OfferEnds (topic : TopicID) (limit : UInt64) (value : Bytes) (p : Partition)
    (d : Dir Name) (p' : Partition) (d' : Dir Name) (outcome : Except GoError UInt64) : Prop where
  log : SystemLog p'
  grows : segmentBytes p.segments ≤ segmentBytes p'.segments
  stays : (p' = p ∧ d' = d) ∨ segmentBytes p'.segments ≤ limit.toNat
  acknowledged : ∀ base, outcome = .ok base →
    systemEventAdmission p topic p.logEnd value limit = .ok () ∧
      ∃ growth, systemLogGrowth p (systemBatch topic p.logEnd value).bytes.length = .ok growth ∧
        segmentBytes p'.segments = segmentBytes p.segments + growth

/-- An offered event is refused, acknowledged, or fails within the growth that was admitted. -/
theorem runs_offerEvent (log : SystemLog p)
    (ran : Prog.Runs Dir.device (offerEvent p topic value limit drawn free) d result d') :
    ∃ p' outcome, result = .ok (p', outcome) ∧
      OfferEnds topic limit value p d p' d' outcome := by
  have unchanged : ∀ e, OfferEnds topic limit value p d p d (.error e) := fun e =>
    ⟨log, Nat.le_refl _, .inl ⟨rfl, rfl⟩, fun base wrong => by cases wrong⟩
  cases admitted : systemEventAdmission p topic p.logEnd value limit with
  | error e =>
      obtain ⟨rfl, rfl⟩ := runs_offerEvent_refused admitted ran
      exact ⟨p, _, rfl, unchanged e⟩
  | ok _ =>
      obtain ⟨-, accounted, fits⟩ := systemEventAdmission_fits log admitted
      rw [offerEvent, admitted] at ran
      rcases runs_appendBatch ran with ⟨e, -, rfl, rfl⟩ | ⟨-, -, q, outcome, appends, rfl⟩
      · exact ⟨p, _, rfl, unchanged e⟩
      · have grown := appends.growth
        have same : (q.told free (systemBatch topic p.logEnd value).records outcome).segments =
            q.segments := by
          cases outcome <;> rfl
        refine ⟨_, outcome, rfl, (log.appends appends).of_eq (by cases outcome <;> rfl) same, ?_,
          .inr ?_, fun base ok => ⟨admitted, _, accounted, ?_⟩⟩
        · rw [same]
          exact grown.1.1
        · rw [same]
          exact grown.1.2.trans fits
        · rw [same]
          exact grown.2 base ok

/-! ## Runs -/

/-- One event is offered, and operations of its append may fail. -/
def OfferStep (topic : TopicID) (limit : UInt64) (before after : Partition × Dir Name) : Prop :=
  ∃ value drawn free outcome,
    Prog.Runs Dir.device (offerEvent before.1 topic value limit drawn free) before.2
      (.ok (after.1, outcome)) after.2

/-- Events are offered one after the other. -/
abbrev OfferRun (topic : TopicID) (limit : UInt64) :
    Partition × Dir Name → Partition × Dir Name → Prop :=
  Relation.ReflTransGen (OfferStep topic limit)

/-- A run keeps a log within its limit, and does not touch one beyond it. -/
theorem OfferRun.keeps {before after : Partition × Dir Name} (log : SystemLog before.1)
    (run : OfferRun topic limit before after) :
    SystemLog after.1 ∧
      (segmentBytes before.1.segments ≤ limit.toNat →
        segmentBytes after.1.segments ≤ limit.toNat) ∧
      (limit.toNat < segmentBytes before.1.segments → after = before) := by
  induction run with
  | refl => exact ⟨log, id, fun _ => rfl⟩
  | @tail mid after _ step ih =>
      obtain ⟨log, within, beyond⟩ := ih
      obtain ⟨value, drawn, free, outcome, ran⟩ := step
      obtain ⟨p', outcome', same, ends⟩ := runs_offerEvent log ran
      obtain ⟨rfl, rfl⟩ := Prod.mk.inj (Except.ok.inj same)
      refine ⟨ends.log, fun small => ?_, fun large => ?_⟩
      · rcases ends.stays with ⟨unchanged, -⟩ | below
        · rw [unchanged]
          exact within small
        · exact below
      · have same := beyond large
        rw [← same] at large
        rcases ends.stays with ⟨unchanged, untouched⟩ | below
        · exact (Prod.ext unchanged untouched).trans same
        · exact absurd (ends.grows.trans below) (Nat.not_le.2 large)

/-- The budget of a log that is at `q` and `d'` after a run from `p` and `d`. -/
structure BudgetKept (topic : TopicID) (limit : UInt64) (p : Partition) (d : Dir Name)
    (q : Partition) (d' : Dir Name) : Prop where
  within : segmentBytes p.segments ≤ limit.toNat → segmentBytes q.segments ≤ limit.toNat
  beyond : limit.toNat < segmentBytes p.segments → q = p ∧ d' = d
  /-- Beyond the limit nothing is admitted. -/
  exhausted : limit.toNat < segmentBytes q.segments → ∀ value, ∃ e,
    systemEventAdmission q topic q.logEnd value limit = .error e
  refused : ∀ {value e drawn free result d''},
    systemEventAdmission q topic q.logEnd value limit = .error e →
    Prog.Runs Dir.device (offerEvent q topic value limit drawn free) d' result d'' →
    result = .ok (q, .error e) ∧ d'' = d'
  /-- An acknowledged event adds what admission has accounted for. -/
  appended : ∀ {value drawn free q' base d''},
    Prog.Runs Dir.device (offerEvent q topic value limit drawn free) d' (.ok (q', .ok base)) d'' →
    systemEventAdmission q topic q.logEnd value limit = .ok () ∧
      ∃ growth, systemLogGrowth q (systemBatch topic q.logEnd value).bytes.length = .ok growth ∧
        segmentBytes q'.segments = segmentBytes q.segments + growth
  /-- Recovery asks for no growth. -/
  recovery : segmentBytes q.segments < 2 ^ 64 → systemLogAdmission q 0 limit.toNat = .ok ()

/-- Whatever events are offered, and however their appends end, a system log that is within its
budget stays there, and one that is beyond it does not change. -/
theorem history_within_budget (positive : limit ≠ 0) (log : SystemLog p)
    (run : OfferRun topic limit (p, d) (q, d')) : BudgetKept topic limit p d q d' := by
  obtain ⟨log', within, beyond⟩ := run.keeps log
  dsimp only at log'
  refine ⟨within, fun large => Prod.mk.inj (beyond large), fun large value => ?_,
    runs_offerEvent_refused, fun ran => ?_, fun small => ?_⟩
  · cases admitted : systemEventAdmission q topic q.logEnd value limit with
    | error e => exact ⟨e, rfl⟩
    | ok _ =>
        have fits := (systemEventAdmission_fits log' admitted).2.2
        omega
  · obtain ⟨_, _, same, ends⟩ := runs_offerEvent log' ran
    obtain ⟨rfl, rfl⟩ := Prod.mk.inj (Except.ok.inj same)
    exact ends.acknowledged _ rfl
  · have active := log'.active_le
    have bounds := log'.bounds
    have header : segmentHeaderBytes.toNat = 72 := rfl
    have none : systemLogGrowth q 0 = .ok 0 := by
      rw [systemLogGrowth_eq_ok (by omega), if_neg (by omega)]
    refine systemLogAdmission_eq_ok.2 ⟨fun zero => ?_, 0, none, ?_, fun wrong => absurd rfl wrong⟩
    · exact positive (UInt64.toNat_inj.1 zero)
    · rw [maxUint64]
      omega

end Offers

namespace SystemHistory

theorem valid_key : TopicKey.Valid ⟨consumerOffsetsTopicID, 0⟩ := by
  decide

/-- The offsets log of a new store. -/
def spec : PartitionSpec :=
  firstSpec ⟨consumerOffsetsTopicID, 0⟩ valid_key systemPartitionConfig

def fresh : Partition :=
  spec.fresh ∅ 1

theorem systemLog_fresh : SystemLog fresh :=
  ⟨⟨systemPartitionConfig, rfl, rfl, rfl⟩, by decide +kernel⟩

/-- An event of one byte takes the place that the limit leaves. -/
theorem one_event_kept : ∃ q d',
    OfferRun consumerOffsetsTopicID 161 (fresh, spec.created ∅ 1) (q, d') ∧
      segmentBytes q.segments = 161 ∧
      BudgetKept consumerOffsetsTopicID 161 fresh (spec.created ∅ 1) q d' := by
  have found : ∃ x ∈ Prog.run? Dir.device (offerEvent fresh consumerOffsetsTopicID [0] 161 1 true)
      (spec.created ∅ 1), segmentBytes x.1.1.segments = 161 := by
    decide +kernel
  obtain ⟨⟨⟨q, outcome⟩, d'⟩, ran, size⟩ := found
  have run : OfferRun consumerOffsetsTopicID 161 (fresh, spec.created ∅ 1) (q, d') :=
    .single ⟨[0], 1, true, outcome, .of_run (Prog.run?_eq_some.1 ran)⟩
  exact ⟨q, d', run, size, history_within_budget (by decide) systemLog_fresh run⟩

/-- A log of many full segments. -/
def long (n : Nat) : Partition :=
  { fresh with closedSegments := (List.range n).map fun i =>
      { fresh.active with
        header := drawnHeader 1 consumerOffsetsTopicID 0 (.ofNat i)
        size := defaultSegmentBytes.toNat } }

theorem systemLog_long (n : Nat) : SystemLog (long n) := by
  refine ⟨⟨systemPartitionConfig, rfl, rfl, rfl⟩, fun s mem => ?_⟩
  rw [Partition.segments, List.mem_append, List.mem_singleton] at mem
  rcases mem with mem | rfl
  · obtain ⟨i, -, rfl⟩ := List.mem_map.1 mem
    exact Nat.le_refl _
  · exact systemLog_fresh.active_le

theorem segmentBytes_long (n : Nat) :
    n * defaultSegmentBytes.toNat ≤ segmentBytes (long n).segments := by
  rw [Partition.segmentBytes_eq]
  refine Nat.le_trans (Nat.le_of_eq ?_) (Nat.le_add_right ..)
  simp [segmentBytes, long, Function.comp_def]

/-- A history whose bytes no word counts is refused by recovery under every limit. -/
theorem uncountable_history_refused :
    SystemLog (long (2 ^ 38)) ∧
      ∀ limit : UInt64, systemLogAdmission (long (2 ^ 38)) 0 limit.toNat ≠ .ok () := by
  refine ⟨systemLog_long _, fun limit admitted => ?_⟩
  obtain ⟨-, _, -, counted, -⟩ := systemLogAdmission_eq_ok.1 admitted
  have large := segmentBytes_long (2 ^ 38)
  have size : defaultSegmentBytes.toNat = 67108936 := rfl
  rw [maxUint64] at counted
  rw [size] at large
  omega

end SystemHistory

/-! ## The events of a store -/

section Store

variable {w w' : World} {value : Bytes} {drawn : SegmentID}

/-- An append on a partition of the store happens in its directory. -/
theorem steps_appendAt (path : Store → Path Name) (p : Store → Partition)
    (b : Store → RecordBatch) (put : Partition → Store → Store) {r : Except GoError UInt64}
    (steps : Steps FS.device (do
      let s ← .read
      let (p, outcome) ← .lift ((appendBatch (p s) (b s) drawn true).atPath (path s))
      .update (put p)
      .check outcome) w r w')
    {d : Dir Name} (found : w.2 (path w.1) = some d) :
    ∃ q d', Prog.Runs Dir.device (appendBatch (p w.1) (b w.1) drawn true) d (.ok (q, r)) d' ∧
      w' = (put q w.1, w.2.set (path w.1) (some d')) := by
  rcases steps_lift_bind.1 (steps_read_bind.1 steps) with
    ⟨⟨q, outcome⟩, fs, ran, later⟩ | ⟨e, fs, ran, -⟩
  · obtain ⟨d', inner, rfl⟩ := (Prog.runs_atPath found).1 ran
    obtain ⟨rfl, rfl⟩ := steps_check.1 (steps_update_bind.1 later)
    exact ⟨q, d', inner, rfl⟩
  · obtain ⟨d', inner, -⟩ := (Prog.runs_atPath found).1 ran
    rcases runs_appendBatch inner with ⟨_, -, wrong, -⟩ | ⟨-, -, _, _, -, wrong⟩
    · cases wrong
    · cases wrong

/-- The catalog events of the store are appended to its catalog partition. -/
theorem steps_appendCatalog {r : Except GoError UInt64}
    (steps : Steps FS.device (appendCatalog value drawn) w r w') {d : Dir Name}
    (found : w.2 w.1.catalogPath = some d) :
    ∃ catalog d', Prog.Runs Dir.device (appendBatch w.1.catalog
        (systemBatch clusterMetadataTopicID w.1.catalog.logEnd value) drawn true) d
        (.ok (catalog, r)) d' ∧
      w' = ({ w.1 with catalog }, w.2.set w.1.catalogPath (some d')) :=
  steps_appendAt Store.catalogPath Store.catalog
    (fun s => systemBatch clusterMetadataTopicID s.catalog.logEnd value)
    (fun catalog s => { s with catalog }) steps found

/-- Its offset events are appended to the offsets partition. -/
theorem steps_appendOffsets {base : UInt64} {r : Except GoError UInt64}
    (steps : Steps FS.device (appendOffsets base value drawn) w r w') {d : Dir Name}
    (found : w.2 w.1.offsetsPath = some d) :
    ∃ offsets d', Prog.Runs Dir.device (appendBatch w.1.offsets
        (systemBatch consumerOffsetsTopicID base value) drawn true) d (.ok (offsets, r)) d' ∧
      w' = ({ w.1 with offsets }, w.2.set w.1.offsetsPath (some d')) :=
  steps_appendAt Store.offsetsPath Store.offsets
    (fun _ => systemBatch consumerOffsetsTopicID base value)
    (fun offsets s => { s with offsets }) steps found

/-- The event of a new topic has been admitted when it is appended. -/
theorem Store.topicEvent_admitted {s : Store} {topic : TopicID} {name : Bytes}
    {config : PartitionConfigV1} {prepared : List Partition}
    (event : s.topicEvent topic name config prepared = .ok value) :
    systemEventAdmission s.catalog clusterMetadataTopicID s.catalog.logEnd value
      s.options.maxCatalogHistoryBytes = .ok () := by
  simp only [Store.topicEvent, bind_eq_ok, pure_eq_ok, Except.ok.injEq] at event
  obtain ⟨_, -, _, -, _, admitted, rfl⟩ := event
  exact admitted

/-- So has the event of a retention pass. -/
theorem Store.retentionEvent_admitted {s : Store} {p : Partition} {descriptor : TopicPartition}
    {proposal : RetentionProposal} {nowMillis : Int64}
    (event : s.retentionEvent p descriptor proposal nowMillis = .ok value) :
    systemEventAdmission s.catalog clusterMetadataTopicID s.catalog.logEnd value
      s.options.maxCatalogHistoryBytes = .ok () := by
  simp only [Store.retentionEvent, bind_eq_ok, pure_eq_ok, Except.ok.injEq] at event
  obtain ⟨_, -, _, -, _, admitted, rfl⟩ := event
  exact admitted

/-- An admitted event that is appended to the catalog has been offered to it. -/
theorem appendCatalog_offers {r : Except GoError UInt64}
    (admitted : systemEventAdmission w.1.catalog clusterMetadataTopicID w.1.catalog.logEnd value
      w.1.options.maxCatalogHistoryBytes = .ok ())
    (steps : Steps FS.device (appendCatalog value drawn) w r w') {d : Dir Name}
    (found : w.2 w.1.catalogPath = some d) :
    ∃ d', w'.2 w.1.catalogPath = some d' ∧
      OfferStep clusterMetadataTopicID w.1.options.maxCatalogHistoryBytes (w.1.catalog, d)
        (w'.1.catalog, d') := by
  obtain ⟨catalog, d', ran, rfl⟩ := steps_appendCatalog steps found
  refine ⟨d', FS.set_self .., value, drawn, true, r, ?_⟩
  rw [offerEvent, admitted]
  exact ran

/-- Every event of the offsets log is offered to it. -/
theorem appendOffsetsEventLocked_offers {eventType : EventType} {body : Bytes}
    {r : Except GoError Unit}
    (steps : Steps FS.device (appendOffsetsEventLocked eventType body drawn) w r w') {d : Dir Name}
    (found : w.2 w.1.offsetsPath = some d) :
    ∃ d', w'.2 w.1.offsetsPath = some d' ∧
      OfferRun consumerOffsetsTopicID w.1.options.maxOffsetsHistoryBytes (w.1.offsets, d)
        (w'.1.offsets, d') := by
  have unchanged : ∃ d', w.2 w.1.offsetsPath = some d' ∧
      OfferRun consumerOffsetsTopicID w.1.options.maxOffsetsHistoryBytes (w.1.offsets, d)
        (w.1.offsets, d') :=
    ⟨d, found, .refl⟩
  rcases steps_check_bind.1 steps with ⟨value, -, steps⟩ | ⟨e, -, rfl, rfl⟩
  swap
  · exact unchanged
  rw [steps_read_bind] at steps
  rcases steps_check_bind.1 steps with ⟨base, stop, steps⟩ | ⟨e, -, rfl, rfl⟩
  swap
  · exact unchanged
  rcases steps_check_bind.1 steps with ⟨_, admitted, steps⟩ | ⟨e, -, rfl, rfl⟩
  swap
  · exact unchanged
  obtain rfl : base = w.1.offsets.logEnd := by
    simp only [Partition.endOffset, bind_eq_ok, pure_eq_ok, Except.ok.injEq] at stop
    obtain ⟨_, -, same⟩ := stop
    exact same.symm
  have offered : ∀ {r mid}, Steps FS.device (appendOffsets w.1.offsets.logEnd value drawn) w r mid →
      ∃ d', mid.2 w.1.offsetsPath = some d' ∧
        OfferRun consumerOffsetsTopicID w.1.options.maxOffsetsHistoryBytes (w.1.offsets, d)
          (mid.1.offsets, d') := by
    intro r mid appending
    obtain ⟨offsets, d', ran, rfl⟩ := steps_appendOffsets appending found
    refine ⟨d', FS.set_self .., .single ⟨value, drawn, true, r, ?_⟩⟩
    rw [offerEvent, admitted]
    exact ran
  rcases steps_bind.1 steps with ⟨place, mid, appending, steps⟩ | ⟨e, rfl, appending⟩
  swap
  · exact offered appending
  obtain ⟨outcome, left, applying, ending⟩ := steps_attempt_bind.1 steps
  rcases steps_applyOffsets applying with ⟨e, rfl, rfl, -⟩ | ⟨state, rfl, rfl, -⟩
  · dsimp only at ending
    rw [steps_update_bind] at ending
    obtain ⟨rfl, rfl⟩ := steps_fail.1 ending
    obtain ⟨d', file, run⟩ := offered appending
    exact ⟨d', file, run⟩
  · obtain ⟨rfl, rfl⟩ := steps_pure.1 ending
    obtain ⟨d', file, run⟩ := offered appending
    exact ⟨d', file, run⟩

end Store

end Immulog
