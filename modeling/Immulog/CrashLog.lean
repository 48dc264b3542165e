import Immulog.Reopen

/-!
Segment files through crashes.

`Settled` is the directory of a running partition: every segment file holds its log, and
what is not durable yet is something the last open has taken over.  `OnDisk` is a
directory between a crash and the next open: behind the last segment there may be a
piece of a batch, and the last segment may be one that nothing was appended to.  Appends
keep the one, their crashes lead to the other, and a machine crash keeps `OnDisk` when
all that the last open took over is durable.
-/

namespace Immulog

open Lib

/-- Base and size of the segments an open has taken over. -/
abbrev Taken := List (UInt64 × Nat)

def SegmentLog.key (log : SegmentLog) : UInt64 × Nat :=
  (log.header.baseOffset, log.bytes.length)

/-- The entry of a segment is durable, or the last open has taken it over. -/
def Linked (taken : Taken) (log : SegmentLog) (durable : Bool) : Prop :=
  durable = true ∨ ∃ size, (log.header.baseOffset, size) ∈ taken

/-- A segment file that holds exactly its log. -/
def ClosedFile (taken : Taken) (d : Dir Name) (log : SegmentLog) : Prop :=
  ∃ f durable, d.lookup (.log log.header.baseOffset) = some ⟨some f, durable⟩ ∧
    f.data = log.bytes ∧ Linked taken log durable ∧ (f.disk = log.bytes ∨ log.key ∈ taken)

/-- The last segment between a crash and the next open. -/
structure LastSegment where
  log : SegmentLog
  tail : Bytes
  /-- Something may have been acknowledged in it. -/
  wanted : Bool

def LastFile (spec : PartitionSpec) (taken : Taken) (d : Dir Name) (x : LastSegment) : Prop :=
  ∃ f durable, d.lookup (.log x.log.header.baseOffset) = some ⟨some f, durable⟩ ∧
    f.data = x.log.bytes ++ x.tail ∧ (x.wanted = true → Linked taken x.log durable) ∧
    ((∃ t, spec.Torn x.log.endOffset t ∧ f.disk = x.log.bytes ++ t) ∨
      (x.wanted = true ∧ x.log.key ∈ taken))

/-- Only the given segments are in the directory. -/
structure OnlyLogs (d : Dir Name) (logs : List SegmentLog) : Prop where
  names : ∀ base, .log base ∈ d → ∃ log ∈ logs, log.header.baseOffset = base
  stray : ∀ text, .strayLog text ∉ d

structure Settled (spec : PartitionSpec) (taken : Taken) (d : Dir Name)
    (logs : List SegmentLog) : Prop where
  chain : spec.Chain logs
  files : ∀ log ∈ logs, ClosedFile taken d log
  only : OnlyLogs d logs

structure OnDisk (spec : PartitionSpec) (taken : Taken) (d : Dir Name)
    (closed : List SegmentLog) (last : LastSegment) : Prop where
  chain : spec.Chain (closed ++ [last.log])
  files : ∀ log ∈ closed, ClosedFile taken d log
  last_file : LastFile spec taken d last
  torn : spec.Torn last.log.endOffset last.tail
  unwanted : last.wanted = false → last.log.batches = []
  only : OnlyLogs d (closed ++ [last.log])

theorem Settled.onDisk {spec : PartitionSpec} {taken : Taken} {d : Dir Name}
    {closed : List SegmentLog} {last : SegmentLog}
    (settled : Settled spec taken d (closed ++ [last])) :
    OnDisk spec taken d closed ⟨last, [], true⟩ := by
  refine ⟨settled.chain, fun log mem => settled.files log (List.mem_append_left _ mem), ?_,
    .inl rfl, (fun h => by simp at h), settled.only⟩
  obtain ⟨f, durable, found, data, linked, disk⟩ :=
    settled.files last (List.mem_append_right _ List.mem_cons_self)
  refine ⟨f, durable, found, by simpa using data, fun _ => linked, ?_⟩
  rcases disk with synced | mem
  · exact .inl ⟨[], .inl rfl, by simpa using synced⟩
  · exact .inr ⟨rfl, mem⟩

theorem ClosedFile.read {taken : Taken} {d : Dir Name} {log : SegmentLog}
    (file : ClosedFile taken d log) : d.read? (.log log.header.baseOffset) = some log.bytes := by
  obtain ⟨f, durable, found, data, _⟩ := file
  rw [read?_of_lookup found, data]

/-- A log on disk can be read back. -/
theorem OnDisk.holds {spec : PartitionSpec} {taken : Taken} {d : Dir Name}
    {closed : List SegmentLog} {last : LastSegment} (onDisk : OnDisk spec taken d closed last) :
    HoldsLog spec d closed last.log last.tail := by
  refine ⟨onDisk.chain, fun log mem => (onDisk.files log mem).read, ?_, onDisk.torn,
    onDisk.only.names, onDisk.only.stray⟩
  obtain ⟨f, durable, found, data, _⟩ := onDisk.last_file
  rw [read?_of_lookup found, data]

/-! ## Changes that leave the segment files alone -/

/-- The segment files and stray names are the same, apart from entries made durable. -/
def SameLogs (d d' : Dir Name) : Prop :=
  (∀ base, Entry.Settles (d.lookup (.log base)) (d'.lookup (.log base))) ∧
    ∀ text, .strayLog text ∉ d → .strayLog text ∉ d'

theorem SameLogs.refl (d : Dir Name) : SameLogs d d :=
  ⟨fun _ => .refl _, fun _ absent => absent⟩

theorem mem_of_settles {d d' : Dir Name} {name : Name}
    (settles : Entry.Settles (d.lookup name) (d'.lookup name)) (mem : name ∈ d') : name ∈ d := by
  rw [← AList.lookup_isSome] at mem ⊢
  rcases settles with same | same
  · rwa [same] at mem
  · rwa [same, Option.isSome_map] at mem

theorem SameLogs.of_settles {d d' : Dir Name}
    (settles : ∀ name : Name, name.NotIndex → Entry.Settles (d.lookup name) (d'.lookup name)) :
    SameLogs d d' :=
  ⟨fun base => settles (.log base) trivial, fun text absent mem =>
    absent (mem_of_settles (settles (.strayLog text) trivial) mem)⟩

theorem lookup_of_settles {e e' : Option Entry} (settles : Entry.Settles e e') {f : File}
    {durable : Bool} (found : e = some ⟨some f, durable⟩) :
    ∃ durable', e' = some ⟨some f, durable'⟩ ∧ (durable = true → durable' = true) := by
  subst found
  rcases settles with rfl | rfl
  · exact ⟨durable, rfl, id⟩
  · exact ⟨true, rfl, fun _ => rfl⟩

theorem Linked.mono {taken : Taken} {log : SegmentLog} {durable durable' : Bool}
    (linked : Linked taken log durable) (keeps : durable = true → durable' = true) :
    Linked taken log durable' :=
  linked.imp_left keeps

theorem ClosedFile.settles {taken : Taken} {d d' : Dir Name} {log : SegmentLog}
    (file : ClosedFile taken d log)
    (same : Entry.Settles (d.lookup (.log log.header.baseOffset))
      (d'.lookup (.log log.header.baseOffset))) : ClosedFile taken d' log := by
  obtain ⟨f, durable, found, data, linked, disk⟩ := file
  obtain ⟨durable', found', keeps⟩ := lookup_of_settles same found
  exact ⟨f, durable', found', data, linked.mono keeps, disk⟩

theorem OnlyLogs.same {d d' : Dir Name} {logs : List SegmentLog} (only : OnlyLogs d logs)
    (same : SameLogs d d') : OnlyLogs d' logs :=
  ⟨fun base mem => only.names base (mem_of_settles (same.1 base) mem),
    fun text => same.2 text (only.stray text)⟩

theorem Settled.same {spec : PartitionSpec} {taken : Taken} {d d' : Dir Name}
    {logs : List SegmentLog} (settled : Settled spec taken d logs) (same : SameLogs d d') :
    Settled spec taken d' logs :=
  ⟨settled.chain, fun log mem => (settled.files log mem).settles (same.1 _),
    settled.only.same same⟩

theorem OnDisk.same {spec : PartitionSpec} {taken : Taken} {d d' : Dir Name}
    {closed : List SegmentLog} {last : LastSegment} (onDisk : OnDisk spec taken d closed last)
    (same : SameLogs d d') : OnDisk spec taken d' closed last := by
  refine ⟨onDisk.chain, fun log mem => (onDisk.files log mem).settles (same.1 _), ?_, onDisk.torn,
    onDisk.unwanted, onDisk.only.same same⟩
  obtain ⟨f, durable, found, data, linked, disk⟩ := onDisk.last_file
  obtain ⟨durable', found', keeps⟩ := lookup_of_settles (same.1 _) found
  exact ⟨f, durable', found', data, fun wanted => (linked wanted).mono keeps, disk⟩

theorem HoldsNothing.same {d d' : Dir Name} (empty : HoldsNothing d) (same : SameLogs d d') :
    HoldsNothing d' :=
  ⟨fun base mem => empty.names base (mem_of_settles (same.1 base) mem),
    fun text => same.2 text (empty.stray text)⟩

/-! ## Machine crashes -/

/-- All that was taken over is on the disk. -/
def AllDurable (d : Dir Name) (taken : Taken) : Prop :=
  ∀ key ∈ taken, ∃ f, d.lookup (.log key.1) = some ⟨some f, true⟩ ∧
    key.2 ≤ f.disk.length ∧ f.disk <+: f.data

section Durable

variable {spec : PartitionSpec} {taken : Taken} {d d' : Dir Name} {log : SegmentLog}

theorem AllDurable.linked (all : AllDurable d taken) {f : File} {durable : Bool}
    (found : d.lookup (.log log.header.baseOffset) = some ⟨some f, durable⟩)
    (linked : Linked taken log durable) : durable = true := by
  rcases linked with same | ⟨size, mem⟩
  · exact same
  · obtain ⟨g, found', _⟩ := all _ mem
    rw [found] at found'
    cases found'
    rfl

/-- The bytes of a log that was taken over are on the disk, and behind them only what
has been written. -/
theorem AllDurable.disk (all : AllDurable d taken) {f : File} {durable : Bool} {tail : Bytes}
    (found : d.lookup (.log log.header.baseOffset) = some ⟨some f, durable⟩)
    (data : f.data = log.bytes ++ tail) (mem : log.key ∈ taken) :
    ∃ t, t <+: tail ∧ f.disk = log.bytes ++ t := by
  obtain ⟨g, found', long, front⟩ := all _ mem
  have same : f = g := by
    change d.lookup (.log log.header.baseOffset) = _ at found'
    rw [found] at found'
    cases found'
    rfl
  subst same
  rw [data] at front
  obtain ⟨t, split⟩ :=
    List.prefix_of_prefix_length_le (List.prefix_append log.bytes tail) front long
  rw [← split] at front
  exact ⟨t, (List.prefix_append_right_inj _).1 front, split.symm⟩

/-- What a machine crash leaves of a file whose written and synced bytes begin with a log. -/
theorem Lib.File.Loses.behind {f f' : File} {front tail t : Bytes} (loses : f.Loses f')
    (data : f.data = front ++ tail) (disk : f.disk = front ++ t) :
    ∃ t', f'.data = front ++ t' ∧ f'.disk = front ++ t' ∧ (t' <+: tail ∨ t' <+: t) := by
  have kept : front <+: f'.data := by
    refine loses.keeps front ?_ ?_
    · rw [data]
      exact List.prefix_append ..
    · rw [disk]
      exact List.prefix_append ..
  obtain ⟨t', split⟩ := kept
  refine ⟨t', split.symm, by rw [loses.settled, split], ?_⟩
  have source := loses.source
  rw [← split, data, disk, List.prefix_append_right_inj, List.prefix_append_right_inj] at source
  exact source

theorem lookup_of_loses {e e' : Option Entry} (loses : Entry.Loses e e') {f : File}
    (found : e = some ⟨some f, true⟩) : ∃ f', e' = some ⟨some f', true⟩ ∧ f.Loses f' := by
  subst found
  cases loses with
  | vanished volatile => cases volatile
  | file loses => exact ⟨_, rfl, loses⟩

/-- A closed segment survives a crash. -/
theorem ClosedFile.loses (file : ClosedFile taken d log) (all : AllDurable d taken)
    (loses : d.Loses d') : ClosedFile [] d' log := by
  obtain ⟨f, durable, found, data, linked, disk⟩ := file
  obtain rfl := all.linked found linked
  have data₀ : f.data = log.bytes ++ [] := by rw [data, List.append_nil]
  have disk₀ : f.disk = log.bytes ++ [] := by
    rcases disk with same | mem
    · rw [same, List.append_nil]
    · obtain ⟨t, front, split⟩ := all.disk found data₀ mem
      rw [split, List.prefix_nil.1 front]
  obtain ⟨f', found', lost⟩ := lookup_of_loses (loses _) found
  obtain ⟨t', data', disk', either⟩ := lost.behind data₀ disk₀
  have empty : t' = [] := by
    rcases either with front | front <;> exact List.prefix_nil.1 front
  rw [empty, List.append_nil] at data' disk'
  exact ⟨f', true, found', data', .inl rfl, .inl disk'⟩

theorem Torn.of_prefix {offset : UInt64} {t tail : Bytes} (torn : spec.Torn offset tail)
    (front : t <+: tail) : spec.Torn offset t := by
  rcases torn with rfl | ⟨b, valid, topic, partition, base, whole⟩
  · exact .inl (List.prefix_nil.1 front)
  · exact .inr ⟨b, valid, topic, partition, base, front.trans whole⟩

theorem mem_of_loses (loses : d.Loses d') {name : Name} (mem : name ∈ d') : name ∈ d := by
  rw [← AList.lookup_isSome] at mem ⊢
  have here := loses name
  cases found : d.lookup name with
  | some e => rfl
  | none =>
      rw [found] at here
      cases gone : d'.lookup name with
      | none => rw [gone] at mem; cases mem
      | some e =>
          rw [gone] at here
          cases here

/-- The last segment survives with some torn tail, unless it is new and empty. -/
theorem LastFile.loses {last : LastSegment} (file : LastFile spec taken d last)
    (torn : spec.Torn last.log.endOffset last.tail) (all : AllDurable d taken)
    (loses : d.Loses d') :
    (∃ t, LastFile spec [] d' { last with tail := t } ∧ spec.Torn last.log.endOffset t) ∨
      (last.wanted = false ∧ d'.lookup (.log last.log.header.baseOffset) = none) := by
  obtain ⟨f, durable, found, data, linked, disk⟩ := file
  have synced : ∃ t, spec.Torn last.log.endOffset t ∧ f.disk = last.log.bytes ++ t := by
    rcases disk with synced | ⟨_, mem⟩
    · exact synced
    · obtain ⟨t, front, split⟩ := all.disk found data mem
      exact ⟨t, Torn.of_prefix torn front, split⟩
  obtain ⟨t, torn', onDisk⟩ := synced
  have here := loses (.log last.log.header.baseOffset)
  rw [found] at here
  cases after : d'.lookup (.log last.log.header.baseOffset) with
  | none =>
      rw [after] at here
      cases here with
      | vanished volatile =>
          refine .inr ⟨?_, rfl⟩
          cases wanted : last.wanted with
          | false => rfl
          | true =>
              have kept := all.linked found (linked wanted)
              simp only at volatile
              rw [kept] at volatile
              cases volatile
  | some e =>
      rw [after] at here
      cases here with
      | @file _ f' _ lost =>
          obtain ⟨t', data', disk', either⟩ := lost.behind data onDisk
          have cut : spec.Torn last.log.endOffset t' := by
            rcases either with front | front
            · exact Torn.of_prefix torn front
            · exact Torn.of_prefix torn' front
          exact .inl ⟨t', ⟨f', true, after, data', fun _ => .inl rfl, .inl ⟨t', cut, disk'⟩⟩, cut⟩

end Durable

/-! ## A directory without a running partition -/

/-- The directory holds the given records and nothing that was acknowledged is missing. -/
inductive Stopped (spec : PartitionSpec) (taken : Taken) (d : Dir Name) (records : List Record) :
    Prop where
  | nothing : HoldsNothing d → records = [] → Stopped spec taken d records
  | log {closed : List SegmentLog} {last : LastSegment} : OnDisk spec taken d closed last →
      records = chainRecords (closed ++ [last.log]) → Stopped spec taken d records

theorem closedChain_concat {topic : TopicID} {partition : UInt32} {base : UInt64}
    {logs : List SegmentLog} {last : SegmentLog} :
    ClosedChain topic partition base (logs ++ [last]) ↔ ClosedChain topic partition base logs ∧
      last.Valid topic partition (chainEnd base logs) ∧ last.batches ≠ [] := by
  induction logs generalizing base with
  | nil => simp [ClosedChain, chainEnd]
  | cons s rest ih =>
      rw [List.cons_append, ClosedChain, ClosedChain, chainEnd, ih]
      simp [and_assoc]

theorem chainRecords_concat (closed : List SegmentLog) (last : SegmentLog) :
    chainRecords (closed ++ [last]) = chainRecords closed ++ last.records := by
  simp [chainRecords]

theorem records_of_unwanted {last : SegmentLog} (empty : last.batches = []) :
    last.records = [] := by
  simp [SegmentLog.records, empty]

/-- When all that was taken over is durable, a machine crash loses no record. -/
theorem Stopped.loses {spec : PartitionSpec} {taken : Taken} {d d' : Dir Name}
    {records : List Record} (stopped : Stopped spec taken d records) (all : AllDurable d taken)
    (loses : d.Loses d') : Stopped spec [] d' records := by
  cases stopped with
  | nothing empty none =>
      exact .nothing ⟨fun base mem => empty.names base (mem_of_loses loses mem),
        fun text mem => empty.stray text (mem_of_loses loses mem)⟩ none
  | @log closed last onDisk same =>
      have files : ∀ log ∈ closed, ClosedFile [] d' log :=
        fun log mem => (onDisk.files log mem).loses all loses
      have stray : ∀ text, .strayLog text ∉ d' :=
        fun text mem => onDisk.only.stray text (mem_of_loses loses mem)
      have names : ∀ base, .log base ∈ d' → ∃ log ∈ closed ++ [last.log],
          log.header.baseOffset = base :=
        fun base mem => onDisk.only.names base (mem_of_loses loses mem)
      rcases onDisk.last_file.loses onDisk.torn all loses with ⟨t, file, torn⟩ | ⟨unwanted, gone⟩
      · have left : OnDisk spec [] d' closed { last with tail := t } :=
          ⟨onDisk.chain, files, file, torn, onDisk.unwanted, names, stray⟩
        exact .log left same
      -- the last segment vanished: nothing was appended to it
      have empty := onDisk.unwanted unwanted
      have left : ∀ base, .log base ∈ d' → ∃ log ∈ closed, log.header.baseOffset = base := by
        intro base mem
        obtain ⟨log, inLogs, rfl⟩ := names base mem
        rcases List.mem_append.1 inLogs with inClosed | isLast
        · exact ⟨log, inClosed, rfl⟩
        · obtain rfl := List.mem_singleton.1 isLast
          rw [← AList.lookup_isSome, gone] at mem
          cases mem
      rw [chainRecords_concat, records_of_unwanted empty, List.append_nil] at same
      rcases List.eq_nil_or_concat closed with rfl | ⟨front, previous, rfl⟩
      · refine .nothing ⟨fun base mem => ?_, stray⟩ same
        obtain ⟨log, inNil, _⟩ := left base mem
        cases inNil
      · have before := (chain_concat.1 onDisk.chain).1
        rw [List.concat_eq_append] at files left same before
        obtain ⟨closedChain, valid, _⟩ := closedChain_concat.1 before
        have settled : Settled spec [] d' (front ++ [previous]) :=
          ⟨chain_concat.2 ⟨closedChain, valid⟩, files, left, stray⟩
        exact .log settled.onDisk same

/-- A stopped log is a matter of its segment files alone. -/
theorem Stopped.same {spec : PartitionSpec} {taken : Taken} {d d' : Dir Name}
    {records : List Record} (stopped : Stopped spec taken d records) (same : SameLogs d d') :
    Stopped spec taken d' records := by
  cases stopped with
  | nothing empty none => exact .nothing (empty.same same) none
  | log onDisk all => exact .log (onDisk.same same) all

end Immulog
