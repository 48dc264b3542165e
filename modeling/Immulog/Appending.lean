import Immulog.Invariant

/-!
Runs of appends on an open partition.

An `AppendCall` is one entry into the append path: `AppendBatch` with the batch of its
caller, or the terminal writer with the records of a group of admitted requests.  Any
filesystem operation of a call may fail.
-/

namespace Immulog

open Lib

/-- `AppendBatch` with a batch, or the terminal writer with the records of the requests. -/
inductive AppendCall where
  | batch (given : RecordBatch)
  | requests (records : List Record)

namespace AppendCall

/-- The batch that the call wants in the log. -/
def offered (p : Partition) : AppendCall → RecordBatch
  | .batch given => given
  | .requests records => formBatch p records

/-- The call in the directory of the partition. -/
def run (p : Partition) (drawn : SegmentID) (free : Bool) :
    AppendCall → DirM (Partition × Except GoError (List Record))
  | .batch given => do
      let (p, outcome) ← appendBatch p given drawn free
      return (p, outcome.map fun _ => given.records)
  | .requests records => writeRequests p records drawn free

/-- A call, with any faults, from a partition and its directory. -/
def Steps (call : AppendCall) (w : Partition × Dir Name) (outcome : Except GoError (List Record))
    (w' : Partition × Dir Name) : Prop :=
  ∃ drawn free, Prog.Runs Dir.device (call.run w.1 drawn free) w.2 (.ok (w'.1, outcome)) w'.2

/-- A call that does not get as far as the log. -/
def Refuses (call : AppendCall) (p : Partition) (e : GoError) : Prop :=
  match call with
  | .batch given => admitBatch p given = .error e
  | .requests records => ∃ e',
      encodeFormed p (formBatch p records) = .error e' ∧ e = requestError e'

/-- What the callers are told about an append. -/
def told (call : AppendCall) (p : Partition) (outcome : Except GoError UInt64) :
    Except GoError (List Record) :=
  match call with
  | .batch given => outcome.map fun _ => given.records
  | .requests records =>
      (outcome.map fun _ => (formBatch p records).records).mapError requestError

variable {call : AppendCall} {p p' : Partition} {d d' : Dir Name}
  {outcome : Except GoError (List Record)}

/-- A call is refused in front of the log, or it appends its batch. -/
theorem Steps.cases (steps : call.Steps (p, d) outcome (p', d')) :
    (∃ e, call.Refuses p e ∧ outcome = .error e ∧ p' = p ∧ d' = d) ∨
      ((∀ e, ¬ call.Refuses p e) ∧ (call.offered p).Valid ∧ ∃ drawn free q result,
        Appends p d (call.offered p) (call.offered p).bytes drawn q d' result ∧
          p' = q.told free (call.offered p).records result ∧ outcome = call.told p result) := by
  obtain ⟨drawn, free, ran⟩ := steps
  cases call with
  | batch given =>
      obtain ⟨⟨q, result⟩, mid, appending, ending⟩ := Prog.runs_bind_ok.1 ran
      obtain ⟨same, rfl⟩ := Prog.runs_done.1 ending
      obtain ⟨rfl, rfl⟩ := Prod.mk.inj (Except.ok.inj same)
      rcases runs_appendBatch appending with ⟨e, refused, same, rfl⟩ |
        ⟨admitted, valid, q, result, appends, same⟩
      · obtain ⟨rfl, rfl⟩ := Prod.mk.inj (Except.ok.inj same)
        exact .inl ⟨e, refused, rfl, rfl, rfl⟩
      · obtain ⟨rfl, rfl⟩ := Prod.mk.inj (Except.ok.inj same)
        refine .inr ⟨fun e refused => ?_, valid, drawn, free, q, result, appends, rfl, rfl⟩
        cases admitted.symm.trans refused
  | requests records =>
      rcases runs_writeRequests ran with ⟨e, refused, same, rfl⟩ |
        ⟨formed, valid, q, result, appends, same⟩
      · obtain ⟨rfl, rfl⟩ := Prod.mk.inj (Except.ok.inj same)
        exact .inl ⟨_, ⟨e, refused, rfl⟩, rfl, rfl, rfl⟩
      · obtain ⟨rfl, rfl⟩ := Prod.mk.inj (Except.ok.inj same)
        refine .inr ⟨fun e refused => ?_, valid, drawn, free, q, result, appends, rfl, rfl⟩
        obtain ⟨_, refused, -⟩ := refused
        cases formed.symm.trans refused

section Represents

variable {topic : TopicID} {partition : UInt32} {closed : StoredSegments topic partition}
  {last : List (StoredBatch topic partition)}

/-- Representation is kept by every append. -/
theorem Steps.represents (steps : call.Steps (p, d) outcome (p', d'))
    (represents : p.Represents d closed last) :
    ∃ (closed' : StoredSegments topic partition) (last' : List (StoredBatch topic partition)),
      p'.Represents d' closed' last' := by
  rcases steps.cases with ⟨e, -, -, rfl, rfl⟩ |
    ⟨-, valid, drawn, free, q, result, appends, rfl, -⟩
  · exact ⟨closed, last, represents⟩
  · obtain ⟨-, closed', last', kept, -⟩ := appends.represents valid represents
    cases result with
    | error e => exact ⟨closed', last', kept⟩
    | ok offset => exact ⟨closed', last', kept.publishTail _ _ _⟩

end Represents

theorem Steps.options_eq (steps : call.Steps (p, d) outcome (p', d')) :
    p'.options = p.options := by
  rcases steps.cases with ⟨e, -, -, rfl, -⟩ | ⟨-, -, drawn, free, q, result, appends, rfl, -⟩
  · rfl
  · rw [← appends.same.1]
    cases result <;> rfl

end AppendCall

end Immulog
