import Immulog.Topics

/-!
Retention (`src/storage/retention.go`): a pass over one partition plans which segments
expire, makes the next one the catalog's anchor, and then removes the files.
-/

namespace Immulog

open Lib Std

/-! ## Planning -/

structure RetentionProposal where
  retired : List Segment
  /-- The closed segments that stay, oldest first. -/
  retained : List Segment
  newL : UInt64
  anchor : Segment
  reasonMask : UInt8
  remainingBytes : UInt64

/-- The bytes of all segments. -/
def retainedSegmentBytes : List Segment → UInt64 → Except GoError UInt64
  | [], total => return total
  | segment :: rest, total => do
      failIf (maxUint64 < total.toNat + segment.size)
        (corrupt .errInvalidSegment "retained segment has invalid logical size")
      retainedSegmentBytes rest (total + .ofNat segment.size)

def elapsedAtLeast (nowMillis timestampMillis : Int64) (durationMillis : UInt64) : Bool :=
  if timestampMillis = Int64.minValue ∨ nowMillis < timestampMillis then false
  else durationMillis ≤ nowMillis.toUInt64 - timestampMillis.toUInt64

def timeEligible (config : PartitionConfigV1) (nowMillis maxTime : Int64) : Bool :=
  config.retentionMask &&& retentionReasonTime ≠ 0 ∧
    elapsedAtLeast nowMillis maxTime config.retentionMillis

def sizeEligible (config : PartitionConfigV1) (total : UInt64) : Bool :=
  config.retentionMask &&& retentionReasonSize ≠ 0 ∧ config.retentionBytes < total

def retentionNeedsRoll (active : Segment) (total : UInt64) (config : PartitionConfigV1)
    (nowMillis : Int64) : Bool :=
  sizeEligible config total ∨
    (config.retentionMask &&& retentionReasonTime ≠ 0 ∧
      elapsedAtLeast nowMillis active.maxTime config.maxSegmentAgeMillis)

/-- The most segments one event lists. -/
def maxRetiredSegmentsPerEvent : Nat :=
  let available := maxRecordBytes.toNat - recordPrefixBytes.toNat - 8 - eventEnvelopeLen - 160
  if available < 72 then 1 else min (available / 72) maxTopicPartitions.toNat

/-- The loop over the closed segments: the ones that expire, the reasons, and the bytes
that remain. -/
def selectRetired (config : PartitionConfigV1) (nowMillis : Int64) :
    Nat → List Segment → UInt8 → UInt64 → Except GoError (List Segment × UInt8 × UInt64)
  | 0, _, reason, total => return ([], reason, total)
  | _ + 1, [], reason, total => return ([], reason, total)
  | limit + 1, segment :: rest, reason, total => do
      let byTime := timeEligible config nowMillis segment.maxTime
      let bySize := sizeEligible config total
      if byTime = false ∧ bySize = false then return ([], reason, total)
      else
        let reason := reason ||| (if byTime then retentionReasonTime else 0) |||
          (if bySize then retentionReasonSize else 0)
        failIf (total.toNat < segment.size)
          (corrupt .errInvalidSegment "retired segment has invalid logical size")
        let (retired, reason, total) ← selectRetired config nowMillis limit rest reason
          (total - .ofNat segment.size)
        return (segment :: retired, reason, total)

/-- The proposal over the segments as they are, if any of them expires. -/
def proposeRetention (p : Partition) (config : PartitionConfigV1) (nowMillis : Int64)
    (total : UInt64) : Except GoError (Option RetentionProposal) := do
  let (retired, reasonMask, remainingBytes) ← selectRetired config nowMillis
    maxRetiredSegmentsPerEvent p.closedSegments 0 total
  match retired.getLast? with
  | none => return none
  | some final =>
      let retained := p.closedSegments.drop retired.length
      let anchor := retained.head?.getD p.active
      return some { retired, retained, newL := final.endOffset, anchor, reasonMask, remainingBytes }

/-- An active segment that expires is closed first, so that it can be retired. -/
def rollForRetention (p : Partition) (config : PartitionConfigV1) (nowMillis : Int64)
    (total : UInt64) (drawn : SegmentID) : DirM (Partition × Except GoError UInt64) := do
  if p.active.records ≠ 0 ∧ retentionNeedsRoll p.active total config nowMillis then
    match ← rollSegment p drawn with
    | (p, .error e) => return (p, .error e)
    | (p, .ok _) =>
        if maxUint64 < total.toNat + p.active.size then
          return (p, .error (.join [.ofKind .errResourceLimit,
            .new "retained segment bytes overflow"]))
        else return (p, .ok (total + .ofNat p.active.size))
  else return (p, .ok total)

def planRetentionLocked (p : Partition) (config : PartitionConfigV1) (nowMillis : Int64)
    (drawn : SegmentID) : DirM (Partition × Except GoError (Option RetentionProposal)) :=
  match retainedSegmentBytes p.segments 0 with
  | .error e => return (p, .error e)
  | .ok total => do
      match ← rollForRetention p config nowMillis total drawn with
      | (p, .error e) => return (p, .error e)
      | (p, .ok total) => return (p, proposeRetention p config nowMillis total)

/-! ## Removing files -/

/-- A file that is not there counts as removed. -/
def removeRetiredArtifact (name : Name) : DirM Unit := do
  let dir ← .get
  if name ∈ dir then .perform (.remove name) (ioError "remove retired artifact")

/-- The three files of a segment. -/
def segmentArtifacts (base : UInt64) : List Name :=
  [.log base, .index base, .timeIndex base]

/-- Remove files one after the other; an error does not keep the others. -/
def removeArtifacts : List Name → List GoError → DirM (List GoError)
  | [], errors => return errors
  | name :: rest, errors => do
      match ← (removeRetiredArtifact name).attempt with
      | .error e => removeArtifacts rest (errors ++ [e])
      | .ok _ => removeArtifacts rest errors

/-- Remove the files of retired segments and sync the directory. -/
def cleanupBases (bases : List UInt64) : DirM Unit := do
  let errors ← removeArtifacts (bases.flatMap segmentArtifacts) []
  let synced ← (Prog.perform .syncDir (ioError "sync partition directory")).attempt
  let errors := match synced with
    | .ok _ => errors
    | .error e => errors ++ [e]
  .ofExcept (failIf (errors ≠ []) (.join errors))

/-- `cleanupRetiredSegments` -/
def cleanupRetiredSegments (key : TopicKey) (retired : List Segment) : StoreM Unit :=
  .lift ((cleanupBases (retired.map fun s => s.header.baseOffset)).atPath (userPath key))

/-! ## One partition -/

def retiredEvents (segments : List Segment) : List RetiredSegmentEvent :=
  segments.map fun s =>
    { base := s.header.baseOffset
      stop := s.endOffset
      bytes := .ofNat s.size
      anchor := ⟨s.header.id, s.headerHash⟩ }

/-- The catalog event of a proposal, if there is room for it. -/
def Store.retentionEvent (s : Store) (p : Partition) (descriptor : TopicPartition)
    (proposal : RetentionProposal) (nowMillis : Int64) : Except GoError Bytes := do
  let payload ← encodePartitionLogStartAdvancedPayload
    { storeID := s.storeID
      expectedCatalogNext := s.catalog.logEnd
      key := ⟨p.topic, p.partition⟩
      expectedOldL := descriptor.retainedL
      newL := proposal.newL
      evaluatedDurableEnd := p.logEnd
      retainedAnchor := ⟨proposal.anchor.header.id, proposal.anchor.headerHash⟩
      reasonMask := proposal.reasonMask
      evaluatedUnixMillis := nowMillis
      evaluatedRetainedBytes := proposal.remainingBytes
      retired := retiredEvents proposal.retired }
  let value ← encodeSystemEvent eventPartitionLogStartAdvanced payload
  systemEventAdmission s.catalog clusterMetadataTopicID s.catalog.logEnd value
    s.options.maxCatalogHistoryBytes
  return value

/-- The partition without the segments that were retired, and with an empty tail. -/
def Partition.retain (p : Partition) (proposal : RetentionProposal) : Partition :=
  { p with closedSegments := proposal.retained, tail := p.tail.map PartitionTail.clear }

/-- Append and apply the event of a proposal; `s` and `p` are the store and the partition
that it was planned for. -/
def advanceStart (key : TopicKey) (s : Store) (p : Partition) (proposal : RetentionProposal)
    (value : Bytes) (drawn : SegmentID) : StoreM (List Segment) := do
  match ← (appendCatalog value drawn).attempt with
  | .error e => do
      if e.is .errAppendOutcomeUnknown then
        .update Store.fenceMetadata
        setPartition key p.fenced
      .fail e
  | .ok _ => do
      match ← (applyCatalog s.catalog.logEnd value).attempt with
      | .error e => do
          .update Store.fenceMetadata
          setPartition key p.fenced
          .fail (.join [.ofKind .errMetadataUnavailable, e])
      | .ok _ => do
          setPartition key (p.retain proposal)
          return proposal.retired

/-- The part of `retainPartitionAt` under the locks: the segments whose files may go. -/
def retainLocked (key : TopicKey) (nowMillis : Int64) (drawn catalogDrawn : SegmentID) :
    StoreM (List Segment) := do
  let s ← .read
  let some p := s.partitions[key]? | .fail (.ofKind .errClosed)
  .check (failIf (p.closed = true) (.ofKind .errClosed))
  .check (failIf (p.closing = true ∨ s.closing = true) (.ofKind .errClosing))
  .check (failIf (p.unavailable = true) (.ofKind .errPartitionUnavailable))
  .check s.checkMetadata
  let some descriptor := s.catalogState.partition? key | .fail (.ofKind .errUnknownTopic)
  match validateRetainedAnchor p descriptor with
  | .error e => do
      setPartition key p.fenced
      .fail (.join [.ofKind .errPartitionUnavailable, e])
  | .ok _ => do
      let (p, planned) ← .lift
        ((planRetentionLocked p descriptor.config nowMillis drawn).atPath (userPath key))
      setPartition key p
      match ← .check planned with
      | none => return []
      | some proposal => do
          let value ← .check (s.retentionEvent p descriptor proposal nowMillis)
          advanceStart key s p proposal value catalogDrawn

/-- `retainPartitionAt` -/
def retainPartitionAt (key : TopicKey) (nowMillis : Int64) (drawn catalogDrawn : SegmentID) :
    StoreM Unit := do
  let retired ← retainLocked key nowMillis drawn catalogDrawn
  if retired ≠ [] then cleanupRetiredSegments key retired

end Immulog
