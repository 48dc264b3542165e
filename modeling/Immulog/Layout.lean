import Immulog.Format
import Immulog.Lib.Files
import Immulog.Lib.Sha256

/-!
Names and paths of a store directory.

File and directory names are kept as the values they are rendered from: `log base`
is `%020d.log`, `topic id` the lower-case hexadecimal identity, `number n` the
decimal partition number, `generation n` is `%020d`.
-/

namespace Immulog

open Lib

inductive Name where
  | log (base : UInt64)
  /-- Any other name that ends in `.log`. -/
  | strayLog (text : String)
  | index (base : UInt64)
  | timeIndex (base : UInt64)
  /-- `.segment-<id>.tmp` -/
  | segmentTmp (id : SegmentID)
  /-- `.index-<n>.tmp` -/
  | indexTmp (n : Nat)
  /-- `.projection-snapshot-<n>.tmp` -/
  | snapshotTmp (n : Nat)
  /-- `.metadata-<n>.tmp` -/
  | metadataTmp (n : Nat)
  /-- `projection.snapshot` -/
  | snapshot
  | checkpoint
  | manifest
  | activeManifest
  /-- `.topic-preparation-v1` -/
  | topicPreparationMarker
  | topics
  | system
  | metadata
  | generations
  | clusterMetadata
  | consumerOffsets
  | generation (n : UInt64)
  | topic (id : TopicID)
  | number (n : Nat)
  | lock
  /-- A name that starts with a dot and is none of the above. -/
  | hidden (text : String)
  | other (text : String)
  deriving DecidableEq, Repr

/-- A program on the files of one directory. -/
abbrev DirM := Prog (DirOp Name) (Dir Name) GoError

/-- A program on the store's tree. -/
abbrev FsM := Prog (FsOp Name) (FS Name) GoError

/-! ## Paths -/

def topicsPath : Path Name := [.topics]
def topicPath (id : TopicID) : Path Name := [.topics, .topic id]

def partitionPath (id : TopicID) (partition : Nat) : Path Name :=
  [.topics, .topic id, .number partition]

def clusterMetadataDir : Path Name := [.system, .clusterMetadata, .number 0]
def consumerOffsetsDir : Path Name := [.system, .consumerOffsets, .number 0]
def metadataRoot : Path Name := [.system, .metadata]
def generationsPath : Path Name := metadataRoot ++ [.generations]
def generationRoot (generation : UInt64) : Path Name := generationsPath ++ [.generation generation]

def generationPartitionDir (generation : UInt64) (catalog : Bool) : Path Name :=
  generationRoot generation ++ [if catalog then .clusterMetadata else .consumerOffsets, .number 0]

/-! ## Errors and temporary names -/

/-- A failed filesystem operation, with the text it is wrapped in. -/
def ioError (detail : String) : GoError :=
  ⟨[.errDevice], [detail]⟩

/-- A number above all the temporary numbers in use, as `os.CreateTemp` finds an
unused name. -/
def freshTmp (d : Dir Name) : Nat :=
  d.keys.foldr (fun name m =>
    match name with
    | .indexTmp n | .snapshotTmp n | .metadataTmp n => max m (n + 1)
    | _ => m) 0

/-- `sha256.Sum256`. -/
def sha256 (data : Bytes) : Hash :=
  hashOf (Sha256.sum256 data)

/-- The hash that identifies a segment header. -/
def segmentHeaderHash (encoded : Bytes) : Hash :=
  sha256 (slice encoded 0 segmentHeaderBytes.toNat)

end Immulog
