import IcefallDB.Lib.Digits
import IcefallDB.Lib.JsonCodec

/-!
# Table metadata

The records a table keeps next to its Parquet files: manifests, row-group metadata, snapshot
checkpoints and the references to row-index and secondary-index files.  Paths are relative to the
table directory.  Unsigned machine integers are natural numbers and every `HashMap` carries the
order in which that instance is iterated.
-/

namespace IcefallDB

/-- A non-null JSON scalar, as column statistics and partition values hold them. -/
inductive Scalar
  | bool (value : Bool)
  | int (value : Int)
  | string (value : String)
  deriving DecidableEq

/-- A non-null JSON scalar; a finite float is held as it is written. -/
inductive AnyScalar
  | scalar (value : Scalar)
  | float (literal : Json.FloatText)
  deriving DecidableEq

/-- Base snapshot and incremental deltas of the row index. -/
structure RowIndexRef where
  /-- Path of the base snapshot, if any. -/
  base : Option String := none
  /-- Delta files applied on top of the base, oldest first. -/
  deltas : List String := []
  deriving DecidableEq

/-- Base snapshot and incremental deltas of a secondary index. -/
structure IndexRef where
  /-- Path of the base snapshot, if any. -/
  base : Option String := none
  /-- Delta files applied on top of the base, oldest first. -/
  deltas : List String := []
  deriving DecidableEq

/-- A row group of a manifest: its data file and the files that go with it. -/
structure RowGroupEntry where
  /-- Path of the data file. -/
  data : String
  /-- Path of the metadata sidecar. -/
  metaFile : String
  /-- Stable fragment identifier. -/
  fragmentId : Nat := 0
  /-- Path of the deletion vector, if any. -/
  deletes : Option String := none
  /-- Number of logically deleted rows. -/
  deletedCount : Nat := 0
  /-- Path of the aggregate sidecar, if any. -/
  agg : Option String := none
  deriving DecidableEq

/-- The row groups that make up one snapshot of a table. -/
structure Manifest (V : Type := Scalar) where
  formatVersion : Nat := 0
  /-- Position in the history of the table. -/
  sequence : Nat := 0
  schemaId : Nat := 0
  rowGroups : List RowGroupEntry := []
  /-- Denormalized row counts, parallel to `rowGroups`. -/
  rowCounts : Option (List Nat) := none
  /-- Partition values, keyed by data file. -/
  partitionValues : Option (HashMap String (HashMap String V)) := none
  /-- Next row id to assign. -/
  nextRowId : Nat := 0
  /-- Next fragment id to assign. -/
  nextFragmentId : Nat := 0
  rowindexGeneration : Option RowIndexRef := none
  /-- Generations of the named secondary indexes. -/
  indexGenerations : HashMap String IndexRef := ∅
  /-- Path of the snapshot checkpoint, if one was written. -/
  checkpoint : Option String := none
  /-- Checksum of the preceding manifest. -/
  parentHash : Option String := none
  /-- Commit time. -/
  committedAt : Option String := none
  /-- Checksum of this manifest with this field empty. -/
  checksum : String := ""

namespace Manifest

/-- Path of the manifest file of a sequence. -/
def filename (seq : Nat) : String :=
  "_manifests/" ++ String.ofList (zeroPad 9 (Nat.toDigits 10 seq)) ++ ".json"

end Manifest

/-- Row ids of consecutive rows of a fragment. -/
inductive RowIdSegment
  | range (start count : Nat)
  | sorted (ids : List Nat)
  deriving DecidableEq

/-- Statistics of one column of a row group. -/
structure ColumnStats (V : Type := Scalar) where
  min : Option V
  max : Option V
  nulls : Nat
  deriving DecidableEq

/-- Position of a column chunk in its data file. -/
structure ColumnChunkOffset where
  offset : Nat
  length : Nat
  deriving DecidableEq

/-- Metadata sidecar of a row group. -/
structure RowGroupMeta where
  /-- Row-group identifier, without extension. -/
  rowGroup : String
  schemaId : Nat
  rows : Nat
  columns : HashMap String ColumnStats
  columnOffsets : Option (HashMap String ColumnChunkOffset)
  sort : Option (List String)
  /-- Row ids of the physical rows; empty for row groups older than row ids. -/
  rowIds : List RowIdSegment
  /-- Checksum of the data file. -/
  checksum : String
  /-- Checksum of this record with both checksums empty. -/
  metaChecksum : String

/-- What a scan needs to know about one fragment. -/
structure FragmentSummary (V : Type := Scalar) where
  rowGroup : String
  data : String
  metaFile : String
  agg : Option String
  deletes : Option String
  fragmentId : Nat
  rows : Nat
  deletedCount : Nat
  columns : HashMap String (ColumnStats V)
  columnOffsets : Option (HashMap String ColumnChunkOffset)
  rowIds : List RowIdSegment
  sort : Option (List String)
  checksum : String
  metaChecksum : String

/-- The sidecars of all fragments of a manifest in one file. -/
structure SnapshotCheckpoint (V : Type := Scalar) where
  sequence : Nat
  schemaId : Nat
  /-- Fragments in manifest order. -/
  fragments : List (FragmentSummary V)
  /-- Checksum of this record with this field empty. -/
  checksum : String

namespace SnapshotCheckpoint

/-- Path of the checkpoint file of a sequence. -/
def filename (seq : Nat) : String :=
  "_checkpoints/" ++ String.ofList (zeroPad 9 (Nat.toDigits 10 seq)) ++ ".json"

/-- Path of the archive next to the checkpoint of a sequence. -/
def archiveFilename (seq : Nat) : String :=
  "_checkpoints/" ++ String.ofList (zeroPad 9 (Nat.toDigits 10 seq)) ++ ".rkyv"

end SnapshotCheckpoint

/-- Replacement of the deletion vector of one fragment. -/
structure FragmentDelete where
  fragmentId : Nat
  /-- Path of the new deletion vector. -/
  deletes : String
  deletedCount : Nat
  deriving DecidableEq

/-- A small file whose contents travel inside a mutation record.  The log inlines hexadecimal
text. -/
structure StagedArtifact (β : Type) where
  path : String
  /-- Inlined contents. -/
  hex : β
  deriving DecidableEq

/-- One deferred mutation: the difference between two manifests. -/
structure MutationRecord (β : Type) where
  /-- Sequence of the manifest this record produces. -/
  sequence : Nat
  /-- Sequence of the manifest this record was built on. -/
  baseSequence : Nat
  fragmentDeletes : List FragmentDelete
  /-- Row groups appended by this mutation. -/
  fragmentAdds : List RowGroupEntry
  /-- The complete new map of secondary-index generations. -/
  indexGenerations : HashMap String IndexRef
  /-- New row-index generation, if the mutation relocated rows. -/
  rowindexGeneration : Option RowIndexRef
  /-- New fragment counter, or zero to keep the old one. -/
  nextFragmentId : Nat
  /-- New row-id counter, or zero to keep the old one. -/
  nextRowId : Nat
  stagedArtifacts : List (StagedArtifact β)
  /-- Checksum of this record with this field empty. -/
  checksum : String

end IcefallDB
