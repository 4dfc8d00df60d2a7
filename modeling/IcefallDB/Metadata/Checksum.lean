import IcefallDB.Metadata.Codec

/-!
# Self-checksums

Manifests, snapshot checkpoints, row-group metadata and mutation records are sealed with a checksum
of themselves.  Two instances of one record may differ in the orders in which their maps are
iterated.
-/

namespace IcefallDB

open Json (Codec canonicalize)

variable {V : Type}

/-- SHA-256 checksum of raw bytes. -/
def checksumBytes (data : List UInt8) : String :=
  "sha256:" ++ String.ofList (Sha256.hexEncode (Sha256.digest data))

/-- SHA-256 checksum of a JSON value, independent of the order of object keys. -/
def checksumJson (value : Json) : String :=
  checksumBytes (canonicalize value).toBytes

theorem checksumBytes_ne_empty (data : List UInt8) : checksumBytes data ≠ "" := by
  intro empty
  have chars := congrArg String.toList empty
  simp [checksumBytes] at chars

/-! ## Sealing and verification -/

namespace Manifest

/-- Checksum of a manifest with its `checksum` field cleared. -/
def computeChecksum [Encoded V] (manifest : Manifest V) : String :=
  checksumJson (codec.encode { manifest with checksum := "" })

/-- The stored checksum is the recomputed one. -/
def verifyChecksum [Encoded V] (manifest : Manifest V) : Bool :=
  manifest.checksum = manifest.computeChecksum

/-- Set the chain link and the commit time, then seal the manifest. -/
def finalize (manifest : Manifest) (parentChecksum : Option String) (committedAt : String) :
    Manifest :=
  let linked := { manifest with parentHash := parentChecksum, committedAt := some committedAt }
  { linked with checksum := linked.computeChecksum }

@[simp]
theorem verifyChecksum_sealed (manifest : Manifest) :
    ({ manifest with checksum := manifest.computeChecksum } : Manifest).verifyChecksum = true :=
  decide_eq_true rfl

@[simp]
theorem verifyChecksum_finalize (manifest : Manifest) (parentChecksum : Option String)
    (committedAt : String) : (manifest.finalize parentChecksum committedAt).verifyChecksum = true :=
  verifyChecksum_sealed _

/-- The manifest without its seal: chain link, commit time and checksum. -/
def contents (manifest : Manifest) : Manifest :=
  { manifest with parentHash := none, committedAt := none, checksum := "" }

@[simp]
theorem contents_finalize (manifest : Manifest) (parentChecksum : Option String)
    (committedAt : String) :
    (manifest.finalize parentChecksum committedAt).contents = manifest.contents :=
  rfl

/-- Two instances of one manifest: equal up to the iteration order of their maps. -/
structure Same (left right : Manifest V) : Prop where
  fields : right = { left with
    partitionValues := right.partitionValues, indexGenerations := right.indexGenerations }
  partitionValues :
    Option.Rel (HashMap.Same (HashMap.Same Eq)) left.partitionValues right.partitionValues
  indexGenerations : HashMap.Same Eq left.indexGenerations right.indexGenerations

end Manifest

namespace SnapshotCheckpoint

/-- Checksum of a checkpoint with its `checksum` field cleared. -/
def computeChecksum [Encoded V] (checkpoint : SnapshotCheckpoint V) : String :=
  checksumJson (codec.encode { checkpoint with checksum := "" })

/-- The stored checksum is the recomputed one. -/
def verifyChecksum [Encoded V] (checkpoint : SnapshotCheckpoint V) : Bool :=
  checkpoint.checksum = checkpoint.computeChecksum

end SnapshotCheckpoint

namespace FragmentSummary

/-- Two instances of one fragment summary. -/
structure Same (left right : FragmentSummary V) : Prop where
  fields : right = { left with columns := right.columns, columnOffsets := right.columnOffsets }
  columns : HashMap.Same Eq left.columns right.columns
  columnOffsets : Option.Rel (HashMap.Same Eq) left.columnOffsets right.columnOffsets

end FragmentSummary

namespace SnapshotCheckpoint

/-- Two instances of one checkpoint. -/
structure Same (left right : SnapshotCheckpoint V) : Prop where
  fields : right = { left with fragments := right.fragments }
  fragments : List.Forall₂ FragmentSummary.Same left.fragments right.fragments

end SnapshotCheckpoint

namespace RowGroupMeta

/-- Checksum of the metadata with both checksum fields cleared. -/
def computeMetaChecksum (sidecar : RowGroupMeta) : String :=
  checksumJson (codec.encode { sidecar with checksum := "", metaChecksum := "" })

/-- A stored metadata checksum is there and is the recomputed one. -/
def verifyMetaChecksum (sidecar : RowGroupMeta) : Bool :=
  if sidecar.metaChecksum = "" then false
  else sidecar.computeMetaChecksum = sidecar.metaChecksum

theorem verifyMetaChecksum_sealed (sidecar : RowGroupMeta) :
    ({ sidecar with metaChecksum := sidecar.computeMetaChecksum } : RowGroupMeta).verifyMetaChecksum =
      true := by
  have present : sidecar.computeMetaChecksum ≠ "" := checksumBytes_ne_empty _
  exact (if_neg present).trans (decide_eq_true rfl)

/-- Two instances of one row-group metadata record. -/
structure Same (left right : RowGroupMeta) : Prop where
  fields : right = { left with columns := right.columns, columnOffsets := right.columnOffsets }
  columns : HashMap.Same Eq left.columns right.columns
  columnOffsets : Option.Rel (HashMap.Same Eq) left.columnOffsets right.columnOffsets

end RowGroupMeta

namespace MutationRecord

/-- Checksum of the text of a record with its `checksum` field blanked. -/
def computeChecksum (mutation : MutationRecord String) : String :=
  checksumBytes (codec.encode { mutation with checksum := "" }).toBytes

/-- The stored checksum is the recomputed one. -/
def verify (mutation : MutationRecord String) : Bool :=
  mutation.checksum = mutation.computeChecksum

/-- The record stamped with its checksum. -/
def sealed (mutation : MutationRecord String) : MutationRecord String :=
  { mutation with checksum := mutation.computeChecksum }

/-- Two instances of one mutation record. -/
structure Same (left right : MutationRecord String) : Prop where
  fields : right = { left with indexGenerations := right.indexGenerations }
  indexGenerations : HashMap.Same Eq left.indexGenerations right.indexGenerations

/-- With at most one index there is one instance of a record only. -/
theorem Same.eq_of_length_le_one {left right : MutationRecord String} (same : left.Same right)
    (short : left.indexGenerations.entries.length ≤ 1) : left = right := by
  rw [same.fields, ← same.indexGenerations.eq_of_length_le_one short]

end MutationRecord

/-! ## Persistence -/

/-- Write a value as JSON bytes. -/
def toVec {α : Type} (codec : Codec α) (value : α) : List UInt8 :=
  (codec.encode value).toBytes

/-- Read a value from JSON bytes. -/
def fromSlice {α : Type} (codec : Codec α) (bytes : List UInt8) : Option α :=
  (Json.ofBytes bytes).bind codec.decode

theorem fromSlice_toVec {α : Type} (codec : Codec α) (value : α) :
    fromSlice codec (toVec codec value) = some value := by
  simp [fromSlice, toVec, Json.ofBytes_toBytes]

theorem Manifest.Same.refl (manifest : Manifest V) : manifest.Same manifest := by
  refine ⟨rfl, ?_, HashMap.Same.refl _⟩
  cases manifest.partitionValues with
  | none => exact .none
  | some values =>
      refine .some ⟨values.entries, .refl _, List.forall₂_same.mpr fun entry _ => ⟨rfl, ?_⟩⟩
      exact HashMap.Same.refl _

/-- Two manifests with one checksum are the same if they are the same without it. -/
theorem Manifest.Same.of_unsealed {left right : Manifest}
    (same : ({ left with checksum := "" } : Manifest).Same { right with checksum := "" })
    (checksum_eq : left.checksum = right.checksum) : left.Same right := by
  obtain ⟨fields, partitions, indexes⟩ := same
  refine ⟨?_, partitions, indexes⟩
  cases left
  cases right
  simp_all

end IcefallDB
