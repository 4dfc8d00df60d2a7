import IcefallDB.Lib.JsonText
import IcefallDB.Lib.Sha256
import IcefallDB.Metadata.Types

/-!
# JSON forms and self-checksums

Every metadata record is persisted as a JSON object that leaves out default fields.  Manifests,
row-group metadata and snapshot checkpoints are sealed with a checksum of their canonical form;
mutation records are sealed with a checksum of the text as it is written.
-/

namespace IcefallDB

open Json (Codec record requiredField optionalField defaultedField unlessDefault unlessEmpty
  field_record)

/-! ## JSON forms -/

namespace Scalar

/-- JSON form of a scalar. -/
def codec : Codec Scalar where
  encode
    | bool value => .bool value
    | int value => .num value
    | string value => .str value
  decode
    | .bool value => some (bool value)
    | .num value => some (int value)
    | .str value => some (string value)
    | _ => none
  decode_encode value := by cases value <;> rfl
  encode_ne_null value := by cases value <;> nofun

end Scalar

namespace AnyScalar

/-- JSON form of a scalar or a float. -/
def codec : Codec AnyScalar where
  encode
    | scalar value => Scalar.codec.encode value
    | float literal => .float literal
  decode
    | .float literal => some (float literal)
    | document => (Scalar.codec.decode document).map scalar
  decode_encode value := by
    rcases value with (_ | _ | _) | _ <;> rfl
  encode_ne_null value := by
    rcases value with (_ | _ | _) | _ <;> nofun

end AnyScalar

/-- A type of scalars that metadata records can hold. -/
class Encoded (V : Type) where
  codec : Codec V

@[default_instance]
instance : Encoded Scalar := ⟨Scalar.codec⟩

instance : Encoded AnyScalar := ⟨AnyScalar.codec⟩

namespace RowIndexRef

/-- JSON form of a row-index reference. -/
def codec : Codec RowIndexRef where
  encode ref := record
    [("base", ref.base.map Codec.string.encode),
     ("deltas", unlessDefault Codec.string.list [] ref.deltas)]
  decode document := do
    let base ← optionalField Codec.string "base" document
    let deltas ← defaultedField Codec.string.list [] "deltas" document
    some { base, deltas }
  decode_encode ref := by
    simp [optionalField, defaultedField, field_record, List.lookup]
  encode_ne_null _ := nofun

end RowIndexRef

namespace IndexRef

/-- JSON form of a secondary-index reference. -/
def codec : Codec IndexRef where
  encode ref := record
    [("base", ref.base.map Codec.string.encode),
     ("deltas", unlessDefault Codec.string.list [] ref.deltas)]
  decode document := do
    let base ← optionalField Codec.string "base" document
    let deltas ← defaultedField Codec.string.list [] "deltas" document
    some { base, deltas }
  decode_encode ref := by
    simp [optionalField, defaultedField, field_record, List.lookup]
  encode_ne_null _ := nofun

end IndexRef

namespace RowGroupEntry

/-- JSON form of a row group of a manifest. -/
def codec : Codec RowGroupEntry where
  encode entry := record
    [("data", some (Codec.string.encode entry.data)),
     ("meta", some (Codec.string.encode entry.metaFile)),
     ("fragment_id", unlessDefault Codec.nat 0 entry.fragmentId),
     ("deletes", entry.deletes.map Codec.string.encode),
     ("deleted_count", unlessDefault Codec.nat 0 entry.deletedCount),
     ("agg", entry.agg.map Codec.string.encode)]
  decode document := do
    let data ← requiredField Codec.string "data" document
    let metaFile ← requiredField Codec.string "meta" document
    let fragmentId ← defaultedField Codec.nat 0 "fragment_id" document
    let deletes ← optionalField Codec.string "deletes" document
    let deletedCount ← defaultedField Codec.nat 0 "deleted_count" document
    let agg ← optionalField Codec.string "agg" document
    some { data, metaFile, fragmentId, deletes, deletedCount, agg }
  decode_encode entry := by
    simp [requiredField, optionalField, defaultedField, field_record, List.lookup]
  encode_ne_null _ := nofun

end RowGroupEntry

namespace Manifest

/-- JSON form of a manifest. -/
def codec {V : Type} [Encoded V] : Codec (Manifest V) where
  encode manifest := record
    [("format_version", some (Codec.nat.encode manifest.formatVersion)),
     ("sequence", some (Codec.nat.encode manifest.sequence)),
     ("schema_id", some (Codec.nat.encode manifest.schemaId)),
     ("row_groups", some (RowGroupEntry.codec.list.encode manifest.rowGroups)),
     ("row_counts", manifest.rowCounts.map Codec.nat.list.encode),
     ("partition_values", manifest.partitionValues.map Encoded.codec.map.map.encode),
     ("next_row_id", unlessDefault Codec.nat 0 manifest.nextRowId),
     ("next_fragment_id", unlessDefault Codec.nat 0 manifest.nextFragmentId),
     ("rowindex_generation", manifest.rowindexGeneration.map RowIndexRef.codec.encode),
     ("index_generations", unlessEmpty IndexRef.codec manifest.indexGenerations),
     ("checkpoint", manifest.checkpoint.map Codec.string.encode),
     ("parent_hash", manifest.parentHash.map Codec.string.encode),
     ("committed_at", manifest.committedAt.map Codec.string.encode),
     ("checksum", some (Codec.string.encode manifest.checksum))]
  decode document := do
    let formatVersion ← requiredField Codec.nat "format_version" document
    let sequence ← requiredField Codec.nat "sequence" document
    let schemaId ← requiredField Codec.nat "schema_id" document
    let rowGroups ← requiredField RowGroupEntry.codec.list "row_groups" document
    let rowCounts ← optionalField Codec.nat.list "row_counts" document
    let partitionValues ← optionalField Encoded.codec.map.map "partition_values" document
    let nextRowId ← defaultedField Codec.nat 0 "next_row_id" document
    let nextFragmentId ← defaultedField Codec.nat 0 "next_fragment_id" document
    let rowindexGeneration ← optionalField RowIndexRef.codec "rowindex_generation" document
    let indexGenerations ← defaultedField IndexRef.codec.map ∅ "index_generations" document
    let checkpoint ← optionalField Codec.string "checkpoint" document
    let parentHash ← optionalField Codec.string "parent_hash" document
    let committedAt ← optionalField Codec.string "committed_at" document
    let checksum ← requiredField Codec.string "checksum" document
    some { formatVersion, sequence, schemaId, rowGroups, rowCounts, partitionValues, nextRowId,
           nextFragmentId, rowindexGeneration, indexGenerations, checkpoint, parentHash,
           committedAt, checksum }
  decode_encode manifest := by
    simp [requiredField, optionalField, defaultedField, field_record, List.lookup]
  encode_ne_null _ := nofun

end Manifest

namespace RowIdSegment

/-- JSON form of a row-id segment, tagged with its kind. -/
def codec : Codec RowIdSegment where
  encode
    | range start count => record
        [("kind", some (.str "range")),
         ("start", some (Codec.nat.encode start)),
         ("count", some (Codec.nat.encode count))]
    | sorted ids => record
        [("kind", some (.str "sorted")),
         ("ids", some (Codec.nat.list.encode ids))]
  decode document := do
    let kind ← requiredField Codec.string "kind" document
    if kind = "range" then
      let start ← requiredField Codec.nat "start" document
      let count ← requiredField Codec.nat "count" document
      some (range start count)
    else if kind = "sorted" then
      let ids ← requiredField Codec.nat.list "ids" document
      some (sorted ids)
    else none
  decode_encode segment := by
    have kind (text : String) : Json.str text = Codec.string.encode text := rfl
    cases segment <;> simp [kind, requiredField, field_record, List.lookup]
  encode_ne_null segment := by cases segment <;> nofun

end RowIdSegment

namespace ColumnStats

/-- JSON form of column statistics. -/
def codec {V : Type} [Encoded V] : Codec (ColumnStats V) where
  encode stats := record
    [("min", stats.min.map Encoded.codec.encode),
     ("max", stats.max.map Encoded.codec.encode),
     ("nulls", some (Codec.nat.encode stats.nulls))]
  decode document := do
    let min ← optionalField Encoded.codec "min" document
    let max ← optionalField Encoded.codec "max" document
    let nulls ← requiredField Codec.nat "nulls" document
    some { min, max, nulls }
  decode_encode stats := by
    simp [requiredField, optionalField, field_record, List.lookup]
  encode_ne_null _ := nofun

end ColumnStats

namespace ColumnChunkOffset

/-- JSON form of a column chunk position. -/
def codec : Codec ColumnChunkOffset where
  encode chunk := record
    [("offset", some (Codec.nat.encode chunk.offset)),
     ("length", some (Codec.nat.encode chunk.length))]
  decode document := do
    let offset ← requiredField Codec.nat "offset" document
    let length ← requiredField Codec.nat "length" document
    some { offset, length }
  decode_encode chunk := by
    simp [requiredField, field_record, List.lookup]
  encode_ne_null _ := nofun

end ColumnChunkOffset

namespace RowGroupMeta

/-- JSON form of row-group metadata. -/
def codec : Codec RowGroupMeta where
  encode sidecar := record
    [("row_group", some (Codec.string.encode sidecar.rowGroup)),
     ("schema_id", some (Codec.nat.encode sidecar.schemaId)),
     ("rows", some (Codec.nat.encode sidecar.rows)),
     ("columns", some (ColumnStats.codec.map.encode sidecar.columns)),
     ("column_offsets", sidecar.columnOffsets.map ColumnChunkOffset.codec.map.encode),
     ("sort", sidecar.sort.map Codec.string.list.encode),
     ("row_ids", unlessDefault RowIdSegment.codec.list [] sidecar.rowIds),
     ("checksum", some (Codec.string.encode sidecar.checksum)),
     ("meta_checksum", some (Codec.string.encode sidecar.metaChecksum))]
  decode document := do
    let rowGroup ← requiredField Codec.string "row_group" document
    let schemaId ← requiredField Codec.nat "schema_id" document
    let rows ← requiredField Codec.nat "rows" document
    let columns ← requiredField ColumnStats.codec.map "columns" document
    let columnOffsets ← optionalField ColumnChunkOffset.codec.map "column_offsets" document
    let sort ← optionalField Codec.string.list "sort" document
    let rowIds ← defaultedField RowIdSegment.codec.list [] "row_ids" document
    let checksum ← requiredField Codec.string "checksum" document
    let metaChecksum ← requiredField Codec.string "meta_checksum" document
    some { rowGroup, schemaId, rows, columns, columnOffsets, sort, rowIds, checksum, metaChecksum }
  decode_encode sidecar := by
    simp [requiredField, optionalField, defaultedField, field_record, List.lookup]
  encode_ne_null _ := nofun

end RowGroupMeta

namespace FragmentSummary

/-- JSON form of a fragment summary. -/
def codec {V : Type} [Encoded V] : Codec (FragmentSummary V) where
  encode fragment := record
    [("row_group", unlessDefault Codec.string "" fragment.rowGroup),
     ("data", some (Codec.string.encode fragment.data)),
     ("meta", some (Codec.string.encode fragment.metaFile)),
     ("agg", fragment.agg.map Codec.string.encode),
     ("deletes", fragment.deletes.map Codec.string.encode),
     ("fragment_id", some (Codec.nat.encode fragment.fragmentId)),
     ("rows", unlessDefault Codec.nat 0 fragment.rows),
     ("deleted_count", unlessDefault Codec.nat 0 fragment.deletedCount),
     ("columns", unlessEmpty ColumnStats.codec fragment.columns),
     ("column_offsets", fragment.columnOffsets.map ColumnChunkOffset.codec.map.encode),
     ("row_ids", unlessDefault RowIdSegment.codec.list [] fragment.rowIds),
     ("sort", fragment.sort.map Codec.string.list.encode),
     ("checksum", unlessDefault Codec.string "" fragment.checksum),
     ("meta_checksum", unlessDefault Codec.string "" fragment.metaChecksum)]
  decode document := do
    let rowGroup ← defaultedField Codec.string "" "row_group" document
    let data ← requiredField Codec.string "data" document
    let metaFile ← requiredField Codec.string "meta" document
    let agg ← optionalField Codec.string "agg" document
    let deletes ← optionalField Codec.string "deletes" document
    let fragmentId ← requiredField Codec.nat "fragment_id" document
    let rows ← defaultedField Codec.nat 0 "rows" document
    let deletedCount ← defaultedField Codec.nat 0 "deleted_count" document
    let columns ← defaultedField ColumnStats.codec.map ∅ "columns" document
    let columnOffsets ← optionalField ColumnChunkOffset.codec.map "column_offsets" document
    let rowIds ← defaultedField RowIdSegment.codec.list [] "row_ids" document
    let sort ← optionalField Codec.string.list "sort" document
    let checksum ← defaultedField Codec.string "" "checksum" document
    let metaChecksum ← defaultedField Codec.string "" "meta_checksum" document
    some { rowGroup, data, metaFile, agg, deletes, fragmentId, rows, deletedCount, columns,
           columnOffsets, rowIds, sort, checksum, metaChecksum }
  decode_encode fragment := by
    simp [requiredField, optionalField, defaultedField, field_record, List.lookup]
  encode_ne_null _ := nofun

end FragmentSummary

namespace SnapshotCheckpoint

/-- JSON form of a snapshot checkpoint. -/
def codec {V : Type} [Encoded V] : Codec (SnapshotCheckpoint V) where
  encode checkpoint := record
    [("sequence", some (Codec.nat.encode checkpoint.sequence)),
     ("schema_id", some (Codec.nat.encode checkpoint.schemaId)),
     ("fragments", some (FragmentSummary.codec.list.encode checkpoint.fragments)),
     ("checksum", unlessDefault Codec.string "" checkpoint.checksum)]
  decode document := do
    let sequence ← requiredField Codec.nat "sequence" document
    let schemaId ← requiredField Codec.nat "schema_id" document
    let fragments ← requiredField FragmentSummary.codec.list "fragments" document
    let checksum ← defaultedField Codec.string "" "checksum" document
    some { sequence, schemaId, fragments, checksum }
  decode_encode checkpoint := by
    simp [requiredField, defaultedField, field_record, List.lookup]
  encode_ne_null _ := nofun

end SnapshotCheckpoint

namespace FragmentDelete

/-- JSON form of a deletion-vector replacement. -/
def codec : Codec FragmentDelete where
  encode replacement := record
    [("fragment_id", some (Codec.nat.encode replacement.fragmentId)),
     ("deletes", some (Codec.string.encode replacement.deletes)),
     ("deleted_count", some (Codec.nat.encode replacement.deletedCount))]
  decode document := do
    let fragmentId ← requiredField Codec.nat "fragment_id" document
    let deletes ← requiredField Codec.string "deletes" document
    let deletedCount ← requiredField Codec.nat "deleted_count" document
    some { fragmentId, deletes, deletedCount }
  decode_encode replacement := by
    simp [requiredField, field_record, List.lookup]
  encode_ne_null _ := nofun

end FragmentDelete

namespace StagedArtifact

/-- JSON form of an inlined file. -/
def codec : Codec (StagedArtifact String) where
  encode artifact := record
    [("path", some (Codec.string.encode artifact.path)),
     ("hex", some (Codec.string.encode artifact.hex))]
  decode document := do
    let path ← requiredField Codec.string "path" document
    let hex ← requiredField Codec.string "hex" document
    some { path, hex }
  decode_encode artifact := by
    simp [requiredField, field_record, List.lookup]
  encode_ne_null _ := nofun

end StagedArtifact

namespace MutationRecord

/-- JSON form of a mutation record. -/
def codec : Codec (MutationRecord String) where
  encode mutation := record
    [("sequence", some (Codec.nat.encode mutation.sequence)),
     ("base_sequence", some (Codec.nat.encode mutation.baseSequence)),
     ("fragment_deletes", some (FragmentDelete.codec.list.encode mutation.fragmentDeletes)),
     ("fragment_adds", unlessDefault RowGroupEntry.codec.list [] mutation.fragmentAdds),
     ("index_generations", unlessEmpty IndexRef.codec mutation.indexGenerations),
     ("rowindex_generation", mutation.rowindexGeneration.map RowIndexRef.codec.encode),
     ("next_fragment_id", unlessDefault Codec.nat 0 mutation.nextFragmentId),
     ("next_row_id", unlessDefault Codec.nat 0 mutation.nextRowId),
     ("staged_artifacts", unlessDefault StagedArtifact.codec.list [] mutation.stagedArtifacts),
     ("checksum", some (Codec.string.encode mutation.checksum))]
  decode document := do
    let sequence ← requiredField Codec.nat "sequence" document
    let baseSequence ← requiredField Codec.nat "base_sequence" document
    let fragmentDeletes ← requiredField FragmentDelete.codec.list "fragment_deletes" document
    let fragmentAdds ← defaultedField RowGroupEntry.codec.list [] "fragment_adds" document
    let indexGenerations ← defaultedField IndexRef.codec.map ∅ "index_generations" document
    let rowindexGeneration ← optionalField RowIndexRef.codec "rowindex_generation" document
    let nextFragmentId ← defaultedField Codec.nat 0 "next_fragment_id" document
    let nextRowId ← defaultedField Codec.nat 0 "next_row_id" document
    let stagedArtifacts ← defaultedField StagedArtifact.codec.list [] "staged_artifacts" document
    let checksum ← requiredField Codec.string "checksum" document
    some { sequence, baseSequence, fragmentDeletes, fragmentAdds, indexGenerations,
           rowindexGeneration, nextFragmentId, nextRowId, stagedArtifacts, checksum }
  decode_encode mutation := by
    simp [requiredField, optionalField, defaultedField, field_record, List.lookup]
  encode_ne_null _ := nofun

end MutationRecord

end IcefallDB
