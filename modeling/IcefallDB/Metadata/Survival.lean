import IcefallDB.Lib.JsonFloats
import IcefallDB.Metadata.Checksum

/-!
# Which self-checksums survive persistence

`SelfChecked` is the interface the four kinds of sealed records share; a record survives persistence
when it verifies after being sealed, written and read back, whatever orders its maps are iterated in
at the three moments.  Partition values and statistics may be floats, and `number` is what the JSON
reader makes of the literal of a float.
-/

namespace IcefallDB

open Json (Codec FloatText Floats record unlessEmpty canonicalize canonicalize_record_congr
  canonicalize_map_congr canonicalize_list_congr canonicalize_lookup_congr)

/-- What the formats with a checksum of themselves have in common. -/
structure SelfChecked (α : Type) where
  codec : Codec α
  /-- The floats of a value. -/
  floats : Floats codec
  /-- Two values that differ in the iteration order of their maps only. -/
  Same : α → α → Prop
  /-- The value without its checksums. -/
  blank : α → α
  /-- Checksum of a value. -/
  compute : α → String
  /-- Store a checksum in a value. -/
  stamp : α → String → α
  verify : α → Bool

namespace SelfChecked

variable {α : Type} (format : SelfChecked α)

/-- However the maps iterate when the value is sealed, when it is written and when it is verified,
the value read back verifies. -/
def Survives (number : FloatText → Option FloatText) (value : α) : Prop :=
  ∀ sealing writing, format.Same value sealing → format.Same value writing →
    ∃ parsed,
      (fromSlice format.codec
          (toVec format.codec (format.stamp writing (format.compute sealing)))).bind
            (format.floats.reread number) = some parsed ∧
        ∀ reading, format.Same parsed reading → format.verify reading = true

/-- SHA-256 separates the canonical texts of a value and of what the reader makes of it. -/
def CollisionFree (number : FloatText → Option FloatText) (value : α) : Prop :=
  ∀ parsed, format.floats.reread number value = some parsed →
    format.compute parsed = format.compute value →
      (canonicalize (format.codec.encode (format.blank parsed))).toBytes =
        (canonicalize (format.codec.encode (format.blank value))).toBytes

/-- A format whose checksum is taken of the canonical form. -/
structure Canonical : Prop where
  refl : ∀ value, format.Same value value
  mem_of_same : ∀ {value other}, format.Same value other →
    ∀ literal ∈ format.floats.all other, literal ∈ format.floats.all value
  compute_eq : ∀ value,
    format.compute value = checksumJson (format.codec.encode (format.blank value))
  canonicalize_eq : ∀ {value other}, format.Same value other →
    canonicalize (format.codec.encode (format.blank value)) =
      canonicalize (format.codec.encode (format.blank other))
  blank_stamp : ∀ value checksum, format.blank (format.stamp value checksum) = format.blank value
  all_blank : ∀ value, format.floats.all (format.blank value) = format.floats.all value
  map_blank : ∀ replace value,
    format.floats.map replace (format.blank value) = format.blank (format.floats.map replace value)
  all_stamp : ∀ value checksum,
    format.floats.all (format.stamp value checksum) = format.floats.all value
  map_stamp : ∀ replace value checksum, format.floats.map replace (format.stamp value checksum) =
    format.stamp (format.floats.map replace value) checksum
  verify_iff : ∀ value origin reading,
    format.Same (format.stamp value (format.compute origin)) reading →
      (format.verify reading = true ↔ format.compute origin = format.compute reading)

namespace Canonical

variable {format} (canonical : format.Canonical) {number : FloatText → Option FloatText} {value : α}
include canonical

theorem compute_same {other : α} (same : format.Same value other) :
    format.compute value = format.compute other := by
  rw [canonical.compute_eq, canonical.compute_eq, checksumJson, checksumJson,
    canonical.canonicalize_eq same]

theorem compute_stamp (checksum : String) :
    format.compute (format.stamp value checksum) = format.compute value := by
  rw [canonical.compute_eq, canonical.compute_eq, canonical.blank_stamp]

/-- The value read back keeps the floats, and with them the checksum. -/
theorem survives_of_readBack (same : format.floats.ReadBack number value) :
    format.Survives number value := by
  intro sealing writing sealing_same writing_same
  have kept : format.floats.ReadBack number (format.stamp writing (format.compute sealing)) := by
    intro literal found
    rw [canonical.all_stamp] at found
    exact same literal (canonical.mem_of_same writing_same literal found)
  refine ⟨_, by rw [fromSlice_toVec, Option.bind_some, format.floats.reread_eq_self kept], ?_⟩
  intro reading reading_same
  rw [canonical.verify_iff writing sealing reading reading_same]
  calc
    format.compute sealing = format.compute value := (canonical.compute_same sealing_same).symm
    _ = format.compute writing := canonical.compute_same writing_same
    _ = format.compute (format.stamp writing (format.compute sealing)) :=
        (canonical.compute_stamp _).symm
    _ = format.compute reading := canonical.compute_same reading_same

/-- A float that is read as another number changes the canonical text, and with it the checksum. -/
theorem readBack_of_survives (collision_free : format.CollisionFree number value)
    (survives : format.Survives number value) : format.floats.ReadBack number value := by
  obtain ⟨parsed, read, verifies⟩ :=
    survives value value (canonical.refl value) (canonical.refl value)
  rw [fromSlice_toVec, Option.bind_some,
    format.floats.reread_update (format.stamp · (format.compute value)) (canonical.all_stamp ..)
      (canonical.map_stamp · ..)] at read
  obtain ⟨parsed, reread, rfl⟩ := Option.map_eq_some_iff.mp read
  have checksum_eq := (canonical.verify_iff parsed value _ (canonical.refl _)).mp
    (verifies _ (canonical.refl _))
  rw [canonical.compute_stamp] at checksum_eq
  have bytes_eq := congrArg Json.ofBytes (collision_free parsed reread checksum_eq.symm)
  rw [Json.ofBytes_toBytes, Json.ofBytes_toBytes] at bytes_eq
  have blank_read : format.floats.reread number (format.blank value) = some (format.blank parsed) := by
    rw [format.floats.reread_update format.blank (canonical.all_blank value)
      (canonical.map_blank · value), reread]
    rfl
  have shown := format.floats.readBack_of_reread blank_read (Option.some.inj bytes_eq)
  rwa [Floats.ReadBack, canonical.all_blank] at shown

theorem survives_iff (collision_free : format.CollisionFree number value) :
    format.Survives number value ↔ format.floats.ReadBack number value :=
  ⟨canonical.readBack_of_survives collision_free, canonical.survives_of_readBack⟩

end Canonical

end SelfChecked

/-! ## The floats of a record -/

/-- The float a scalar may be. -/
def AnyScalar.floats : Floats AnyScalar.codec where
  all
    | scalar _ => []
    | float literal => [literal]
  map replace
    | scalar value => scalar value
    | float literal => float (replace literal)
  map_eq_self replace value same := by
    cases value with
    | scalar value => rfl
    | float literal => exact congrArg float (same literal (List.mem_singleton.mpr rfl))
  visible replace value same := by
    cases value with
    | scalar value => exact fun _ member => absurd member List.not_mem_nil
    | float literal =>
        intro other member
        obtain rfl := List.mem_singleton.mp member
        exact Json.float.inj same

/-- The floats of the bounds of a column. -/
def ColumnStats.floats : Floats (ColumnStats.codec : Codec (ColumnStats AnyScalar)) where
  all stats := AnyScalar.floats.allSome stats.min ++ AnyScalar.floats.allSome stats.max
  map replace stats :=
    { stats with
      min := AnyScalar.floats.mapSome replace stats.min
      max := AnyScalar.floats.mapSome replace stats.max }
  map_eq_self replace stats same := by
    rw [AnyScalar.floats.mapSome_eq_self fun literal found =>
        same literal (List.mem_append_left _ found),
      AnyScalar.floats.mapSome_eq_self fun literal found =>
        same literal (List.mem_append_right _ found)]
  visible replace stats same := by
    have fields := canonicalize_lookup_congr (by simp) (by simp) same
    intro literal found
    rcases List.mem_append.mp found with found | found
    · exact AnyScalar.floats.visible_mapSome (fields "min") literal found
    · exact AnyScalar.floats.visible_mapSome (fields "max") literal found

/-- The floats in the statistics of a fragment. -/
def FragmentSummary.floats : Floats (FragmentSummary.codec : Codec (FragmentSummary AnyScalar)) where
  all fragment := ColumnStats.floats.values.all fragment.columns
  map replace fragment :=
    { fragment with columns := ColumnStats.floats.values.map replace fragment.columns }
  map_eq_self replace fragment same := by
    rw [ColumnStats.floats.values.map_eq_self replace fragment.columns same]
  visible replace fragment same :=
    ColumnStats.floats.visible_unlessEmpty
      (canonicalize_lookup_congr (by simp) (by simp) same "columns")

/-- The floats in the statistics of all fragments. -/
def SnapshotCheckpoint.floats : Floats (SnapshotCheckpoint.codec : Codec (SnapshotCheckpoint AnyScalar)) where
  all checkpoint := FragmentSummary.floats.list.all checkpoint.fragments
  map replace checkpoint :=
    { checkpoint with fragments := FragmentSummary.floats.list.map replace checkpoint.fragments }
  map_eq_self replace checkpoint same := by
    rw [FragmentSummary.floats.list.map_eq_self replace checkpoint.fragments same]
  visible replace checkpoint same := by
    have fragments := canonicalize_lookup_congr (by simp) (by simp) same "fragments"
    exact FragmentSummary.floats.list.visible replace checkpoint.fragments
      (Option.some.inj fragments)

/-- The floats among the partition values. -/
def Manifest.floats : Floats (Manifest.codec : Codec (Manifest AnyScalar)) where
  all manifest := AnyScalar.floats.values.values.allSome manifest.partitionValues
  map replace manifest :=
    { manifest with
      partitionValues := AnyScalar.floats.values.values.mapSome replace manifest.partitionValues }
  map_eq_self replace manifest same := by
    rw [AnyScalar.floats.values.values.mapSome_eq_self same]
  visible replace manifest same :=
    AnyScalar.floats.values.values.visible_mapSome
      (canonicalize_lookup_congr (by simp) (by simp) same "partition_values")

/-! ## The four formats -/

/-- Manifests. -/
def manifestFormat : SelfChecked (Manifest AnyScalar) where
  codec := Manifest.codec
  floats := Manifest.floats
  Same := Manifest.Same
  blank manifest := { manifest with checksum := "" }
  compute := Manifest.computeChecksum
  stamp manifest checksum := { manifest with checksum }
  verify := Manifest.verifyChecksum

/-- Snapshot checkpoints. -/
def checkpointFormat : SelfChecked (SnapshotCheckpoint AnyScalar) where
  codec := SnapshotCheckpoint.codec
  floats := SnapshotCheckpoint.floats
  Same := SnapshotCheckpoint.Same
  blank checkpoint := { checkpoint with checksum := "" }
  compute := SnapshotCheckpoint.computeChecksum
  stamp checkpoint checksum := { checkpoint with checksum }
  verify := SnapshotCheckpoint.verifyChecksum

/-- Row-group metadata. -/
def rowGroupMetaFormat : SelfChecked RowGroupMeta where
  codec := RowGroupMeta.codec
  floats := Floats.absent _
  Same := RowGroupMeta.Same
  blank sidecar := { sidecar with checksum := "", metaChecksum := "" }
  compute := RowGroupMeta.computeMetaChecksum
  stamp sidecar metaChecksum := { sidecar with metaChecksum }
  verify := RowGroupMeta.verifyMetaChecksum

/-- Mutation records. -/
def mutationFormat : SelfChecked (MutationRecord String) where
  codec := MutationRecord.codec
  floats := Floats.absent _
  Same := MutationRecord.Same
  blank mutation := { mutation with checksum := "" }
  compute := MutationRecord.computeChecksum
  stamp mutation checksum := { mutation with checksum }
  verify := MutationRecord.verify

/-! ## Canonical checksums do not see iteration order -/

private theorem canonicalize_eq_of_eq {α : Type} (codec : Codec α) (one other : α)
    (same : one = other) : canonicalize (codec.encode one) = canonicalize (codec.encode other) := by
  rw [same]

private theorem mem_of_eq {α : Type} {codec : Codec α} (floats : Floats codec) (one other : α)
    (same : one = other) : ∀ literal ∈ floats.all other, literal ∈ floats.all one := by
  rw [same]
  exact fun _ found => found

theorem manifestFormat_canonical : manifestFormat.Canonical where
  refl := Manifest.Same.refl
  mem_of_same := by
    rintro value other ⟨fields, partitions, indexes⟩
    change ∀ literal ∈ AnyScalar.floats.values.values.allSome other.partitionValues,
      literal ∈ AnyScalar.floats.values.values.allSome value.partitionValues
    generalize value.partitionValues = left, other.partitionValues = right at partitions
    cases partitions with
    | none => exact fun _ found => found
    | some same =>
        have kept := AnyScalar.floats.values.mem_values_of_same
          (fun _ _ => AnyScalar.floats.mem_values_of_same (mem_of_eq AnyScalar.floats)) same
        simpa [Floats.allSome] using kept
  compute_eq _ := rfl
  canonicalize_eq := by
    rintro value other ⟨fields, partitions, indexes⟩
    have partitions_eq := Json.canonicalize_option_congr Encoded.codec.map.map
      (fun _ _ => canonicalize_map_congr Encoded.codec.map
        fun _ _ => canonicalize_map_congr Encoded.codec (canonicalize_eq_of_eq Encoded.codec))
      partitions
    have indexes_eq := Json.canonicalize_unlessEmpty_congr IndexRef.codec
      (canonicalize_eq_of_eq IndexRef.codec) indexes
    rw [fields]
    apply canonicalize_record_congr
    simp only [List.map_cons, List.map_nil, manifestFormat, partitions_eq, indexes_eq]
  blank_stamp _ _ := rfl
  all_blank _ := rfl
  map_blank _ _ := rfl
  all_stamp _ _ := rfl
  map_stamp _ _ _ := rfl
  verify_iff value origin reading same := by
    have stored : reading.checksum = origin.computeChecksum := by rw [same.fields]; rfl
    change decide (reading.checksum = reading.computeChecksum) = true ↔ _
    rw [decide_eq_true_iff, stored]
    rfl

private theorem FragmentSummary.Same.canonicalize_eq {left right : FragmentSummary AnyScalar}
    (same : left.Same right) :
    canonicalize (FragmentSummary.codec.encode left) =
      canonicalize (FragmentSummary.codec.encode right) := by
  obtain ⟨fields, columns, offsets⟩ := same
  have columns_eq := Json.canonicalize_unlessEmpty_congr ColumnStats.codec
    (canonicalize_eq_of_eq ColumnStats.codec) columns
  have offsets_eq := Json.canonicalize_option_congr ColumnChunkOffset.codec.map
    (fun _ _ => canonicalize_map_congr ColumnChunkOffset.codec
      (canonicalize_eq_of_eq ColumnChunkOffset.codec)) offsets
  rw [fields]
  apply canonicalize_record_congr
  simp only [List.map_cons, List.map_nil, columns_eq, offsets_eq]

private theorem SnapshotCheckpoint.Same.refl (checkpoint : SnapshotCheckpoint AnyScalar) :
    checkpoint.Same checkpoint := by
  refine ⟨rfl, List.forall₂_same.mpr fun fragment _ => ⟨rfl, HashMap.Same.refl _, ?_⟩⟩
  cases fragment.columnOffsets with
  | none => exact .none
  | some offsets => exact .some (HashMap.Same.refl offsets)

theorem checkpointFormat_canonical : checkpointFormat.Canonical where
  refl := SnapshotCheckpoint.Same.refl
  mem_of_same := by
    rintro value other ⟨fields, fragments⟩
    exact FragmentSummary.floats.mem_list_of_forall₂
      (fun _ _ same => ColumnStats.floats.mem_values_of_same (mem_of_eq ColumnStats.floats)
        same.columns) fragments
  compute_eq _ := rfl
  canonicalize_eq := by
    rintro value other ⟨fields, fragments⟩
    have fragments_eq := canonicalize_list_congr FragmentSummary.codec
      (fragments.imp fun _ _ => FragmentSummary.Same.canonicalize_eq)
    rw [fields]
    apply canonicalize_record_congr
    simp only [List.map_cons, List.map_nil, checkpointFormat, Option.map_some, fragments_eq]
  blank_stamp _ _ := rfl
  all_blank _ := rfl
  map_blank _ _ := rfl
  all_stamp _ _ := rfl
  map_stamp _ _ _ := rfl
  verify_iff value origin reading same := by
    have stored : reading.checksum = origin.computeChecksum := by rw [same.fields]; rfl
    change decide (reading.checksum = reading.computeChecksum) = true ↔ _
    rw [decide_eq_true_iff, stored]
    rfl

theorem rowGroupMetaFormat_canonical : rowGroupMetaFormat.Canonical where
  refl sidecar := by
    refine ⟨rfl, HashMap.Same.refl _, ?_⟩
    cases sidecar.columnOffsets with
    | none => exact .none
    | some offsets => exact .some (HashMap.Same.refl offsets)
  mem_of_same _ := fun _ found => found
  compute_eq _ := rfl
  canonicalize_eq := by
    rintro value other ⟨fields, columns, offsets⟩
    have columns_eq := canonicalize_map_congr ColumnStats.codec
      (canonicalize_eq_of_eq ColumnStats.codec) columns
    have offsets_eq := Json.canonicalize_option_congr ColumnChunkOffset.codec.map
      (fun _ _ => canonicalize_map_congr ColumnChunkOffset.codec
        (canonicalize_eq_of_eq ColumnChunkOffset.codec)) offsets
    rw [fields]
    apply canonicalize_record_congr
    simp only [List.map_cons, List.map_nil, rowGroupMetaFormat, Option.map_some, columns_eq,
      offsets_eq]
  blank_stamp _ _ := rfl
  all_blank _ := rfl
  map_blank _ _ := rfl
  all_stamp _ _ := rfl
  map_stamp _ _ _ := rfl
  verify_iff value origin reading same := by
    have stored : reading.metaChecksum = origin.computeMetaChecksum := by rw [same.fields]; rfl
    have present : reading.metaChecksum ≠ "" := by
      rw [stored]
      exact checksumBytes_ne_empty _
    change reading.verifyMetaChecksum = true ↔ _
    rw [RowGroupMeta.verifyMetaChecksum, if_neg present, decide_eq_true_iff, stored]
    exact eq_comm

/-! ## Which values survive persistence -/

/-- The checksums of all instances of a record differ where their texts do. -/
def MutationRecord.CollisionFree (mutation : MutationRecord String) : Prop :=
  ∀ left right, mutation.Same left → mutation.Same right →
    left.computeChecksum = right.computeChecksum →
      toVec MutationRecord.codec { left with checksum := "" } =
        toVec MutationRecord.codec { right with checksum := "" }

variable {number : FloatText → Option FloatText}

private theorem mutation_survives {mutation : MutationRecord String}
    (short : mutation.indexGenerations.entries.length ≤ 1) :
    mutationFormat.Survives number mutation := by
  intro sealing writing sealing_same writing_same
  obtain rfl := MutationRecord.Same.eq_of_length_le_one sealing_same short
  obtain rfl := MutationRecord.Same.eq_of_length_le_one writing_same short
  refine ⟨_, by rw [fromSlice_toVec, Option.bind_some,
    mutationFormat.floats.reread_eq_self fun _ found => absurd found List.not_mem_nil], ?_⟩
  intro reading reading_same
  obtain rfl := MutationRecord.Same.eq_of_length_le_one reading_same short
  exact decide_eq_true rfl

private theorem mutation_length_le_one {mutation : MutationRecord String}
    (collision_free : mutation.CollisionFree) (survives : mutationFormat.Survives number mutation) :
    mutation.indexGenerations.entries.length ≤ 1 := by
  by_contra long
  let other := { mutation with indexGenerations := HashMap.swapped mutation.indexGenerations }
  have mutation_same : mutation.Same mutation := ⟨rfl, HashMap.Same.refl _⟩
  have other_same : mutation.Same other := ⟨rfl, HashMap.same_swapped _⟩
  obtain ⟨parsed, read_back, verifies⟩ := survives mutation mutation mutation_same mutation_same
  rw [fromSlice_toVec, Option.bind_some,
    mutationFormat.floats.reread_eq_self fun _ found => absurd found List.not_mem_nil] at read_back
  obtain rfl := Option.some.inj read_back
  -- The reader iterates the map in the swapped order.
  have verified := verifies { other with checksum := mutation.computeChecksum }
    ⟨rfl, HashMap.same_swapped _⟩
  have checksum_eq : mutation.computeChecksum = other.computeChecksum := of_decide_eq_true verified
  have bytes_eq := collision_free mutation other mutation_same other_same checksum_eq
  have read_eq := congrArg (fromSlice MutationRecord.codec) bytes_eq
  rw [fromSlice_toVec, fromSlice_toVec] at read_eq
  have maps_eq := congrArg MutationRecord.indexGenerations (Option.some.inj read_eq)
  exact HashMap.entries_swapped_ne _ (by omega) (congrArg AList.entries maps_eq).symm

/-- A value of one of the four formats that carry a checksum of themselves. -/
inductive SealedValue
  | manifest (value : Manifest AnyScalar)
  | checkpoint (value : SnapshotCheckpoint AnyScalar)
  | rowGroupMeta (value : RowGroupMeta)
  | mutation (value : MutationRecord String)

namespace SealedValue

/-- The value verifies after being sealed, persisted and read back. -/
def Survives (number : FloatText → Option FloatText) : SealedValue → Prop
  | manifest value => manifestFormat.Survives number value
  | checkpoint value => checkpointFormat.Survives number value
  | rowGroupMeta value => rowGroupMetaFormat.Survives number value
  | mutation value => mutationFormat.Survives number value

/-- SHA-256 separates the texts that a mutation record has under different iteration orders, and
those of another record and of what the reader makes of it. -/
def CollisionFree (number : FloatText → Option FloatText) : SealedValue → Prop
  | manifest value => manifestFormat.CollisionFree number value
  | checkpoint value => checkpointFormat.CollisionFree number value
  | rowGroupMeta _ => True
  | mutation value => value.CollisionFree

/-- The reader makes the same number of every float, and a mutation record has at most one
secondary index. -/
def Stable (number : FloatText → Option FloatText) : SealedValue → Prop
  | manifest value => Manifest.floats.ReadBack number value
  | checkpoint value => SnapshotCheckpoint.floats.ReadBack number value
  | rowGroupMeta _ => True
  | mutation value => value.indexGenerations.entries.length ≤ 1

/-- A manifest or a checkpoint survives persistence exactly when its floats do, row-group metadata
without floats always, and a mutation record exactly when it has at most one secondary index. -/
theorem survives_iff_stable (number : FloatText → Option FloatText) (value : SealedValue)
    (collision_free : value.CollisionFree number) : value.Survives number ↔ value.Stable number := by
  cases value with
  | manifest value => exact manifestFormat_canonical.survives_iff collision_free
  | checkpoint value => exact checkpointFormat_canonical.survives_iff collision_free
  | rowGroupMeta value =>
      exact iff_of_true (rowGroupMetaFormat_canonical.survives_of_readBack
        fun _ found => absurd found List.not_mem_nil) trivial
  | mutation value => exact ⟨mutation_length_le_one collision_free, mutation_survives⟩

end SealedValue

/-- A delete on a table with two secondary indexes. -/
def twoIndexMutation : MutationRecord String where
  sequence := 2
  baseSequence := 1
  fragmentDeletes :=
    [{ fragmentId := 0, deletes := "_deletions/rg_0000000000000000__v1.del", deletedCount := 1 }]
  fragmentAdds := []
  indexGenerations :=
    [⟨"by_id", { base := some "_indexes/by_id/base__v000000001.json" }⟩,
     ⟨"by_name", { base := some "_indexes/by_name/base__v000000001.json" }⟩].toAList
  rowindexGeneration := none
  nextFragmentId := 0
  nextRowId := 3
  stagedArtifacts := []
  checksum := ""

private theorem twoIndexMutation_same {other : MutationRecord String}
    (same : twoIndexMutation.Same other) :
    other = twoIndexMutation ∨
      other = { twoIndexMutation with
        indexGenerations := HashMap.swapped twoIndexMutation.indexGenerations } := by
  rcases same.indexGenerations.eq_or_eq_swapped (by decide) with indexes_eq | indexes_eq
  · exact .inl (by rw [same.fields, indexes_eq])
  · exact .inr (by rw [same.fields, indexes_eq])

set_option maxRecDepth 20000 in
theorem twoIndexMutation_collisionFree : twoIndexMutation.CollisionFree := by
  have separated : twoIndexMutation.computeChecksum ≠
      { twoIndexMutation with
        indexGenerations := HashMap.swapped twoIndexMutation.indexGenerations }.computeChecksum := by
    decide +kernel
  intro left right left_same right_same checksum_eq
  rcases twoIndexMutation_same left_same with rfl | rfl <;>
    rcases twoIndexMutation_same right_same with rfl | rfl
  · rfl
  · exact absurd checksum_eq separated
  · exact absurd checksum_eq.symm separated
  · rfl

/-- A manifest of one row group whose partition value is the float 1/11. -/
def eleventhManifest : Manifest AnyScalar where
  formatVersion := 1
  sequence := 1
  schemaId := 1
  rowGroups :=
    [{ data := "data/rg_0000000000000000.parquet", metaFile := "meta/rg_0000000000000000.json" }]
  partitionValues :=
    some [⟨"data/rg_0000000000000000.parquet",
      [⟨"share", .float ⟨"0.09090909090909091".toList, by decide⟩⟩].toAList⟩].toAList

/-- The reader that divides 9090909090909091, rounded to a float, by a power of ten. -/
def readEleventh (literal : FloatText) : Option FloatText :=
  if literal.chars = "0.09090909090909091".toList then
    some ⟨"0.09090909090909093".toList, by decide⟩
  else some literal

set_option maxRecDepth 20000 in
theorem eleventhManifest_collisionFree :
    (SealedValue.manifest eleventhManifest).CollisionFree readEleventh := by
  have separated : (Manifest.floats.reread readEleventh eleventhManifest).map
      Manifest.computeChecksum ≠ some eleventhManifest.computeChecksum := by
    decide +kernel
  intro parsed read checksum_eq
  have reread : Manifest.floats.reread readEleventh eleventhManifest = some parsed := read
  rw [reread] at separated
  exact absurd (congrArg some checksum_eq) separated

theorem survives_iff_stable_records :
    ((SealedValue.mutation twoIndexMutation).Survives some ↔
      (SealedValue.mutation twoIndexMutation).Stable some) ∧
    ((SealedValue.manifest eleventhManifest).Survives readEleventh ↔
      (SealedValue.manifest eleventhManifest).Stable readEleventh) :=
  ⟨SealedValue.survives_iff_stable _ _ twoIndexMutation_collisionFree,
   SealedValue.survives_iff_stable _ _ eleventhManifest_collisionFree⟩

theorem records_not_survive :
    ¬(SealedValue.mutation twoIndexMutation).Survives some ∧
      ¬(SealedValue.manifest eleventhManifest).Survives readEleventh := by
  refine ⟨fun survives => ?_, fun survives => ?_⟩
  · have short := mutation_length_le_one twoIndexMutation_collisionFree survives
    exact absurd short (by decide)
  · have kept := manifestFormat_canonical.readBack_of_survives eleventhManifest_collisionFree survives
    exact absurd (kept ⟨"0.09090909090909091".toList, by decide⟩ (by decide)) (by decide)

end IcefallDB
