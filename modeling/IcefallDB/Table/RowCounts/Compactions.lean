import IcefallDB.Table.RowCounts.Commits

/-!
# Compactions keep row counts

A compaction records the row counts of what it has staged, and each output row group that it stages
is a pair of new files with the rows that are counted.  Collecting garbage and undoing a compaction
only delete files.
-/

namespace IcefallDB

/-- The output row groups that a compaction has staged, with their row counts. -/
def Compactor.StagingState.outputs (state : Compactor.StagingState) : RecordedCounts :=
  (state.newEntries.map RowGroupEntry.files, some state.outputRowCounts)

namespace RowCounts

variable {R : Type} {choices : Choices R} {own : String → Prop} {base staged : List RecordedCounts}
  {storage before after : TableStorage R} {valid : Validity R}

/-! ## Pinning -/

theorem safe_loadCatalogWithRepair (counted : Counted valid nothing staged before) :
    (Compactor.loadCatalogWithRepair Except.ok).Safe (Counted valid nothing staged)
      (fun _ after => Counted valid nothing staged after) before := by
  have refreshes : ∀ {storage : TableStorage R}, Counted valid nothing staged storage →
      (Catalog.refresh Except.ok).Safe (Counted valid nothing staged)
        (fun _ after => Counted valid nothing staged after) storage :=
    fun counted => (safe_refresh counted).weaken fun _ _ both => both.1
  have repairs : (Compactor.repairManifestPointer : TableProgram R Bool).Emits
      (Lawful nothing staged) := by
    refine Script.Emits.bind Script.emits_read fun storage => ?_
    dsimp only
    split
    · exact Script.Emits.bind (Script.Emits.emit trivial) fun _ => Script.emits_pure _
    · exact Script.emits_pure _
  refine Script.safe_bind (Script.safe_attempt ?_ ?_)
  · refine (refreshes counted).weaken ?_
    rintro (_ | manifest) after counted
    · refine Script.safe_bind ((safe_of_lawful (List.Subset.refl _) repairs counted).weaken
        fun _ _ counted => ?_)
      exact Script.safe_ite (fun _ => refreshes counted) fun _ => Script.safe_pure counted counted
    · exact Script.safe_pure counted counted
  · intro failure after counted
    refine Script.safe_bind ((safe_of_lawful (List.Subset.refl _) repairs counted).weaken
      fun _ _ counted => ?_)
    exact Script.safe_ite (fun _ => refreshes counted) fun _ => Script.safe_fail counted

theorem safe_pinSource (now : String) (counted : Counted valid nothing staged before) :
    (Compactor.pinSource now).Safe (Counted valid nothing staged)
      (fun _ after => Counted valid nothing staged after) before := by
  refine Script.safe_bind ((safe_checkpointLocked now counted).weaken fun _ _ counted => ?_)
  refine Script.safe_bind ((safe_loadCatalogWithRepair counted).weaken ?_)
  rintro (_ | manifest) after counted
  · exact Script.safe_pure counted counted
  · refine Script.safe_bind ((safe_of_lawful (List.Subset.refl _) (emits_cleanupStaging _ _)
      counted).weaken fun _ _ counted => ?_)
    exact Script.safe_pure counted counted

/-! ## Staging -/

theorem emits_beginStaging (pinned : Manifest) :
    (Compactor.beginStaging choices pinned).Emits (Lawful own staged) := by
  refine Script.Emits.bind (Script.Emits.emit trivial) fun _ => ?_
  exact Script.Emits.bind (Script.Emits.emit trivial) fun _ => Script.emits_pure _

variable {state : Compactor.StagingState}

/-- A compaction that begins has staged nothing. -/
theorem outputs_of_ends_beginStaging {pinned : Manifest}
    (run : (Compactor.beginStaging choices pinned).Ends before state after) :
    state.outputs = ([], some []) := by
  obtain ⟨_, _, -, run⟩ := Script.ends_bind.mp run
  obtain ⟨_, _, -, run⟩ := Script.ends_bind.mp run
  obtain ⟨rfl, -⟩ := Script.ends_pure.mp run
  rfl

theorem parallel_nil : Parallel valid nothing storage ([], some []) :=
  parallel_of_forall₂ .nil

theorem emits_stageChunk (compactor : Compactor R) (schema : Schema)
    (partitionValues : Option (HashMap String Scalar)) (state : Compactor.StagingState)
    (chunk : List R × List Nat) :
    (compactor.stageChunk choices schema partitionValues state chunk).Emits
      (Lawful (RowGroupName choices state.chunks) staged) := by
  refine (Compactor.within_stageChunk compactor schema partitionValues state chunk).mono
    fun _ within => lawful_of_within (fun path touches => ?_) within
  cases touches with
  | staging filename => exact .inl (auxiliary_of_kind (kindOf_partPath "compact" filename) nofun nofun)
  | final named => exact .inr named

/-- The rows and the sidecar of a row group, which is computed for an identifier, are in two files. -/
structure HeldIn (kernel : Kernel R) (schema : Schema) (rgId : String) (storage : TableStorage R)
    (rows : List R) (data metaFile : String) : Prop where
  data : storage.files.lookup data = some (.data rows)
  sidecar : ∃ rowIds sidecar, storage.files.lookup metaFile = some (.sidecar sidecar) ∧
    kernel.computeRowGroupMeta schema rgId rows rowIds = .ok sidecar

/-- An output row group is staged under an identifier. -/
def HeldInParts (kernel : Kernel R) (schema : Schema) (storage : TableStorage R) (rows : List R)
    (rgId : String) : Prop :=
  HeldIn kernel schema rgId storage rows (partPath "compact" (dataFilename rgId))
    (partPath "compact" (metaFilename rgId))

private theorem compact_ne {left right : String} (different : kindOf left ≠ kindOf right) :
    partPath "compact" left ≠ partPath "compact" right :=
  fun same => different (congrArg kindOf (partPath_injective same))

variable {compactor : Compactor R} {schema : Schema} {rows : List R} {rowIds : List RowIdSegment}
  {chunk fragmentId attempt : Nat}

theorem held_of_ends_writeRowGroupPart
    (run : (compactor.writeRowGroupPart schema (choices.rgId chunk attempt) rows rowIds
      fragmentId).Ends before () after) :
    HeldInParts compactor.kernel schema after rows (choices.rgId chunk attempt) := by
  simp only [Compactor.writeRowGroupPart, Script.ends_bind, Script.ends_emit, Script.ends_lift] at run
  obtain ⟨_, _, rfl, sidecar, _, ⟨computed, rfl⟩, _, _, rfl, rfl⟩ := run
  have data_ne_meta : partPath "compact" (dataFilename (choices.rgId chunk attempt)) ≠
      partPath "compact" (metaFilename (choices.rgId chunk attempt)) :=
    compact_ne (by simp [Choices.rgId])
  have data_ne_agg : partPath "compact" (dataFilename (choices.rgId chunk attempt)) ≠
      partPath "compact" (aggFilename (choices.rgId chunk attempt)) :=
    compact_ne (by simp [Choices.rgId])
  have meta_ne_agg : partPath "compact" (metaFilename (choices.rgId chunk attempt)) ≠
      partPath "compact" (aggFilename (choices.rgId chunk attempt)) :=
    compact_ne (by simp [Choices.rgId])
  constructor
  · simp [Effect.perform, Storage.perform, AList.lookup_insert_ne data_ne_agg,
      AList.lookup_insert_ne data_ne_meta]
  · refine ⟨rowIds, sidecar, ?_, computed⟩
    simp [Effect.perform, Storage.perform, AList.lookup_insert_ne meta_ne_agg]

theorem held_of_ends_verifyStaged
    (held : HeldInParts compactor.kernel schema before rows (choices.rgId chunk attempt))
    (run : (compactor.verifyStaged schema (choices.rgId chunk attempt) rows rowIds
      fragmentId).Ends before () after) :
    HeldInParts compactor.kernel schema after rows (choices.rgId chunk attempt) := by
  simp only [Compactor.verifyStaged, Kernel.verifyRowGroupChecksum, Script.ends_bind, ends_readRows,
    ends_readSidecar, Script.ends_pure] at run
  obtain ⟨verified, _, ⟨_, _, ⟨-, rfl⟩, _, _, ⟨-, rfl⟩, -, rfl⟩, run⟩ := run
  rw [Script.ends_ite] at run
  rcases run with ⟨-, run⟩ | ⟨-, run⟩
  · obtain ⟨-, rfl⟩ := Script.ends_pure.mp run
    exact held
  · simp only [Script.ends_bind, ends_readRows, ends_readSidecar, Script.ends_pure,
      Script.ends_ensure] at run
    obtain ⟨⟨⟩, _, rewritten, _, _, ⟨_, _, ⟨-, rfl⟩, _, _, ⟨-, rfl⟩, -, rfl⟩, -, rfl⟩ := run
    exact held_of_ends_writeRowGroupPart rewritten

/-- Renaming the parts of an output row group gives it its files. -/
theorem held_of_ends_renames {renamed renamed' : TableStorage R}
    (held : HeldInParts compactor.kernel schema before rows (choices.rgId chunk attempt))
    (first : (renameFile (partPath "compact" (dataFilename (choices.rgId chunk attempt)))
      (dataFilename (choices.rgId chunk attempt))).Ends before () renamed)
    (second : (renameFile (partPath "compact" (metaFilename (choices.rgId chunk attempt)))
      (metaFilename (choices.rgId chunk attempt))).Ends renamed () renamed')
    (third : (renameFile (partPath "compact" (aggFilename (choices.rgId chunk attempt)))
      (aggFilename (choices.rgId chunk attempt))).Ends renamed' () after) :
    HeldIn compactor.kernel schema (choices.rgId chunk attempt) after rows
      (dataFilename (choices.rgId chunk attempt)) (metaFilename (choices.rgId chunk attempt)) := by
  obtain ⟨data, rowIds, sidecar, sidecar_found, computed⟩ := held
  obtain ⟨data_moved, data_rest⟩ := Writer.lookup_of_ends_renameFile first
  obtain ⟨meta_moved, meta_rest⟩ := Writer.lookup_of_ends_renameFile second
  obtain ⟨-, agg_rest⟩ := Writer.lookup_of_ends_renameFile third
  have final : ∀ {name directory other : String}, kindOf name ≠ .staging →
      name ≠ partPath directory other := Writer.final_ne_part
  have apart : ∀ {left right : String}, kindOf left ≠ kindOf right → left ≠ right :=
    fun different same => different (congrArg kindOf same)
  constructor
  · rw [agg_rest _ (final (by simp [Choices.rgId])) (apart (by simp [Choices.rgId])),
      meta_rest _ (final (by simp [Choices.rgId])) (apart (by simp [Choices.rgId])), data_moved, data]
  · refine ⟨rowIds, sidecar, ?_, computed⟩
    rw [agg_rest _ (final (by simp [Choices.rgId])) (apart (by simp [Choices.rgId])), meta_moved,
      data_rest _ (compact_ne (by simp [Choices.rgId])) (final (by simp [Choices.rgId])).symm,
      sidecar_found]

/-- A written output row group has files of its own, with its rows. -/
theorem held_of_ends_writeRowGroup {attempts : Nat} {entry : RowGroupEntry}
    (run : (compactor.writeRowGroup choices schema chunk rows rowIds fragmentId attempt
      attempts).Ends before entry after) :
    ∃ attempt, entry.files = (dataFilename (choices.rgId chunk attempt),
        metaFilename (choices.rgId chunk attempt)) ∧
      HeldIn compactor.kernel schema (choices.rgId chunk attempt) after rows entry.data
        entry.metaFile := by
  induction attempts generalizing attempt before with
  | zero => exact (Script.ends_fail.mp run).elim
  | succ attempts ih =>
      obtain ⟨_, _, wrote, run⟩ := Script.ends_bind.mp run
      obtain ⟨_, _, verified, run⟩ := Script.ends_bind.mp run
      obtain ⟨_, _, reading, run⟩ := Script.ends_bind.mp run
      obtain ⟨rfl, rfl⟩ := Script.ends_read.mp reading
      have held := held_of_ends_verifyStaged (held_of_ends_writeRowGroupPart wrote) verified
      rw [Script.ends_ite] at run
      rcases run with ⟨-, run⟩ | ⟨-, run⟩
      · rw [Script.ends_ite] at run
        rcases run with ⟨-, failed⟩ | ⟨-, run⟩
        · exact (Script.ends_fail.mp failed).elim
        · obtain ⟨_, _, -, run⟩ := Script.ends_bind.mp run
          obtain ⟨_, _, -, run⟩ := Script.ends_bind.mp run
          obtain ⟨_, _, -, run⟩ := Script.ends_bind.mp run
          exact ih run
      · obtain ⟨_, _, first, run⟩ := Script.ends_bind.mp run
        obtain ⟨_, _, second, run⟩ := Script.ends_bind.mp run
        obtain ⟨_, _, third, run⟩ := Script.ends_bind.mp run
        obtain ⟨rfl, rfl⟩ := Script.ends_pure.mp run
        exact ⟨attempt, rfl, held_of_ends_renames held first second third⟩

theorem HeldIn.of_lookup {kernel : Kernel R} {rgId data metaFile : String}
    (held : HeldIn kernel schema rgId before rows data metaFile)
    (lookup_eq : ∀ path, after.files.lookup path = before.files.lookup path) :
    HeldIn kernel schema rgId after rows data metaFile := by
  obtain ⟨data, rowIds, sidecar, found, computed⟩ := held
  exact ⟨(lookup_eq _).trans data, rowIds, sidecar, (lookup_eq _).trans found, computed⟩

/-- Staging appends an output row group with its row count. -/
theorem outputs_of_ends_stageChunk {partitionValues : Option (HashMap String Scalar)}
    {next : Compactor.StagingState} {chunk : List R × List Nat}
    (run : (compactor.stageChunk choices schema partitionValues state chunk).Ends before next after) :
    ∃ (entry : RowGroupEntry) (rows : List R) (attempt : Nat),
      compactor.maybeSortBatch chunk.1 = .ok rows ∧
      next.newEntries = state.newEntries ++ [entry] ∧
      next.outputRowCounts = state.outputRowCounts ++ [rows.length] ∧
      entry.files = (dataFilename (choices.rgId state.chunks attempt),
        metaFilename (choices.rgId state.chunks attempt)) ∧
      HeldIn compactor.kernel schema (choices.rgId state.chunks attempt) after rows entry.data
        entry.metaFile := by
  obtain ⟨rows, _, sorting, run⟩ := Script.ends_bind.mp run
  obtain ⟨sorted, rfl⟩ := Script.ends_lift.mp sorting
  obtain ⟨_, _, -, run⟩ := Script.ends_bind.mp run
  obtain ⟨entry, written, writing, run⟩ := Script.ends_bind.mp run
  obtain ⟨attempt, named, held⟩ := held_of_ends_writeRowGroup writing
  have same : Storage.SameOutside (fun _ => False) written after := by
    apply sameOutside_of_emits _ run
    refine Script.Emits.bind (Script.Emits.emit trivial) fun _ => ?_
    refine Script.Emits.bind (Script.Emits.emit trivial) fun _ => ?_
    refine Script.Emits.bind (Script.Emits.each fun _ _ => Script.Emits.emit trivial) fun _ => ?_
    exact Script.Emits.bind (Script.Emits.provided fun _ => Script.Emits.emit trivial) fun _ =>
      Script.emits_pure _
  iterate 4 obtain ⟨_, _, -, run⟩ := Script.ends_bind.mp run
  obtain ⟨rfl, -⟩ := Script.ends_pure.mp run
  exact ⟨entry, rows, attempt, sorted, rfl, rfl, named, held.of_lookup fun path => same.files path id⟩

/-- The rows of an output row group, sorted as the compactor sorts them, are as promised. -/
def ChunkSealed (valid : Validity R) (own : String → Prop) (compactor : Compactor R)
    (schema : Schema) (chunk : List R × List Nat) : Prop :=
  ∀ rows, compactor.maybeSortBatch chunk.1 = .ok rows → Seals valid own compactor.kernel schema rows

/-- Staging one more output row group, under a new identifier, keeps what is staged accounted for. -/
theorem safe_stageChunk (compactor : Compactor R) {schema : Schema}
    (partitionValues : Option (HashMap String Scalar)) {chunk : List R × List Nat}
    (seals : ChunkSealed valid (RowGroupName choices state.chunks) compactor schema chunk)
    (member : state.outputs ∈ staged)
    (counted : Counted valid (RowGroupName choices state.chunks) staged before) :
    (compactor.stageChunk choices schema partitionValues state chunk).Safe (Counted valid nothing staged)
      (fun next after => Counted valid nothing (next.outputs :: staged) after) before := by
  refine (safe_of_lawful (List.Subset.refl _) (emits_stageChunk compactor schema partitionValues
    state chunk) counted).strengthen.weaken ?_
  rintro next after ⟨run, counted⟩
  obtain ⟨entry, rows, attempt, sorted, entries_eq, counts_eq, files_eq, data, rowIds, sidecar, found,
    computed⟩ := outputs_of_ends_stageChunk run
  have settled := counted.settle (List.Subset.refl _)
  have known := settled.parallel _ (.staged member)
  have new : Parallel valid nothing after ([entry.files], some [rows.length]) := by
    apply parallel_of_forall₂
    apply List.Forall₂.cons _ .nil
    constructor
    · rw [files_eq]
      exact kinds_of_rgId _ _
    · refine ⟨rows, sidecar, held_of_lookup data found ?_, ?_, rfl⟩
      · obtain ⟨⟨columns, columnOffsets⟩, -, made⟩ := Script.except_bind_eq_ok.mp computed
        rw [← Except.ok.inj made]
      · rw [files_eq]
        exact seals rows sorted _ _ _ (.data attempt) (.sidecar attempt) computed
  apply settled.track
  rw [Compactor.StagingState.outputs, entries_eq, counts_eq, List.map_append, List.map_singleton]
  apply known.append new
  intro all all_eq
  exact ⟨state.outputRowCounts, [rows.length], (Option.some.inj all_eq).symm,
    known.counted _ rfl, new.counted _ rfl⟩

/-! ## Publishing -/

theorem emits_rebuildRowIndex (manifest : Manifest) :
    (rebuildRowIndex manifest : TableProgram R RowIndexRef).Emits (Lawful own staged) := by
  refine (Compactor.within_rebuildRowIndex manifest).mono fun _ within =>
    lawful_of_within (fun path path_eq => ?_) within
  rw [path_eq]
  exact .inl (auxiliary_of_kind (kindOf_rowIndexBasePath _) nofun nofun)

theorem emits_publishCompaction (compactor : Compactor R) (schema : Schema)
    (newSchemaId : Option Nat) (pinned : Manifest) (member : state.outputs ∈ staged) :
    (compactor.publishCompaction choices schema newSchemaId pinned state).Emits
      (Lawful nothing staged) := by
  refine Script.Emits.bind Compactor.emits_readPointerSequence fun currentSeq => ?_
  refine Script.Emits.bind (Script.emits_ensure _ _) fun _ => ?_
  refine Script.Emits.bind (Script.Emits.each fun schemaId _ => Script.Emits.emit (.inl
    (auxiliary_of_kind (kindOf_schemaFilename schemaId) nofun nofun))) fun _ => ?_
  refine Script.Emits.bind (Writer.emits_ensureNewSequence _) fun _ => ?_
  refine Script.Emits.bind (Script.Emits.emit trivial) fun _ => ?_
  refine Script.Emits.bind (emits_rebuildRowIndex _) fun generation => ?_
  refine Script.Emits.bind (Script.Emits.emit trivial) fun _ => ?_
  refine Script.Emits.bind (Script.Emits.each fun _ _ => Script.Emits.emit trivial) fun _ => ?_
  refine Script.Emits.bind_ends (emits_checkpointManifest _ _ _ _) fun _ checkpointed _ run => ?_
  obtain ⟨⟨checkpoint, rfl⟩, -⟩ := Writer.ends_checkpointManifest run
  refine Script.Emits.bind (emits_writeManifest member) fun _ => ?_
  refine Script.Emits.bind (Script.Emits.each fun _ _ => Script.Emits.emit trivial) fun _ => ?_
  exact Script.Emits.bind (Script.Emits.emit trivial) fun _ => Script.Emits.emit trivial

theorem emits_rollbackCompaction (previousSchemaId : Nat) (newSchemaId : Option Nat)
    (effects : List (StorageEffect (File R) (File R))) :
    (Compactor.rollbackCompaction previousSchemaId newSchemaId effects).Emits
      (Lawful own staged) := by
  refine Script.Emits.ite (fun _ => Script.Emits.each fun _ _ => Script.Emits.emit trivial)
    fun _ => ?_
  refine Script.Emits.bind (Script.Emits.provided fun _ => Script.Emits.emit trivial) fun _ => ?_
  refine Script.Emits.bind (Script.Emits.each fun _ _ => Script.Emits.emit trivial) fun _ => ?_
  refine Script.Emits.bind (Script.Emits.provided fun _ => Script.Emits.emit trivial) fun _ => ?_
  refine Script.Emits.bind (Script.Emits.each fun _ _ => Script.Emits.emit trivial) fun _ => ?_
  exact Script.Emits.each fun _ _ => Script.Emits.emit trivial

/-! ## Garbage -/

theorem emits_sweep (referenced : List String) (cutoff : Nat) :
    (GarbageCollector.sweep referenced cutoff : TableProgram R (List String)).Emits
      (Lawful own staged) := by
  refine Script.Emits.bind Script.emits_read fun storage => ?_
  refine Script.Emits.bind (Script.Emits.each fun _ _ => Script.Emits.emit trivial) fun _ => ?_
  refine Script.Emits.bind (Script.Emits.each fun _ _ => Script.Emits.emit trivial) fun _ => ?_
  exact Script.Emits.bind (Script.Emits.each fun _ _ => Script.Emits.emit trivial) fun _ =>
    Script.emits_pure _

theorem safe_collect (collector : GarbageCollector) (now : String)
    (counted : Counted valid nothing staged before) :
    (collector.run now).Safe (Counted valid nothing staged)
      (fun _ after => Counted valid nothing staged after) before := by
  have requires : (requireTableExists : TableProgram R Unit).Emits (Lawful nothing staged) := by
    refine Script.Emits.bind Script.emits_read fun storage => ?_
    split
    · exact Script.emits_fail _
    · exact Script.emits_ensure _ _
  have resolves : ∀ valid highest, (GarbageCollector.resolveCurrentSequence valid highest :
      TableProgram R Nat).Emits (Lawful nothing staged) := by
    intro valid highest
    refine Script.Emits.bind Script.emits_read fun storage => ?_
    split
    · refine Script.Emits.ite (fun _ => Script.emits_pure _) fun _ => ?_
      exact Script.Emits.bind (Script.Emits.emit trivial) fun _ => Script.emits_pure _
    · exact Script.Emits.bind (Script.Emits.emit trivial) fun _ => Script.emits_pure _
  refine Script.safe_bind ((safe_of_lawful (List.Subset.refl _) requires counted).weaken
    fun _ _ counted => ?_)
  refine Script.safe_bind ((safe_checkpointLocked now counted).weaken fun _ folded counted => ?_)
  refine Script.safe_bind (Script.safe_read counted ?_)
  split
  · exact Script.safe_pure counted counted
  · next highest lower _ =>
      refine safe_of_lawful (List.Subset.refl _) ?_ counted
      refine Script.Emits.bind (resolves _ _) fun current => ?_
      exact Script.Emits.bind (emits_sweep _ _) fun _ => Script.emits_pure _

end RowCounts

end IcefallDB
