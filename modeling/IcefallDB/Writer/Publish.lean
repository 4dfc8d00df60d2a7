import IcefallDB.Writer.Stage

/-!
# What appends publish

A complete append stages its row groups, builds its manifest on the current one, and publishes it.
Completing the manifest with indexes, checkpoint and seal touches no file of a row group, so what was
staged is what the published manifest refers to.
-/

namespace IcefallDB

variable {R : Type}

/-- Files that completing a manifest can touch. -/
def IsSupport (path : String) : Prop :=
  kindOf path = .index ∨ kindOf path = .staging ∨ kindOf path = .checkpoint

namespace Writer

variable {choices : Choices R} {current draft : Manifest}

variable {writer : Writer R} {before : TableStorage R}

/-- An append begins with loading the current manifest and cleaning up. -/
theorem ends_beginAppend {begun : TableStorage R} {latestSeq : Nat}
    (run : writer.beginAppend.Ends before (latestSeq, current) begun) :
    ∃ loaded, loadCurrent.Ends before (latestSeq, current) loaded ∧
      cleaned latestSeq (manifestReferencedFiles current) loaded = begun := by
  obtain ⟨⟨_, _⟩, loaded, load_run, run⟩ := Script.ends_bind.mp run
  obtain ⟨_, checked, check_run, run⟩ := Script.ends_bind.mp run
  obtain ⟨_, _, clean_run, run⟩ := Script.ends_bind.mp run
  obtain ⟨_, _, ensure_run, run⟩ := Script.ends_bind.mp run
  obtain ⟨same, rfl⟩ := Script.ends_pure.mp run
  obtain ⟨rfl, rfl⟩ := Prod.mk.inj same
  obtain rfl := Script.Emits.silent (emits_checkSchemaPointer _) check_run
  obtain rfl := ends_cleanupStaging.mp clean_run
  obtain rfl := Script.Emits.silent (emits_ensureNewSequence _) ensure_run
  exact ⟨_, load_run, rfl⟩

variable {after : TableStorage R}

/-- Index maintenance fills in the index generations. -/
theorem ends_buildIndexesIntoManifest {files intentFiles : List String} {built : Manifest}
    {incrementalAppend : Bool}
    (run : (writer.buildIndexesIntoManifest choices draft current files incrementalAppend).Ends before
      (built, intentFiles) after) :
    (∃ generations, built = { draft with indexGenerations := generations }) ∧
      Storage.SameOutside IsSupport before after := by
  refine ⟨?_, (sameOutside_of_emits (within_buildIndexesIntoManifest _ _ _ _ _ _) run).mono
    fun path => .inl⟩
  obtain ⟨_, _, -, run⟩ := Script.ends_bind.mp run
  obtain ⟨done, _, -, run⟩ := Script.ends_bind.mp run
  obtain ⟨_, _, -, run⟩ := Script.ends_bind.mp run
  obtain ⟨_, _, -, run⟩ := Script.ends_bind.mp run
  obtain ⟨same, -⟩ := Script.ends_pure.mp run
  exact ⟨done.generations, (Prod.mk.inj same).1.symm⟩

/-- Checkpointing fills in the checkpoint. -/
theorem ends_checkpointManifest {localRoot : Bool} {files : List String} {built : Manifest}
    (run : (checkpointManifest localRoot choices current draft files).Ends before built after) :
    (∃ checkpoint, built = { draft with checkpoint := checkpoint }) ∧
      Storage.SameOutside IsSupport before after := by
  refine ⟨?_, (sameOutside_of_emits (within_checkpointManifest _ _ _ _ _) run).mono
    fun path file => .inr file.kind⟩
  obtain ⟨_, _, -, run⟩ := Script.ends_bind.mp run
  obtain ⟨path, _, -, run⟩ := Script.ends_bind.mp run
  exact ⟨some path, (Script.ends_pure.mp run).1.symm⟩

/-- Writing a manifest seals it. -/
theorem ends_writeManifest {final : Manifest}
    (run : (writeManifest choices draft).Ends before final after) :
    (∃ parent, final = draft.finalize parent choices.now) ∧
      after = { before with manifests := before.manifests.insert draft.sequence final } := by
  obtain ⟨_, _, read_run, run⟩ := Script.ends_bind.mp run
  obtain ⟨rfl, rfl⟩ := Script.ends_read.mp read_run
  obtain ⟨_, _, ensured, run⟩ := Script.ends_bind.mp run
  obtain ⟨-, rfl⟩ := Script.ends_ensure.mp ensured
  obtain ⟨_, _, written, run⟩ := Script.ends_bind.mp run
  obtain rfl := Script.ends_emit.mp written
  obtain ⟨rfl, rfl⟩ := Script.ends_pure.mp run
  exact ⟨⟨_, rfl⟩, rfl⟩

/-! ## Buffered batches -/

theorem allocate_index (start nextRowId nextFragmentId : Nat) (groups : List (List R)) :
    (allocate start nextRowId nextFragmentId groups).map PlannedRowGroup.index =
      List.range' start groups.length := by
  induction groups generalizing start nextRowId nextFragmentId with
  | nil => rfl
  | cons rows groups ih => simp [allocate, ih, List.range'_succ]

theorem allocate_rows (start nextRowId nextFragmentId : Nat) (groups : List (List R)) :
    (allocate start nextRowId nextFragmentId groups).map PlannedRowGroup.rows = groups := by
  induction groups generalizing start nextRowId nextFragmentId with
  | nil => rfl
  | cons rows groups ih => simp [allocate, ih]

/-- The row groups that a commit plans on top of a manifest. -/
def plannedOn (current : Manifest) (groups : List (List R)) : List (PlannedRowGroup R) :=
  allocate 0 current.nextRowId current.nextFragmentId groups

theorem plannedOn_index_nodup (current : Manifest) (groups : List (List R)) :
    ((plannedOn current groups).map PlannedRowGroup.index).Nodup := by
  rw [plannedOn, allocate_index]
  exact List.nodup_range'

/-- A complete commit of buffered batches: its row groups got names that were free when it began, and
its manifest appends them to the current one, or to nothing when it replaces. -/
structure Commits (writer : Writer R) (choices : Choices R) (buffer : List (List R))
    (replace : Bool) (latestSeq : Nat) (current : Manifest) (begun after : TableStorage R)
    (published : Manifest) (groups : List (List R)) (files : List RowGroupFiles) : Prop where
  planned : writer.planRowGroups choices buffer = .ok groups
  promoted : List.Forall₂ (fun group => writer.Promoted choices group begun after)
    (plannedOn current groups) files
  sequence : published.sequence = latestSeq + 1
  rowGroups : published.rowGroups = (if replace then [] else current.rowGroups) ++
    List.zipWith (fun group => newEntry group.fragmentId) (plannedOn current groups) files
  partitionValues : writer.collectPartitionValues current ((plannedOn current groups).zip files) =
    .ok published.partitionValues
  nextRowId : published.nextRowId = current.nextRowId + groups.flatten.length
  nextFragmentId : published.nextFragmentId = current.nextFragmentId + groups.length
  rowindexGeneration : published.rowindexGeneration = none
  pointer : after.pointer = .latest (latestSeq + 1)
  manifests : after.manifests = begun.manifests.insert (latestSeq + 1) published
  log : after.log = begun.log
  files : ∀ path, ¬IsSupport path → ¬GroupFiles choices (plannedOn current groups) path →
    after.files.lookup path = begun.files.lookup path

theorem not_isSupport {name : String} (kind : kindOf name = .data ∨ kindOf name = .sidecar) :
    ¬IsSupport name := by
  rintro (index | staging | checkpoint)
  · rcases kind with kind | kind <;> simp [kind] at index
  · rcases kind with kind | kind <;> simp [kind] at staging
  · rcases kind with kind | kind <;> simp [kind] at checkpoint

/-- What was promoted stays when the manifest is completed. -/
theorem Promoted.of_files {planned : PlannedRowGroup R} {files : RowGroupFiles}
    {staged : TableStorage R} (promoted : writer.Promoted choices planned before staged files)
    (kept : ∀ path, ¬IsSupport path → after.files.lookup path = staged.files.lookup path) :
    writer.Promoted choices planned before after files := by
  obtain ⟨attempt, data_eq, sidecar_eq, agg_eq, data, sidecar, computed, found⟩ := promoted.attempt
  refine ⟨⟨attempt, data_eq, sidecar_eq, agg_eq, ?_, sidecar, computed, ?_⟩, promoted.data_free,
    promoted.sidecar_free⟩
  · rw [kept _ (not_isSupport (.inl (by simp [data_eq, Choices.rgId])))]
    exact data
  · rw [kept _ (not_isSupport (.inr (by simp [sidecar_eq, Choices.rgId])))]
    exact found

theorem commits_of_ends_tryCommit {buffer : List (List R)} {replace : Bool} {published : Manifest}
    (run : (writer.tryCommit choices buffer replace).Ends before published after) :
    ∃ latestSeq current begun groups files,
      writer.beginAppend.Ends before (latestSeq, current) begun ∧
        writer.Commits choices buffer replace latestSeq current begun after published groups
          files := by
  obtain ⟨⟨latestSeq, current⟩, begun, begin_run, run⟩ := Script.ends_bind.mp run
  obtain ⟨groups, _, lifted, run⟩ := Script.ends_bind.mp run
  obtain ⟨planned, rfl⟩ := Script.ends_lift.mp lifted
  obtain ⟨_, _, noted, run⟩ := Script.ends_bind.mp run
  obtain rfl := Script.ends_emit.mp noted
  obtain ⟨files, staged, stage_run, run⟩ := Script.ends_bind.mp run
  obtain ⟨values, _, lifted, run⟩ := Script.ends_bind.mp run
  obtain ⟨collected, rfl⟩ := Script.ends_lift.mp lifted
  obtain ⟨_, _, read_run, run⟩ := Script.ends_bind.mp run
  obtain ⟨rfl, rfl⟩ := Script.ends_read.mp read_run
  obtain ⟨⟨built, intentFiles⟩, indexed, build_run, run⟩ := Script.ends_bind.mp run
  obtain ⟨checkpointed, saved, checkpoint_run, run⟩ := Script.ends_bind.mp run
  obtain ⟨final, written, write_run, run⟩ := Script.ends_bind.mp run
  obtain ⟨_, checked, check_run, run⟩ := Script.ends_bind.mp run
  obtain ⟨_, _, moved, run⟩ := Script.ends_bind.mp run
  obtain ⟨_, _, noted, run⟩ := Script.ends_bind.mp run
  obtain ⟨rfl, rfl⟩ := Script.ends_pure.mp run
  obtain rfl := Script.ends_emit.mp moved
  obtain rfl := Script.ends_emit.mp noted
  obtain rfl := Script.Emits.silent
    (Script.Emits.each fun entry _ => emits_plannedRowGroupForEntry entry) check_run
  obtain ⟨promoted, stage_same⟩ := promoted_of_ends_stageRowGroups
    (plannedOn_index_nodup current groups) stage_run
  obtain ⟨⟨generations, rfl⟩, build_same⟩ := ends_buildIndexesIntoManifest build_run
  obtain ⟨⟨checkpoint, rfl⟩, checkpoint_same⟩ := ends_checkpointManifest checkpoint_run
  obtain ⟨⟨parent, rfl⟩, rfl⟩ := ends_writeManifest write_run
  have completed := build_same.trans checkpoint_same
  refine ⟨latestSeq, current, begun, groups, files, begin_run, ?_⟩
  exact
    { planned
      promoted := promoted.imp fun group named done => done.of_files completed.files
      sequence := rfl
      rowGroups := rfl
      partitionValues := collected
      nextRowId := rfl
      nextFragmentId := rfl
      rowindexGeneration := rfl
      pointer := rfl
      manifests := by
        have same := completed.manifests.trans stage_same.manifests
        exact congrArg (AList.insert _ _) same
      log := completed.log.trans stage_same.log
      files := fun path no_support no_group =>
        (completed.files path no_support).trans (stage_same.files path no_group) }

/-! ## Parquet files -/

/-- Recorded partition values, with those of a data file added if there are any. -/
def withPartitionValues (recorded : HashMap String (HashMap String Scalar)) (data : String)
    (found : Option (HashMap String Scalar)) : HashMap String (HashMap String Scalar) :=
  match found with
  | some values => recorded.insert data values
  | none => recorded

/-- A complete copy of a Parquet file into the table: it got a name that was free when the commit
began, and the manifest appends it to the current one. -/
structure Copies (choices : Choices R) (rows : List R) (sidecar : RowGroupMeta)
    (found : Option (HashMap String Scalar)) (latestSeq : Nat) (current : Manifest)
    (begun after : TableStorage R) (published : Manifest) (files : RowGroupFiles) : Prop where
  copied : Copied choices rows { sidecar with rowIds := [.range current.nextRowId sidecar.rows] }
    begun after files
  sequence : published.sequence = latestSeq + 1
  rowGroups : published.rowGroups =
    current.rowGroups ++ [newEntry current.nextFragmentId files]
  partitionValues : published.partitionValues.getD ∅ =
    withPartitionValues (current.partitionValues.getD ∅) files.data found
  nextRowId : published.nextRowId = current.nextRowId + sidecar.rows
  nextFragmentId : published.nextFragmentId = current.nextFragmentId + 1
  rowindexGeneration : published.rowindexGeneration = none
  pointer : after.pointer = .latest (latestSeq + 1)
  manifests : after.manifests = begun.manifests.insert (latestSeq + 1) published
  log : after.log = begun.log
  files : ∀ path, ¬IsSupport path → ¬GroupFile choices 0 path →
    after.files.lookup path = begun.files.lookup path

theorem Copied.of_files {rows : List R} {sidecar : RowGroupMeta} {files : RowGroupFiles}
    {staged : TableStorage R} (copied : Copied choices rows sidecar before staged files)
    (kept : ∀ path, ¬IsSupport path → after.files.lookup path = staged.files.lookup path) :
    Copied choices rows sidecar before after files := by
  obtain ⟨attempt, data_eq, sidecar_eq, found⟩ := copied.attempt
  refine ⟨⟨attempt, data_eq, sidecar_eq, ?_⟩, copied.agg, ?_, copied.data_free,
    copied.sidecar_free⟩
  · rw [kept _ (not_isSupport (.inr (by simp [sidecar_eq, Choices.rgId])))]
    exact found
  · rw [kept _ (not_isSupport (.inl (by simp [data_eq, Choices.rgId])))]
    exact copied.data

theorem getD_unless_empty (values : HashMap String (HashMap String Scalar)) :
    (if values.entries.isEmpty then none else some values).getD ∅ = values := by
  split
  · next empty => exact (AList.ext (List.isEmpty_iff.mp empty)).symm
  · rfl

theorem copies_of_ends_tryCommitParquetFast {rows : List R} {sidecar : RowGroupMeta}
    {found : Option (HashMap String Scalar)}
    (run : (writer.tryCommitParquetFast choices rows sidecar found).Ends before () after) :
    ∃ latestSeq current begun published files,
      writer.beginAppend.Ends before (latestSeq, current) begun ∧
        Copies choices rows sidecar found latestSeq current begun after published files := by
  obtain ⟨⟨latestSeq, current⟩, begun, begin_run, run⟩ := Script.ends_bind.mp run
  obtain ⟨_, _, listed, run⟩ := Script.ends_bind.mp run
  obtain ⟨_, _, noted, run⟩ := Script.ends_bind.mp run
  obtain ⟨files, staged, stage_run, run⟩ := Script.ends_bind.mp run
  obtain ⟨_, tidied, tidy_run, run⟩ := Script.ends_bind.mp run
  obtain ⟨_, _, read_run, run⟩ := Script.ends_bind.mp run
  obtain ⟨rfl, rfl⟩ := Script.ends_read.mp read_run
  obtain ⟨⟨built, intentFiles⟩, indexed, build_run, run⟩ := Script.ends_bind.mp run
  obtain ⟨checkpointed, saved, checkpoint_run, run⟩ := Script.ends_bind.mp run
  obtain ⟨final, written, write_run, run⟩ := Script.ends_bind.mp run
  obtain ⟨_, _, moved, noted_pointer⟩ := Script.ends_bind.mp run
  obtain rfl := Script.ends_emit.mp listed
  obtain rfl := Script.ends_emit.mp noted
  obtain rfl := Script.ends_emit.mp moved
  obtain rfl := Script.ends_emit.mp noted_pointer
  have copied := copied_of_ends_stageAndRenameParquet stage_run
  have stage_same := sameOutside_of_emits
    ((stages_stageAndRenameParquet _ _ _ _).mono fun _ => StagesGroup.within) stage_run
  have lists : ∀ paths, StorageEffect.Within IsSupport
      (.writeIntent choices.txnId paths : StorageEffect (File R) (File R)) := fun _ => trivial
  have tidy := sameOutside_of_emits
    (Script.Emits.provided fun _ => Script.Emits.emit (lists _)) tidy_run
  obtain ⟨⟨generations, rfl⟩, build_same⟩ := ends_buildIndexesIntoManifest build_run
  obtain ⟨⟨checkpoint, rfl⟩, checkpoint_same⟩ := ends_checkpointManifest checkpoint_run
  obtain ⟨⟨parent, final_eq⟩, rfl⟩ := ends_writeManifest write_run
  have completed := tidy.trans (build_same.trans checkpoint_same)
  refine ⟨latestSeq, current, begun, final, files, begin_run, ?_⟩
  exact
    { copied := by
        have done := copied.of_files completed.files
        exact ⟨done.attempt, done.agg, done.data, done.data_free, done.sidecar_free⟩
      sequence := final_eq ▸ rfl
      rowGroups := final_eq ▸ rfl
      partitionValues := final_eq ▸ getD_unless_empty _
      nextRowId := final_eq ▸ rfl
      nextFragmentId := final_eq ▸ rfl
      rowindexGeneration := final_eq ▸ rfl
      pointer := rfl
      manifests := by
        have same := completed.manifests.trans stage_same.manifests
        exact congrArg (AList.insert _ _) same
      log := completed.log.trans stage_same.log
      files := fun path no_support no_group =>
        (completed.files path no_support).trans (stage_same.files path no_group) }

/-- Recorded partition values of one data file alone. -/
def onlyPartitionValues (recorded : HashMap String (HashMap String Scalar)) (data : String) :
    HashMap String (HashMap String Scalar) :=
  match recorded.lookup data with
  | some values => AList.insert data values ∅
  | none => ∅

/-- A complete append of a row group that refers to the data file of another one. -/
structure References (choices : Choices R) (existing : RowGroupEntry)
    (found : Option (HashMap String Scalar)) (latestSeq : Nat) (current : Manifest)
    (begun after : TableStorage R) (published : Manifest) (identical : RowGroupMeta) : Prop where
  copied : begun.files.lookup existing.metaFile = some (.sidecar identical)
  sidecar : ∃ sidecar, after.files.lookup (metaFilename (choices.rgId 0 0)) = some (.sidecar sidecar) ∧
    sidecar.rows = identical.rows ∧ sidecar.rowIds = [.range current.nextRowId identical.rows]
  sequence : published.sequence = latestSeq + 1
  rowGroups : published.rowGroups = current.rowGroups ++
    [{ data := existing.data, metaFile := metaFilename (choices.rgId 0 0)
       fragmentId := current.nextFragmentId }]
  partitionValues : published.partitionValues.getD ∅ = withPartitionValues
    (onlyPartitionValues (current.partitionValues.getD ∅) existing.data) existing.data found
  nextRowId : published.nextRowId = current.nextRowId + identical.rows
  nextFragmentId : published.nextFragmentId = current.nextFragmentId + 1
  rowindexGeneration : published.rowindexGeneration = none
  pointer : after.pointer = .latest (latestSeq + 1)
  manifests : after.manifests = begun.manifests.insert (latestSeq + 1) published
  log : after.log = begun.log
  files : ∀ path, ¬IsSupport path → path ≠ metaFilename (choices.rgId 0 0) →
    after.files.lookup path = begun.files.lookup path

theorem references_of_ends_appendReferenceRowGroup {existing : RowGroupEntry} {latestSeq : Nat}
    {found : Option (HashMap String Scalar)} {outcome : InsertParquetOutcome}
    (run : (writer.appendReferenceRowGroup choices existing latestSeq found current).Ends before
      outcome after) :
    ∃ published identical, outcome = .fastPath identical.rows ∧
      References choices existing found latestSeq current
        (cleaned latestSeq (manifestReferencedFiles current) before) after published identical := by
  obtain ⟨_, begun, clean_run, run⟩ := Script.ends_bind.mp run
  obtain rfl := ends_cleanupStaging.mp clean_run
  obtain ⟨identical, _, read_run, run⟩ := Script.ends_bind.mp run
  obtain ⟨identical_found, rfl⟩ := ends_readSidecar.mp read_run
  obtain ⟨_, _, written, run⟩ := Script.ends_bind.mp run
  obtain rfl := Script.ends_emit.mp written
  obtain ⟨_, _, read_run, run⟩ := Script.ends_bind.mp run
  obtain ⟨rfl, rfl⟩ := Script.ends_read.mp read_run
  obtain ⟨checkpoint, _, snapshot_run, run⟩ := Script.ends_bind.mp run
  obtain rfl := Script.Emits.silent (emits_buildSnapshotCheckpoint _ _) snapshot_run
  obtain ⟨_, _, listed, run⟩ := Script.ends_bind.mp run
  obtain rfl := Script.ends_emit.mp listed
  obtain ⟨⟨built, intentFiles⟩, indexed, build_run, run⟩ := Script.ends_bind.mp run
  obtain ⟨path, saved, checkpoint_run, run⟩ := Script.ends_bind.mp run
  obtain ⟨_, _, publish_run, run⟩ := Script.ends_bind.mp run
  obtain ⟨rfl, rfl⟩ := Script.ends_pure.mp run
  obtain ⟨final, sealed, write_run, run⟩ := Script.ends_bind.mp publish_run
  obtain ⟨_, _, moved, dropped⟩ := Script.ends_bind.mp run
  obtain rfl := Script.ends_emit.mp moved
  obtain rfl := Script.ends_emit.mp dropped
  obtain ⟨⟨generations, rfl⟩, build_same⟩ := ends_buildIndexesIntoManifest build_run
  have support : ∀ path, CheckpointFile (latestSeq + 1) path → IsSupport path :=
    fun path file => .inr file.kind
  have checkpoint_same := (sameOutside_of_emits (within_writeCheckpoint _ _ _ _ _)
    checkpoint_run).mono support
  obtain ⟨⟨parent, final_eq⟩, rfl⟩ := ends_writeManifest write_run
  have completed := build_same.trans checkpoint_same
  refine ⟨final, identical, rfl, ?_⟩
  exact
    { copied := identical_found
      sidecar := by
        refine ⟨_, (completed.files _ (not_isSupport (.inr ?_))).trans (AList.lookup_insert _), rfl,
          rfl⟩
        simp [Choices.rgId]
      sequence := final_eq ▸ rfl
      rowGroups := final_eq ▸ rfl
      partitionValues := final_eq ▸ getD_unless_empty _
      nextRowId := final_eq ▸ rfl
      nextFragmentId := final_eq ▸ rfl
      rowindexGeneration := final_eq ▸ rfl
      pointer := rfl
      manifests := congrArg (AList.insert _ _) completed.manifests
      log := completed.log
      files := fun path no_support different =>
        (completed.files path no_support).trans (AList.lookup_insert_ne different) }

end Writer

end IcefallDB
