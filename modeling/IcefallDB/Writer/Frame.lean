import IcefallDB.Writer.Mutate

/-!
# Files that a commit touches

Between loading the current manifest and publishing the next one, a commit writes, renames and
deletes only staged files and files whose names belong to it: row groups under its own identifiers,
the next versions of deletion vectors, and the row-index, checkpoint and index files of its sequence.
-/

namespace IcefallDB

/-- The names that belong to the commit of a sequence on top of a manifest. -/
inductive Touches {R : Type} (choices : Choices R) (nextSeq : Nat) (current : Manifest) :
    String → Prop
  | staging {path : String} (kind : kindOf path = .staging) : Touches choices nextSeq current path
  | index {path : String} (kind : kindOf path = .index) : Touches choices nextSeq current path
  | schema (schemaId : Nat) : Touches choices nextSeq current (schemaFilename schemaId)
  | data (group attempt : Nat) :
      Touches choices nextSeq current (dataFilename (choices.rgId group attempt))
  | sidecar (group attempt : Nat) :
      Touches choices nextSeq current (metaFilename (choices.rgId group attempt))
  | aggregate (group attempt : Nat) :
      Touches choices nextSeq current (aggFilename (choices.rgId group attempt))
  | deletions {entry : RowGroupEntry} {version : Nat} (member : entry ∈ current.rowGroups)
      (next : entry.deletes = none ∧ version = 1 ∨ ∃ path previous, entry.deletes = some path ∧
        parseVersion path = some previous ∧ version = previous + 1) :
      Touches choices nextSeq current (deletionPath entry.fragmentId version)
  | rowIndexDelta : Touches choices nextSeq current (rowIndexDeltaPath nextSeq)
  | rowIndexBase : Touches choices nextSeq current (rowIndexBasePath nextSeq)
  | checkpoint : Touches choices nextSeq current (SnapshotCheckpoint.filename nextSeq)
  | archive : Touches choices nextSeq current (SnapshotCheckpoint.archiveFilename nextSeq)

/-- A manifest in the current format for the commit of a sequence. -/
structure Manifest.DraftOf (nextSeq : Nat) (manifest : Manifest) : Prop where
  sequence : manifest.sequence = nextSeq
  formatVersion : manifest.formatVersion = 1

namespace Writer

variable {R : Type} {choices : Choices R} {nextSeq : Nat} {current : Manifest}
  {allowed : StorageEffect (File R) (File R) → Prop}

/-! ## Reading -/

@[simp]
theorem emits_readSidecar (path : String) :
    (readSidecar path : TableProgram R RowGroupMeta).Emits allowed := by
  refine Script.Emits.bind (emits_readFile path) fun file => ?_
  cases file <;> simp

@[simp]
theorem emits_readRows (path : String) : (readRows path : TableProgram R (List R)).Emits allowed := by
  refine Script.Emits.bind (emits_readFile path) fun file => ?_
  cases file <;> simp

@[simp]
theorem emits_readDeletions (path : String) :
    (readDeletions path : TableProgram R DeletionVector).Emits allowed := by
  refine Script.Emits.bind (emits_readFile path) fun file => ?_
  cases file <;> simp

theorem emits_verifyRowGroupChecksum (kernel : Kernel R) (dataPath metaPath : String) :
    (kernel.verifyRowGroupChecksum dataPath metaPath).Emits allowed :=
  Script.Emits.bind (emits_readRows _) fun _ =>
    Script.Emits.bind (emits_readSidecar _) fun _ => Script.emits_pure _

@[simp]
theorem emits_planDeletion (unparsed : String → String) (entry : RowGroupEntry)
    (offsets : List Nat) :
    (planDeletion unparsed entry offsets : TableProgram R DelWork).Emits allowed := by
  refine Script.Emits.bind ?_ fun _ => Script.Emits.bind (Script.emits_lift _) fun _ =>
    Script.emits_pure _
  unfold loadDeletions
  split
  · exact emits_readDeletions _
  · exact Script.emits_pure _

theorem emits_planDeletions (unparsed : String → String) (byFragment : HashMap Nat (List Nat))
    (entries : List RowGroupEntry) :
    (planDeletions unparsed byFragment entries : TableProgram R (List DelWork)).Emits allowed := by
  induction entries with
  | nil => exact Script.emits_pure _
  | cons entry entries ih =>
      rw [planDeletions]
      split
      · exact ih
      · exact Script.Emits.bind (emits_planDeletion _ _ _) fun _ =>
          Script.Emits.bind ih fun _ => Script.emits_pure _

theorem emits_deletedRowIds (byFragment : HashMap Nat (List Nat)) (entries : List RowGroupEntry) :
    (deletedRowIds byFragment entries : TableProgram R (List Nat × List Nat)).Emits allowed := by
  induction entries with
  | nil => exact Script.emits_pure _
  | cons entry entries ih =>
      rw [deletedRowIds]
      split
      · exact ih
      · refine Script.Emits.bind (emits_readSidecar _) fun sidecar => ?_
        refine Script.Emits.bind ih fun ⟨rowIds, legacy⟩ => ?_
        exact Script.Emits.ite (fun _ => Script.emits_pure _) fun _ => Script.emits_pure _

theorem emits_plannedRowGroupForEntry (entry : RowGroupEntry) :
    (plannedRowGroupForEntry entry : TableProgram R Unit).Emits allowed := by
  refine Script.Emits.bind (emits_readSidecar _) fun sidecar => ?_
  refine Script.Emits.bind (Script.emits_ensure _ _) fun _ => ?_
  split
  · exact Script.emits_pure _
  · refine Script.Emits.bind (emits_readFile _) fun file => ?_
    cases file <;> simp

theorem emits_findIdentical (checksum : String) (entries : List RowGroupEntry) :
    (findIdentical checksum entries : TableProgram R (Option RowGroupEntry)).Emits allowed := by
  induction entries with
  | nil => exact Script.emits_pure _
  | cons entry entries ih =>
      refine Script.Emits.bind (emits_readSidecar _) fun sidecar => ?_
      exact Script.Emits.ite (fun _ => Script.emits_pure _) fun _ => ih

theorem emits_checkSchemaPointer (schemaId : Nat) :
    (checkSchemaPointer schemaId : TableProgram R Unit).Emits allowed := by
  refine Script.Emits.bind Script.emits_read fun storage => ?_
  split
  · exact Script.emits_fail _
  · exact Script.emits_ensure _ _

theorem emits_ensureNewSequence (nextSeq : Nat) :
    (ensureNewSequence nextSeq : TableProgram R Unit).Emits allowed :=
  Script.Emits.bind Script.emits_read fun _ => Script.emits_ensure _ _

/-! ## Staging row groups -/

private theorem touches_part (directory filename : String) :
    Touches choices nextSeq current (partPath directory filename) :=
  .staging (kindOf_partPath directory filename)

theorem emits_writeRowGroupPart (writer : Writer R) (planned : PlannedRowGroup R) (rgId : String) :
    (writer.writeRowGroupPart planned rgId).Emits
      (StorageEffect.Within (Touches choices nextSeq current)) := by
  refine Script.Emits.bind (Script.Emits.emit (touches_part _ _)) fun _ => ?_
  refine Script.Emits.bind (Script.emits_lift _) fun sidecar => ?_
  refine Script.Emits.bind (Script.Emits.emit (touches_part _ _)) fun _ => ?_
  exact Script.Emits.ite (fun _ => Script.emits_pure _) fun _ =>
    Script.Emits.emit (touches_part _ _)

private theorem emits_promoteRowGroup (group attempt : Nat) :
    (promoteRowGroup (choices.rgId group attempt) : TableProgram R RowGroupFiles).Emits
      (StorageEffect.Within (Touches choices nextSeq current)) := by
  refine Script.Emits.bind (emits_renameFile ⟨touches_part _ _, .data _ _⟩) fun _ => ?_
  refine Script.Emits.bind (emits_renameFile ⟨touches_part _ _, .sidecar _ _⟩) fun _ => ?_
  refine Script.Emits.bind (Script.Emits.emit trivial) fun _ => ?_
  refine Script.Emits.bind (Script.Emits.emit trivial) fun _ => ?_
  refine Script.Emits.bind Script.emits_read fun storage => ?_
  refine Script.Emits.ite (fun _ => ?_) fun _ => Script.emits_pure _
  refine Script.Emits.bind (emits_renameFile ⟨touches_part _ _, .aggregate _ _⟩) fun _ => ?_
  exact Script.Emits.bind (Script.Emits.emit trivial) fun _ => Script.emits_pure _

private theorem emits_verifyStaged (writer : Writer R) (planned : PlannedRowGroup R) (rgId : String) :
    (writer.verifyStaged planned rgId).Emits
      (StorageEffect.Within (Touches choices nextSeq current)) := by
  refine Script.Emits.bind (emits_verifyRowGroupChecksum _ _ _) fun verified => ?_
  refine Script.Emits.ite (fun _ => Script.emits_pure _) fun _ => ?_
  refine Script.Emits.bind (emits_writeRowGroupPart _ _ _) fun _ => ?_
  exact Script.Emits.bind (emits_verifyRowGroupChecksum _ _ _) fun _ => Script.emits_ensure _ _

private theorem emits_renameRowGroupWithCollisionRetry (writer : Writer R)
    (planned : PlannedRowGroup R) (attempt attempts : Nat) :
    (writer.renameRowGroupWithCollisionRetry choices planned attempt attempts).Emits
      (StorageEffect.Within (Touches choices nextSeq current)) := by
  induction attempts generalizing attempt with
  | zero => exact Script.emits_fail _
  | succ attempts ih =>
      refine Script.Emits.bind (Script.Emits.provided fun _ => emits_writeRowGroupPart _ _ _)
        fun _ => ?_
      refine Script.Emits.bind (emits_verifyStaged _ _ _) fun _ => ?_
      refine Script.Emits.bind Script.emits_read fun storage => ?_
      refine Script.Emits.ite (fun _ => ?_) fun _ => emits_promoteRowGroup _ _
      refine Script.Emits.ite (fun _ => Script.emits_fail _) fun _ => ?_
      refine Script.Emits.bind (Script.Emits.emit (touches_part _ _)) fun _ => ?_
      refine Script.Emits.bind (Script.Emits.emit (touches_part _ _)) fun _ => ?_
      exact Script.Emits.bind (Script.Emits.emit (touches_part _ _)) fun _ => ih (attempt + 1)

theorem emits_stageRowGroups (writer : Writer R) (planned : List (PlannedRowGroup R)) :
    (writer.stageRowGroups choices planned).Emits
      (StorageEffect.Within (Touches choices nextSeq current)) := by
  refine Script.Emits.bind (Script.Emits.emit trivial) fun _ => ?_
  refine Script.Emits.bind (Script.Emits.emit trivial) fun _ => ?_
  refine Script.Emits.bind (Script.Emits.each fun group _ => emits_writeRowGroupPart _ _ _) fun _ => ?_
  refine Script.Emits.bind (Script.Emits.collect fun group _ =>
    emits_renameRowGroupWithCollisionRetry _ _ _ _) fun files => ?_
  refine Script.Emits.bind (Script.Emits.provided fun _ => Script.Emits.emit trivial) fun _ => ?_
  exact Script.emits_pure _

theorem emits_stageAndRenameParquet (rows : List R) (sidecar : RowGroupMeta)
    (attempt attempts : Nat) :
    (stageAndRenameParquet choices rows sidecar attempt attempts).Emits
      (StorageEffect.Within (Touches choices nextSeq current)) := by
  induction attempts generalizing attempt with
  | zero => exact Script.emits_fail _
  | succ attempts ih =>
      refine Script.Emits.bind (Script.Emits.emit (touches_part _ _)) fun _ => ?_
      refine Script.Emits.bind (Script.Emits.emit (touches_part _ _)) fun _ => ?_
      refine Script.Emits.bind Script.emits_read fun storage => ?_
      refine Script.Emits.ite (fun _ => ?_) fun _ => ?_
      · refine Script.Emits.ite (fun _ => Script.emits_fail _) fun _ => ?_
        refine Script.Emits.bind (Script.Emits.emit (touches_part _ _)) fun _ => ?_
        exact Script.Emits.bind (Script.Emits.emit (touches_part _ _)) fun _ => ih (attempt + 1)
      · refine Script.Emits.bind (emits_renameFile ⟨touches_part _ _, .data _ _⟩) fun _ => ?_
        refine Script.Emits.bind (emits_renameFile ⟨touches_part _ _, .sidecar _ _⟩) fun _ => ?_
        refine Script.Emits.bind (Script.Emits.emit trivial) fun _ => ?_
        exact Script.Emits.bind (Script.Emits.emit trivial) fun _ => Script.emits_pure _

/-! ## Indexes and checkpoints -/

theorem within_writeIndexFiles {done : IndexMaintenance R}
    (kinds : ∀ file ∈ done.files, kindOf file.1 = .index) :
    (writeIndexFiles done).Emits (StorageEffect.Within fun path => kindOf path = .index) :=
  Script.Emits.each fun file member => Script.Emits.emit (kinds file member)

/-- Index maintenance writes index files only. -/
theorem within_buildIndexesIntoManifest (writer : Writer R) (choices : Choices R)
    (manifest old : Manifest) (files : List String) (incrementalAppend : Bool) :
    (writer.buildIndexesIntoManifest choices manifest old files incrementalAppend).Emits
      (StorageEffect.Within fun path => kindOf path = .index) := by
  refine Script.Emits.bind Script.emits_read fun storage => ?_
  refine Script.Emits.bind_ends (Script.emits_lift _) fun _ done _ run => ?_
  have kinds : ∀ file ∈ done.files, kindOf file.1 = .index := by
    have maintained := (Script.ends_lift.mp run).1
    split at maintained
    · exact writer.maintainer.maintainOnInsert_kind maintained
    · exact writer.maintainer.maintain_kind maintained
  refine Script.Emits.bind (within_writeIndexFiles kinds) fun _ => ?_
  exact Script.Emits.bind (Script.Emits.emit trivial) fun _ => Script.emits_pure _

theorem emits_writeIndexFiles {done : IndexMaintenance R}
    (kinds : ∀ file ∈ done.files, kindOf file.1 = .index) :
    (writeIndexFiles done).Emits (StorageEffect.Within (Touches choices nextSeq current)) :=
  (within_writeIndexFiles kinds).mono fun _ inside => inside.mono fun _ => Touches.index

theorem emits_buildIndexesIntoManifest (writer : Writer R) (manifest old : Manifest)
    (files : List String) (incrementalAppend : Bool) :
    (writer.buildIndexesIntoManifest choices manifest old files incrementalAppend).Emits
      (StorageEffect.Within (Touches choices nextSeq current)) :=
  (within_buildIndexesIntoManifest writer choices manifest old files incrementalAppend).mono
    fun _ inside => inside.mono fun _ => Touches.index

theorem emits_buildSnapshotCheckpoint (old manifest : Manifest) :
    (buildSnapshotCheckpoint old manifest : TableProgram R SnapshotCheckpoint).Emits allowed := by
  refine Script.Emits.bind Script.emits_read fun storage => ?_
  refine Script.Emits.bind (Script.Emits.collect fun entry _ => ?_) fun _ => Script.emits_pure _
  unfold summarizeFragment
  split
  · exact Script.emits_pure _
  · exact Script.Emits.bind (emits_readSidecar _) fun _ => Script.emits_pure _

/-- The files that checkpointing a sequence touches. -/
inductive CheckpointFile (sequence : Nat) : String → Prop
  | staging {path : String} (kind : kindOf path = .staging) : CheckpointFile sequence path
  | checkpoint : CheckpointFile sequence (SnapshotCheckpoint.filename sequence)
  | archive : CheckpointFile sequence (SnapshotCheckpoint.archiveFilename sequence)

theorem CheckpointFile.touches {path : String} (file : CheckpointFile nextSeq path) :
    Touches choices nextSeq current path := by
  cases file with
  | staging kind => exact .staging kind
  | checkpoint => exact .checkpoint
  | archive => exact .archive

theorem CheckpointFile.kind {sequence : Nat} {path : String} (file : CheckpointFile sequence path) :
    kindOf path = .staging ∨ kindOf path = .checkpoint := by
  cases file with
  | staging kind => exact .inl kind
  | checkpoint => exact .inr (kindOf_checkpoint sequence)
  | archive => exact .inr (kindOf_archive sequence)

theorem within_writeCheckpoint (localRoot : Bool) (choices : Choices R)
    (checkpoint : SnapshotCheckpoint) (sequence : Nat) (files : List String) :
    (writeCheckpoint localRoot choices checkpoint sequence files).Emits
      (StorageEffect.Within (CheckpointFile sequence)) := by
  have part : CheckpointFile sequence (checkpointPart sequence) := .staging (kindOf_partPath _ _)
  refine Script.Emits.bind (Script.Emits.emit part) fun _ => ?_
  refine Script.Emits.bind (Script.Emits.emit trivial) fun _ => ?_
  refine Script.Emits.bind (emits_renameFile ⟨part, .checkpoint⟩) fun _ => ?_
  refine Script.Emits.bind (Script.Emits.emit trivial) fun _ => ?_
  refine Script.Emits.bind (Script.Emits.provided fun _ => ?_) fun _ => Script.emits_pure _
  exact Script.Emits.bind (Script.Emits.emit CheckpointFile.archive) fun _ =>
    Script.Emits.emit trivial

/-- Checkpointing a manifest touches its own checkpoint files only. -/
theorem within_checkpointManifest (localRoot : Bool) (choices : Choices R) (old manifest : Manifest)
    (files : List String) :
    (checkpointManifest localRoot choices old manifest files).Emits
      (StorageEffect.Within (CheckpointFile manifest.sequence)) := by
  refine Script.Emits.bind (emits_buildSnapshotCheckpoint _ _) fun checkpoint => ?_
  exact Script.Emits.bind (within_writeCheckpoint _ _ _ _ _) fun _ => Script.emits_pure _

variable {manifest : Manifest} {files : List String}

theorem emits_checkpointManifest (localRoot : Bool) {old : Manifest}
    (numbered : manifest.sequence = nextSeq) :
    (checkpointManifest localRoot choices old manifest files).Emits
      (StorageEffect.Within (Touches choices nextSeq current)) := by
  subst numbered
  exact (within_checkpointManifest localRoot choices old manifest files).mono fun _ inside =>
    inside.mono fun _ => CheckpointFile.touches

/-! ## Mutations -/

private theorem PlannedFor.touches {storage : TableStorage R} {byFragment : HashMap Nat (List Nat)}
    {entry : RowGroupEntry} {work : DelWork} (planned : work.PlannedFor storage byFragment entry)
    (member : entry ∈ current.rowGroups) : Touches choices nextSeq current work.path := by
  obtain ⟨version, path_eq, next⟩ := planned.path
  rw [path_eq]
  exact .deletions member next

theorem emits_deleteRows (byFragment : HashMap Nat (List Nat)) {entries : List RowGroupEntry}
    (listed : ∀ entry ∈ entries, entry ∈ current.rowGroups) :
    (deleteRows byFragment entries : TableProgram R _).Emits
      (StorageEffect.Within (Touches choices nextSeq current)) := by
  induction entries with
  | nil => exact Script.emits_pure _
  | cons entry entries ih =>
      have rest := ih fun other member => listed other (List.mem_cons_of_mem entry member)
      rw [deleteRows]
      split
      · exact Script.Emits.bind rest fun ⟨_, _⟩ => Script.emits_pure _
      · next offsets requested =>
          refine Script.Emits.bind_ends (emits_planDeletion _ _ _) fun before work after run => ?_
          have planned := (plannedFor_of_ends requested run).1
          refine Script.Emits.bind (Script.Emits.emit ?_) fun _ => ?_
          · exact PlannedFor.touches planned (listed entry List.mem_cons_self)
          · exact Script.Emits.bind rest fun ⟨_, _⟩ => Script.emits_pure _

variable {before after : TableStorage R}

/-- Writing planned deletion vectors touches their next versions only. -/
theorem emits_writeDeletions {unparsed : String → String} {byFragment : HashMap Nat (List Nat)}
    {works : List DelWork}
    (run : (planDeletions unparsed byFragment current.rowGroups).Ends before works after) :
    (Script.each writeDeletions works : TableProgram R Unit).Emits
      (StorageEffect.Within (Touches choices nextSeq current)) := by
  refine Script.Emits.each fun work member => Script.Emits.emit ?_
  obtain ⟨-, planned⟩ := plannedFor_of_ends_planDeletions run
  obtain ⟨index, inside, rfl⟩ := List.getElem_of_mem member
  obtain ⟨length_eq, each_planned⟩ := List.forall₂_iff_get.mp planned
  refine PlannedFor.touches (each_planned index (length_eq ▸ inside) inside) ?_
  exact (List.mem_filter.mp (List.get_mem _ _)).1

@[simp]
theorem kindOf_indexDeltaPath (name : String) (sequence : Nat) :
    kindOf (indexDeltaPath name sequence) = .index := by
  have directory : (indexDeltaPath name sequence).toList.take 2 = ['_', 'i'] := by
    simp only [indexDeltaPath, String.toList_append]
    rfl
  simp [kindOf, directory]

/-- Tombstones are written to index files only. -/
theorem within_appendTombstones (writer : Writer R) (rowIds : List Nat) (sequence : Nat)
    (indexes : List CatalogIndex) (generations : HashMap String IndexRef) :
    (writer.appendTombstones rowIds sequence indexes generations).Emits
      (StorageEffect.Within fun path => kindOf path = .index) := by
  induction indexes generalizing generations with
  | nil => exact Script.emits_pure _
  | cons index indexes ih =>
      rw [appendTombstones]
      refine Script.Emits.ite (fun _ => ?_) fun _ => ih generations
      split
      · exact ih generations
      · refine Script.Emits.bind (Script.Emits.emit (kindOf_indexDeltaPath _ _)) fun _ => ?_
        exact Script.Emits.bind (ih _) fun ⟨_, _⟩ => Script.emits_pure _

theorem emits_appendTombstones (writer : Writer R) (rowIds : List Nat) (sequence : Nat)
    (indexes : List CatalogIndex) (generations : HashMap String IndexRef) :
    (writer.appendTombstones rowIds sequence indexes generations).Emits
      (StorageEffect.Within (Touches choices nextSeq current)) :=
  (within_appendTombstones writer rowIds sequence indexes generations).mono fun _ inside =>
    inside.mono fun _ => Touches.index

/-- What a delete does after it has loaded the current manifest. -/
theorem prepareDelete_frame (writer : Writer R) (byFragment : HashMap Nat (List Nat))
    (choices : Choices R) :
    ∃ rest, writer.prepareDelete byFragment = beginMutation >>= rest ∧
      ∀ latestSeq current,
        (rest (latestSeq, current)).Emits
            (StorageEffect.Within (Touches choices (latestSeq + 1) current)) ∧
          ∀ before prepared after, (rest (latestSeq, current)).Ends before prepared after →
            prepared.latestSeq = latestSeq ∧ prepared.current = current ∧
              prepared.manifest.DraftOf (latestSeq + 1) := by
  refine ⟨_, rfl, fun latestSeq current => ⟨?_, ?_⟩⟩
  · refine Script.Emits.bind (emits_deleteRows _ fun _ member => member) fun ⟨_, _⟩ => ?_
    refine Script.Emits.bind (emits_deletedRowIds _ _) fun ⟨_, _⟩ => ?_
    refine Script.Emits.bind (Script.emits_ensure _ _) fun _ => ?_
    exact Script.Emits.bind (emits_appendTombstones _ _ _ _ _) fun ⟨_, _⟩ => Script.emits_pure _
  · intro before prepared after run
    obtain ⟨⟨_, _⟩, _, -, run⟩ := Script.ends_bind.mp run
    obtain ⟨⟨_, _⟩, _, -, run⟩ := Script.ends_bind.mp run
    obtain ⟨_, _, -, run⟩ := Script.ends_bind.mp run
    obtain ⟨⟨_, _⟩, _, -, run⟩ := Script.ends_bind.mp run
    obtain ⟨rfl, -⟩ := Script.ends_pure.mp run
    exact ⟨rfl, rfl, ⟨rfl, rfl⟩⟩

/-- What an update does after it has loaded the current manifest. -/
theorem prepareUpdate_frame (writer : Writer R) (choices : Choices R)
    (sorted : List (MatchLoc × R)) (setColumns : List String) :
    ∃ rest, writer.prepareUpdate choices sorted setColumns = beginMutation >>= rest ∧
      ∀ latestSeq current,
        (rest (latestSeq, current)).Emits
            (StorageEffect.Within (Touches choices (latestSeq + 1) current)) ∧
          ∀ before prepared after, (rest (latestSeq, current)).Ends before prepared after →
            prepared.current = current ∧ prepared.manifest.DraftOf (latestSeq + 1) := by
  refine ⟨_, rfl, fun latestSeq current => ⟨?_, ?_⟩⟩
  · refine Script.Emits.bind (Script.emits_lift _) fun sidecar => ?_
    refine Script.Emits.bind ?_ fun _ => ?_
    · refine Script.Emits.bind (Script.Emits.emit (touches_part _ _)) fun _ => ?_
      refine Script.Emits.bind (Script.Emits.emit (touches_part _ _)) fun _ => ?_
      exact Script.Emits.bind Script.emits_read fun _ => Script.emits_ensure _ _
    refine Script.Emits.bind_ends (emits_planDeletions _ _ _) fun _ works _ planned => ?_
    refine Script.Emits.bind (Script.Emits.emit trivial) fun _ => ?_
    refine Script.Emits.bind (emits_renameFile ⟨touches_part _ _, .data _ _⟩) fun _ => ?_
    refine Script.Emits.bind (emits_renameFile ⟨touches_part _ _, .sidecar _ _⟩) fun _ => ?_
    refine Script.Emits.bind (emits_writeDeletions planned) fun _ => ?_
    refine Script.Emits.bind (Script.Emits.emit Touches.rowIndexDelta) fun _ => ?_
    refine Script.Emits.bind Script.emits_read fun storage => ?_
    refine Script.Emits.bind_ends (Script.emits_lift _) fun _ done _ run => ?_
    have kinds := writer.maintainer.maintainOnUpdate_kind (Script.ends_lift.mp run).1
    refine Script.Emits.bind (emits_writeIndexFiles kinds) fun _ => ?_
    exact Script.Emits.bind (Script.Emits.provided fun _ => Script.Emits.emit trivial) fun _ =>
      Script.emits_pure _
  · intro before prepared after run
    iterate 12 obtain ⟨_, _, -, run⟩ := Script.ends_bind.mp run
    obtain ⟨rfl, -⟩ := Script.ends_pure.mp run
    exact ⟨rfl, ⟨rfl, rfl⟩⟩

private theorem emits_stageMergeFragment {fragment : MergeFragment R} {group attempt : Nat}
    (named : fragment.rgId = choices.rgId group attempt) :
    (stageMergeFragment fragment).Emits
      (StorageEffect.Within (Touches choices nextSeq current)) := by
  have data : Touches choices nextSeq current (dataFilename fragment.rgId) := named ▸ .data _ _
  have sidecar : Touches choices nextSeq current (metaFilename fragment.rgId) :=
    named ▸ .sidecar _ _
  refine Script.Emits.bind Script.emits_read fun storage => ?_
  refine Script.Emits.bind (Script.emits_ensure _ _) fun _ => ?_
  refine Script.Emits.bind (Script.Emits.emit (touches_part _ _)) fun _ => ?_
  refine Script.Emits.bind (Script.Emits.emit (touches_part _ _)) fun _ => ?_
  exact Script.Emits.bind (emits_renameFile ⟨touches_part _ _, data⟩) fun _ =>
    emits_renameFile ⟨touches_part _ _, sidecar⟩

/-- The fragments of a merge have identifiers of the commit. -/
private theorem rgId_of_mem_fragments {writer : Writer R} {sorted : List (MatchLoc × R)}
    {inserts : RowBatch R} {patch inserted : List (MergeFragment R)}
    (patched : writer.mergePatch choices current sorted = .ok patch)
    (inserted_ok : writer.mergeInsert choices current patch inserts = .ok inserted)
    {fragment : MergeFragment R} (member : fragment ∈ patch ++ inserted) :
    ∃ group, fragment.rgId = choices.rgId group 0 := by
  rcases List.mem_append.mp member with in_patch | in_inserted
  · rcases mergePatch_eq_ok patched with ⟨-, rfl⟩ | ⟨-, _, -, rfl⟩
    · cases in_patch
    · obtain rfl := List.mem_singleton.mp in_patch
      exact ⟨0, rfl⟩
  · rcases mergeInsert_eq_ok inserted_ok with ⟨-, rfl⟩ | ⟨-, _, -, rfl⟩
    · cases in_inserted
    · obtain rfl := List.mem_singleton.mp in_inserted
      exact ⟨1, rfl⟩

theorem draftOf_of_ends_buildIndexesIntoManifest {writer : Writer R} {old built : Manifest}
    {intentFiles : List String} {incrementalAppend : Bool} (draft : manifest.DraftOf nextSeq)
    (run : (writer.buildIndexesIntoManifest choices manifest old files incrementalAppend).Ends before
      (built, intentFiles) after) : built.DraftOf nextSeq := by
  iterate 4 obtain ⟨_, _, -, run⟩ := Script.ends_bind.mp run
  obtain ⟨same, -⟩ := Script.ends_pure.mp run
  rw [← (Prod.mk.inj same).1]
  exact ⟨draft.sequence, draft.formatVersion⟩

/-- What a merge does after it has loaded the current manifest. -/
theorem prepareMerge_frame (writer : Writer R) (choices : Choices R)
    (sorted : List (MatchLoc × R)) (inserts : RowBatch R) :
    ∃ rest, writer.prepareMerge choices sorted inserts = beginMutation >>= rest ∧
      ∀ latestSeq current,
        (rest (latestSeq, current)).Emits
            (StorageEffect.Within (Touches choices (latestSeq + 1) current)) ∧
          ∀ before prepared after, (rest (latestSeq, current)).Ends before prepared after →
            prepared.current = current ∧ prepared.manifest.DraftOf (latestSeq + 1) := by
  refine ⟨_, rfl, fun latestSeq current => ⟨?_, ?_⟩⟩
  · refine Script.Emits.bind_ends (Script.emits_lift _) fun _ patch _ patched => ?_
    refine Script.Emits.bind_ends (Script.emits_lift _) fun _ inserted _ inserted_ok => ?_
    have named : ∀ fragment ∈ patch ++ inserted, ∃ group, fragment.rgId = choices.rgId group 0 :=
      fun fragment => rgId_of_mem_fragments (Script.ends_lift.mp patched).1
        (Script.ends_lift.mp inserted_ok).1
    refine Script.Emits.bind_ends (emits_planDeletions _ _ _) fun _ works _ planned => ?_
    refine Script.Emits.bind (Script.Emits.emit trivial) fun _ => ?_
    refine Script.Emits.bind (Script.Emits.each fun fragment member => ?_) fun _ => ?_
    · obtain ⟨group, rgId_eq⟩ := named fragment member
      exact emits_stageMergeFragment rgId_eq
    refine Script.Emits.bind (emits_writeDeletions planned) fun _ => ?_
    refine Script.Emits.bind (Script.Emits.each fun path member => Script.Emits.emit ?_) fun _ => ?_
    · split at member
      · cases member
      · obtain rfl := List.mem_singleton.mp member
        exact Touches.rowIndexDelta
    exact Script.Emits.bind (emits_buildIndexesIntoManifest _ _ _ _ _) fun ⟨_, _⟩ =>
      Script.emits_pure _
  · intro before prepared after run
    iterate 7 obtain ⟨_, _, -, run⟩ := Script.ends_bind.mp run
    obtain ⟨⟨manifest, files⟩, _, built, run⟩ := Script.ends_bind.mp run
    obtain ⟨rfl, -⟩ := Script.ends_pure.mp run
    exact ⟨rfl, draftOf_of_ends_buildIndexesIntoManifest ⟨rfl, rfl⟩ built⟩

end Writer

end IcefallDB
