import IcefallDB.Compactor.Rewrite
import IcefallDB.Writer.Append

/-!
# The compactor

A compaction pins the live manifest under the writer lock, rewrites its live rows without the lock,
and publishes the new row groups under the lock if the manifest pointer has not moved meanwhile.
-/

namespace IcefallDB

/-! ## Planning a scan -/

/-- A row group of a scan plan. -/
structure PlannedRowGroup where
  snapshot : Nat
  entry : RowGroupEntry
  sidecar : RowGroupMeta
  partitionValues : Option (HashMap String Scalar)

namespace Reader

variable {R : Type}

/-- The summary describes the entry. -/
def summaryMatches (summary : FragmentSummary) (entry : RowGroupEntry) : Bool :=
  summary.data = entry.data && summary.metaFile = entry.metaFile &&
    summary.fragmentId = entry.fragmentId && summary.agg = entry.agg &&
    summary.deletes = entry.deletes

/-- The checkpoint describes the manifest. -/
def validCheckpoint (manifest : Manifest) (checkpoint : SnapshotCheckpoint) : Bool :=
  checkpoint.sequence = manifest.sequence && checkpoint.schemaId = manifest.schemaId &&
    checkpoint.fragments.length = manifest.rowGroups.length &&
    (checkpoint.fragments.zip manifest.rowGroups).all (fun pair => summaryMatches pair.1 pair.2) &&
    (checkpoint.checksum = "" || checkpoint.verifyChecksum)

/-- The checkpoint of a manifest, from its archive or from its JSON form, if one is valid. -/
def loadCheckpoint (storage : TableStorage R) (manifest : Manifest) : Option SnapshotCheckpoint := do
  let path ← manifest.checkpoint
  let archived :=
    match storage.files.lookup (SnapshotCheckpoint.archiveFilename manifest.sequence) with
    | some (.archive checkpoint) => some checkpoint
    | _ => none
  let stored :=
    match storage.files.lookup path with
    | some (.checkpoint checkpoint) => some checkpoint
    | _ => none
  (archived.filter (validCheckpoint manifest)).or (stored.filter (validCheckpoint manifest))

/-- Row-group metadata from a checkpoint. -/
def summarizedMeta (schemaId : Nat) (entry : RowGroupEntry) (summary : FragmentSummary) :
    RowGroupMeta :=
  { rowGroup :=
      if summary.rowGroup = "" then
        if ".meta".toList.isSuffixOf entry.metaFile.toList then
          String.ofList (entry.metaFile.toList.take (entry.metaFile.toList.length - 5))
        else entry.metaFile
      else summary.rowGroup
    schemaId
    rows := summary.rows
    columns := summary.columns
    columnOffsets := summary.columnOffsets
    sort := summary.sort
    rowIds := summary.rowIds
    checksum := summary.checksum
    metaChecksum := summary.metaChecksum }

/-- Read a file that a snapshot refers to. -/
def readSnapshotFile (snapshot : Nat) (path : String) : TableProgram R (File R) := do
  let storage ← Script.read
  match storage.files.lookup path with
  | some contents => pure contents
  | none => Script.fail (.missingRowGroupFile snapshot path)

/-- Read a sidecar and verify its checksum. -/
def readVerifiedMeta (snapshot : Nat) (path : String) : TableProgram R RowGroupMeta := do
  match ← readSnapshotFile snapshot path with
  | .sidecar sidecar => do
      Script.ensure sidecar.verifyMetaChecksum (.rowGroupChecksumMismatch path)
      pure sidecar
  | _ => Script.fail (.serialization path)

/-- Plan a row group from its sidecar. -/
def planFromSidecar (manifest : Manifest) (schemaId : Nat) (entry : RowGroupEntry) :
    TableProgram R PlannedRowGroup := do
  let sidecar ← readVerifiedMeta manifest.sequence entry.metaFile
  Script.ensure (sidecar.schemaId = schemaId)
    (.schemaMismatch "schema_id" (toString schemaId) entry.metaFile)
  pure
    { snapshot := manifest.sequence
      entry
      sidecar
      partitionValues := manifest.partitionValues.bind fun values => values.lookup entry.data }

/-- Plan a scan of a manifest, from its checkpoint if that is valid. -/
def buildScanPlan (manifest : Manifest) (schemaId : Nat) :
    TableProgram R (List PlannedRowGroup) := do
  let storage ← Script.read
  match loadCheckpoint storage manifest with
  | some checkpoint =>
      pure (List.zipWith (fun entry summary =>
        { snapshot := manifest.sequence
          entry
          sidecar := summarizedMeta schemaId entry summary
          partitionValues := manifest.partitionValues.bind fun values => values.lookup entry.data })
        manifest.rowGroups checkpoint.fragments)
  | none => Script.collect (planFromSidecar manifest schemaId) manifest.rowGroups

/-- Read the rows of a planned row group, verifying both of its files. -/
def readRowGroup (kernel : Kernel R) (planned : PlannedRowGroup) : TableProgram R (List R) := do
  let sidecar ← readVerifiedMeta planned.snapshot planned.entry.metaFile
  match ← readSnapshotFile planned.snapshot planned.entry.data with
  | .data rows => do
      Script.ensure (sidecar.checksum = kernel.dataChecksum rows)
        (.rowGroupChecksumMismatch planned.entry.data)
      pure rows
  | _ => Script.fail (.parquetDecode planned.entry.data)

end Reader

/-! ## Options -/

/-- Options of a compaction. -/
structure CompactionOptions where
  /-- Target number of rows of an output row group. -/
  targetRowGroupRows : Nat := 1000000
  /-- Target size of an output row group. -/
  targetRowGroupBytes : Nat := 128 * 1024 * 1024
  /-- Rewrite even a single row group. -/
  force : Bool := false
  /-- Keys to sort by before writing output row groups. -/
  sortKeys : List String := []

/-- A compactor of a table. -/
structure Compactor (R : Type) where
  table : String
  options : CompactionOptions
  /-- The current schema of the table, and the names of its columns. -/
  schema : Schema
  columns : List String
  /-- The storage is a local directory. -/
  localRoot : Bool
  kernel : Kernel R

namespace Compactor

variable {R : Type}

/-- Row target: an explicit option, or the target of the schema. -/
def targetRows (compactor : Compactor R) : Nat :=
  let defaults : CompactionOptions := {}
  if compactor.options.targetRowGroupRows = defaults.targetRowGroupRows &&
      compactor.schema.rowGroupTargetRows > 0 then
    compactor.schema.rowGroupTargetRows
  else compactor.options.targetRowGroupRows

/-- Byte target: an explicit option, or the target of the schema. -/
def targetBytes (compactor : Compactor R) : Nat :=
  let defaults : CompactionOptions := {}
  if compactor.options.targetRowGroupBytes = defaults.targetRowGroupBytes &&
      compactor.schema.rowGroupTargetBytes > 0 then
    compactor.schema.rowGroupTargetBytes
  else compactor.options.targetRowGroupBytes

/-! ## Pinning the source -/

/-- Under the writer lock: fold the mutation log, load the live manifest and clean up after crashed
commits and compactions.  Returns the pinned manifest, if the table is not empty. -/
def pinSource (now : String) : TableProgram R (Option Manifest) := do
  let _ ← MutationWal.checkpointLocked Except.ok now
  match ← loadCatalogWithRepair Except.ok with
  | none => pure none
  | some manifest => do
      cleanupStaging manifest.sequence (referencedFiles manifest)
      pure (some manifest)

/-! ## Rewriting -/

/-- What staging output row groups accumulates. -/
structure StagingState where
  /-- Number of output row groups so far. -/
  chunks : Nat := 0
  intentFiles : List String := []
  newEntries : List RowGroupEntry := []
  outputRowCounts : List Nat := []
  partitionValues : Option (HashMap String (HashMap String Scalar)) := none
  nextFragmentId : Nat
  /-- Physical rows read so far, deleted ones included. -/
  inputRows : Nat := 0

/-- Begin staging: write an empty intent. -/
def beginStaging (choices : Choices R) (pinned : Manifest) : TableProgram R StagingState := do
  Script.emit (.writeIntent choices.txnId [])
  Script.emit (.note (.intent choices.txnId))
  pure { nextFragmentId := pinned.nextFragmentId }

/-- Stage the files of an output row group under a candidate identifier. -/
def writeRowGroupPart (compactor : Compactor R) (schema : Schema) (rgId : String) (rows : List R)
    (rowIds : List RowIdSegment) (fragmentId : Nat) : TableProgram R Unit := do
  Script.emit (.write (partPath "compact" (dataFilename rgId)) (.data rows))
  let sidecar ← Script.lift (compactor.kernel.computeRowGroupMeta schema rgId rows rowIds)
  Script.emit (.write (partPath "compact" (metaFilename rgId)) (.sidecar sidecar))
  Script.emit (.write (partPath "compact" (aggFilename rgId))
    (.aggregate fragmentId sidecar.checksum rows))

/-- Verify the staged files of an output row group, writing them once more if that fails. -/
def verifyStaged (compactor : Compactor R) (schema : Schema) (rgId : String) (rows : List R)
    (rowIds : List RowIdSegment) (fragmentId : Nat) : TableProgram R Unit := do
  let dataPart := partPath "compact" (dataFilename rgId)
  let metaPart := partPath "compact" (metaFilename rgId)
  if ← compactor.kernel.verifyRowGroupChecksum dataPart metaPart then pure ()
  else do
    compactor.writeRowGroupPart schema rgId rows rowIds fragmentId
    let verified ← compactor.kernel.verifyRowGroupChecksum dataPart metaPart
    Script.ensure verified (.checksumMismatch dataPart)

/-- Write an output row group and rename it to a name that is free; there are `attempts` candidates
left. -/
def writeRowGroup (compactor : Compactor R) (choices : Choices R) (schema : Schema) (chunk : Nat)
    (rows : List R) (rowIds : List RowIdSegment) (fragmentId : Nat) :
    Nat → Nat → TableProgram R RowGroupEntry
  | _, 0 => Script.fail (.other "failed to find a unique row group id after retries")
  | attempt, attempts + 1 => do
      let rgId := choices.rgId chunk attempt
      compactor.writeRowGroupPart schema rgId rows rowIds fragmentId
      compactor.verifyStaged schema rgId rows rowIds fragmentId
      let storage ← Script.read
      if storage.fileExists (dataFilename rgId) || storage.fileExists (metaFilename rgId) then
        if attempts = 0 then
          Script.fail (.other "failed to find a unique row group id after retries")
        else do
          Script.emit (.delete (partPath "compact" (dataFilename rgId)))
          Script.emit (.delete (partPath "compact" (metaFilename rgId)))
          Script.emit (.delete (partPath "compact" (aggFilename rgId)))
          writeRowGroup compactor choices schema chunk rows rowIds fragmentId (attempt + 1) attempts
      else do
        renameFile (partPath "compact" (dataFilename rgId)) (dataFilename rgId)
        renameFile (partPath "compact" (metaFilename rgId)) (metaFilename rgId)
        renameFile (partPath "compact" (aggFilename rgId)) (aggFilename rgId)
        pure
          { data := dataFilename rgId, metaFile := metaFilename rgId, fragmentId
            agg := some (aggFilename rgId) }

/-- Sort an output row group by the sort keys. -/
def maybeSortBatch (compactor : Compactor R) (rows : List R) : Except IcefallDBError (List R) :=
  if compactor.options.sortKeys.isEmpty then .ok rows
  else compactor.kernel.sortBatch compactor.options.sortKeys rows

/-- Stage one output row group with the row ids handed out to it. -/
def stageChunk (compactor : Compactor R) (choices : Choices R) (schema : Schema)
    (partitionValues : Option (HashMap String Scalar)) (state : StagingState)
    (chunk : List R × List Nat) : TableProgram R StagingState := do
  let rows ← Script.lift (compactor.maybeSortBatch chunk.1)
  let rgId := choices.rgId state.chunks 0
  let intended := [dataFilename rgId, metaFilename rgId, aggFilename rgId]
  Script.emit (.writeIntent choices.txnId (state.intentFiles ++ intended))
  let entry ← compactor.writeRowGroup choices schema state.chunks rows (idsToSegments chunk.2)
    state.nextFragmentId 0 3
  Script.emit (.note (.stagedFile entry.data))
  Script.emit (.note (.stagedFile entry.metaFile))
  Script.each (fun agg => Script.emit (.note (.stagedFile agg))) entry.agg.toList
  let corrected := state.intentFiles ++ [entry.data, entry.metaFile, entry.agg.getD (aggFilename rgId)]
  Script.provided (entry.data ≠ dataFilename rgId || entry.metaFile ≠ metaFilename rgId)
    (Script.emit (.writeIntent choices.txnId corrected))
  pure
    { state with
      chunks := state.chunks + 1
      intentFiles := corrected
      newEntries := state.newEntries ++ [entry]
      outputRowCounts := state.outputRowCounts ++ [rows.length]
      partitionValues :=
        match partitionValues with
        | some values => some ((state.partitionValues.getD ∅).insert entry.data values)
        | none => state.partitionValues
      nextFragmentId := state.nextFragmentId + 1 }

/-- Read the deletion vector of a planned row group, if it has one. -/
def readPlannedDeletions (planned : PlannedRowGroup) : TableProgram R (Option DeletionVector) :=
  match planned.entry.deletes with
  | none => pure none
  | some path => do
      let storage ← Script.read
      match storage.files.lookup path with
      | some (.deletions offsets) => pure (some offsets)
      | some _ => Script.fail (.other "invalid deletion vector")
      | none =>
          Script.fail (.other ("compaction: failed to read deletion vector " ++ path))

/-- Live rows and row ids of a planned row group, batch by batch, and its physical row count. -/
def readLive (compactor : Compactor R) (planned : PlannedRowGroup) :
    TableProgram R ((List (List R) × List Nat) × Nat) := do
  let deletions ← readPlannedDeletions planned
  let rows ← Reader.readRowGroup compactor.kernel planned
  match liveBatches deletions (expand planned.sidecar.rowIds) 0 (compactor.kernel.batches rows) with
  | some live => pure (live, rows.length)
  | none => Script.fail .diverges

/-- Output row groups of the live rows of a partition. -/
def chunksOf (compactor : Compactor R) (batches : List (List R)) (ids : List Nat) :
    Option (List (List R × List Nat)) := do
  let (batches, ids) := orderLiveRows compactor.options.sortKeys batches ids
  let chunks ← streamChunks compactor.kernel.memorySize
    { targetRows := compactor.targetRows, targetBytes := compactor.targetBytes } batches
  some (assignRowIds ids chunks)

/-- Rewrite the row groups of one partition. -/
def rewriteGroup (compactor : Compactor R) (choices : Choices R) (schema : Schema)
    (state : StagingState) (group : List PlannedRowGroup) : TableProgram R StagingState := do
  let live ← Script.collect compactor.readLive group
  let state := { state with inputRows := state.inputRows + (live.map Prod.snd).sum }
  let batches := live.flatMap fun fragment => fragment.1.1
  let ids := live.flatMap fun fragment => fragment.1.2
  match compactor.chunksOf batches ids with
  | none => Script.fail .diverges
  | some chunks =>
      Script.fold
        (compactor.stageChunk choices schema (group.head?.bind PlannedRowGroup.partitionValues))
        state chunks

/-! ## Publishing -/

/-- The sequence that the manifest pointer designates. -/
def readPointerSequence : TableProgram R (Option Nat) := do
  let storage ← Script.read
  match storage.pointer with
  | .missing => pure none
  | .notJson => Script.fail (.serialization "_manifest.json")
  | .noLatest => pure none
  | .latest sequence => pure (some sequence)

/-- Under the writer lock: make sure that the pointer still designates the pinned manifest, and
publish the staged row groups. -/
def publishCompaction (compactor : Compactor R) (choices : Choices R) (schema : Schema)
    (newSchemaId : Option Nat) (pinned : Manifest) (state : StagingState) :
    TableProgram R Unit := do
  let currentSeq ← readPointerSequence
  Script.ensure (currentSeq = some pinned.sequence)
    (.compactionConflict pinned.sequence (currentSeq.getD 0))
  Script.each (fun schemaId => Script.emit (.write (schemaFilename schemaId) (.schema schemaId)))
    newSchemaId.toList
  let nextSeq := pinned.sequence + 1
  Writer.ensureNewSequence nextSeq
  Script.emit (.note (.sequence nextSeq))
  let manifest : Manifest :=
    { formatVersion := 1
      sequence := nextSeq
      schemaId := schema.schemaId
      rowGroups := state.newEntries
      rowCounts := some state.outputRowCounts
      partitionValues := state.partitionValues
      nextRowId := pinned.nextRowId
      nextFragmentId := state.nextFragmentId
      indexGenerations := pinned.indexGenerations }
  let generation ← rebuildRowIndex manifest
  let intentFiles := state.intentFiles ++ generation.base.toList
  Script.emit (.writeIntent choices.txnId intentFiles)
  Script.each (fun path => Script.emit (.note (.stagedFile path))) generation.base.toList
  let manifest ← Writer.checkpointManifest compactor.localRoot choices pinned
    { manifest with rowindexGeneration := some generation } intentFiles
  let _ ← Writer.writeManifest choices manifest
  Script.each (fun schemaId => Script.emit (.writeSchemaPointer schemaId)) newSchemaId.toList
  Script.emit (.writePointer nextSeq)
  Script.emit (.note .pointerUpdated)

/-- Undo a failed compaction: once the pointer has moved, only its intent is removed. -/
def rollbackCompaction (previousSchemaId : Nat) (newSchemaId : Option Nat)
    (effects : List (StorageEffect (File R) (File R))) : TableProgram R Unit := do
  let info := Writer.RollbackInfo.ofEffects effects
  if info.pointerUpdated then
    Script.each (fun intent => Script.emit (.deleteIntent intent)) info.intent.toList
  else do
    Script.provided newSchemaId.isSome (Script.emit (.writeSchemaPointer previousSchemaId))
    Script.each (fun path => Script.emit (.delete path)) info.stagedFiles
    Script.provided (info.sequence > 0) (Script.emit (.deleteManifest info.sequence))
    Script.each (fun schemaId => Script.emit (.delete (schemaFilename schemaId))) newSchemaId.toList
    Script.each (fun intent => Script.emit (.deleteIntent intent)) info.intent.toList

end Compactor

end IcefallDB
