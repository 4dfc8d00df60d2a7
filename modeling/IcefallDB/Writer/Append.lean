import IcefallDB.Writer

/-!
# Appending and replacing row groups

Buffered batches are cut into row groups, staged, renamed to their final names and published in a
new manifest.  A Parquet file can also be copied in as it is, or referenced when an identical data
file is already committed.
-/

namespace IcefallDB

namespace Writer

variable {R : Type}

/-! ## Planning row groups -/

/-- Consecutive slices of a list; the fuel bounds their number. -/
def slices (size : Nat) : Nat → List R → List (List R)
  | 0, _ => []
  | fuel + 1, rows =>
      if rows.isEmpty then [] else rows.take size :: slices size fuel (rows.drop size)

/-- Rows per row group, from the row and byte targets of the schema. -/
def chunkRows (writer : Writer R) (rows : List R) : Nat :=
  let bytesPerRow := writer.kernel.memorySize rows / rows.length
  if bytesPerRow = 0 then max writer.schema.rowGroupTargetRows 1
  else
    let byteTargetRows := max (writer.schema.rowGroupTargetBytes / bytesPerRow) 1
    max (min writer.schema.rowGroupTargetRows byteTargetRows) 1

/-- Slice a batch into row groups that respect both targets. -/
def sliceBatchIntoRowGroups (writer : Writer R) (rows : List R) : List (List R) :=
  slices (writer.chunkRows rows) rows.length rows

/-- Columns the table is partitioned by. -/
def partitionColumns (writer : Writer R) : List String :=
  writer.schema.partitionBy.getD []

/-- Key of the partition tuple of a row. -/
def partitionKeyForRow (writer : Writer R) (row : R) : Except IcefallDBError String := do
  let parts ← writer.partitionColumns.mapM fun column => writer.kernel.partitionValue column row
  .ok (String.ofList (Json.render (.arr (parts.map fun part =>
    (part.map Scalar.codec.encode).getD .null))))

/-- Rows with their partition keys. -/
def partitionKeys (writer : Writer R) : List R → Except IcefallDBError (List (String × R))
  | [] => .ok []
  | row :: rows => do
      let key ← writer.partitionKeyForRow row
      let keyed ← partitionKeys writer rows
      .ok ((key, row) :: keyed)

/-- Rows grouped by partition key. -/
def groupByKey (keyed : List (String × R)) : List (List R) :=
  (keyed.map Prod.fst).dedup.map fun key =>
    (keyed.filter fun row => row.1 = key).map Prod.snd

/-- Rows of the row groups that a commit of buffered batches writes, in order. -/
def planRowGroups (writer : Writer R) (choices : Choices R) (buffer : List (List R)) :
    Except IcefallDBError (List (List R)) :=
  let combined := buffer.flatten
  if writer.partitionColumns.isEmpty then .ok (writer.sliceBatchIntoRowGroups combined)
  else do
    let keyed ← writer.partitionKeys combined
    .ok ((choices.groupOrder (groupByKey keyed)).flatMap writer.sliceBatchIntoRowGroups)

/-- A row group that a commit writes, with the ids allocated for it. -/
structure PlannedRowGroup (R : Type) where
  /-- Position among the row groups of the commit. -/
  index : Nat
  rows : List R
  rowIds : RowIdSegment
  fragmentId : Nat

/-- Allocate row ids and fragment ids in write order. -/
def allocate : Nat → Nat → Nat → List (List R) → List (PlannedRowGroup R)
  | _, _, _, [] => []
  | index, nextRowId, nextFragmentId, rows :: rest =>
      { index, rows, rowIds := .range nextRowId rows.length, fragmentId := nextFragmentId } ::
        allocate (index + 1) (nextRowId + rows.length) (nextFragmentId + 1) rest

/-! ## Staging row groups -/

/-- Stage the files of a row group under a candidate identifier. -/
def writeRowGroupPart (writer : Writer R) (planned : PlannedRowGroup R) (rgId : String) :
    TableProgram R Unit := do
  Script.emit (.write (partPath "incoming" (dataFilename rgId)) (.data planned.rows))
  let sidecar ← Script.lift (writer.computeRowGroupMeta rgId planned.rows [planned.rowIds])
  Script.emit (.write (partPath "incoming" (metaFilename rgId)) (.sidecar sidecar))
  if writer.encrypted then pure ()
  else
    Script.emit (.write (partPath "incoming" (aggFilename rgId))
      (.aggregate planned.fragmentId sidecar.checksum planned.rows))

/-- Names of the files of a committed row group. -/
structure RowGroupFiles where
  data : String
  metaFile : String
  agg : Option String
  deriving DecidableEq

/-- The files as an intent lists them. -/
def RowGroupFiles.toList (files : RowGroupFiles) : List String :=
  [files.data, files.metaFile] ++ files.agg.toList

/-- Move staged files to their final names. -/
def promoteRowGroup (rgId : String) : TableProgram R RowGroupFiles := do
  renameFile (partPath "incoming" (dataFilename rgId)) (dataFilename rgId)
  renameFile (partPath "incoming" (metaFilename rgId)) (metaFilename rgId)
  Script.emit (.note (.stagedFile (dataFilename rgId)))
  Script.emit (.note (.stagedFile (metaFilename rgId)))
  let storage ← Script.read
  if storage.fileExists (partPath "incoming" (aggFilename rgId)) then do
    renameFile (partPath "incoming" (aggFilename rgId)) (aggFilename rgId)
    Script.emit (.note (.stagedFile (aggFilename rgId)))
    pure { data := dataFilename rgId, metaFile := metaFilename rgId, agg := some (aggFilename rgId) }
  else pure { data := dataFilename rgId, metaFile := metaFilename rgId, agg := none }

/-- Verify the staged files of a row group, writing them once more if that fails. -/
def verifyStaged (writer : Writer R) (planned : PlannedRowGroup R) (rgId : String) :
    TableProgram R Unit := do
  let dataPart := partPath "incoming" (dataFilename rgId)
  let metaPart := partPath "incoming" (metaFilename rgId)
  if ← writer.kernel.verifyRowGroupChecksum dataPart metaPart then pure ()
  else do
    writer.writeRowGroupPart planned rgId
    let verified ← writer.kernel.verifyRowGroupChecksum dataPart metaPart
    Script.ensure verified (.checksumMismatch dataPart)

/-- Rename a staged row group to its final name.  A name that is taken is replaced by the candidate
of the next attempt, of which there are `attempts` left. -/
def renameRowGroupWithCollisionRetry (writer : Writer R) (choices : Choices R)
    (planned : PlannedRowGroup R) : Nat → Nat → TableProgram R RowGroupFiles
  | _, 0 => Script.fail (.other "failed to find a unique row group id after retries")
  | attempt, attempts + 1 => do
      let rgId := choices.rgId planned.index attempt
      Script.provided (attempt > 0) (writer.writeRowGroupPart planned rgId)
      writer.verifyStaged planned rgId
      let storage ← Script.read
      if storage.fileExists (dataFilename rgId) || storage.fileExists (metaFilename rgId) then
        if attempts = 0 then
          Script.fail (.other "failed to find a unique row group id after retries")
        else do
          Script.emit (.delete (partPath "incoming" (dataFilename rgId)))
          Script.emit (.delete (partPath "incoming" (metaFilename rgId)))
          Script.emit (.delete (partPath "incoming" (aggFilename rgId)))
          renameRowGroupWithCollisionRetry writer choices planned (attempt + 1) attempts
      else promoteRowGroup rgId

/-! ## Building the manifest -/

/-- Row counts of the new manifest, if those of the existing row groups are known. -/
def collectRowCounts (storage : TableStorage R) (existing : List RowGroupEntry)
    (current : Manifest) (added : List Nat) : Option (List Nat) :=
  match current.rowCounts with
  | some counts => if counts.length = existing.length then some (counts ++ added) else none
  | none => do
      let counts ← existing.mapM fun entry =>
        match storage.files.lookup entry.metaFile with
        | some (.sidecar sidecar) => if sidecar.verifyMetaChecksum then some sidecar.rows else none
        | _ => none
      some (counts ++ added)

/-- Distinct values of rows in a partition column. -/
def distinctNonNullValues (writer : Writer R) (column : String) (rows : List R) :
    Except IcefallDBError (List Scalar) := do
  let values ← rows.mapM (writer.kernel.partitionValue column)
  .ok values.reduceOption.dedup

/-- Partition values of rows in some columns, after those in the columns before; there are none if a
column does not have exactly one value. -/
def partitionValuesFrom (writer : Writer R) (rows : List R) :
    List String → HashMap String Scalar → Except IcefallDBError (Option (HashMap String Scalar))
  | [], result => .ok (if result.entries.isEmpty then none else some result)
  | column :: columns, result => do
      match ← writer.distinctNonNullValues column rows with
      | [value] => partitionValuesFrom writer rows columns (result.insert column value)
      | _ => .ok none

/-- Partition values of the rows of a row group. -/
def computePartitionValues (writer : Writer R) (rows : List R) :
    Except IcefallDBError (Option (HashMap String Scalar)) :=
  writer.partitionValuesFrom rows writer.partitionColumns ∅

/-- Partition values with those of new row groups added. -/
def addPartitionValues (writer : Writer R) :
    List (PlannedRowGroup R × RowGroupFiles) → HashMap String (HashMap String Scalar) →
      Except IcefallDBError (HashMap String (HashMap String Scalar))
  | [], values => .ok values
  | (planned, files) :: rest, values => do
      match ← writer.computePartitionValues planned.rows with
      | some found => addPartitionValues writer rest (values.insert files.data found)
      | none => addPartitionValues writer rest values

/-- Partition values of the new manifest. -/
def collectPartitionValues (writer : Writer R) (current : Manifest)
    (groups : List (PlannedRowGroup R × RowGroupFiles)) :
    Except IcefallDBError (Option (HashMap String (HashMap String Scalar))) :=
  if writer.partitionColumns.isEmpty then .ok none
  else do
    let values ← writer.addPartitionValues groups (current.partitionValues.getD ∅)
    .ok (if values.entries.isEmpty then none else some values)

/-- Manifest entry of a new row group. -/
def newEntry (fragmentId : Nat) (files : RowGroupFiles) : RowGroupEntry :=
  { data := files.data, metaFile := files.metaFile, fragmentId, agg := files.agg }

/-- Read the sidecars of a new row group for the scan plan. -/
def plannedRowGroupForEntry (entry : RowGroupEntry) : TableProgram R Unit := do
  let sidecar ← readSidecar entry.metaFile
  Script.ensure sidecar.verifyMetaChecksum (.rowGroupChecksumMismatch entry.metaFile)
  match entry.agg with
  | none => pure ()
  | some path =>
      match ← readFile path with
      | .aggregate _ _ _ => pure ()
      | _ => Script.fail (.serialization path)

/-! ## Rolling back -/

/-- What a failed commit has to undo. -/
structure RollbackInfo where
  sequence : Nat := 0
  intent : Option String := none
  stagedFiles : List String := []
  pointerUpdated : Bool := false

/-- Take a note down. -/
def RollbackInfo.record (info : RollbackInfo) : RollbackNote → RollbackInfo
  | .sequence sequence => { info with sequence }
  | .intent intent => { info with intent := some intent }
  | .stagedFile path => { info with stagedFiles := info.stagedFiles ++ [path] }
  | .pointerUpdated => { info with pointerUpdated := true }

/-- The notes among the effects of a commit. -/
def RollbackInfo.ofEffects (effects : List (StorageEffect (File R) (File R))) : RollbackInfo :=
  effects.foldl
    (fun info effect =>
      match effect with
      | .note entry => info.record entry
      | _ => info)
    {}

/-- Undo a failed commit: once the pointer has moved, only its intent is removed. -/
def rollbackCommit (effects : List (StorageEffect (File R) (File R))) : TableProgram R Unit := do
  let info := RollbackInfo.ofEffects effects
  if info.pointerUpdated then
    Script.each (fun intent => Script.emit (.deleteIntent intent)) info.intent.toList
  else do
    Script.each (fun path => Script.emit (.delete path)) info.stagedFiles
    Script.provided (info.sequence > 0) (Script.emit (.deleteManifest info.sequence))
    Script.each (fun intent => Script.emit (.deleteIntent intent)) info.intent.toList

/-! ## Committing buffered batches -/

/-- Stage and rename the row groups of a commit, and correct its intent if names were taken. -/
def stageRowGroups (writer : Writer R) (choices : Choices R) (planned : List (PlannedRowGroup R)) :
    TableProgram R (List RowGroupFiles) := do
  let intended := planned.map fun group =>
    { data := dataFilename (choices.rgId group.index 0)
      metaFile := metaFilename (choices.rgId group.index 0)
      agg := if writer.encrypted then none else some (aggFilename (choices.rgId group.index 0)) :
      RowGroupFiles }
  Script.emit (.writeIntent choices.txnId (intended.flatMap RowGroupFiles.toList))
  Script.emit (.note (.intent choices.txnId))
  Script.each (fun group => writer.writeRowGroupPart group (choices.rgId group.index 0)) planned
  let files ← Script.collect
    (fun group => writer.renameRowGroupWithCollisionRetry choices group 0 3) planned
  Script.provided
    (files.flatMap RowGroupFiles.toList ≠ intended.flatMap RowGroupFiles.toList)
    (Script.emit (.writeIntent choices.txnId (files.flatMap RowGroupFiles.toList)))
  pure files

/-- Commit buffered batches up to and including the pointer update. -/
def tryCommit (writer : Writer R) (choices : Choices R) (buffer : List (List R)) (replace : Bool) :
    TableProgram R Manifest := do
  let (latestSeq, current) ← writer.beginAppend
  let nextSeq := latestSeq + 1
  let groups ← Script.lift (writer.planRowGroups choices buffer)
  let planned := allocate 0 current.nextRowId current.nextFragmentId groups
  Script.emit (.note (.sequence nextSeq))
  let files ← writer.stageRowGroups choices planned
  let existing := if replace then [] else current.rowGroups
  let partitionValues ← Script.lift
    (writer.collectPartitionValues current (planned.zip files))
  let storage ← Script.read
  let manifest : Manifest :=
    { formatVersion := 1
      sequence := nextSeq
      schemaId := writer.schema.schemaId
      rowGroups := existing ++ List.zipWith (fun group => newEntry group.fragmentId) planned files
      rowCounts := collectRowCounts storage existing current (groups.map List.length)
      partitionValues
      nextRowId := current.nextRowId + groups.flatten.length
      nextFragmentId := current.nextFragmentId + groups.length }
  let (manifest, intentFiles) ← writer.buildIndexesIntoManifest choices manifest current
    (files.flatMap RowGroupFiles.toList) !replace
  let manifest ← checkpointManifest writer.localRoot choices current manifest intentFiles
  let manifest ← writeManifest choices manifest
  Script.each plannedRowGroupForEntry
    (manifest.rowGroups.filter fun entry => entry.data ∈ files.map RowGroupFiles.data)
  Script.emit (.writePointer nextSeq)
  Script.emit (.note .pointerUpdated)
  pure manifest

/-- Commit the buffered batches, appending their row groups to the table. -/
def commit (writer : Writer R) (choices : Choices R) (buffer : List (List R)) :
    TableProgram R Unit := do
  let _ ← loadCurrent
  if buffer.isEmpty then pure ()
  else do
    let _ ← (writer.tryCommit choices buffer false).onError rollbackCommit
    Script.emit (.deleteIntent choices.txnId)

/-- Replace the row groups of the table by those of the buffered batches. -/
def replace (writer : Writer R) (choices : Choices R) (buffer : List (List R)) :
    TableProgram R Unit := do
  let _ ← loadCurrent
  let _ ← (writer.tryCommit choices buffer true).onError rollbackCommit
  Script.emit (.deleteIntent choices.txnId)

/-! ## Inserting Parquet files -/

/-- A Parquet file to insert, as reading its footer shows it. -/
structure ParquetSource (R : Type) where
  rows : List R
  /-- Checksum of the bytes of the file. -/
  checksum : String
  /-- The file is not empty, its schema fits and it has one non-empty row group. -/
  compatible : Bool
  /-- Column statistics from the footer, if they are all there.  A null count that the footer leaves
  out counts as zero. -/
  footer : Except IcefallDBError (Option (HashMap String ColumnStats))
  columnOffsets : Option (HashMap String ColumnChunkOffset)

/-- How an insertion of a Parquet file ended. -/
inductive InsertParquetOutcome
  | incompatible
  | fastPath (rows : Nat)

/-- Partition values from column statistics, for some columns after those before; there are none if a
column has nulls or more than one value. -/
def footerPartitionValues (columns : HashMap String ColumnStats) :
    List String → HashMap String Scalar → Option (HashMap String Scalar)
  | [], values => if values.entries.isEmpty then none else some values
  | column :: rest, values => do
      let stats ← columns.lookup column
      let least ← stats.min
      if stats.nulls = 0 && stats.max = some least then
        footerPartitionValues columns rest (values.insert column least)
      else none

/-- Partition values of a Parquet file, from the statistics in its footer. -/
def derivePartitionValuesFromStats (writer : Writer R) (columns : HashMap String ColumnStats) :
    Option (HashMap String Scalar) :=
  footerPartitionValues columns writer.partitionColumns ∅

/-- The first committed row group whose data file has a checksum. -/
def findIdentical (checksum : String) : List RowGroupEntry → TableProgram R (Option RowGroupEntry)
  | [] => pure none
  | entry :: entries => do
      let sidecar ← readSidecar entry.metaFile
      if sidecar.checksum = checksum then pure (some entry) else findIdentical checksum entries

/-- Append a row group that refers to an existing data file, with a sidecar and ids of its own. -/
def appendReferenceRowGroup (writer : Writer R) (choices : Choices R) (existing : RowGroupEntry)
    (latestSeq : Nat) (partitionValues : Option (HashMap String Scalar)) (current : Manifest) :
    TableProgram R InsertParquetOutcome := do
  let nextSeq := latestSeq + 1
  cleanupStaging latestSeq (manifestReferencedFiles current)
  let rgId := choices.rgId 0 0
  let identical ← readSidecar existing.metaFile
  let renamed : RowGroupMeta :=
    { identical with rowGroup := rgId, rowIds := [.range current.nextRowId identical.rows] }
  let sidecar := { renamed with metaChecksum := renamed.computeMetaChecksum }
  Script.emit (.write (metaFilename rgId) (.sidecar sidecar))
  let carried : HashMap String (HashMap String Scalar) :=
    match (current.partitionValues.getD ∅).lookup existing.data with
    | some values => AList.insert existing.data values ∅
    | none => ∅
  let values :=
    match partitionValues with
    | some found => carried.insert existing.data found
    | none => carried
  let storage ← Script.read
  let manifest : Manifest :=
    { formatVersion := 1
      sequence := nextSeq
      schemaId := writer.schema.schemaId
      rowGroups := current.rowGroups ++
        [{ data := existing.data, metaFile := metaFilename rgId
           fragmentId := current.nextFragmentId }]
      rowCounts := collectRowCounts storage current.rowGroups current [sidecar.rows]
      partitionValues := if values.entries.isEmpty then none else some values
      nextRowId := current.nextRowId + identical.rows
      nextFragmentId := current.nextFragmentId + 1 }
  let checkpoint ← buildSnapshotCheckpoint current manifest
  Script.emit (.writeIntent choices.txnId [metaFilename rgId])
  let (manifest, intentFiles) ← writer.buildIndexesIntoManifest choices manifest current
    [metaFilename rgId] false
  let path ← writeCheckpoint writer.localRoot choices checkpoint nextSeq intentFiles
  publish choices { manifest with checkpoint := some path }
  pure (.fastPath sidecar.rows)

/-- Stage a Parquet file and its sidecar and rename them to a name that is free. -/
def stageAndRenameParquet (choices : Choices R) (rows : List R) (sidecar : RowGroupMeta) :
    Nat → Nat → TableProgram R RowGroupFiles
  | _, 0 => Script.fail (.other "failed to find a unique row group id after retries")
  | attempt, attempts + 1 => do
      let rgId := choices.rgId 0 attempt
      let renamed := { sidecar with rowGroup := rgId }
      Script.emit (.write (partPath "incoming" (dataFilename rgId)) (.data rows))
      Script.emit (.write (partPath "incoming" (metaFilename rgId))
        (.sidecar { renamed with metaChecksum := renamed.computeMetaChecksum }))
      let storage ← Script.read
      if storage.fileExists (dataFilename rgId) || storage.fileExists (metaFilename rgId) then
        if attempts = 0 then
          Script.fail (.other "failed to find a unique row group id after retries")
        else do
          Script.emit (.delete (partPath "incoming" (dataFilename rgId)))
          Script.emit (.delete (partPath "incoming" (metaFilename rgId)))
          stageAndRenameParquet choices rows sidecar (attempt + 1) attempts
      else do
        renameFile (partPath "incoming" (dataFilename rgId)) (dataFilename rgId)
        renameFile (partPath "incoming" (metaFilename rgId)) (metaFilename rgId)
        Script.emit (.note (.stagedFile (dataFilename rgId)))
        Script.emit (.note (.stagedFile (metaFilename rgId)))
        pure { data := dataFilename rgId, metaFile := metaFilename rgId, agg := none }

/-- Copy a Parquet file into the table and commit it. -/
def tryCommitParquetFast (writer : Writer R) (choices : Choices R) (rows : List R)
    (sidecar : RowGroupMeta) (partitionValues : Option (HashMap String Scalar)) :
    TableProgram R Unit := do
  let (latestSeq, current) ← writer.beginAppend
  let nextSeq := latestSeq + 1
  let allocated := { sidecar with rowIds := [.range current.nextRowId sidecar.rows] }
  let planned := [dataFilename (choices.rgId 0 0), metaFilename (choices.rgId 0 0)]
  Script.emit (.writeIntent choices.txnId planned)
  Script.emit (.note (.intent choices.txnId))
  let files ← stageAndRenameParquet choices rows allocated 0 3
  Script.provided (files.data ≠ dataFilename (choices.rgId 0 0))
    (Script.emit (.writeIntent choices.txnId files.toList))
  let values :=
    match partitionValues with
    | some found => (current.partitionValues.getD ∅).insert files.data found
    | none => current.partitionValues.getD ∅
  let storage ← Script.read
  let manifest : Manifest :=
    { formatVersion := 1
      sequence := nextSeq
      schemaId := writer.schema.schemaId
      rowGroups := current.rowGroups ++ [newEntry current.nextFragmentId files]
      rowCounts := collectRowCounts storage current.rowGroups current [sidecar.rows]
      partitionValues := if values.entries.isEmpty then none else some values
      nextRowId := current.nextRowId + sidecar.rows
      nextFragmentId := current.nextFragmentId + 1 }
  let (manifest, intentFiles) ← writer.buildIndexesIntoManifest choices manifest current
    files.toList true
  let manifest ← checkpointManifest writer.localRoot choices current manifest intentFiles
  let _ ← writeManifest choices manifest
  Script.emit (.writePointer nextSeq)
  Script.emit (.note .pointerUpdated)

/-- Insert a Parquet file without decoding it, if that is possible. -/
def insertParquet (writer : Writer R) (choices : Choices R) (source : ParquetSource R) :
    TableProgram R InsertParquetOutcome := do
  if writer.encrypted || !source.compatible then pure .incompatible
  else
    match ← Script.lift source.footer with
    | none => pure .incompatible
    | some columns => do
        let partitionValues := writer.derivePartitionValuesFromStats columns
        let dedupAllowed := !writer.indexes.any fun index =>
          index.table = writer.table && index.unique && index.indexType = "btree"
        let (latestSeq, current) ← loadCurrent
        let identical ← findIdentical source.checksum
          (if dedupAllowed then current.rowGroups else [])
        match identical with
        | some existing =>
            writer.appendReferenceRowGroup choices existing latestSeq partitionValues current
        | none => do
            let sidecar : RowGroupMeta :=
              { rowGroup := ""
                schemaId := writer.schema.schemaId
                rows := source.rows.length
                columns
                columnOffsets := source.columnOffsets
                sort := writer.schema.sort
                rowIds := []
                checksum := source.checksum
                metaChecksum := "" }
            (writer.tryCommitParquetFast choices source.rows sidecar partitionValues).onError
              rollbackCommit
            Script.emit (.deleteIntent choices.txnId)
            pure (.fastPath source.rows.length)

end Writer

end IcefallDB
