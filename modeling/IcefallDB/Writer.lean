import IcefallDB.Writer.Cleanup
import Mathlib.Data.List.Sort
import Mathlib.Data.Nat.Pairing

/-!
# The writer

What every commit of the writer is made of: it finds out what is committed and cleans up, stages
new files under an intent, builds a snapshot checkpoint, and publishes a manifest.  Arrow, Parquet
and the maintenance of secondary indexes are parameters.
-/

namespace IcefallDB

/-- What the engine takes from Arrow and Parquet, for rows of type `R`. -/
structure Kernel (R : Type) where
  /-- Checksum of the Parquet file that a list of rows is encoded to. -/
  dataChecksum : List R → String
  /-- Memory footprint of a batch. -/
  memorySize : List R → Nat
  /-- Column statistics and chunk offsets of a data file. -/
  statistics : List R → Except IcefallDBError
    (HashMap String ColumnStats × Option (HashMap String ColumnChunkOffset))
  /-- Value of a row in a partition column; a null has none. -/
  partitionValue : String → R → Except IcefallDBError (Option Scalar)
  /-- Rows sorted by the named columns, in ascending order. -/
  sortBatch : List String → List R → Except IcefallDBError (List R)
  /-- Batches in which a reader returns the rows of a data file. -/
  batches : List R → List (List R)
  sortBatch_perm : ∀ {keys rows sorted}, sortBatch keys rows = .ok sorted → sorted.Perm rows
  flatten_batches : ∀ rows, (batches rows).flatten = rows

/-- What maintaining the secondary indexes for a commit did. -/
structure IndexMaintenance (R : Type) where
  /-- The new map of index generations. -/
  generations : HashMap String IndexRef
  /-- Files written, in order. -/
  files : List (String × File R)
  /-- Paths that the commit has to list in its intent. -/
  paths : List String

/-- Maintenance of the secondary indexes of a table. -/
structure IndexMaintainer (R : Type) where
  /-- Rebuild every index from the rows of a manifest. -/
  maintain : TableStorage R → Manifest → Except IcefallDBError (IndexMaintenance R)
  /-- Add the rows of new fragments to the previous generations. -/
  maintainOnInsert : TableStorage R → Manifest → HashMap String IndexRef → List RowGroupEntry →
    Except IcefallDBError (IndexMaintenance R)
  /-- Replace the entries of updated rows in the indexes on changed columns. -/
  maintainOnUpdate : TableStorage R → Manifest → List String → List R → List Nat →
    Except IcefallDBError (IndexMaintenance R)
  maintain_kind : ∀ {storage manifest done}, maintain storage manifest = .ok done →
    ∀ file ∈ done.files, kindOf file.1 = .index
  maintainOnInsert_kind : ∀ {storage manifest previous fragments done},
    maintainOnInsert storage manifest previous fragments = .ok done →
      ∀ file ∈ done.files, kindOf file.1 = .index
  maintainOnUpdate_kind : ∀ {storage manifest columns rows rowIds done},
    maintainOnUpdate storage manifest columns rows rowIds = .ok done →
      ∀ file ∈ done.files, kindOf file.1 = .index

/-- The part of a table schema that commits use. -/
structure Schema where
  schemaId : Nat
  partitionBy : Option (List String)
  rowGroupTargetRows : Nat
  rowGroupTargetBytes : Nat
  sort : Option (List String)

/-- Metadata of a row group, sealed with its checksums. -/
def Kernel.computeRowGroupMeta {R : Type} (kernel : Kernel R) (schema : Schema) (rgId : String)
    (rows : List R) (rowIds : List RowIdSegment) : Except IcefallDBError RowGroupMeta := do
  let (columns, columnOffsets) ← kernel.statistics rows
  let sidecar : RowGroupMeta :=
    { rowGroup := rgId
      schemaId := schema.schemaId
      rows := rows.length
      columns
      columnOffsets
      sort := schema.sort
      rowIds
      checksum := kernel.dataChecksum rows
      metaChecksum := "" }
  .ok { sidecar with metaChecksum := sidecar.computeMetaChecksum }

/-- A secondary index in the catalog of the database. -/
structure CatalogIndex where
  name : String
  table : String
  unique : Bool
  indexType : String

/-- A writer of a table. -/
structure Writer (R : Type) where
  table : String
  schema : Schema
  /-- Mutations are appended to the mutation log instead of moving the pointer. -/
  walMode : Bool
  /-- Number of pending records from which on a mutation folds the log. -/
  walCheckpointThreshold : Nat
  /-- Data files are encrypted. -/
  encrypted : Bool
  /-- The storage is a local directory. -/
  localRoot : Bool
  /-- Secondary indexes of the database. -/
  indexes : List CatalogIndex
  kernel : Kernel R
  maintainer : IndexMaintainer R

/-- What one call of the engine takes from its environment. -/
structure Choices (R : Type) where
  /-- Random identifiers of row groups: the candidate of each attempt for each row group. -/
  uuid : Nat → Nat → String
  /-- Identifier of the transaction. -/
  txnId : String
  /-- Current time. -/
  now : String
  /-- Iteration order of a hash map of groups. -/
  groupOrder : List (List R) → List (List R)
  uuid_injective : ∀ {group group' attempt attempt'},
    uuid group attempt = uuid group' attempt' → group = group' ∧ attempt = attempt'
  groupOrder_perm : ∀ groups, (groupOrder groups).Perm groups

/-- Identifier of a row group. -/
def Choices.rgId {R : Type} (choices : Choices R) (group attempt : Nat) : String :=
  "rg_" ++ choices.uuid group attempt

/-- Read the metadata sidecar of a row group. -/
def readSidecar {R : Type} (path : String) : TableProgram R RowGroupMeta := do
  match ← readFile path with
  | .sidecar contents => pure contents
  | _ => Script.fail (.serialization path)

/-- Read a deletion vector. -/
def readDeletions {R : Type} (path : String) : TableProgram R DeletionVector := do
  match ← readFile path with
  | .deletions offsets => pure offsets
  | _ => Script.fail (.other "invalid deletion vector")

/-- Read a data file. -/
def readRows {R : Type} (path : String) : TableProgram R (List R) := do
  match ← readFile path with
  | .data rows => pure rows
  | _ => Script.fail (.parquetDecode path)

@[simp]
theorem ends_readSidecar {R : Type} {path : String} {before after : TableStorage R}
    {contents : RowGroupMeta} :
    (readSidecar path).Ends before contents after ↔
      before.files.lookup path = some (.sidecar contents) ∧ before = after := by
  simp only [readSidecar, Script.ends_bind, ends_readFile]
  constructor
  · rintro ⟨file, _, ⟨found, rfl⟩, run⟩
    cases file <;> simp_all
  · rintro ⟨found, rfl⟩
    exact ⟨_, _, ⟨found, rfl⟩, by simp⟩

@[simp]
theorem ends_readDeletions {R : Type} {path : String} {before after : TableStorage R}
    {offsets : DeletionVector} :
    (readDeletions path).Ends before offsets after ↔
      before.files.lookup path = some (.deletions offsets) ∧ before = after := by
  simp only [readDeletions, Script.ends_bind, ends_readFile]
  constructor
  · rintro ⟨file, _, ⟨found, rfl⟩, run⟩
    cases file <;> simp_all
  · rintro ⟨found, rfl⟩
    exact ⟨_, _, ⟨found, rfl⟩, by simp⟩

@[simp]
theorem ends_readRows {R : Type} {path : String} {before after : TableStorage R} {rows : List R} :
    (readRows path).Ends before rows after ↔
      before.files.lookup path = some (.data rows) ∧ before = after := by
  simp only [readRows, Script.ends_bind, ends_readFile]
  constructor
  · rintro ⟨file, _, ⟨found, rfl⟩, run⟩
    cases file <;> simp_all
  · rintro ⟨found, rfl⟩
    exact ⟨_, _, ⟨found, rfl⟩, by simp⟩

/-- The data file matches the checksum in the sidecar, and the sidecar its own. -/
def Kernel.verifyRowGroupChecksum {R : Type} (kernel : Kernel R) (dataPath metaPath : String) :
    TableProgram R Bool := do
  let rows ← readRows dataPath
  let sidecar ← readSidecar metaPath
  pure (sidecar.checksum = kernel.dataChecksum rows && sidecar.verifyMetaChecksum)

/-- The deletion vector that a manifest entry refers to; without a reference it is empty. -/
def deletionsOf {R : Type} (storage : TableStorage R) (entry : RowGroupEntry) :
    Option DeletionVector :=
  match entry.deletes with
  | none => some ∅
  | some path =>
      match storage.files.lookup path with
      | some (.deletions offsets) => some offsets
      | _ => none

theorem deletionsOf_eq_some {R : Type} {storage : TableStorage R} {entry : RowGroupEntry}
    {offsets : DeletionVector} :
    deletionsOf storage entry = some offsets ↔
      (entry.deletes = none ∧ ∅ = offsets) ∨
        ∃ path, entry.deletes = some path ∧
          storage.files.lookup path = some (.deletions offsets) := by
  unfold deletionsOf
  split
  · next absent => simp [absent]
  · next path named =>
      split
      · next found => simp [named, found]
      · next other =>
          simp only [named, reduceCtorEq, false_and, Option.some.injEq, exists_eq_left', false_or,
            false_iff]
          exact fun found => other _ found

namespace Writer

variable {R : Type}

/-! ## Beginning a commit -/

/-- The manifest that is committed, with the mutation log replayed. -/
def loadCurrent : TableProgram R (Nat × Manifest) :=
  loadCurrentManifest Except.ok

/-- The schema pointer still designates the writer's schema. -/
def checkSchemaPointer (schemaId : Nat) : TableProgram R Unit := do
  let storage ← Script.read
  match storage.schemaPointer with
  | none => Script.fail (.invalidSchemaPointer "_schema.json")
  | some latest =>
      Script.ensure (latest = schemaId)
        (.schemaMismatch "schema_id" (toString schemaId) "_schema.json")

/-- No manifest file has the sequence of this commit. -/
def ensureNewSequence (nextSeq : Nat) : TableProgram R Unit := do
  let storage ← Script.read
  Script.ensure (storage.manifests.lookup nextSeq).isNone (.sequenceCollision nextSeq)

/-- Load the current manifest and clean up after crashed commits. -/
def beginMutation : TableProgram R (Nat × Manifest) := do
  let (latestSeq, current) ← loadCurrent
  cleanupStaging latestSeq (manifestReferencedFiles current)
  ensureNewSequence (latestSeq + 1)
  pure (latestSeq, current)

theorem ends_beginMutation {before after : TableStorage R} {latestSeq : Nat} {current : Manifest} :
    beginMutation.Ends before (latestSeq, current) after ↔
      ∃ loaded, loadCurrent.Ends before (latestSeq, current) loaded ∧
        cleaned latestSeq (manifestReferencedFiles current) loaded = after ∧
        after.manifests.lookup (latestSeq + 1) = none := by
  simp only [beginMutation, ensureNewSequence, Script.ends_bind, ends_cleanupStaging,
    Script.ends_read, Script.ends_ensure, Script.ends_pure, Option.isNone_iff_eq_none,
    Prod.mk.injEq, Prod.exists]
  constructor
  · rintro ⟨_, _, loaded, load, _, _, rfl, _, _, ⟨_, _, ⟨rfl, rfl⟩, free, rfl⟩, ⟨rfl, rfl⟩, rfl⟩
    exact ⟨loaded, load, rfl, free⟩
  · rintro ⟨loaded, load, rfl, free⟩
    exact ⟨_, _, loaded, load, (), _, rfl, (), _, ⟨_, _, ⟨rfl, rfl⟩, free, rfl⟩, ⟨rfl, rfl⟩, rfl⟩

/-- Like `beginMutation`, after verifying the schema pointer. -/
def beginAppend (writer : Writer R) : TableProgram R (Nat × Manifest) := do
  let (latestSeq, current) ← loadCurrent
  checkSchemaPointer writer.schema.schemaId
  cleanupStaging latestSeq (manifestReferencedFiles current)
  ensureNewSequence (latestSeq + 1)
  pure (latestSeq, current)

/-! ## Sidecars -/

/-- Metadata of a row group of the writer's schema. -/
def computeRowGroupMeta (writer : Writer R) (rgId : String) (rows : List R)
    (rowIds : List RowIdSegment) : Except IcefallDBError RowGroupMeta :=
  writer.kernel.computeRowGroupMeta writer.schema rgId rows rowIds

/-! ## Secondary indexes -/

/-- Perform index maintenance: write its files. -/
def writeIndexFiles (done : IndexMaintenance R) : TableProgram R Unit :=
  Script.each (fun file => Script.emit (.write file.1 file.2)) done.files

/-- Maintain the secondary indexes for a new manifest and list their files in the intent.  Returns
the manifest with its index generations, and the files of the intent. -/
def buildIndexesIntoManifest (writer : Writer R) (choices : Choices R) (manifest current : Manifest)
    (dataMetaFiles : List String) (incrementalAppend : Bool) :
    TableProgram R (Manifest × List String) := do
  let storage ← Script.read
  let done ← Script.lift <|
    if incrementalAppend then
      writer.maintainer.maintainOnInsert storage manifest current.indexGenerations
        (manifest.rowGroups.filter fun entry =>
          entry.data ∉ current.rowGroups.map RowGroupEntry.data)
    else writer.maintainer.maintain storage manifest
  writeIndexFiles done
  let files := dataMetaFiles ++ done.paths
  Script.emit (.writeIntent choices.txnId files)
  pure ({ manifest with indexGenerations := done.generations }, files)

/-! ## Snapshot checkpoints -/

/-- Summaries of the previous checkpoint, if it can be read. -/
def previousSummaries (storage : TableStorage R) (current : Manifest) : List FragmentSummary :=
  match current.checkpoint.bind storage.files.lookup with
  | some (.checkpoint previous) => previous.fragments
  | _ => []

/-- The previous summary of a fragment, if its entry did not change. -/
def reusedSummary (current : Manifest) (previous : List FragmentSummary) (entry : RowGroupEntry) :
    Option FragmentSummary :=
  let unchanged := current.rowGroups.reverse.find? fun old => old.fragmentId = entry.fragmentId
  let reusable := previous.reverse.find? fun summary => summary.fragmentId = entry.fragmentId
  if unchanged = some entry then
    reusable.filter fun summary => summary.checksum ≠ "" && summary.metaChecksum ≠ ""
  else none

/-- Summary of a fragment: the previous one if nothing changed, else from its sidecar. -/
def summarizeFragment (current : Manifest) (previous : List FragmentSummary)
    (entry : RowGroupEntry) : TableProgram R FragmentSummary :=
  match reusedSummary current previous entry with
  | some summary => pure summary
  | none => do
      let sidecar ← readSidecar entry.metaFile
      pure
        { rowGroup := sidecar.rowGroup
          data := entry.data
          metaFile := entry.metaFile
          agg := entry.agg
          deletes := entry.deletes
          fragmentId := entry.fragmentId
          rows := sidecar.rows
          deletedCount := entry.deletedCount
          columns := sidecar.columns
          columnOffsets := sidecar.columnOffsets
          rowIds := sidecar.rowIds
          sort := sidecar.sort
          checksum := sidecar.checksum
          metaChecksum := sidecar.metaChecksum }

/-- The checkpoint of a new manifest. -/
def buildSnapshotCheckpoint (current manifest : Manifest) : TableProgram R SnapshotCheckpoint := do
  let storage ← Script.read
  let fragments ← Script.collect
    (summarizeFragment current (previousSummaries storage current)) manifest.rowGroups
  let checkpoint : SnapshotCheckpoint :=
    { sequence := manifest.sequence, schemaId := manifest.schemaId, fragments, checksum := "" }
  pure { checkpoint with checksum := checkpoint.computeChecksum }

/-- Staging name of a checkpoint. -/
def checkpointPart (sequence : Nat) : String :=
  partPath "incoming"
    ("_checkpoint_" ++ String.ofList (zeroPad 9 (Nat.toDigits 10 sequence)) ++ ".json")

/-- Write a checkpoint and add it to the intent.  Returns its path. -/
def writeCheckpoint (localRoot : Bool) (choices : Choices R) (checkpoint : SnapshotCheckpoint)
    (sequence : Nat) (intentFiles : List String) : TableProgram R String := do
  let path := SnapshotCheckpoint.filename sequence
  Script.emit (.write (checkpointPart sequence) (.checkpoint checkpoint))
  Script.emit (.writeIntent choices.txnId (intentFiles ++ [path]))
  renameFile (checkpointPart sequence) path
  Script.emit (.note (.stagedFile path))
  Script.provided localRoot do
    Script.emit (.write (SnapshotCheckpoint.archiveFilename sequence) (.archive checkpoint))
    Script.emit (.note (.stagedFile (SnapshotCheckpoint.archiveFilename sequence)))
  pure path

/-- Checkpoint a manifest.  Returns the manifest that refers to its checkpoint. -/
def checkpointManifest (localRoot : Bool) (choices : Choices R) (current manifest : Manifest)
    (intentFiles : List String) : TableProgram R Manifest := do
  let checkpoint ← buildSnapshotCheckpoint current manifest
  let path ← writeCheckpoint localRoot choices checkpoint manifest.sequence intentFiles
  pure { manifest with checkpoint := some path }

/-! ## Publishing -/

/-- Link a manifest to its predecessor, seal it, write it and verify it.  Returns it sealed. -/
def writeManifest (choices : Choices R) (manifest : Manifest) : TableProgram R Manifest := do
  let storage ← Script.read
  let final := manifest.finalize
    (MutationWal.parentManifestChecksum storage manifest.sequence) choices.now
  Script.ensure final.verifyChecksum
    (.checksumMismatch (Manifest.filename manifest.sequence ++ ".tmp"))
  Script.emit (.writeManifest manifest.sequence final)
  pure final

/-- Write a manifest, move the pointer to it and drop the intent. -/
def publish (choices : Choices R) (manifest : Manifest) : TableProgram R Unit := do
  let _ ← writeManifest choices manifest
  Script.emit (.writePointer manifest.sequence)
  Script.emit (.deleteIntent choices.txnId)

end Writer

/-! ## A table of integers -/

namespace Integers

/-- Arrow and Parquet for a table with one integer column, `id`. -/
def kernel : Kernel Int where
  dataChecksum rows := checksumBytes (Json.utf8 (toString rows).toList)
  memorySize rows := 8 * rows.length
  statistics rows := .ok
    (AList.singleton "id" { min := rows.min?.map .int, max := rows.max?.map .int, nulls := 0 },
      some (AList.singleton "id" { offset := 4, length := 8 * rows.length }))
  partitionValue column row :=
    if column = "id" then .ok (some (.int row))
    else .error (.schemaMismatch column "found in batch" "partition")
  sortBatch keys rows :=
    if keys.isEmpty then .ok rows
    else if keys.all (· = "id") then .ok (rows.insertionSort (· ≤ ·))
    else .error (.other "sort key not found")
  batches rows := if rows.isEmpty then [] else [rows]
  sortBatch_perm := by
    intro keys rows sorted sort_eq
    split at sort_eq
    · exact List.Perm.of_eq (Except.ok.inj sort_eq).symm
    · split at sort_eq
      · exact Except.ok.inj sort_eq ▸ List.perm_insertionSort _ rows
      · cases sort_eq
  flatten_batches := by
    intro rows
    cases rows <;> simp

/-- Maintenance for a table without secondary indexes. -/
def maintainer : IndexMaintainer Int where
  maintain _ manifest := .ok { generations := manifest.indexGenerations, files := [], paths := [] }
  maintainOnInsert _ _ previous _ := .ok { generations := previous, files := [], paths := [] }
  maintainOnUpdate _ manifest _ _ _ :=
    .ok { generations := manifest.indexGenerations, files := [], paths := [] }
  maintain_kind := by
    rintro _ _ _ done file member
    obtain rfl := Except.ok.inj done
    simp at member
  maintainOnInsert_kind := by
    rintro _ _ _ _ _ done file member
    obtain rfl := Except.ok.inj done
    simp at member
  maintainOnUpdate_kind := by
    rintro _ _ _ _ _ _ done file member
    obtain rfl := Except.ok.inj done
    simp at member

/-- A writer of the table. -/
def writer : Writer Int where
  table := "numbers"
  schema :=
    { schemaId := 1, partitionBy := none, rowGroupTargetRows := 1000, rowGroupTargetBytes := 65536
      sort := none }
  walMode := false
  walCheckpointThreshold := 64
  encrypted := false
  localRoot := true
  indexes := []
  kernel := kernel
  maintainer := maintainer

/-- Environment of a call whose row groups have identifiers that start with a given number. -/
def choices (call : Nat) : Choices Int where
  uuid group attempt :=
    String.ofList (zeroPad 32 (Nat.toDigits 16 (Nat.pair call (Nat.pair group attempt))))
  txnId := "txn-" ++ toString call
  now := "2026-01-01T00:00:00Z"
  groupOrder groups := groups
  uuid_injective := by
    intro group group' attempt attempt' same
    have digits := congrArg String.toList same
    simp only [String.toList_ofList] at digits
    have pairs := zeroPad_toDigits_injective (by decide) (by decide) digits
    exact Nat.pair_eq_pair.mp (Nat.pair_eq_pair.mp pairs).2
  groupOrder_perm _ := List.Perm.refl _

/-- The directory of the table before anything is committed. -/
def emptyTable : TableStorage Int where
  pointer := .latest 0
  manifests := ∅
  log := []
  files := ∅
  intents := ∅
  schemaPointer := some 1

end Integers

end IcefallDB
