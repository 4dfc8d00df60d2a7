import IcefallDB.Writer.Append
import IcefallDB.RowIndex

/-!
# Deleting, updating and merging rows

A mutation marks rows as deleted in new versions of deletion vectors and, for an update, writes the
new rows to a patch fragment under their old row ids.  It is committed either by publishing a
manifest, or by appending a record of the difference to the mutation log.
-/

namespace IcefallDB

/-- Where a row matched by a mutation lives, and its stable row id. -/
structure MatchLoc where
  fragmentId : Nat
  offset : Nat
  rowId : Nat
  deriving DecidableEq

/-- Rows handed to a mutation. -/
structure RowBatch (R : Type) where
  rows : List R
  /-- The schema of the batch has the names and types of the writer's schema. -/
  schemaMatches : Bool := true

/-- Offsets by fragment of some locations. -/
def offsetsByFragment (locs : List MatchLoc) : HashMap Nat (List Nat) :=
  locs.foldl
    (fun map loc => map.insert loc.fragmentId ((map.lookup loc.fragmentId).getD [] ++ [loc.offset]))
    ∅

namespace Writer

variable {R : Type}

/-! ## Deletion vectors -/

/-- A new version of the deletion vector of a fragment. -/
structure DelWork where
  fragmentId : Nat
  path : String
  deletions : DeletionVector

/-- The offsets to delete from a fragment, if there are any. -/
def requestedOffsets (byFragment : HashMap Nat (List Nat)) (entry : RowGroupEntry) :
    Option (List Nat) :=
  (byFragment.lookup entry.fragmentId).filter fun offsets => !offsets.isEmpty

/-- The deletion vector of a row group; it is empty if there is none yet. -/
def loadDeletions (entry : RowGroupEntry) : TableProgram R DeletionVector :=
  match entry.deletes with
  | some path => readDeletions path
  | none => pure ∅

/-- Version of the next deletion vector of a row group. -/
def nextVersion (unparsed : String → String) (entry : RowGroupEntry) :
    Except IcefallDBError Nat :=
  match entry.deletes with
  | none => .ok 1
  | some path =>
      match parseVersion path with
      | some version => .ok (version + 1)
      | none => .error (.other (unparsed path))

/-- The next deletion vector of a row group, with more offsets deleted. -/
def planDeletion (unparsed : String → String) (entry : RowGroupEntry) (offsets : List Nat) :
    TableProgram R DelWork := do
  let deletions ← loadDeletions entry
  let version ← Script.lift (nextVersion unparsed entry)
  pure
    { fragmentId := entry.fragmentId
      path := deletionPath entry.fragmentId version
      deletions := deletions.unionOffsets offsets }

/-- A row group with a new deletion vector. -/
def withDeletions (entry : RowGroupEntry) (work : DelWork) : RowGroupEntry :=
  { entry with deletes := some work.path, deletedCount := work.deletions.cardinality }

/-- Row groups with the deletion vectors of some work. -/
def applyWork (works : List DelWork) (entry : RowGroupEntry) : RowGroupEntry :=
  match works.find? fun work => work.fragmentId = entry.fragmentId with
  | some work => withDeletions entry work
  | none => entry

/-- The next deletion vectors of all row groups that locations name. -/
def planDeletions (unparsed : String → String) (byFragment : HashMap Nat (List Nat)) :
    List RowGroupEntry → TableProgram R (List DelWork)
  | [] => pure []
  | entry :: entries =>
      match requestedOffsets byFragment entry with
      | none => planDeletions unparsed byFragment entries
      | some offsets => do
          let work ← planDeletion unparsed entry offsets
          let works ← planDeletions unparsed byFragment entries
          pure (work :: works)

/-- Write a new deletion vector. -/
def writeDeletions (work : DelWork) : TableProgram R Unit :=
  Script.emit (.write work.path (.deletions work.deletions))

/-- A deletion vector as a record of the log inlines it. -/
def deletionArtifact (work : DelWork) : StagedArtifact (File R) :=
  { path := work.path, hex := .deletions work.deletions }

variable {before after : TableStorage R}

@[simp]
theorem ends_loadDeletions {entry : RowGroupEntry} {offsets : DeletionVector} :
    (loadDeletions entry).Ends before offsets after ↔
      deletionsOf before entry = some offsets ∧ before = after := by
  rw [deletionsOf_eq_some]
  cases named : entry.deletes <;> simp [loadDeletions, named]

/-- The work is the next deletion vector of the row group in a directory. -/
structure DelWork.PlannedFor (storage : TableStorage R) (byFragment : HashMap Nat (List Nat))
    (entry : RowGroupEntry) (work : DelWork) : Prop where
  fragmentId : work.fragmentId = entry.fragmentId
  deletions : ∃ offsets old, requestedOffsets byFragment entry = some offsets ∧
    deletionsOf storage entry = some old ∧ work.deletions = old.unionOffsets offsets
  path : ∃ version, work.path = deletionPath entry.fragmentId version ∧
    (entry.deletes = none ∧ version = 1 ∨ ∃ path previous, entry.deletes = some path ∧
      parseVersion path = some previous ∧ version = previous + 1)

variable {byFragment : HashMap Nat (List Nat)}

theorem DelWork.PlannedFor.path_ne {storage : TableStorage R} {entry : RowGroupEntry}
    {work : DelWork} (planned : work.PlannedFor storage byFragment entry) :
    entry.deletes ≠ some work.path := by
  obtain ⟨version, path_eq, ⟨absent, -⟩ | ⟨path, previous, named, parsed, rfl⟩⟩ := planned.path
  · simp [absent]
  · rw [named, path_eq]
    exact fun same => deletionPath_succ_ne parsed entry.fragmentId (Option.some.inj same).symm

variable {unparsed : String → String}

private theorem nextVersion_eq_ok {entry : RowGroupEntry} {version : Nat}
    (next : nextVersion unparsed entry = .ok version) :
    entry.deletes = none ∧ version = 1 ∨ ∃ path previous, entry.deletes = some path ∧
      parseVersion path = some previous ∧ version = previous + 1 := by
  unfold nextVersion at next
  split at next
  · next absent => exact .inl ⟨absent, (Except.ok.inj next).symm⟩
  · next path named =>
      split at next
      · next previous parsed => exact .inr ⟨path, previous, named, parsed, (Except.ok.inj next).symm⟩
      · cases next

theorem plannedFor_of_ends {entry : RowGroupEntry} {offsets : List Nat} {work : DelWork}
    (requested : requestedOffsets byFragment entry = some offsets)
    (run : (planDeletion unparsed entry offsets).Ends before work after) :
    work.PlannedFor before byFragment entry ∧ before = after := by
  simp only [planDeletion, Script.ends_bind, ends_loadDeletions, Script.ends_lift,
    Script.ends_pure] at run
  obtain ⟨old, _, ⟨loaded, rfl⟩, version, _, ⟨next, rfl⟩, rfl, rfl⟩ := run
  exact ⟨⟨rfl, ⟨offsets, old, requested, loaded, rfl⟩, ⟨version, rfl, nextVersion_eq_ok next⟩⟩, rfl⟩

/-- Planning deletion vectors only reads; it plans one for each row group that locations name. -/
theorem plannedFor_of_ends_planDeletions {entries : List RowGroupEntry} {works : List DelWork}
    (run : (planDeletions unparsed byFragment entries).Ends before works after) :
    before = after ∧
      List.Forall₂ (fun entry work => DelWork.PlannedFor before byFragment entry work)
        (entries.filter fun entry => (requestedOffsets byFragment entry).isSome) works := by
  induction entries generalizing works with
  | nil =>
      obtain ⟨rfl, rfl⟩ := Script.ends_pure.mp run
      exact ⟨rfl, .nil⟩
  | cons entry entries ih =>
      rw [planDeletions] at run
      split at run
      · next absent =>
          rw [List.filter_cons_of_neg (by simp [absent])]
          exact ih run
      · next offsets requested =>
          simp only [Script.ends_bind, Script.ends_pure] at run
          obtain ⟨work, _, first, rest, _, later, rfl, rfl⟩ := run
          obtain ⟨planned, rfl⟩ := plannedFor_of_ends requested first
          obtain ⟨rfl, all_planned⟩ := ih later
          rw [List.filter_cons_of_pos (by simp [requested])]
          exact ⟨rfl, .cons planned all_planned⟩

/-! ## The two ways to commit -/

/-- Record of the log for a new manifest: the deletion vectors that changed, and the row groups
whose fragment ids the current manifest does not have. -/
def mutationRecord (current manifest : Manifest) (artifacts : List (StagedArtifact (File R))) :
    MutationRecord (File R) :=
  let currentIds := current.rowGroups.map RowGroupEntry.fragmentId
  { sequence := manifest.sequence
    baseSequence := current.sequence
    fragmentDeletes := manifest.rowGroups.filterMap fun entry =>
      match current.rowGroups.find? fun old => old.fragmentId = entry.fragmentId with
      | none => none
      | some old =>
          if old.deletes = entry.deletes then none
          else entry.deletes.map fun deletes =>
            { fragmentId := entry.fragmentId, deletes, deletedCount := entry.deletedCount }
    fragmentAdds := manifest.rowGroups.filter fun entry => entry.fragmentId ∉ currentIds
    indexGenerations := manifest.indexGenerations
    rowindexGeneration := manifest.rowindexGeneration
    nextFragmentId := manifest.nextFragmentId
    nextRowId := manifest.nextRowId
    stagedArtifacts := artifacts
    checksum := "" }

/-- Fold the log once enough records are pending. -/
def foldPending (writer : Writer R) (choices : Choices R) : TableProgram R Unit := do
  let storage ← Script.read
  if (MutationWal.readRecords storage).length ≥ writer.walCheckpointThreshold then do
    let _ ← MutationWal.checkpointLocked Except.ok choices.now
    pure ()
  else pure ()

/-- Commit a mutation by publishing its manifest. -/
def commitSwap (writer : Writer R) (choices : Choices R) (current manifest : Manifest)
    (intentFiles : List String) : TableProgram R Unit := do
  let manifest ← checkpointManifest writer.localRoot choices current manifest intentFiles
  publish choices manifest

/-- Commit a mutation by appending its record to the log. -/
def commitDeferred (writer : Writer R) (choices : Choices R) (mutation : MutationRecord (File R)) :
    TableProgram R Unit := do
  Script.emit (.appendRecord mutation)
  Script.emit (.deleteIntent choices.txnId)
  writer.foldPending choices

/-! ## Deleting rows -/

/-- Write the next deletion vector of each row group with offsets to delete. -/
def deleteRows (byFragment : HashMap Nat (List Nat)) :
    List RowGroupEntry → TableProgram R (List RowGroupEntry × List DelWork)
  | [] => pure ([], [])
  | entry :: entries =>
      match requestedOffsets byFragment entry with
      | none => do
          let (rest, works) ← deleteRows byFragment entries
          pure (entry :: rest, works)
      | some offsets => do
          let work ← planDeletion
            (fun path => "commit_deletes: cannot parse version from existing .del path \""
              ++ path ++ "\"; expected format _deletions/rg_<id>__v<N>.del") entry offsets
          writeDeletions work
          let (rest, works) ← deleteRows byFragment entries
          pure (withDeletions entry work :: rest, work :: works)

/-- Row ids of the rows to delete, and the fragments that carry no row ids. -/
def deletedRowIds (byFragment : HashMap Nat (List Nat)) :
    List RowGroupEntry → TableProgram R (List Nat × List Nat)
  | [] => pure ([], [])
  | entry :: entries =>
      match requestedOffsets byFragment entry with
      | none => deletedRowIds byFragment entries
      | some offsets => do
          let sidecar ← readSidecar entry.metaFile
          let (rowIds, legacy) ← deletedRowIds byFragment entries
          if sidecar.rowIds.isEmpty then pure (rowIds, entry.fragmentId :: legacy)
          else pure (offsets.filterMap (fun offset => (expand sidecar.rowIds)[offset]?) ++ rowIds,
            legacy)

/-- Path of the delta of a secondary index. -/
def indexDeltaPath (name : String) (sequence : Nat) : String :=
  "_indexes/" ++ name ++ "/delta__v" ++ String.ofList (zeroPad 9 (Nat.toDigits 10 sequence))
    ++ ".json"

/-- A unique index of this table that has a generation. -/
def hasUniqueIndex (writer : Writer R) (generations : HashMap String IndexRef)
    (index : CatalogIndex) : Bool :=
  index.table = writer.table && index.unique && index.indexType = "btree" &&
    (generations.lookup index.name).isSome

/-- Write a tombstone delta for each unique index of this table that has a generation. -/
def appendTombstones (writer : Writer R) (rowIds : List Nat) (nextSeq : Nat) :
    List CatalogIndex → HashMap String IndexRef →
      TableProgram R (HashMap String IndexRef × List String)
  | [], generations => pure (generations, [])
  | index :: indexes, generations =>
      if index.table = writer.table && index.unique && index.indexType = "btree" then
        match generations.lookup index.name with
        | none => appendTombstones writer rowIds nextSeq indexes generations
        | some reference => do
            let path := indexDeltaPath index.name nextSeq
            Script.emit (.write path (.indexDelta rowIds []))
            let (generations, paths) ← appendTombstones writer rowIds nextSeq indexes
              (generations.insert index.name { reference with deltas := reference.deltas ++ [path] })
            pure (generations, path :: paths)
      else appendTombstones writer rowIds nextSeq indexes generations

/-- Everything a delete writes and computes before it is committed one way or the other. -/
structure PreparedDelete where
  latestSeq : Nat
  current : Manifest
  manifest : Manifest
  works : List DelWork
  tombstonePaths : List String
  /-- Row ids in the tombstone deltas. -/
  rowIds : List Nat

/-- Write deletion vectors and tombstones, and build the manifest of a delete. -/
def prepareDelete (writer : Writer R) (byFragment : HashMap Nat (List Nat)) :
    TableProgram R PreparedDelete := do
  let (latestSeq, current) ← beginMutation
  let (rowGroups, works) ← deleteRows byFragment current.rowGroups
  let (rowIds, legacy) ← deletedRowIds byFragment current.rowGroups
  Script.ensure
    (!(writer.indexes.any (writer.hasUniqueIndex current.indexGenerations) && !legacy.isEmpty))
    (.other ("commit_deletes: fragment(s) " ++ toString legacy ++ " have no row_ids — cannot "
      ++ "produce a complete tombstone set for unique index on table '" ++ writer.table ++ "'; "
      ++ "rebuild the index after migrating legacy fragments"))
  let (generations, tombstonePaths) ← writer.appendTombstones rowIds (latestSeq + 1)
    (if rowIds.isEmpty then [] else writer.indexes) current.indexGenerations
  pure
    { latestSeq
      current
      manifest :=
        { formatVersion := 1
          sequence := latestSeq + 1
          schemaId := current.schemaId
          rowGroups
          rowCounts := current.rowCounts
          partitionValues := current.partitionValues
          nextRowId := current.nextRowId
          nextFragmentId := current.nextFragmentId
          rowindexGeneration := current.rowindexGeneration
          indexGenerations := generations }
      works
      tombstonePaths
      rowIds }

/-- The record that a deferred delete appends. -/
def deleteRecord (byFragment : HashMap Nat (List Nat)) (prepared : PreparedDelete) :
    MutationRecord (File R) :=
  { sequence := prepared.latestSeq + 1
    baseSequence := prepared.latestSeq
    fragmentDeletes :=
      (prepared.manifest.rowGroups.filter fun entry =>
        (requestedOffsets byFragment entry).isSome).filterMap fun entry =>
          entry.deletes.map fun deletes =>
            { fragmentId := entry.fragmentId, deletes, deletedCount := entry.deletedCount }
    fragmentAdds := []
    indexGenerations := prepared.manifest.indexGenerations
    rowindexGeneration := none
    nextFragmentId := 0
    nextRowId := prepared.current.nextRowId
    stagedArtifacts := prepared.works.map deletionArtifact ++
      prepared.tombstonePaths.map fun path =>
        { path, hex := .indexDelta prepared.rowIds [] }
    checksum := "" }

/-- Mark rows as deleted. -/
def commitDeletes (writer : Writer R) (choices : Choices R) (byFragment : HashMap Nat (List Nat)) :
    TableProgram R Unit := do
  let prepared ← writer.prepareDelete byFragment
  if writer.walMode then do
    Script.emit (.appendRecord (deleteRecord byFragment prepared))
    writer.foldPending choices
  else do
    let files := prepared.works.map DelWork.path ++ prepared.tombstonePaths
    Script.emit (.writeIntent choices.txnId files)
    writer.commitSwap choices prepared.current prepared.manifest files

/-! ## Updating rows -/

/-- Locations and rows of an update, sorted by row id. -/
def sortByRowId (locs : List MatchLoc) (rows : List R) : List (MatchLoc × R) :=
  (locs.zip rows).insertionSort fun left right => left.1.rowId ≤ right.1.rowId

/-- Row-index segments of the rows of a patch fragment.  Offsets have 32 bits. -/
def patchSegments (fragmentId : Nat) (rowIds : List Nat) : List AddrSegment :=
  coalesce (rowIds.zipIdx.map fun row => (row.1, fragmentId, row.2 % 2 ^ 32))

/-- A row-index generation with one more delta. -/
def pushDelta (generation : Option RowIndexRef) (path : String) : RowIndexRef :=
  { generation.getD {} with deltas := (generation.getD {}).deltas ++ [path] }

/-- Everything an update or a merge writes and computes before it is committed. -/
structure PreparedMutation (R : Type) where
  current : Manifest
  manifest : Manifest
  intentFiles : List String
  artifacts : List (StagedArtifact (File R))

/-- Commit an update or a merge one way or the other. -/
def commitPrepared (writer : Writer R) (choices : Choices R) (prepared : PreparedMutation R) :
    TableProgram R Unit :=
  if writer.walMode then
    writer.commitDeferred choices
      (mutationRecord prepared.current prepared.manifest prepared.artifacts)
  else writer.commitSwap choices prepared.current prepared.manifest prepared.intentFiles

/-- Stage the patch fragment of an update; its names must be free. -/
def stagePatch (rgId : String) (rows : List R) (sidecar : RowGroupMeta) : TableProgram R Unit := do
  Script.emit (.write (partPath "incoming" (dataFilename rgId)) (.data rows))
  Script.emit (.write (partPath "incoming" (metaFilename rgId)) (.sidecar sidecar))
  let storage ← Script.read
  Script.ensure
    (!(storage.fileExists (dataFilename rgId) || storage.fileExists (metaFilename rgId)))
    (.other "commit_update: patch rg_id collision; retry")

/-- Write the patch fragment, deletion vectors, row-index delta and index deltas of an update, and
build its manifest. -/
def prepareUpdate (writer : Writer R) (choices : Choices R) (sorted : List (MatchLoc × R))
    (setColumns : List String) : TableProgram R (PreparedMutation R) := do
  let locs := sorted.map Prod.fst
  let rows := sorted.map Prod.snd
  let rowIds := locs.map MatchLoc.rowId
  let (latestSeq, current) ← beginMutation
  let nextSeq := latestSeq + 1
  let rgId := choices.rgId 0 0
  let sidecar ← Script.lift (writer.computeRowGroupMeta rgId rows [.sorted rowIds])
  stagePatch rgId rows sidecar
  let works ← planDeletions
    (fun path => "commit_update: cannot parse version from .del path \"" ++ path ++ "\"")
    (offsetsByFragment locs) current.rowGroups
  let deltaPath := rowIndexDeltaPath nextSeq
  let files := [dataFilename rgId, metaFilename rgId] ++ works.map DelWork.path ++ [deltaPath]
  Script.emit (.writeIntent choices.txnId files)
  renameFile (partPath "incoming" (dataFilename rgId)) (dataFilename rgId)
  renameFile (partPath "incoming" (metaFilename rgId)) (metaFilename rgId)
  Script.each writeDeletions works
  let segments := sortSegments (patchSegments current.nextFragmentId rowIds)
  Script.emit (.write deltaPath (.rowIndex segments))
  let manifest : Manifest :=
    { formatVersion := 1
      sequence := nextSeq
      schemaId := current.schemaId
      rowGroups := current.rowGroups.map (applyWork works) ++
        [{ data := dataFilename rgId, metaFile := metaFilename rgId
           fragmentId := current.nextFragmentId }]
      partitionValues := current.partitionValues
      nextRowId := current.nextRowId
      nextFragmentId := current.nextFragmentId + 1
      rowindexGeneration := some (pushDelta current.rowindexGeneration deltaPath)
      indexGenerations := current.indexGenerations }
  let storage ← Script.read
  let done ← Script.lift
    (writer.maintainer.maintainOnUpdate storage manifest setColumns rows rowIds)
  writeIndexFiles done
  Script.provided (!done.paths.isEmpty)
    (Script.emit (.writeIntent choices.txnId (files ++ done.paths)))
  pure
    { current
      manifest := { manifest with indexGenerations := done.generations }
      intentFiles := files ++ done.paths
      artifacts := works.map deletionArtifact ++ [{ path := deltaPath, hex := .rowIndex segments }] }

/-- Replace rows in place: the new rows keep their row ids. -/
def commitUpdate (writer : Writer R) (choices : Choices R) (batch : RowBatch R)
    (locs : List MatchLoc) (setColumns : List String) : TableProgram R Unit := do
  Script.ensure (!(batch.rows.isEmpty || locs.isEmpty))
    (.other "commit_update: rows and locs must be non-empty")
  Script.ensure (batch.rows.length = locs.length)
    (.other ("commit_update: rows (" ++ toString batch.rows.length ++ ") and locs ("
      ++ toString locs.length ++ ") must have equal length"))
  Script.ensure batch.schemaMatches
    (.schemaMismatch "schema" "match writer schema names and types" writer.table)
  let prepared ← writer.prepareUpdate choices (sortByRowId locs batch.rows) setColumns
  writer.commitPrepared choices prepared

/-! ## Merging rows -/

/-- A fragment that a merge writes. -/
structure MergeFragment (R : Type) where
  rgId : String
  fragmentId : Nat
  rows : List R
  sidecar : RowGroupMeta

/-- Manifest entry of a merge fragment. -/
def MergeFragment.entry (fragment : MergeFragment R) : RowGroupEntry :=
  { data := dataFilename fragment.rgId, metaFile := metaFilename fragment.rgId
    fragmentId := fragment.fragmentId }

/-- Stage a merge fragment and rename it to its final name, which must be free. -/
def stageMergeFragment (fragment : MergeFragment R) : TableProgram R Unit := do
  let rgId := fragment.rgId
  let storage ← Script.read
  Script.ensure
    (!(storage.fileExists (dataFilename rgId) || storage.fileExists (metaFilename rgId)))
    (.other "commit_merge: fragment rg_id collision; retry")
  Script.emit (.write (partPath "incoming" (dataFilename rgId)) (.data fragment.rows))
  Script.emit (.write (partPath "incoming" (metaFilename rgId)) (.sidecar fragment.sidecar))
  renameFile (partPath "incoming" (dataFilename rgId)) (dataFilename rgId)
  renameFile (partPath "incoming" (metaFilename rgId)) (metaFilename rgId)

/-- The patch fragment of the matched rows of a merge. -/
def mergePatch (writer : Writer R) (choices : Choices R) (current : Manifest)
    (sorted : List (MatchLoc × R)) : Except IcefallDBError (List (MergeFragment R)) :=
  if sorted.isEmpty then .ok []
  else do
    let rowIds := sorted.map fun row => row.1.rowId
    let sidecar ← writer.computeRowGroupMeta (choices.rgId 0 0) (sorted.map Prod.snd)
      [.sorted rowIds]
    .ok [{ rgId := choices.rgId 0 0, fragmentId := current.nextFragmentId
           rows := sorted.map Prod.snd, sidecar }]

/-- The fragment of the unmatched rows of a merge. -/
def mergeInsert (writer : Writer R) (choices : Choices R) (current : Manifest)
    (patch : List (MergeFragment R)) (inserts : RowBatch R) :
    Except IcefallDBError (List (MergeFragment R)) :=
  if inserts.rows.isEmpty then .ok []
  else if inserts.schemaMatches then do
    let sidecar ← writer.computeRowGroupMeta (choices.rgId 1 0) inserts.rows
      [.range current.nextRowId inserts.rows.length]
    .ok [{ rgId := choices.rgId 1 0, fragmentId := current.nextFragmentId + patch.length
           rows := inserts.rows, sidecar }]
  else .error (.schemaMismatch "schema" "match writer schema" writer.table)

theorem mergePatch_eq_ok {writer : Writer R} {choices : Choices R} {current : Manifest}
    {sorted : List (MatchLoc × R)} {patch : List (MergeFragment R)}
    (patched : writer.mergePatch choices current sorted = .ok patch) :
    (sorted = [] ∧ patch = []) ∨
      sorted ≠ [] ∧ ∃ sidecar, writer.computeRowGroupMeta (choices.rgId 0 0) (sorted.map Prod.snd)
          [.sorted (sorted.map fun row => row.1.rowId)] = .ok sidecar ∧
        patch = [{ rgId := choices.rgId 0 0, fragmentId := current.nextFragmentId
                   rows := sorted.map Prod.snd, sidecar }] := by
  unfold mergePatch at patched
  split at patched
  · next empty => exact .inl ⟨List.isEmpty_iff.mp empty, (Except.ok.inj patched).symm⟩
  · next nonempty =>
      obtain ⟨sidecar, computed, patched⟩ := Script.except_bind_eq_ok.mp patched
      refine .inr ⟨?_, sidecar, computed, (Except.ok.inj patched).symm⟩
      simpa using nonempty

theorem mergeInsert_eq_ok {writer : Writer R} {choices : Choices R} {current : Manifest}
    {patch inserted : List (MergeFragment R)} {inserts : RowBatch R}
    (inserted_ok : writer.mergeInsert choices current patch inserts = .ok inserted) :
    (inserts.rows = [] ∧ inserted = []) ∨
      inserts.rows ≠ [] ∧ ∃ sidecar, writer.computeRowGroupMeta (choices.rgId 1 0) inserts.rows
          [.range current.nextRowId inserts.rows.length] = .ok sidecar ∧
        inserted = [{ rgId := choices.rgId 1 0
                      fragmentId := current.nextFragmentId + patch.length
                      rows := inserts.rows, sidecar }] := by
  unfold mergeInsert at inserted_ok
  split at inserted_ok
  · next empty => exact .inl ⟨List.isEmpty_iff.mp empty, (Except.ok.inj inserted_ok).symm⟩
  · next nonempty =>
      split at inserted_ok
      · obtain ⟨sidecar, computed, inserted_ok⟩ := Script.except_bind_eq_ok.mp inserted_ok
        refine .inr ⟨?_, sidecar, computed, (Except.ok.inj inserted_ok).symm⟩
        simpa using nonempty
      · cases inserted_ok

/-- Row-index generation of a merge: one more delta if rows were relocated.  A generation that
would stay empty is not created. -/
def mergeGeneration (current : Manifest) (deltaPath : Option String) : Option RowIndexRef :=
  let generation :=
    match deltaPath with
    | some path => pushDelta current.rowindexGeneration path
    | none => current.rowindexGeneration.getD {}
  if generation.base.isNone && generation.deltas.isEmpty then current.rowindexGeneration
  else some generation

/-- Write the fragments, deletion vectors, row-index delta and indexes of a merge, and build its
manifest. -/
def prepareMerge (writer : Writer R) (choices : Choices R) (sorted : List (MatchLoc × R))
    (inserts : RowBatch R) : TableProgram R (PreparedMutation R) := do
  let locs := sorted.map Prod.fst
  let rowIds := locs.map MatchLoc.rowId
  let (latestSeq, current) ← beginMutation
  let nextSeq := latestSeq + 1
  let patch ← Script.lift (writer.mergePatch choices current sorted)
  let inserted ← Script.lift (writer.mergeInsert choices current patch inserts)
  let works ← planDeletions
    (fun path => "commit_merge: cannot parse version from .del path \"" ++ path ++ "\"")
    (offsetsByFragment locs) current.rowGroups
  let deltaPath := if sorted.isEmpty then none else some (rowIndexDeltaPath nextSeq)
  let fragments := patch ++ inserted
  let files := (fragments.flatMap fun fragment =>
      [dataFilename fragment.rgId, metaFilename fragment.rgId])
    ++ works.map DelWork.path ++ deltaPath.toList
  Script.emit (.writeIntent choices.txnId files)
  Script.each stageMergeFragment fragments
  Script.each writeDeletions works
  Script.each
    (fun path => Script.emit (.write path
      (.rowIndex (sortSegments (patchSegments current.nextFragmentId rowIds)))))
    deltaPath.toList
  let manifest : Manifest :=
    { formatVersion := 1
      sequence := nextSeq
      schemaId := current.schemaId
      rowGroups := current.rowGroups.map (applyWork works) ++
        fragments.map MergeFragment.entry
      partitionValues := current.partitionValues
      nextRowId := current.nextRowId + inserts.rows.length
      nextFragmentId := current.nextFragmentId + fragments.length
      rowindexGeneration := mergeGeneration current deltaPath
      indexGenerations := current.indexGenerations }
  let (manifest, intentFiles) ← writer.buildIndexesIntoManifest choices manifest current files false
  pure { current, manifest, intentFiles, artifacts := [] }

/-- Update matched rows and insert unmatched ones in one commit. -/
def commitMerge (writer : Writer R) (choices : Choices R) (matched : List R)
    (locs : List MatchLoc) (inserts : RowBatch R) : TableProgram R Unit := do
  Script.ensure (locs.isEmpty || matched.length = locs.length)
    (.other ("commit_merge: matched_rows (" ++ toString matched.length ++ ") and matched_locs ("
      ++ toString locs.length ++ ") must have equal length"))
  Script.ensure (!(locs.isEmpty && inserts.rows.isEmpty))
    (.other "commit_merge: nothing to commit (no matched rows and no inserts)")
  let prepared ← writer.prepareMerge choices (sortByRowId locs matched) inserts
  writer.commitPrepared choices prepared

end Writer

/-- The table of integers after a first commit of two rows. -/
def Integers.twoRows : TableStorage Int :=
  (writer.commitMerge (choices 0) [] [] { rows := [10, 20] }).final emptyTable

end IcefallDB
