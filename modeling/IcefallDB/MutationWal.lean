import IcefallDB.Storage

/-!
# The mutation log

Deferred mutations live in a log on top of the manifest the pointer designates.  The live manifest
is that manifest with every newer record applied; folding the log writes the live manifest, moves
the pointer and clears the log.  `decode` reads the inlined contents of a staged artifact.
-/

namespace IcefallDB

namespace MutationWal

variable {β φ : Type}

/-! ## Replaying records -/

/-- Replace the deletion vector of the first row group with the given fragment id. -/
def setDeletes (update : FragmentDelete) : List RowGroupEntry → List RowGroupEntry
  | [] => []
  | entry :: entries =>
      if entry.fragmentId = update.fragmentId then
        { entry with deletes := some update.deletes, deletedCount := update.deletedCount } :: entries
      else entry :: setDeletes update entries

/-- Row groups after the deletion-vector replacements of a record. -/
def applyDeletes (updates : List FragmentDelete) (rowGroups : List RowGroupEntry) :
    List RowGroupEntry :=
  updates.foldl (fun groups update => setDeletes update groups) rowGroups

/-- Apply one record to a manifest. -/
def apply (base : Manifest) (record : MutationRecord β) : Manifest :=
  let manifest := { base with
    sequence := record.sequence
    rowGroups := applyDeletes record.fragmentDeletes base.rowGroups ++ record.fragmentAdds
    indexGenerations := record.indexGenerations
    rowindexGeneration :=
      if record.rowindexGeneration.isSome then record.rowindexGeneration
      else base.rowindexGeneration
    nextFragmentId :=
      if record.nextFragmentId ≠ 0 then record.nextFragmentId else base.nextFragmentId
    nextRowId := if record.nextRowId ≠ 0 then record.nextRowId else base.nextRowId
    rowCounts := none
    checkpoint := none }
  { manifest with checksum := manifest.computeChecksum }

@[simp]
theorem apply_sequence (base : Manifest) (record : MutationRecord β) :
    (apply base record).sequence = record.sequence :=
  rfl

/-- The durable records, sorted by sequence; records of one sequence keep their order. -/
def readRecords (storage : Storage β φ) : List (MutationRecord β) :=
  storage.log.insertionSort fun left right => left.sequence ≤ right.sequence

section Programs

variable (decode : β → Except String φ)

/-- Write an inlined artifact whose file is missing. -/
def materializeArtifact (artifact : StagedArtifact β) : Program β φ Unit := do
  let storage ← Script.read
  if storage.fileExists artifact.path then pure ()
  else
    match decode artifact.hex with
    | .ok contents => Script.emit (.write artifact.path contents)
    | .error reason =>
        Script.fail (.other
          ("mutation_wal: bad artifact hex for " ++ artifact.path ++ ": " ++ reason))

/-- Write every inlined artifact of a record whose file is missing. -/
def materialize (record : MutationRecord β) : Program β φ Unit :=
  Script.each (materializeArtifact decode) record.stagedArtifacts

/-- Materialize and apply a record that is newer than the manifest. -/
def replayRecord (manifest : Manifest) (record : MutationRecord β) : Program β φ Manifest :=
  if record.sequence > manifest.sequence then do
    materialize decode record
    pure (apply manifest record)
  else pure manifest

/-- The base manifest folded with every newer record, in sequence order. -/
def liveManifest (base : Manifest) : Program β φ Manifest := do
  let storage ← Script.read
  Script.fold (replayRecord decode) base (readRecords storage)

/-- The manifest the pointer designates. -/
def loadPointerManifest : Program β φ Manifest := do
  let storage ← Script.read
  match storage.pointer with
  | .missing => Script.fail (.notFound "_manifest.json")
  | .notJson => Script.fail (.serialization "_manifest.json")
  | .noLatest => Script.fail (.invalidManifestPointer "missing or invalid 'latest'")
  | .latest sequence =>
      match storage.manifests.lookup sequence with
      | some manifest => pure manifest
      | none => Script.fail (.notFound (Manifest.filename sequence))

/-- The greatest sequence of a manifest file below a bound. -/
def highestBelow (bound : Nat) (sequences : List Nat) : Option Nat :=
  sequences.foldl
    (fun best sequence =>
      if sequence < bound && best.all (· < sequence) then some sequence else best)
    none

/-- Checksum of the closest manifest file before a sequence. -/
def parentManifestChecksum (storage : Storage β φ) (nextSeq : Nat) : Option String :=
  if nextSeq ≤ 1 then none
  else
    match storage.manifests.lookup (nextSeq - 1) with
    | some manifest => some manifest.checksum
    | none => do
        let predecessor ← highestBelow nextSeq storage.manifests.keys
        let manifest ← storage.manifests.lookup predecessor
        some manifest.checksum

/-- Write the folded manifest, linked to its predecessor, move the pointer to it and clear the
log. -/
def publishFolded (now : String) (live : Manifest) : Program β φ Bool := do
  let storage ← Script.read
  let folded := live.finalize (parentManifestChecksum storage live.sequence) now
  Script.emit (.writeManifest folded.sequence folded)
  Script.emit (.writePointer folded.sequence)
  Script.emit .clearLog
  pure true

/-- Fold the log into a manifest, move the pointer to it and clear the log.  Returns `false` when
the log is empty. -/
def checkpointLocked (now : String) : Program β φ Bool := do
  let storage ← Script.read
  let records := readRecords storage
  if records.isEmpty then pure false
  else do
    let base ← loadPointerManifest
    if records.all fun record => record.sequence ≤ base.sequence then do
      Script.emit .clearLog
      pure true
    else do
      let live ← Script.fold (replayRecord decode) base records
      publishFolded now live

/-- The live manifest of a table: the pointer manifest with the log replayed onto it. -/
def currentManifest : Program β φ Manifest := do
  let base ← loadPointerManifest
  liveManifest decode base

end Programs

end MutationWal

end IcefallDB
