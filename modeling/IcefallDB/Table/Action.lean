import IcefallDB.Compactor.Frame
import IcefallDB.Gc
import IcefallDB.Writer.Agreement

/-!
# Runs of a table

What happens to a table directory over time: commits, folds of the mutation log, collections of
garbage, and compactions.  Each action is what one process does while it holds the writer lock.
A compaction holds it twice, and its rewriting in between is lock-free; the parts of a compaction
are actions of their own, so that other actions can come between any two of them.
-/

namespace IcefallDB

/-- One action on a table. -/
inductive TableAction (R : Type)
  /-- Append buffered batches. -/
  | commit (writer : Writer R) (choices : Choices R) (buffer : List (List R))
  /-- Replace the table by buffered batches. -/
  | replace (writer : Writer R) (choices : Choices R) (buffer : List (List R))
  | insertParquet (writer : Writer R) (choices : Choices R) (source : Writer.ParquetSource R)
  /-- Delete, update or merge rows. -/
  | mutate (writer : Writer R) (choices : Choices R) (mutation : Mutation R)
  /-- Fold the mutation log. -/
  | fold (now : String)
  /-- A compaction pins its source. -/
  | pin (now : String)
  /-- A compaction writes its intent. -/
  | beginStaging (choices : Choices R) (pinned : Manifest)
  /-- A compaction stages one output row group. -/
  | stageChunk (compactor : Compactor R) (choices : Choices R) (schema : Schema)
      (partitionValues : Option (HashMap String Scalar)) (state : Compactor.StagingState)
      (chunk : List R × List Nat)
  /-- A compaction publishes what it has staged. -/
  | publish (compactor : Compactor R) (choices : Choices R) (schema : Schema)
      (newSchemaId : Option Nat) (pinned : Manifest) (state : Compactor.StagingState)
  /-- A compaction that found the pointer moved removes the files it has staged. -/
  | abandon (choices : Choices R) (previousSchemaId : Nat) (newSchemaId : Option Nat)
      (staged : List String)
  /-- Collect garbage. -/
  | collect (collector : GarbageCollector) (now : String)

namespace TableAction

variable {R : Type}

/-- What a compaction has noted down by the time it finds the pointer moved. -/
def stagingNotes (choices : Choices R) (staged : List String) :
    List (StorageEffect (File R) (File R)) :=
  .note (.intent choices.txnId) :: staged.map fun path => .note (.stagedFile path)

/-- The program of an action. -/
def program : TableAction R → TableProgram R Unit
  | commit writer choices buffer => writer.commit choices buffer
  | replace writer choices buffer => writer.replace choices buffer
  | insertParquet writer choices source => do
      let _ ← writer.insertParquet choices source
      pure ()
  | mutate writer choices mutation => mutation.commit writer choices
  | fold now => do
      let _ ← MutationWal.checkpointLocked Except.ok now
      pure ()
  | pin now => do
      let _ ← Compactor.pinSource now
      pure ()
  | beginStaging choices pinned => do
      let _ ← Compactor.beginStaging choices pinned
      pure ()
  | stageChunk compactor choices schema partitionValues state chunk => do
      let _ ← compactor.stageChunk choices schema partitionValues state chunk
      pure ()
  | publish compactor choices schema newSchemaId pinned state => do
      compactor.publishCompaction choices schema newSchemaId pinned state
      Script.emit (.deleteIntent choices.txnId)
  | abandon choices previousSchemaId newSchemaId staged =>
      Compactor.rollbackCompaction previousSchemaId newSchemaId (stagingNotes choices staged)
  | collect collector now => do
      let _ ← collector.run now
      pure ()

end TableAction

end IcefallDB
