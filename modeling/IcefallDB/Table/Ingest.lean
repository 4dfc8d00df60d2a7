import IcefallDB.Lib.Run
import IcefallDB.Table.Contents

/-!
# Ingesting batches

Successive writers of one table buffer batches and commit them.  A commit can crash or run into a
storage failure anywhere before it moves the pointer, and what is rolled back after a failure can
fail too.  The table then holds the batches of the successful commits, unless the very first manifest
stays behind a pointer that designates none: the next load repairs the pointer with it.
-/

namespace IcefallDB

variable {R : Type}

/-- A batch to insert. -/
structure Batch (R : Type) where
  /-- The schema of the batch is the one of the table. -/
  fits : Bool
  rows : List R

namespace Writer

/-- Buffer a batch, unless it is empty. -/
def insertBatch (writer : Writer R) (buffer : List (List R)) (batch : Batch R) :
    Except IcefallDBError (List (List R)) :=
  if !batch.fits then .error (.schemaMismatch "schema" "match writer schema" writer.table)
  else if batch.rows.isEmpty then .ok buffer
  else .ok (buffer ++ [batch.rows])

end Writer

/-- A writer of a table with an encoding and a schema. -/
structure TableWriter (encoding : Kernel R) (layout : Schema) extends Writer R where
  kernel_eq : kernel = encoding
  schema_eq : schema = layout

/-- A table with the writer that has it open. -/
structure Ingestion (kernel : Kernel R) (schema : Schema) where
  storage : TableStorage R
  writer : TableWriter kernel schema
  /-- Batches that the writer has buffered. -/
  buffer : List (List R)
  /-- Batches of the commits that succeeded. -/
  committed : List (List R)

/-- What can happen to the table and its writer. -/
inductive IngestionEvent (kernel : Kernel R) (schema : Schema)
  /-- The writer is dropped and another one is opened. -/
  | openWriter (writer : TableWriter kernel schema)
  | insertBatch (batch : Batch R)
  | commit (choices : Choices R)
  /-- A commit crashes after some of its effects, and the writer with it. -/
  | crash (choices : Choices R) (steps : Nat)
  /-- The storage fails after some effects of a commit, and then undoes some of what the commit rolls
  back. -/
  | fail (choices : Choices R) (steps : Nat) (undone : Nat → Bool)

namespace Ingestion

variable {kernel : Kernel R} {schema : Schema}

/-- A new table. -/
def new (writer : TableWriter kernel schema) : Ingestion kernel schema where
  storage :=
    { pointer := .latest 0
      manifests := ∅
      log := []
      files := AList.insert (schemaFilename schema.schemaId) (.schema schema.schemaId) ∅
      intents := ∅
      schemaPointer := some schema.schemaId }
  writer
  buffer := []
  committed := []

/-- What an interrupted commit has performed. -/
def performed (state : Ingestion kernel schema) (choices : Choices R) (steps : Nat) :
    List (StorageEffect (File R) (File R)) :=
  (state.writer.beforePointer choices state.buffer state.storage).take steps

/-- What the rollback of a failed commit gets done. -/
def rolledBack (state : Ingestion kernel schema) (choices : Choices R) (steps : Nat)
    (undone : Nat → Bool) : List (StorageEffect (File R) (File R)) :=
  let effects := (Writer.rollbackCommit (state.performed choices steps)
    (Script.performAll (state.performed choices steps) state.storage)).1
  (effects.zipIdx.filter fun effect => undone effect.2).map Prod.fst

/-- Let an event happen. -/
def perform (state : Ingestion kernel schema) : IngestionEvent kernel schema →
    Ingestion kernel schema
  | .openWriter writer => { state with writer, buffer := [] }
  | .insertBatch batch =>
      match state.writer.insertBatch state.buffer batch with
      | .ok buffer => { state with buffer }
      | .error _ => state
  | .commit choices =>
      let commit := state.writer.commit choices state.buffer
      match (commit state.storage).2 with
      | .ok _ =>
          { state with
            storage := commit.final state.storage
            buffer := []
            committed := state.committed ++ state.buffer }
      | .error _ => { state with storage := commit.final state.storage }
  | .crash choices steps =>
      { state with
        storage := Script.performAll (state.performed choices steps) state.storage
        buffer := [] }
  | .fail choices steps undone =>
      { state with
        storage := Script.performAll
          (state.performed choices steps ++ state.rolledBack choices steps undone) state.storage }

/-- Reading the table finds the rows of the committed batches, and an empty commit changes nothing. -/
structure Refines (state : Ingestion kernel schema) : Prop where
  reads : (Reader.readTable kernel schema.schemaId).Ends state.storage state.committed.flatten
    state.storage
  idle : ∀ (writer : TableWriter kernel schema) choices,
    (writer.commit choices []).Ends state.storage () state.storage

/-- An interrupted commit of a table without a manifest leaves none behind: it stops before it writes
one, or its rollback deletes it. -/
def Guarded (state : Ingestion kernel schema) (event : IngestionEvent kernel schema) : Prop :=
  state.storage.pointer = .latest 0 →
    match event with
    | .crash choices steps =>
        ∀ sequence manifest, .writeManifest sequence manifest ∉ state.performed choices steps
    | .fail choices steps undone =>
        (∀ sequence manifest, .writeManifest sequence manifest ∉ state.performed choices steps) ∨
          ∃ sequence, .deleteManifest sequence ∈ state.rolledBack choices steps undone
    | _ => True

/-- The table holds the committed batches, and nothing was ever mutated. -/
def Holds (state : Ingestion kernel schema) : Prop :=
  (∃ latestSeq current, Contains kernel schema.schemaId state.storage latestSeq current
    state.committed.flatten) ∧ state.storage.log = []

variable {state : Ingestion kernel schema} {latestSeq : Nat} {current : Manifest}

theorem holds_new (writer : TableWriter kernel schema) : (new writer).Holds := by
  refine ⟨⟨0, emptyManifest, ?_, [], .nil, rfl⟩, rfl⟩
  exact .fresh rfl rfl (fun _ => rfl) rfl rfl

/-- What the table holds, in terms of its writer. -/
theorem contains_writer (writer : TableWriter kernel schema) {storage : TableStorage R}
    {rows : List R} :
    Contains writer.kernel writer.toWriter.schema.schemaId storage latestSeq current rows ↔
      Contains kernel schema.schemaId storage latestSeq current rows := by
  rw [writer.kernel_eq, writer.schema_eq]

/-- What an interrupted commit and its rollback did leaves the contents as they were, unless the first
manifest stays behind. -/
theorem contains_rolledBack (contains : Contains kernel schema.schemaId state.storage latestSeq
    current state.committed.flatten) {choices : Choices R} {steps : Nat} {undone : Nat → Bool}
    (guarded : state.Guarded (.fail choices steps undone)) :
    Contains kernel schema.schemaId (Script.performAll
      (state.performed choices steps ++ state.rolledBack choices steps undone) state.storage) latestSeq
        current state.committed.flatten ∧
      (Script.performAll (state.performed choices steps ++ state.rolledBack choices steps undone)
        state.storage).log = state.storage.log := by
  apply Writer.contains_interrupted contains _ guarded
  intro effect member
  obtain ⟨⟨_, position⟩, listed, rfl⟩ := List.mem_map.mp member
  exact List.fst_mem_of_mem_zipIdx (List.mem_of_mem_filter listed)

/-- Every event under the condition keeps the committed batches in the table. -/
theorem holds_perform (unpartitioned : schema.partitionBy.getD [] = [])
    {event : IngestionEvent kernel schema} (holds : state.Holds) (guarded : state.Guarded event) :
    (state.perform event).Holds := by
  obtain ⟨⟨latestSeq, current, contains⟩, log⟩ := holds
  cases event with
  | openWriter writer => exact ⟨⟨latestSeq, current, contains⟩, log⟩
  | insertBatch batch =>
      rw [perform]
      split
      · exact ⟨⟨latestSeq, current, contains⟩, log⟩
      · exact ⟨⟨latestSeq, current, contains⟩, log⟩
  | commit choices =>
      have columns : state.writer.partitionColumns = [] := by
        rw [Writer.partitionColumns, state.writer.schema_eq]
        exact unpartitioned
      simp only [perform]
      split
      · next success =>
          obtain ⟨⟨sequence, manifest, added, appends, appended⟩, same_log⟩ :=
            Writer.contains_of_ends_commit ((contains_writer state.writer).mpr contains)
              ⟨success, rfl⟩
          rw [appends.2 columns, ← List.flatten_append] at appended
          exact ⟨⟨sequence, manifest, (contains_writer state.writer).mp appended⟩,
            same_log.trans log⟩
      · next failed =>
          obtain ⟨kept, same_log⟩ := Writer.contains_of_failed_commit contains failed
          exact ⟨⟨latestSeq, current, kept⟩, same_log.trans log⟩
  | crash choices steps =>
      obtain ⟨kept, same_log⟩ := Writer.contains_crashed contains guarded
      exact ⟨⟨latestSeq, current, kept⟩, same_log.trans log⟩
  | fail choices steps undone =>
      obtain ⟨kept, same_log⟩ := contains_rolledBack contains guarded
      exact ⟨⟨latestSeq, current, kept⟩, same_log.trans log⟩

/-- Insertions, commits and crashes refine a list of batches while no interrupted commit leaves the
first manifest behind. -/
theorem refines_of_guarded (unpartitioned : schema.partitionBy.getD [] = [])
    {writer : TableWriter kernel schema} {events : List (IngestionEvent kernel schema)}
    (guarded : Run.Along perform Guarded (new writer) events) :
    (Run.after perform (new writer) events).Refines := by
  obtain ⟨⟨latestSeq, current, contains⟩, log⟩ := Run.invariant
    (fun _ _ holds guarded => holds_perform unpartitioned holds guarded) (holds_new writer) guarded
  have loads := contains.settled.loads_of_log log
  constructor
  · have reads := Reader.ends_readTable contains
    rwa [loads.final] at reads
  · intro writer choices
    rw [Script.ends_of_silent ((Writer.commit_nil contains.settled).trans _)]
    · exact ⟨rfl, rfl⟩
    · rw [loads]

/-- A writer of the table of integers. -/
def numbers : TableWriter Integers.kernel Integers.writer.schema :=
  { Integers.writer with kernel_eq := rfl, schema_eq := rfl }

/-- Two commits with a crash at the beginning of another one in between. -/
def crashedSecondCommit : List (IngestionEvent Integers.kernel Integers.writer.schema) :=
  [.insertBatch { fits := true, rows := [20, 10] }, .commit (Integers.choices 0),
    .insertBatch { fits := true, rows := [30] }, .crash (Integers.choices 1) 0,
    .openWriter numbers, .insertBatch { fits := true, rows := [40] }, .commit (Integers.choices 2)]

theorem crashedSecondCommit_refines :
    (Run.after perform (new numbers) crashedSecondCommit).Refines := by
  apply refines_of_guarded rfl
  exact ⟨fun _ => trivial, fun _ => trivial, fun _ => trivial, fun _ => nofun, fun _ => trivial,
    fun _ => trivial, fun _ => trivial, trivial⟩

/-- A first commit that crashes after its manifest was written, and a commit of nothing. -/
def crashedFirstCommit : List (IngestionEvent Integers.kernel Integers.writer.schema) :=
  [.insertBatch { fits := true, rows := [30] }, .crash (Integers.choices 0) 100,
    .openWriter numbers, .commit (Integers.choices 1)]

private theorem crashedFirstCommit_reads :
    (Reader.readTable Integers.kernel Integers.writer.schema.schemaId
      (Run.after perform (new numbers) crashedFirstCommit).storage).2 = .ok [30] := by
  decide +kernel

/-- A commit of nothing adds no batch. -/
theorem committed_commit_nil (idle : state.buffer = []) (choices : Choices R) :
    (state.perform (.commit choices)).committed = state.committed := by
  simp only [perform]
  split
  · rw [idle, List.append_nil]
  · rfl

/-- The rows of the crashed commit are in the table. -/
theorem crashedFirstCommit_not_refines :
    ¬(Run.after perform (new numbers) crashedFirstCommit).Refines := by
  rintro ⟨⟨reads, -⟩, -⟩
  have nothing : (Run.after perform (new numbers) crashedFirstCommit).committed = [] := by
    -- `simp only` would have the kernel compare the states by running the commits
    rw [crashedFirstCommit, Run.after_cons, Run.after_cons, Run.after_cons, Run.after_cons,
      Run.after_nil, committed_commit_nil rfl]
    rfl
  rw [nothing] at reads
  cases crashedFirstCommit_reads.symm.trans reads

end Ingestion

end IcefallDB
