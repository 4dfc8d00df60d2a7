import IcefallDB.Table.Ingest
import Mathlib.Data.List.TakeWhile

/-!
# Opening a table

A table is opened by name: the catalog finds its latest schema, and a writer is opened with it.  Rows
that come from elsewhere, such as a transaction, are inserted by a writer that is opened, given all of
them and committed once.
-/

namespace IcefallDB

variable {R : Type}

/-- Read a schema file.  Returns the id in it. -/
def readSchema (missing : IcefallDBError) (schemaId : Nat) : TableProgram R Nat := do
  let storage ← Script.read
  match storage.files.lookup (schemaFilename schemaId) with
  | none => Script.fail missing
  | some (.schema found) => pure found
  | some _ => Script.fail (.serialization (schemaFilename schemaId))

/-- Load the catalog of a table: its live manifest and the id of its latest schema. -/
def Catalog.load : TableProgram R (Option Manifest × Option Nat) := do
  let storage ← Script.read
  match storage.pointer with
  | .missing =>
      if storage.schemaPointer.isSome then
        Script.fail (.missingManifestPointer "_manifest.json")
      else pure (none, none)
  | .notJson => Script.fail (.serialization "_manifest.json")
  | .noLatest => Script.fail (.invalidManifestPointer "missing or invalid 'latest'")
  | .latest 0 =>
      match storage.schemaPointer with
      | none => pure (none, none)
      | some schemaId => do
          let found ← readSchema (.notFound (schemaFilename schemaId)) schemaId
          pure (none, some found)
  | .latest (sequence + 1) => do
      let manifest ← Writer.readManifestValidated (sequence + 1)
      Script.ensure (manifest.sequence = sequence + 1)
        (.invalidManifestPointer ("sequence mismatch: pointer expects " ++ toString (sequence + 1)
          ++ ", manifest has " ++ toString manifest.sequence))
      let found ← readSchema (.schemaNotFound (schemaFilename manifest.schemaId)) manifest.schemaId
      Script.ensure (found = manifest.schemaId)
        (.schemaMismatch "schema_id" (toString manifest.schemaId) (schemaFilename manifest.schemaId))
      let live ← MutationWal.liveManifest Except.ok manifest
      pure (some live, some found)

namespace Writer

/-- Initialize a new table: its schema, and a pointer that designates no manifest. -/
def initializeTable : TableProgram R Unit := do
  Script.emit (.write (schemaFilename 1) (.schema 1))
  Script.emit (.writeSchemaPointer 1)
  Script.emit (.writePointer 0)

/-- Open a writer without encryption on a table with a schema, which may be a new table. -/
def openOrCreateTable (encrypted : Bool) (schemaId : Nat) : TableProgram R Unit := do
  let storage ← Script.read
  match storage.schemaPointer with
  | some pointed => do
      Script.ensure (schemaId = pointed)
        (.schemaMismatch "schema_id" (toString schemaId) "_schema.json")
      let found ← readSchema (.schemaNotFound (schemaFilename pointed)) pointed
      Script.ensure (found = pointed)
        (.schemaMismatch "schema_id" (toString pointed) (schemaFilename pointed))
      Script.ensure (!encrypted) (.other "table is encrypted but no encryption config was provided")
  | none => initializeTable

/-- Load the catalog of a table and open a writer with its latest schema. -/
def openLatest (writer : Writer R) : TableProgram R Unit := do
  let (_, schema) ← Catalog.load
  match schema with
  | none => Script.fail (.schemaNotFound (writer.table ++ "/_schema.json"))
  | some schemaId => openOrCreateTable writer.encrypted schemaId

/-- Buffer batches one after the other. -/
def insertBatches (writer : Writer R) : List (List R) → List (Batch R) →
    Except IcefallDBError (List (List R))
  | buffer, [] => .ok buffer
  | buffer, batch :: batches => do
      let buffer ← writer.insertBatch buffer batch
      insertBatches writer buffer batches

/-- Open the table, insert batches and commit them. -/
def insertAll (writer : Writer R) (choices : Choices R) (batches : List (Batch R)) :
    TableProgram R Unit := do
  writer.openLatest
  let buffer ← Script.lift (writer.insertBatches [] batches)
  writer.commit choices buffer

end Writer

/-- Rows of batches, in order. -/
def batchRows (batches : List (Batch R)) : List R :=
  batches.flatMap Batch.rows

/-- A table that was created holds rows. -/
structure StoresRows (writer : Writer R) (rows : List R) (storage : TableStorage R) : Prop where
  schemaPointer : storage.schemaPointer = some writer.schema.schemaId
  contains : ∃ latestSeq current,
    Contains writer.kernel writer.schema.schemaId storage latestSeq current rows

/-- A table holds rows.  A table that was never created holds none. -/
def HoldsTable (writer : Writer R) (rows : List R) (storage : TableStorage R) : Prop :=
  StoresRows writer rows storage ∨
    (storage.pointer = .missing ∧ storage.schemaPointer = none ∧ rows = [])

variable {kernel : Kernel R} {writer : Writer R} {choices : Choices R}
  {storage before after : TableStorage R} {schemaId latestSeq : Nat} {current : Manifest} {rows : List R}

/-! ## Loading the catalog -/

theorem emits_readSchema (missing : IcefallDBError) (schemaId : Nat) :
    (readSchema missing schemaId : TableProgram R Nat).Emits fun _ => False := by
  refine Script.Emits.bind Script.emits_read fun storage => ?_
  split
  · exact Script.emits_fail _
  · exact Script.emits_pure _
  · exact Script.emits_fail _

/-- Loading the catalog replays the same log as a writer that loads, or it stops before. -/
theorem Catalog.allOrNothing_load (storage : TableStorage R) :
    Catalog.load.AllOrNothing (Writer.loadCurrent storage).1 storage := by
  apply Script.AllOrNothing.emits_bind Script.emits_read
  intro _ read
  obtain ⟨rfl, -⟩ := Script.ends_read.mp read
  split
  · split
    · exact .inl rfl
    · exact .inl rfl
  · exact .inl rfl
  · exact .inl rfl
  · split
    · exact .inl rfl
    · apply Script.AllOrNothing.emits_bind (emits_readSchema _ _)
      exact fun _ _ => .inl rfl
  · next sequence pointer =>
      apply Script.AllOrNothing.emits_bind (Writer.emits_readManifestValidated _)
      intro base found
      obtain ⟨found, verified, -⟩ := Writer.ends_readManifestValidated.mp found
      apply Script.AllOrNothing.emits_bind (Script.emits_ensure _ _)
      intro _ ensured
      have numbered : base.sequence = sequence + 1 :=
        of_decide_eq_true (Script.ends_ensure.mp ensured).1
      apply Script.AllOrNothing.emits_bind (emits_readSchema _ _)
      intro schemaId _
      apply Script.AllOrNothing.emits_bind (Script.emits_ensure _ _)
      intro _ _
      right
      rw [Script.effects_bind_pure, Writer.effects_loadCurrent _ _ _ verified]
      · rw [numbered]
        exact pointer
      · rw [numbered]
        exact Nat.succ_pos sequence
      · rw [numbered]
        exact found

/-- The effect sets the schema pointer. -/
def StorageEffect.setsSchema : StorageEffect (File R) (File R) → Bool
  | .writeSchemaPointer _ => true
  | _ => false

/-- Only writing the schema pointer changes it. -/
theorem schemaPointer_performAll {effects : List (StorageEffect (File R) (File R))}
    (others : ∀ effect ∈ effects, effect.setsSchema = false) (storage : TableStorage R) :
    (Script.performAll effects storage).schemaPointer = storage.schemaPointer := by
  induction effects generalizing storage with
  | nil => rfl
  | cons effect effects ih =>
      rw [Script.performAll_cons, ih fun other member => others other (List.mem_cons_of_mem _ member)]
      cases effect with
      | writeSchemaPointer => cases others _ List.mem_cons_self
      | rename source target =>
          simp only [Effect.perform, Storage.perform]
          split <;> rfl
      | _ => rfl

/-- Loading leaves the schema pointer alone. -/
theorem Writer.Settled.schemaPointer_crash (settled : Writer.Settled storage latestSeq current)
    (steps : Nat) : (Writer.loadCurrent.crash storage steps).schemaPointer = storage.schemaPointer := by
  apply schemaPointer_performAll
  intro effect member
  obtain ⟨path, contents, rfl⟩ := settled.writes effect (List.mem_of_mem_take member)
  rfl

/-! ## Buffering batches -/

variable {buffer : List (List R)} {batches : List (Batch R)}

/-- What is buffered is the rows of the batches, in order. -/
theorem Writer.insertBatches_eq {start : List (List R)}
    (inserted : writer.insertBatches start batches = .ok buffer) :
    buffer = start ++ (batches.map Batch.rows).filter fun rows => !rows.isEmpty := by
  induction batches generalizing start with
  | nil =>
      obtain rfl := Except.ok.inj inserted
      simp
  | cons batch batches ih =>
      obtain ⟨next, first, inserted⟩ := Script.except_bind_eq_ok.mp inserted
      rw [Writer.insertBatch] at first
      split at first
      · cases first
      · split at first
        · next empty =>
            obtain rfl := Except.ok.inj first
            rw [ih inserted]
            simp [empty]
        · next filled =>
            obtain rfl := Except.ok.inj first
            rw [ih inserted]
            simp [filled]

theorem Writer.flatten_insertBatches (inserted : writer.insertBatches [] batches = .ok buffer) :
    buffer.flatten = batchRows batches := by
  rw [Writer.insertBatches_eq inserted, List.nil_append, batchRows, List.flatten_filter_not_isEmpty,
    List.flatMap_def]

theorem Writer.insertBatches_empty (empty : batchRows batches = [])
    (inserted : writer.insertBatches [] batches = .ok buffer) : buffer = [] := by
  rw [Writer.insertBatches_eq inserted, List.nil_append, List.filter_eq_nil_iff]
  intro rows member
  obtain ⟨batch, listed, rfl⟩ := List.mem_map.mp member
  have nothing := List.flatMap_eq_nil_iff.mp empty batch listed
  simp [nothing]

/-! ## What a table holds -/

namespace StoresRows

theorem always_loadCurrent (stores : StoresRows writer rows storage) :
    Writer.loadCurrent.Always (StoresRows writer rows) storage := by
  intro steps
  obtain ⟨schema, latestSeq, current, contains⟩ := stores
  constructor
  · rw [contains.settled.schemaPointer_crash]
    exact schema
  · exact ⟨latestSeq, current, contains.crash steps⟩

/-- Opening an existing table initializes nothing. -/
theorem silent_openOrCreateTable (created : storage.schemaPointer.isSome = true) (encrypted : Bool)
    (schemaId : Nat) : (Writer.openOrCreateTable encrypted schemaId storage).1 = [] := by
  obtain ⟨pointed, pointed_eq⟩ := Option.isSome_iff_exists.mp created
  have nothing : (Writer.openOrCreateTable encrypted schemaId).AllOrNothing [] storage := by
    apply Script.AllOrNothing.emits_bind Script.emits_read
    intro _ read
    obtain ⟨rfl, -⟩ := Script.ends_read.mp read
    rw [pointed_eq]
    apply Script.AllOrNothing.emits_bind (Script.emits_ensure _ _)
    intro _ _
    apply Script.AllOrNothing.emits_bind (emits_readSchema _ _)
    intro _ _
    apply Script.AllOrNothing.emits_bind (Script.emits_ensure _ _)
    exact fun _ _ => .of_emits (Script.emits_ensure _ _) storage
  exact nothing.elim id id

/-- Opening an existing table performs what its writers perform when they load, or it stops before. -/
theorem allOrNothing_openLatest (stores : StoresRows writer rows storage) :
    writer.openLatest.AllOrNothing (Writer.loadCurrent storage).1 storage := by
  have loads := Catalog.allOrNothing_load storage
  apply loads.bind_emits
  rintro ⟨_, schema⟩ loaded run
  have stores := (loads.always stores.always_loadCurrent).ends run
  cases schema with
  | none => rfl
  | some schemaId => exact silent_openOrCreateTable (by rw [stores.schemaPointer]; rfl) _ _

theorem always_openLatest (stores : StoresRows writer rows storage) :
    writer.openLatest.Always (StoresRows writer rows) storage :=
  stores.allOrNothing_openLatest.always stores.always_loadCurrent

/-- A commit never sets the schema pointer. -/
theorem setsSchema_commit (stores : StoresRows writer rows storage) (choices : Choices R)
    (buffer : List (List R)) :
    ∀ effect ∈ (writer.commit choices buffer storage).1, effect.setsSchema = false := by
  obtain ⟨-, latestSeq, current, contains⟩ := stores
  intro effect performed
  rw [contains.settled.commit] at performed
  rcases List.mem_append.mp performed with loading | committing
  · obtain ⟨path, contents, rfl⟩ := contains.settled.writes effect loading
    rfl
  · have drafting : (writer.commitLoaded choices buffer).OnlyUntil
        (StorageEffect.Drafts (Writer.IsRowGroupFile current) (latestSeq + 1)) Writer.movesPointer
          (Writer.loadCurrent.final storage) :=
      Writer.onlyUntil_commitLoaded contains.settled.loads contains.keeps buffer
    cases effect with
    | writeSchemaPointer =>
        rcases drafting.performsOnly _ committing with drafts | moves
        · exact absurd drafts id
        · cases moves
    | _ => rfl

theorem schemaPointer_commit (stores : StoresRows writer rows storage) (choices : Choices R)
    (buffer : List (List R)) :
    ((writer.commit choices buffer).final storage).schemaPointer = some writer.schema.schemaId := by
  rw [← stores.schemaPointer]
  exact schemaPointer_performAll (stores.setsSchema_commit choices buffer) storage

/-- A commit that succeeds appends the rows of its batches. -/
theorem commit (stores : StoresRows writer rows storage)
    (run : (writer.commit choices buffer).Ends storage () after) :
    ∃ added, writer.Appends buffer added ∧ StoresRows writer (rows ++ added) after := by
  have schemaPointer := stores.schemaPointer_commit choices buffer
  rw [Script.final, run.2] at schemaPointer
  obtain ⟨-, latestSeq, current, contains⟩ := stores
  obtain ⟨⟨sequence, manifest, added, appends, appended⟩, -⟩ :=
    Writer.contains_of_ends_commit contains run
  exact ⟨added, appends, schemaPointer, sequence, manifest, appended⟩

/-- A commit that fails leaves the rows as they were. -/
theorem failedCommit (stores : StoresRows writer rows storage) {failure : IcefallDBError}
    (failed : (writer.commit choices buffer storage).2 = .error failure) :
    StoresRows writer rows ((writer.commit choices buffer).final storage) := by
  have schemaPointer := stores.schemaPointer_commit choices buffer
  obtain ⟨-, latestSeq, current, contains⟩ := stores
  exact ⟨schemaPointer, latestSeq, current, (Writer.contains_of_failed_commit contains failed).1⟩

/-- A commit of nothing only loads. -/
theorem always_commit_nil (stores : StoresRows writer rows storage) :
    (writer.commit choices []).Always (StoresRows writer rows) storage := by
  intro steps
  obtain ⟨-, latestSeq, current, contains⟩ := id stores
  rw [Script.crash, Writer.commit_nil contains.settled]
  exact stores.always_loadCurrent steps

/-- Inserting batches without rows leaves the rows as they were, wherever it stops. -/
theorem always_insertAll (stores : StoresRows writer rows storage) (empty : batchRows batches = []) :
    (writer.insertAll choices batches).Always (StoresRows writer rows) storage := by
  rw [Writer.insertAll, Script.always_bind]
  constructor
  · exact stores.always_openLatest
  · intro _ opened run
    have stores := stores.always_openLatest.ends run
    apply (Script.emits_lift _).always_bind stores
    intro buffer inserted
    obtain ⟨inserted, -⟩ := Script.ends_lift.mp inserted
    obtain rfl := Writer.insertBatches_empty empty inserted
    exact stores.always_commit_nil

/-- Inserting batches and committing them appends their rows. -/
theorem insertAll (stores : StoresRows writer rows storage)
    (run : (writer.insertAll choices batches).Ends storage () after) :
    ∃ added, added.Perm (batchRows batches) ∧ StoresRows writer (rows ++ added) after := by
  obtain ⟨_, opened, open_run, run⟩ := Script.ends_bind.mp run
  obtain ⟨buffer, _, inserted, run⟩ := Script.ends_bind.mp run
  obtain ⟨buffered, rfl⟩ := Script.ends_lift.mp inserted
  obtain ⟨added, appends, stored⟩ := (stores.always_openLatest.ends open_run).commit run
  refine ⟨added, ?_, stored⟩
  rw [← Writer.flatten_insertBatches buffered]
  exact appends.1

end StoresRows

/-! ## Interrupted insertions -/

namespace Writer

/-- What the rollback of an interrupted insertion gets done. -/
def undoes (performed : List (StorageEffect (File R) (File R))) (undone : Nat → Bool)
    (storage : TableStorage R) : List (StorageEffect (File R) (File R)) :=
  let effects := (rollbackCommit performed (Script.performAll performed storage)).1
  (effects.zipIdx.filter fun effect => undone effect.2).map Prod.fst

/-- What an insertion performs that stops after some of its effects, and undoes some of what its
rollback would. -/
def interrupted (writer : Writer R) (choices : Choices R) (batches : List (Batch R)) (steps : Nat)
    (undone : Nat → Bool) (storage : TableStorage R) : List (StorageEffect (File R) (File R)) :=
  let performed := (writer.insertAll choices batches storage).1.take steps
  performed ++ undoes performed undone storage

theorem undoes_subset (performed : List (StorageEffect (File R) (File R))) (undone : Nat → Bool)
    (storage : TableStorage R) :
    ∀ effect ∈ undoes performed undone storage,
      effect ∈ (rollbackCommit performed (Script.performAll performed storage)).1 := by
  intro effect member
  obtain ⟨⟨_, position⟩, listed, rfl⟩ := List.mem_map.mp member
  exact List.fst_mem_of_mem_zipIdx (List.mem_of_mem_filter listed)

end Writer


/-- A commit that has not moved the pointer yet has performed what it performs before. -/
theorem Writer.take_beforePointer (settled : Writer.Settled storage latestSeq current)
    (buffer : List (List R)) {steps : Nat}
    (unmoved : ∀ effect ∈ (writer.commit choices buffer storage).1.take steps,
      Writer.movesPointer effect = false) :
    (writer.beforePointer choices buffer storage).take steps =
      (writer.commit choices buffer storage).1.take steps := by
  rw [settled.beforePointer, settled.commit] at *
  rw [List.take_append] at unmoved
  rw [List.take_append, List.take_append, List.take_takeWhile, List.takeWhile_eq_self_iff.mpr]
  intro effect member
  rw [unmoved effect (List.mem_append_right _ member)]
  rfl

/-- Nothing is rolled back before a commit notes something down. -/
theorem Writer.undoes_writes {performed : List (StorageEffect (File R) (File R))}
    (writes : ∀ effect ∈ performed, ∃ path contents, effect = .write path contents)
    (undone : Nat → Bool) (storage : TableStorage R) :
    Writer.undoes performed undone storage = [] := by
  have same : Writer.rollbackCommit (performed ++ []) = Writer.rollbackCommit [] :=
    Writer.rollbackCommit_append writes
  rw [List.append_nil] at same
  apply List.eq_nil_iff_forall_not_mem.mpr
  intro effect member
  have rolled_back := Writer.undoes_subset performed undone storage effect member
  rw [same] at rolled_back
  cases rolled_back

theorem Writer.setsSchema_rollbackCommit (performed : List (StorageEffect (File R) (File R))) :
    (Writer.rollbackCommit performed).Emits fun effect => effect.setsSchema = false := by
  have quiet {α : Type} (effect : α → StorageEffect (File R) (File R)) (items : List α)
      (others : ∀ item, (effect item).setsSchema = false) :
      (Script.each (fun item => Script.emit (effect item)) items : TableProgram R Unit).Emits
        fun effect => effect.setsSchema = false :=
    Script.Emits.each fun item _ => Script.Emits.emit (others item)
  refine Script.Emits.ite (fun _ => quiet _ _ fun _ => rfl) fun _ => ?_
  refine Script.Emits.bind (quiet _ _ fun _ => rfl) fun _ => ?_
  refine Script.Emits.bind (Script.Emits.provided fun _ => Script.Emits.emit rfl) fun _ => ?_
  exact quiet _ _ fun _ => rfl

namespace StoresRows

theorem writes_openLatest (stores : StoresRows writer rows storage) :
    ∀ effect ∈ (writer.openLatest storage).1, ∃ path contents, effect = .write path contents := by
  obtain ⟨-, latestSeq, current, contains⟩ := id stores
  intro effect member
  rcases stores.allOrNothing_openLatest with nothing | loading
  · rw [nothing] at member
    cases member
  · rw [loading] at member
    exact contains.settled.writes effect member

theorem pointer_openLatest (stores : StoresRows writer rows storage) {opened : TableStorage R}
    (run : writer.openLatest.Ends storage () opened) : opened.pointer = storage.pointer := by
  have spared : Storage.Spared (fun _ => False) 0 storage opened := by
    rw [← run.2]
    apply Storage.Spared.performAll _ (Storage.Spared.refl storage)
    intro effect member
    obtain ⟨path, contents, rfl⟩ := stores.writes_openLatest effect member
    exact id
  exact spared.pointer

/-- An insertion opens the table, and then commits if it does not fail before. -/
theorem effects_insertAll (stores : StoresRows writer rows storage) (choices : Choices R)
    (batches : List (Batch R)) :
    (writer.insertAll choices batches storage).1 = (writer.openLatest storage).1 ∨
      ∃ buffer opened, StoresRows writer rows opened ∧ writer.openLatest.Ends storage () opened ∧
        (writer.insertAll choices batches storage).1 =
          (writer.openLatest storage).1 ++ (writer.commit choices buffer opened).1 := by
  rw [Writer.insertAll]
  cases outcome : (writer.openLatest storage).2 with
  | error failure =>
      rw [Script.bind_of_error outcome]
      exact .inl rfl
  | ok done =>
      have run : writer.openLatest.Ends storage () (writer.openLatest.final storage) := ⟨outcome, rfl⟩
      rw [Script.bind_of_ends run]
      cases inserted : writer.insertBatches [] batches with
      | error failure =>
          left
          rw [Script.bind_of_error rfl]
          exact List.append_nil _
      | ok buffer =>
          right
          refine ⟨buffer, _, stores.always_openLatest.ends run, run, ?_⟩
          rw [Script.lift_ok_bind]

/-- An insertion that stops before it moves the pointer, and a rollback of it, leave the rows as they
were, unless the first manifest stays behind. -/
theorem interrupted (stores : StoresRows writer rows storage) {steps : Nat} {undone : Nat → Bool}
    (unmoved : ∀ effect ∈ (writer.insertAll choices batches storage).1.take steps,
      Writer.movesPointer effect = false)
    (removed : storage.pointer = .latest 0 →
      (∀ sequence manifest, .writeManifest sequence manifest ∉
        (writer.insertAll choices batches storage).1.take steps) ∨
          ∃ sequence, .deleteManifest sequence ∈ Writer.undoes
            ((writer.insertAll choices batches storage).1.take steps) undone storage) :
    StoresRows writer rows
      (Script.performAll (writer.interrupted choices batches steps undone storage) storage) := by
  have writes := stores.writes_openLatest
  -- what is performed while the table is opened is not rolled back
  have opening : (writer.insertAll choices batches storage).1.take steps =
      (writer.openLatest storage).1.take steps → StoresRows writer rows
        (Script.performAll (writer.interrupted choices batches steps undone storage) storage) := by
    intro same
    have early : ∀ effect ∈ (writer.openLatest storage).1.take steps,
        ∃ path contents, effect = .write path contents :=
      fun effect member => writes effect (List.mem_of_mem_take member)
    rw [Writer.interrupted, same, Writer.undoes_writes early, List.append_nil]
    exact stores.always_openLatest steps
  rcases stores.effects_insertAll choices batches with opened | ⟨buffer, opened, stored, run, effects_eq⟩
  · exact opening (by rw [opened])
  rcases Nat.le_total steps (writer.openLatest storage).1.length with before | after
  · exact opening (by rw [effects_eq, List.take_append_of_le_length before])
  · rw [effects_eq, List.take_append, List.take_of_length_le after] at unmoved removed
    rw [Writer.interrupted, effects_eq, List.take_append, List.take_of_length_le after]
    generalize steps - (writer.openLatest storage).1.length = late at *
    obtain ⟨schemaPointer, latestSeq, current, contains⟩ := id stored
    have committing := Writer.take_beforePointer contains.settled buffer fun effect member =>
      unmoved effect (List.mem_append_right _ member)
    have rolled_back := Writer.undoes_subset
      ((writer.openLatest storage).1 ++ (writer.commit choices buffer opened).1.take late) undone storage
    rw [Writer.rollbackCommit_append writes, Script.performAll_append, run.2] at rolled_back
    generalize Writer.undoes _ undone storage = undoing at *
    rw [List.append_assoc, Script.performAll_append, run.2]
    rw [← committing] at rolled_back removed ⊢
    have kept := Writer.contains_interrupted contains rolled_back (by
      intro pointer
      rw [stores.pointer_openLatest run] at pointer
      apply (removed pointer).imp_left
      exact fun unwritten sequence manifest member =>
        unwritten sequence manifest (List.mem_append_right _ member))
    refine ⟨?_, latestSeq, current, kept.1⟩
    rw [schemaPointer_performAll, schemaPointer]
    intro effect member
    rcases List.mem_append.mp member with performed | undoing_member
    · rw [committing] at performed
      exact stored.setsSchema_commit choices buffer effect (List.mem_of_mem_take performed)
    · exact Writer.setsSchema_rollbackCommit _ _ effect (rolled_back effect undoing_member)

/-- Moving no pointer leaves it as it was. -/
theorem pointer_of_unmoved {effects : List (StorageEffect (File R) (File R))}
    (unmoved : ∀ effect ∈ effects, Writer.movesPointer effect = false) (storage : TableStorage R) :
    (Script.performAll effects storage).pointer = storage.pointer := by
  induction effects generalizing storage with
  | nil => rfl
  | cons effect effects ih =>
      rw [Script.performAll_cons, ih fun other member => unmoved other (List.mem_cons_of_mem _ member)]
      cases effect with
      | writePointer => cases unmoved _ List.mem_cons_self
      | rename source target =>
          simp only [Effect.perform, Storage.perform]
          split <;> rfl
      | _ => rfl

/-- A commit of something moves the pointer if it succeeds. -/
theorem buffer_of_unmoved (stores : StoresRows writer rows storage)
    (run : (writer.commit choices buffer).Ends storage () after)
    (unmoved : ∀ effect ∈ (writer.commit choices buffer storage).1,
      Writer.movesPointer effect = false) : buffer = [] := by
  obtain ⟨-, latestSeq, current, contains⟩ := stores
  by_contra buffered
  obtain ⟨_, loaded, load_run, rest⟩ := Script.ends_bind.mp run
  obtain ⟨-, rfl⟩ := contains.settled.ends.deterministic load_run
  rw [if_neg (by simpa using buffered)] at rest
  obtain ⟨published, committed, try_run, dropped⟩ := Script.ends_bind.mp rest
  obtain ⟨sequence, manifest, begun, groups, files, begin_run, commits⟩ :=
    Writer.commits_of_ends_tryCommit (Script.ends_onError.mp try_run)
  obtain ⟨loaded, load_run, -⟩ := Writer.ends_beginAppend begin_run
  obtain ⟨rfl, -, -⟩ := contains.settled.loads.eq_of_ends load_run
  have same := pointer_of_unmoved unmoved storage
  rw [run.2, ← Script.ends_emit.mp dropped] at same
  obtain ⟨pointed, pointer, below⟩ := contains.settled.pointer_le
  have moved : Pointer.latest (latestSeq + 1) = .latest pointed :=
    commits.pointer.symm.trans (same.trans pointer)
  have equal := Pointer.latest.inj moved
  omega

/-- A complete insertion that moves no pointer leaves the rows as they were. -/
theorem unmoved_insertAll (stores : StoresRows writer rows storage)
    (unmoved : ∀ effect ∈ (writer.insertAll choices batches storage).1,
      Writer.movesPointer effect = false) :
    StoresRows writer rows ((writer.insertAll choices batches).final storage) := by
  rcases stores.effects_insertAll choices batches with effects_eq |
    ⟨buffer, opened, stored, run, effects_eq⟩
  · rw [Script.final, effects_eq]
    exact stores.always_openLatest.final
  · rw [effects_eq] at unmoved
    rw [Script.final, effects_eq, Script.performAll_append, run.2]
    have committing : ∀ effect ∈ (writer.commit choices buffer opened).1,
        Writer.movesPointer effect = false :=
      fun effect member => unmoved effect (List.mem_append_right _ member)
    cases outcome : (writer.commit choices buffer opened).2 with
    | error failure => exact stored.failedCommit outcome
    | ok =>
        obtain rfl := stored.buffer_of_unmoved ⟨outcome, rfl⟩ committing
        exact stored.always_commit_nil.final

end StoresRows

namespace HoldsTable

/-- Reading the table finds its rows. -/
theorem reads (holds : HoldsTable writer rows storage) :
    (Reader.readTable writer.kernel writer.schema.schemaId storage).2 = .ok rows := by
  rcases holds with ⟨-, latestSeq, current, contains⟩ | ⟨pointer, schemaPointer, rfl⟩
  · exact (Reader.ends_readTable contains).1
  · have nothing : Catalog.refresh Except.ok storage = ([], .ok none) := by
      simp [Catalog.refresh, Bind.bind, Script.andThen, Script.read, pointer, schemaPointer, pure]
    rw [Reader.readTable, Script.bind_of_silent nothing]
    rfl

/-- A table that was never created cannot be opened. -/
theorem insertAll_missing (writer : Writer R) (choices : Choices R) (batches : List (Batch R))
    (pointer : storage.pointer = .missing) (schemaPointer : storage.schemaPointer = none) :
    writer.insertAll choices batches storage =
      ([], .error (.schemaNotFound (writer.table ++ "/_schema.json"))) := by
  have nothing : Catalog.load storage = ([], .ok (none, none)) := by
    simp [Catalog.load, Bind.bind, Script.andThen, Script.read, pointer, schemaPointer, pure]
  have failed : writer.openLatest storage =
      ([], .error (.schemaNotFound (writer.table ++ "/_schema.json"))) := by
    rw [Writer.openLatest, Script.bind_of_silent nothing]
    rfl
  rw [Writer.insertAll, Script.bind_of_error (congrArg Prod.snd failed), failed]

/-- Inserting batches without rows leaves the rows as they were, wherever it stops. -/
theorem always_insertAll (holds : HoldsTable writer rows storage) (empty : batchRows batches = []) :
    (writer.insertAll choices batches).Always (HoldsTable writer rows) storage := by
  rcases holds with stores | missing
  · exact (stores.always_insertAll empty).mono fun _ => .inl
  · have failed := insertAll_missing writer choices batches missing.1 missing.2.1
    exact (Script.always_of_silent failed).mpr (.inr missing)

/-- Inserting batches and committing them appends their rows. -/
theorem insertAll (holds : HoldsTable writer rows storage)
    (run : (writer.insertAll choices batches).Ends storage () after) :
    ∃ added, added.Perm (batchRows batches) ∧ HoldsTable writer (rows ++ added) after := by
  rcases holds with stores | missing
  · obtain ⟨added, inserted, stored⟩ := stores.insertAll run
    exact ⟨added, inserted, .inl stored⟩
  · have failed := insertAll_missing writer choices batches missing.1 missing.2.1
    exact absurd run (Script.not_ends_of_error failed)

/-- A complete insertion that moves no pointer leaves the rows as they were. -/
theorem unmoved_insertAll (holds : HoldsTable writer rows storage)
    (unmoved : ∀ effect ∈ (writer.insertAll choices batches storage).1,
      Writer.movesPointer effect = false) :
    HoldsTable writer rows ((writer.insertAll choices batches).final storage) := by
  rcases holds with stores | missing
  · exact .inl (stores.unmoved_insertAll unmoved)
  · rw [Script.final, insertAll_missing writer choices batches missing.1 missing.2.1]
    exact .inr missing

/-- So does one that stops before it moves the pointer, unless the first manifest stays behind. -/
theorem interrupted (holds : HoldsTable writer rows storage) {steps : Nat} {undone : Nat → Bool}
    (unmoved : ∀ effect ∈ (writer.insertAll choices batches storage).1.take steps,
      Writer.movesPointer effect = false)
    (removed : storage.pointer = .latest 0 →
      (∀ sequence manifest, .writeManifest sequence manifest ∉
        (writer.insertAll choices batches storage).1.take steps) ∨
          ∃ sequence, .deleteManifest sequence ∈ Writer.undoes
            ((writer.insertAll choices batches storage).1.take steps) undone storage) :
    HoldsTable writer rows
      (Script.performAll (writer.interrupted choices batches steps undone storage) storage) := by
  rcases holds with stores | missing
  · exact .inl (stores.interrupted unmoved removed)
  · have nothing : writer.interrupted choices batches steps undone storage = [] := by
      rw [Writer.interrupted, insertAll_missing writer choices batches missing.1 missing.2.1,
        List.take_nil, List.nil_append]
      exact Writer.undoes_writes (fun _ member => absurd member List.not_mem_nil) undone storage
    rw [nothing]
    exact .inr missing

end HoldsTable

end IcefallDB
