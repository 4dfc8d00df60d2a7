import IcefallDB.Lib.Script
import IcefallDB.Metadata.Checksum

/-!
# The table directory

State of one table directory and the effects the engine performs on it.  The manifest directory,
the manifest pointer, the mutation log and the intent journal are kept apart from the other files,
which are addressed by their path relative to the table directory.  Writing through a temporary
file and renaming it is one effect; `fsync` calls order effects on disk and have no effect of
their own here, since a crash keeps a prefix of the effects.
-/

namespace IcefallDB

/-- Errors of the engine, with the data their messages carry. -/
inductive IcefallDBError
  | serialization (reason : String)
  | notFound (path : String)
  | tableNotFound
  | manifestNotFound (path : String)
  | checksumMismatch (path : String)
  | rowGroupChecksumMismatch (path : String)
  | missingRowGroupFile (snapshot : Nat) (path : String)
  | invalidManifestPointer (reason : String)
  | missingManifestPointer (path : String)
  | invalidSchemaPointer (path : String)
  | invalidSchema (reason path : String)
  | schemaMismatch (column expected path : String)
  | schemaNotFound (path : String)
  | sequenceCollision (sequence : Nat)
  | compactionConflict (pinned current : Nat)
  | uniqueKeyViolation (table index key : String)
  | parquetDecode (reason : String)
  | other (message : String)
  /-- Not an error of the engine: the call panics or does not return. -/
  | diverges
  deriving DecidableEq

/-- Contents of `_manifest.json`. -/
inductive Pointer
  /-- There is no pointer file. -/
  | missing
  /-- The file is not JSON. -/
  | notJson
  /-- The file is JSON without a valid `latest`. -/
  | noLatest
  | latest (sequence : Nat)
  deriving DecidableEq

/-- A table directory whose mutation log inlines contents of type `β` and whose files have
contents of type `φ`. -/
structure Storage (β φ : Type) where
  /-- The manifest pointer. -/
  pointer : Pointer
  /-- Manifest files, by sequence. -/
  manifests : HashMap Nat Manifest
  /-- Durable records of the mutation log, in the order they were appended. -/
  log : List (MutationRecord β)
  /-- Every other file. -/
  files : HashMap String φ
  /-- Files listed by each intent of the staging journal. -/
  intents : HashMap String (List String)
  /-- Contents of `_schema.json`, if it is there and well formed. -/
  schemaPointer : Option Nat

/-- What a failed commit has to undo, as the commit notes it down while it proceeds. -/
inductive RollbackNote
  | sequence (sequence : Nat)
  | intent (intent : String)
  | stagedFile (path : String)
  | pointerUpdated
  deriving DecidableEq

/-- One effect on a table directory. -/
inductive StorageEffect (β φ : Type)
  | write (path : String) (contents : φ)
  | rename (source target : String)
  | delete (path : String)
  | writeManifest (sequence : Nat) (manifest : Manifest)
  | deleteManifest (sequence : Nat)
  | writePointer (sequence : Nat)
  | appendRecord (mutation : MutationRecord β)
  | clearLog
  | writeIntent (intent : String) (files : List String)
  | deleteIntent (intent : String)
  | writeSchemaPointer (schemaId : Nat)
  | note (entry : RollbackNote)

namespace Storage

variable {β φ : Type}

/-- A file is there. -/
def fileExists (storage : Storage β φ) (path : String) : Bool :=
  (storage.files.lookup path).isSome

/-- Perform one effect.  Deleting or renaming a file that is not there changes nothing. -/
def perform : StorageEffect β φ → Storage β φ → Storage β φ
  | .write path contents, storage =>
      { storage with files := storage.files.insert path contents }
  | .rename source target, storage =>
      match storage.files.lookup source with
      | some contents =>
          { storage with files := (storage.files.erase source).insert target contents }
      | none => storage
  | .delete path, storage => { storage with files := storage.files.erase path }
  | .writeManifest sequence manifest, storage =>
      { storage with manifests := storage.manifests.insert sequence manifest }
  | .deleteManifest sequence, storage =>
      { storage with manifests := storage.manifests.erase sequence }
  | .writePointer sequence, storage => { storage with pointer := .latest sequence }
  | .appendRecord mutation, storage => { storage with log := storage.log ++ [mutation] }
  | .clearLog, storage => { storage with log := [] }
  | .writeIntent intent files, storage =>
      { storage with intents := storage.intents.insert intent files }
  | .deleteIntent intent, storage => { storage with intents := storage.intents.erase intent }
  | .writeSchemaPointer schemaId, storage => { storage with schemaPointer := some schemaId }
  | .note _, storage => storage

instance : Effect (StorageEffect β φ) (Storage β φ) where
  perform := perform

end Storage

/-- A program of the engine. -/
abbrev Program (β φ α : Type) : Type :=
  Script (Storage β φ) (StorageEffect β φ) IcefallDBError α

/-! ## Reading and moving files -/

section Files

variable {β φ : Type}

/-- Read a file. -/
def readFile (path : String) : Program β φ φ := do
  let storage ← Script.read
  match storage.files.lookup path with
  | some contents => pure contents
  | none => Script.fail (.notFound path)

/-- Rename a file that has to be there. -/
def renameFile (source target : String) : Program β φ Unit := do
  let storage ← Script.read
  if storage.fileExists source then Script.emit (.rename source target)
  else Script.fail (.notFound source)

@[simp]
theorem ends_readFile {path : String} {before after : Storage β φ} {contents : φ} :
    (readFile path).Ends before contents after ↔
      before.files.lookup path = some contents ∧ before = after := by
  simp only [readFile, Script.ends_bind, Script.ends_read]
  constructor
  · rintro ⟨_, _, ⟨rfl, rfl⟩, run⟩
    cases found : before.files.lookup path with
    | none => simp [found] at run
    | some other => simpa [found] using run
  · rintro ⟨found, rfl⟩
    exact ⟨_, _, ⟨rfl, rfl⟩, by simp [found]⟩

@[simp]
theorem ends_renameFile {source target : String} {before after : Storage β φ} {result : Unit} :
    (renameFile source target).Ends before result after ↔
      ∃ contents, before.files.lookup source = some contents ∧
        { before with files := (before.files.erase source).insert target contents } = after := by
  simp only [renameFile, Script.ends_bind, Script.ends_read]
  constructor
  · rintro ⟨_, _, ⟨rfl, rfl⟩, run⟩
    cases found : before.files.lookup source with
    | none => simp [Storage.fileExists, found] at run
    | some contents =>
        have performed : Effect.perform (StorageEffect.rename source target) before = after := by
          simpa [Storage.fileExists, found] using run
        simp only [Effect.perform, Storage.perform, found] at performed
        exact ⟨contents, rfl, performed⟩
  · rintro ⟨contents, found, rfl⟩
    refine ⟨_, _, ⟨rfl, rfl⟩, ?_⟩
    simp [Storage.fileExists, found, Effect.perform, Storage.perform]

end Files

/-! ## Frames -/

section Frames

variable {β φ : Type}

/-- The effect touches no file but those with an allowed path, and neither the manifests nor the
log nor a pointer. -/
def StorageEffect.Within (allowed : String → Prop) : StorageEffect β φ → Prop
  | write path _ => allowed path
  | rename source target => allowed source ∧ allowed target
  | delete path => allowed path
  | writeIntent _ _ => True
  | deleteIntent _ => True
  | note _ => True
  | _ => False

namespace Storage

/-- Two directories agree on everything but intents and the files with an allowed path. -/
structure SameOutside (allowed : String → Prop) (before after : Storage β φ) : Prop where
  pointer : after.pointer = before.pointer
  manifests : after.manifests = before.manifests
  log : after.log = before.log
  schemaPointer : after.schemaPointer = before.schemaPointer
  files : ∀ path, ¬allowed path → after.files.lookup path = before.files.lookup path

variable {allowed : String → Prop}

@[refl]
theorem SameOutside.refl (storage : Storage β φ) : SameOutside allowed storage storage :=
  ⟨rfl, rfl, rfl, rfl, fun _ _ => rfl⟩

theorem SameOutside.trans {first second third : Storage β φ} (left : SameOutside allowed first second)
    (right : SameOutside allowed second third) : SameOutside allowed first third where
  pointer := right.pointer.trans left.pointer
  manifests := right.manifests.trans left.manifests
  log := right.log.trans left.log
  schemaPointer := right.schemaPointer.trans left.schemaPointer
  files path outside := (right.files path outside).trans (left.files path outside)

theorem SameOutside.mono {wider : String → Prop} {before after : Storage β φ}
    (same : SameOutside allowed before after) (implies : ∀ path, allowed path → wider path) :
    SameOutside wider before after :=
  { same with files := fun path outside => same.files path (mt (implies path) outside) }

theorem SameOutside.perform {before state : Storage β φ} {effect : StorageEffect β φ}
    (same : SameOutside allowed before state) (inside : effect.Within allowed) :
    SameOutside allowed before (Effect.perform effect state) := by
  have step : SameOutside allowed state (Effect.perform effect state) := by
    cases effect with
    | write path contents =>
        refine ⟨rfl, rfl, rfl, rfl, fun other outside => ?_⟩
        have different : other ≠ path := fun same_path => outside (same_path ▸ inside)
        exact AList.lookup_insert_ne different
    | rename source target =>
        simp only [Effect.perform, Storage.perform]
        split
        · refine ⟨rfl, rfl, rfl, rfl, fun other outside => ?_⟩
          have not_target : other ≠ target := fun same_path => outside (same_path ▸ inside.2)
          have not_source : other ≠ source := fun same_path => outside (same_path ▸ inside.1)
          simp only
          rw [AList.lookup_insert_ne not_target, AList.lookup_erase_ne not_source]
        · exact SameOutside.refl state
    | delete path =>
        refine ⟨rfl, rfl, rfl, rfl, fun other outside => ?_⟩
        have different : other ≠ path := fun same_path => outside (same_path ▸ inside)
        exact AList.lookup_erase_ne different
    | writeIntent | deleteIntent | note => exact ⟨rfl, rfl, rfl, rfl, fun _ _ => rfl⟩
    | _ => exact absurd inside id
  exact same.trans step

end Storage

namespace Storage

/-- One directory is another one with files added. -/
structure AddsFiles (before after : Storage β φ) : Prop where
  rest : after = { before with files := after.files }
  files : ∀ path contents, before.files.lookup path = some contents →
    after.files.lookup path = some contents

instance : IsPreorder (Storage β φ) AddsFiles where
  refl storage := ⟨rfl, fun _ _ found => found⟩
  trans first second third left right := by
    refine ⟨?_, fun path contents found => right.files _ _ (left.files _ _ found)⟩
    rw [right.rest, left.rest]

theorem AddsFiles.pointer {before after : Storage β φ} (adds : AddsFiles before after) :
    after.pointer = before.pointer := by
  rw [adds.rest]

theorem AddsFiles.manifests {before after : Storage β φ} (adds : AddsFiles before after) :
    after.manifests = before.manifests := by
  rw [adds.rest]

theorem AddsFiles.log {before after : Storage β φ} (adds : AddsFiles before after) :
    after.log = before.log := by
  rw [adds.rest]

end Storage

/-- A program that only touches allowed paths leaves everything else as it was. -/
theorem sameOutside_of_emits {α : Type} {allowed : String → Prop} {script : Program β φ α}
    (emits : script.Emits (StorageEffect.Within allowed)) {before after : Storage β φ} {value : α}
    (run : script.Ends before value after) : Storage.SameOutside allowed before after :=
  emits.ends (fun _ _ inside same => same.perform inside) (Storage.SameOutside.refl before) run

theorem StorageEffect.Within.mono {allowed wider : String → Prop} {effect : StorageEffect β φ}
    (inside : effect.Within allowed) (implies : ∀ path, allowed path → wider path) :
    effect.Within wider := by
  cases effect with
  | write path contents => exact implies path inside
  | rename source target => exact ⟨implies source inside.1, implies target inside.2⟩
  | delete path => exact implies path inside
  | writeIntent | deleteIntent | note => trivial
  | _ => exact absurd inside id

@[simp]
theorem emits_readFile (path : String) {allowed : StorageEffect β φ → Prop} :
    (readFile path : Program β φ φ).Emits allowed := by
  refine Script.Emits.bind Script.emits_read fun storage => ?_
  cases storage.files.lookup path <;> simp

theorem emits_renameFile {source target : String} {allowed : StorageEffect β φ → Prop}
    (permitted : allowed (.rename source target)) :
    (renameFile source target : Program β φ Unit).Emits allowed := by
  refine Script.Emits.bind Script.emits_read fun storage => ?_
  exact Script.Emits.ite (fun _ => Script.Emits.emit permitted) fun _ => Script.emits_fail _

end Frames

end IcefallDB
