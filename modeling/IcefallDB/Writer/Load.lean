import IcefallDB.MutationWal.Fold

/-!
# Loading the current manifest

The writer and the compactor find out what is committed: the manifest the pointer designates, or
the highest valid snapshot when the pointer is lost, with the mutation log replayed onto it.
-/

namespace IcefallDB

variable {β φ : Type}

/-- The manifest of a table without a committed snapshot. -/
def emptyManifest : Manifest :=
  { formatVersion := 1 }

/-- Sequences of the manifest files, highest first. -/
def descendingSequences (storage : Storage β φ) : List Nat :=
  storage.manifests.keys.insertionSort fun left right => left ≥ right

namespace Writer

/-- Read a manifest file and verify its checksum. -/
def readManifestValidated (sequence : Nat) : Program β φ Manifest := do
  let storage ← Script.read
  match storage.manifests.lookup sequence with
  | none => Script.fail (.notFound (Manifest.filename sequence))
  | some manifest =>
      if manifest.verifyChecksum then pure manifest
      else Script.fail (.checksumMismatch (Manifest.filename sequence))

/-- The highest manifest file that verifies. -/
def highestValid (storage : Storage β φ) : Option (Nat × Manifest) := do
  let sequence ← (descendingSequences storage).find? fun sequence =>
    (storage.manifests.lookup sequence).any Manifest.verifyChecksum
  let manifest ← storage.manifests.lookup sequence
  if 0 < sequence then some (sequence, manifest) else none

/-- Recover from a lost pointer: repair it from the highest valid manifest file.  Without one the
table is empty, unless the pointer was malformed or manifest files contradict it. -/
def recoverPointer (latestZero malformed : Bool) : Program β φ (Nat × Manifest) := do
  let storage ← Script.read
  match highestValid storage with
  | some (sequence, manifest) => do
      Script.emit (.writePointer sequence)
      pure (sequence, manifest)
  | none =>
      if latestZero && !(descendingSequences storage).isEmpty then
        Script.fail (.invalidManifestPointer "_manifest.json")
      else if malformed then Script.fail (.invalidManifestPointer "_manifest.json")
      else pure (0, emptyManifest)

/-- Load the manifest that the pointer designates, without the mutation log. -/
def loadCheckpointManifest : Program β φ (Nat × Manifest) := do
  let storage ← Script.read
  match storage.pointer with
  | .missing => recoverPointer false false
  | .notJson => recoverPointer false true
  | .noLatest => recoverPointer false true
  | .latest 0 => recoverPointer true false
  | .latest (sequence + 1) =>
      match storage.manifests.lookup (sequence + 1) with
      | none => Script.fail (.manifestNotFound (Manifest.filename (sequence + 1)))
      | some _ => do
          let manifest ← readManifestValidated (sequence + 1)
          pure (sequence + 1, manifest)

/-- The writer's view of the table: the checkpointed manifest with the mutation log replayed. -/
def loadCurrentManifest (decode : β → Except String φ) : Program β φ (Nat × Manifest) := do
  let (sequence, manifest) ← loadCheckpointManifest
  if sequence = 0 then pure (sequence, manifest)
  else do
    let live ← MutationWal.liveManifest decode manifest
    pure (live.sequence, live)

theorem emits_readManifestValidated (sequence : Nat) {allowed : StorageEffect β φ → Prop} :
    (readManifestValidated sequence).Emits allowed := by
  refine Script.Emits.bind Script.emits_read fun storage => ?_
  split
  · exact Script.emits_fail _
  · exact Script.Emits.ite (fun _ => Script.emits_pure _) fun _ => Script.emits_fail _

variable {sequence : Nat} {before after : Storage β φ}

theorem ends_readManifestValidated {manifest : Manifest} :
    (readManifestValidated sequence).Ends before manifest after ↔
      before.manifests.lookup sequence = some manifest ∧ manifest.verifyChecksum = true ∧
        before = after := by
  simp only [readManifestValidated, Script.ends_bind, Script.ends_read]
  constructor
  · rintro ⟨_, _, ⟨rfl, rfl⟩, run⟩
    split at run
    · simp at run
    · next found_manifest found =>
        rw [Script.ends_ite] at run
        simp only [Script.ends_pure, Script.ends_fail, and_false, or_false] at run
        obtain ⟨verified, rfl, rfl⟩ := run
        exact ⟨found, verified, rfl⟩
  · rintro ⟨found, verified, rfl⟩
    exact ⟨_, _, ⟨rfl, rfl⟩, by simp [found, verified]⟩

variable {decode : β → Except String φ}

/-- Behind a valid pointer, the writer's view is the pointer manifest with the log replayed. -/
theorem ends_loadCurrentManifest {pointed : Nat} {base live : Manifest}
    (pointer : before.pointer = .latest (pointed + 1))
    (found : before.manifests.lookup (pointed + 1) = some base)
    (verified : base.verifyChecksum = true) :
    (loadCurrentManifest decode).Ends before (sequence, live) after ↔
      MutationWal.replay base (MutationWal.readRecords before) = live ∧ live.sequence = sequence ∧
        (Script.each (MutationWal.materializeArtifact decode)
          (MutationWal.replayedArtifacts base (MutationWal.readRecords before))).Ends
            before () after := by
  have checkpoint : ∀ {result middle}, loadCheckpointManifest.Ends before result middle ↔
      (pointed + 1, base) = result ∧ before = middle := by
    intro result middle
    simp only [loadCheckpointManifest, Script.ends_bind, Script.ends_read]
    constructor
    · rintro ⟨_, _, ⟨rfl, rfl⟩, run⟩
      simp only [pointer, found, Script.ends_bind, ends_readManifestValidated,
        Script.ends_pure] at run
      obtain ⟨_, _, ⟨same, -, rfl⟩, rfl, rfl⟩ := run
      exact ⟨by rw [Option.some.inj same], rfl⟩
    · rintro ⟨rfl, rfl⟩
      refine ⟨_, _, ⟨rfl, rfl⟩, ?_⟩
      simp only [pointer, found, Script.ends_bind, ends_readManifestValidated, Script.ends_pure]
      exact ⟨base, before, ⟨rfl, verified, rfl⟩, rfl, rfl⟩
  simp only [loadCurrentManifest, Script.ends_bind, Prod.exists, checkpoint, Prod.mk.injEq]
  constructor
  · rintro ⟨_, _, _, ⟨⟨rfl, rfl⟩, rfl⟩, run⟩
    rw [if_neg (Nat.succ_ne_zero pointed)] at run
    simp only [Script.ends_bind, MutationWal.ends_liveManifest, Script.ends_pure,
      Prod.mk.injEq] at run
    obtain ⟨_, _, ⟨rfl, materialized⟩, ⟨rfl, rfl⟩, rfl⟩ := run
    exact ⟨rfl, rfl, materialized⟩
  · rintro ⟨rfl, rfl, materialized⟩
    refine ⟨_, _, _, ⟨⟨rfl, rfl⟩, rfl⟩, ?_⟩
    rw [if_neg (Nat.succ_ne_zero pointed)]
    simp only [Script.ends_bind, MutationWal.ends_liveManifest, Script.ends_pure, Prod.mk.injEq]
    exact ⟨_, _, ⟨rfl, materialized⟩, ⟨rfl, rfl⟩, rfl⟩

/-- What loading the pointer manifest leaves: either no snapshot is committed and nothing changed,
or the pointer designates the verified manifest that was loaded. -/
theorem loadCheckpointManifest_cases {manifest : Manifest}
    (run : loadCheckpointManifest.Ends before (sequence, manifest) after) :
    (sequence = 0 ∧ after = before) ∨
      (0 < sequence ∧ after = { before with pointer := .latest sequence } ∧
        before.manifests.lookup sequence = some manifest ∧ manifest.verifyChecksum = true) := by
  have recover : ∀ latestZero malformed,
      (recoverPointer latestZero malformed).Ends before (sequence, manifest) after →
        (sequence = 0 ∧ after = before) ∨
          (0 < sequence ∧ after = { before with pointer := .latest sequence } ∧
            before.manifests.lookup sequence = some manifest ∧ manifest.verifyChecksum = true) := by
    intro latestZero malformed run
    obtain ⟨_, _, ends_read, run⟩ := Script.ends_bind.mp run
    obtain ⟨rfl, rfl⟩ := Script.ends_read.mp ends_read
    cases valid : highestValid before with
    | none =>
        rw [valid] at run
        simp only [Script.ends_ite, Script.ends_fail, and_false, false_or, Script.ends_pure] at run
        obtain ⟨-, -, same, rfl⟩ := run
        exact .inl ⟨(Prod.mk.inj same).1.symm, rfl⟩
    | some found =>
        rw [valid] at run
        simp only [Script.ends_bind, Script.ends_emit, Script.ends_pure] at run
        obtain ⟨_, _, rfl, same, rfl⟩ := run
        obtain rfl : found = (sequence, manifest) := same
        simp only [highestValid, Option.bind_eq_bind, Option.bind_eq_some_iff] at valid
        obtain ⟨other, first, manifest', found, chosen⟩ := valid
        split at chosen
        · next positive =>
            obtain ⟨rfl, rfl⟩ := Prod.mk.inj (Option.some.inj chosen)
            have verified := List.find?_some first
            rw [found] at verified
            exact .inr ⟨positive, rfl, found, verified⟩
        · cases chosen
  obtain ⟨_, _, ends_read, run⟩ := Script.ends_bind.mp run
  obtain ⟨rfl, rfl⟩ := Script.ends_read.mp ends_read
  split at run
  · exact recover _ _ run
  · exact recover _ _ run
  · exact recover _ _ run
  · exact recover _ _ run
  · next pointed points =>
      split at run
      · exact (Script.ends_fail.mp run).elim
      · obtain ⟨_, _, read_run, run⟩ := Script.ends_bind.mp run
        obtain ⟨found, verified, rfl⟩ := ends_readManifestValidated.mp read_run
        obtain ⟨same, rfl⟩ := Script.ends_pure.mp run
        obtain ⟨rfl, rfl⟩ := Prod.mk.inj same
        exact .inr ⟨Nat.succ_pos pointed, by rw [← points], found, verified⟩

/-- What loading the current manifest leaves: either no snapshot is committed and nothing changed,
or the pointer designates the manifest that the log was replayed onto, and files were added. -/
theorem loadCurrentManifest_cases {live : Manifest}
    (run : (loadCurrentManifest decode).Ends before (sequence, live) after) :
    (sequence = 0 ∧ after = before) ∨
      ∃ pointed base, after.pointer = .latest (pointed + 1) ∧
        before.manifests.lookup (pointed + 1) = some base ∧ base.verifyChecksum = true ∧
        MutationWal.replay base (MutationWal.readRecords before) = live ∧
        live.sequence = sequence ∧
        Storage.AddsFiles { before with pointer := .latest (pointed + 1) } after := by
  obtain ⟨⟨pointed, base⟩, loaded, load, run⟩ := Script.ends_bind.mp run
  rw [Script.ends_ite] at run
  rcases run with ⟨zero, run⟩ | ⟨positive, run⟩
  · obtain ⟨same, rfl⟩ := Script.ends_pure.mp run
    obtain ⟨rfl, rfl⟩ := Prod.mk.inj same
    rcases loadCheckpointManifest_cases load with ⟨-, rfl⟩ | ⟨later, -⟩
    · exact .inl ⟨zero, rfl⟩
    · omega
  · rcases loadCheckpointManifest_cases load with ⟨zero, -⟩ | ⟨-, rfl, found, verified⟩
    · exact absurd zero positive
    · obtain ⟨_, _, live_run, run⟩ := Script.ends_bind.mp run
      obtain ⟨same, rfl⟩ := Script.ends_pure.mp run
      obtain ⟨rfl, rfl⟩ := Prod.mk.inj same
      obtain ⟨replayed, materialized⟩ := (MutationWal.ends_liveManifest decode).mp live_run
      have added := MutationWal.addsFiles_of_materialized decode materialized
      obtain ⟨pred, rfl⟩ := Nat.exists_eq_succ_of_ne_zero positive
      exact .inr ⟨pred, base, added.pointer, found, verified, replayed, rfl, added⟩

/-- Loading the current manifest keeps every file. -/
theorem lookup_of_ends_loadCurrentManifest {result : Nat × Manifest} {path : String} {contents : φ}
    (run : (loadCurrentManifest decode).Ends before result after)
    (found : before.files.lookup path = some contents) :
    after.files.lookup path = some contents := by
  obtain ⟨sequence, live⟩ := result
  rcases loadCurrentManifest_cases run with ⟨-, rfl⟩ | ⟨pointed, base, -, -, -, -, -, added⟩
  · exact found
  · exact added.files path contents found

/-- Loading the current manifest once more gives the same result. -/
theorem loadCurrentManifest_again {loaded : Storage β φ} {first second : Nat × Manifest}
    (run : (loadCurrentManifest decode).Ends before first loaded)
    (again : (loadCurrentManifest decode).Ends loaded second after) : second = first := by
  obtain ⟨sequence, live⟩ := first
  obtain ⟨sequence', live'⟩ := second
  rcases loadCurrentManifest_cases run with ⟨-, rfl⟩ |
    ⟨pointed, base, pointer, found, verified, rfl, rfl, added⟩
  · exact (again.deterministic run).1
  · have found' : loaded.manifests.lookup (pointed + 1) = some base := by
      rw [added.manifests]
      exact found
    obtain ⟨replayed, numbered, -⟩ :=
      (ends_loadCurrentManifest pointer found' verified).mp again
    have log_eq : MutationWal.readRecords loaded = MutationWal.readRecords before := by
      rw [MutationWal.readRecords, MutationWal.readRecords, added.log]
    rw [log_eq] at replayed
    rw [← numbered, ← replayed]

end Writer

namespace Catalog

/-- The latest manifest as readers see it, if a snapshot is committed. -/
def refresh (decode : β → Except String φ) : Program β φ (Option Manifest) := do
  let storage ← Script.read
  match storage.pointer with
  | .missing =>
      if storage.schemaPointer.isSome then
        Script.fail (.missingManifestPointer "_manifest.json")
      else pure none
  | .notJson => Script.fail (.serialization "_manifest.json")
  | .noLatest => Script.fail (.invalidManifestPointer "missing or invalid 'latest'")
  | .latest 0 => pure none
  | .latest (sequence + 1) => do
      let manifest ← Writer.readManifestValidated (sequence + 1)
      Script.ensure (manifest.sequence = sequence + 1)
        (.invalidManifestPointer ("sequence mismatch: pointer expects " ++ toString (sequence + 1)
          ++ ", manifest has " ++ toString manifest.sequence))
      let live ← MutationWal.liveManifest decode manifest
      pure (some live)

/-- What a reader sees as the latest manifest: the verified pointer manifest with the log replayed
onto it. -/
theorem ends_refresh {decode : β → Except String φ} {before after : Storage β φ} {live : Manifest}
    (run : (refresh decode).Ends before (some live) after) :
    ∃ base, before.pointer = .latest base.sequence ∧
      before.manifests.lookup base.sequence = some base ∧ base.verifyChecksum = true ∧
      MutationWal.replay base (MutationWal.readRecords before) = live ∧
      (Script.each (MutationWal.materializeArtifact decode)
        (MutationWal.replayedArtifacts base (MutationWal.readRecords before))).Ends
          before () after := by
  obtain ⟨_, _, ends_read, run⟩ := Script.ends_bind.mp run
  obtain ⟨rfl, rfl⟩ := Script.ends_read.mp ends_read
  split at run
  · split at run
    · exact absurd run (by simp)
    · exact absurd run (by simp)
  · exact absurd run (by simp)
  · exact absurd run (by simp)
  · exact absurd run (by simp)
  · next sequence pointer_eq =>
      obtain ⟨base, _, read_run, run⟩ := Script.ends_bind.mp run
      obtain ⟨found, verified, rfl⟩ := Writer.ends_readManifestValidated.mp read_run
      obtain ⟨_, _, ensured, run⟩ := Script.ends_bind.mp run
      obtain ⟨numbered, rfl⟩ := Script.ends_ensure.mp ensured
      obtain ⟨_, _, live_run, run⟩ := Script.ends_bind.mp run
      obtain ⟨same, rfl⟩ := Script.ends_pure.mp run
      obtain rfl := Option.some.inj same
      obtain ⟨replayed, materialized⟩ := (MutationWal.ends_liveManifest decode).mp live_run
      have sequence_eq : base.sequence = sequence + 1 := of_decide_eq_true numbered
      refine ⟨base, ?_, ?_, verified, replayed, materialized⟩
      · rw [sequence_eq]
        exact pointer_eq
      · rw [sequence_eq]
        exact found

end Catalog

namespace Compactor

/-- Move the pointer to the highest manifest file whose sequence and checksum are right. -/
def repairManifestPointer : Program β φ Bool := do
  let storage ← Script.read
  let valid := (descendingSequences storage).find? fun sequence =>
    (storage.manifests.lookup sequence).any fun manifest =>
      manifest.sequence = sequence && manifest.verifyChecksum
  match valid with
  | some sequence => do
      Script.emit (.writePointer sequence)
      pure true
  | none => pure false

/-- Load the catalog, repairing a missing or corrupt pointer from the manifest files. -/
def loadCatalogWithRepair (decode : β → Except String φ) : Program β φ (Option Manifest) := do
  match ← (Catalog.refresh decode).attempt with
  | .ok (some manifest) => pure (some manifest)
  | .ok none => do
      if ← repairManifestPointer then Catalog.refresh decode else pure none
  | .error _ => do
      if ← repairManifestPointer then Catalog.refresh decode
      else Script.fail (.other "no valid manifest snapshots")

end Compactor

end IcefallDB
