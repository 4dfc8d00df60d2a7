import IcefallDB.Compactor
import IcefallDB.Writer.Mutate

/-!
# What cleanup removes for its callers

Every commit and every compaction cleans up before it stages anything.  Each caller loads the live
manifest its own way and assembles its own set of files to keep; this module says for which leftover
intents that set is large enough.
-/

namespace IcefallDB

/-- The code paths that clean up. -/
inductive CleanupCaller (R : Type)
  /-- Appending or replacing row groups, and inserting a Parquet file by copying it. -/
  | append (writer : Writer R)
  /-- Inserting a Parquet file by referring to a committed one with the same checksum. -/
  | reference (checksum : String)
  /-- Deleting, updating or merging rows. -/
  | mutation
  /-- Compacting, started at a time. -/
  | compaction (now : String)

namespace CleanupCaller

variable {R : Type}

/-- How the caller finds out what is committed, up to its call of the cleanup. -/
def load : CleanupCaller R → TableProgram R (Nat × Manifest)
  | append writer => do
      let loaded ← Writer.loadCurrent
      Writer.checkSchemaPointer writer.schema.schemaId
      pure loaded
  | reference checksum => do
      let loaded ← Writer.loadCurrent
      let _ ← Writer.findIdentical checksum loaded.2.rowGroups
      pure loaded
  | mutation => Writer.loadCurrent
  | compaction now => do
      let _ ← MutationWal.checkpointLocked Except.ok now
      match ← Compactor.loadCatalogWithRepair Except.ok with
      | none => Script.fail (.manifestNotFound "_manifest.json")
      | some live => pure (live.sequence, live)

/-- The files the caller keeps for the live manifest. -/
def keeps (caller : CleanupCaller R) (live : Manifest) : List String :=
  match caller with
  | compaction _ => Compactor.referencedFiles live
  | _ => Writer.manifestReferencedFiles live

/-- The caller up to the end of its cleanup. -/
def run (caller : CleanupCaller R) : TableProgram R (Nat × Manifest) := do
  let loaded ← caller.load
  cleanupStaging loaded.1 (caller.keeps loaded.2)
  pure loaded

theorem ends_run {caller : CleanupCaller R} {before after : TableStorage R}
    {loaded : Nat × Manifest} :
    caller.run.Ends before loaded after ↔
      ∃ middle, caller.load.Ends before loaded middle ∧
        cleaned loaded.1 (caller.keeps loaded.2) middle = after := by
  simp only [run, Script.ends_bind, ends_cleanupStaging, Script.ends_pure]
  constructor
  · rintro ⟨_, middle, load, _, _, rfl, rfl, rfl⟩
    exact ⟨middle, load, rfl⟩
  · rintro ⟨middle, load, rfl⟩
    exact ⟨_, middle, load, (), _, rfl, rfl, rfl⟩

/-! ## When a referenced file is removed -/

/-- A leftover of an earlier commit or compaction endangers a file: it is a staged part, or an
intent lists it and the caller does not keep it. -/
def Endangers (caller : CleanupCaller R) (live : Manifest) (storage : TableStorage R)
    (path : String) : Prop :=
  isStagedPart path = true ∨
    (∃ now, caller = .compaction now) ∧ path ∉ Compactor.referencedFiles live ∧
      ∃ intent files, storage.intents.lookup intent = some files ∧ path ∈ files

theorem removes_iff_endangers {caller : CleanupCaller R} {live : Manifest}
    {storage : TableStorage R} {path : String} (referenced : ReferencedBy live path) :
    Removes (caller.keeps live) storage path ↔ caller.Endangers live storage path := by
  have kept : path ∈ Writer.manifestReferencedFiles live :=
    mem_manifestReferencedFiles.mpr referenced
  cases caller <;> simp [Removes, Endangers, keeps, kept]

/-- A cleanup keeps every committed file exactly when no leftover endangers one: no referenced file
is a staged part and, for a compaction, no leftover intent lists a referenced deletion vector,
index file, row-index file or checkpoint. -/
theorem keeps_referenced_iff (caller : CleanupCaller R) {before after : TableStorage R}
    {latestSeq : Nat} {live : Manifest} (run : caller.run.Ends before (latestSeq, live) after) :
    ∃ loaded, caller.load.Ends before (latestSeq, live) loaded ∧
      ((∀ path, ReferencedBy live path → after.files.lookup path = loaded.files.lookup path) ↔
        ∀ path, ReferencedBy live path → loaded.fileExists path = true →
          ¬caller.Endangers live loaded path) := by
  obtain ⟨loaded, load, rfl⟩ := ends_run.mp run
  refine ⟨loaded, load, ?_, ?_⟩
  · intro kept path referenced there endangered
    have removed : (cleaned latestSeq (caller.keeps live) loaded).files.lookup path = none :=
      lookup_cleaned_of_removes ((removes_iff_endangers referenced).mpr endangered)
    rw [kept path referenced] at removed
    simp [Storage.fileExists, removed] at there
  · intro safe path referenced
    by_cases removed : Removes (caller.keeps live) loaded path
    · rw [lookup_cleaned_of_removes removed]
      have endangered := (removes_iff_endangers referenced).mp removed
      have absent : ¬loaded.fileExists path = true := fun there =>
        safe path referenced there endangered
      exact (by simpa [Storage.fileExists] using absent :
        loaded.files.lookup path = none).symm
    · exact lookup_cleaned removed

/-! ## A crash that endangers a deletion vector -/

/-- A delete of the first row. -/
def deleteFirst : TableProgram Int Unit :=
  Integers.writer.commitDeletes (Integers.choices 1) (AList.singleton 0 [0])

/-- The directory after a crash of the delete before the last of its eleven effects: the pointer has
moved, the intent is still there. -/
def afterCrash : TableStorage Int :=
  deleteFirst.crash Integers.twoRows 10

/-- The deletion vector that the delete has committed. -/
def committedDeletions : String :=
  "_deletions/rg_0000000000000000__v1.del"

private theorem load_afterCrash_evaluates :
    (match load (.compaction "now") afterCrash with
      | (effects, .ok (latestSeq, live)) =>
          effects.isEmpty && latestSeq = 2 &&
            (live.rowGroups.any fun entry => entry.deletes = some committedDeletions) &&
            afterCrash.fileExists committedDeletions &&
            !(cleaned 2 (Compactor.referencedFiles live) afterCrash).fileExists committedDeletions
      | (_, .error _) => false) = true := by
  decide +kernel

private theorem load_afterCrash :
    ∃ live, (load (.compaction "now")).Ends afterCrash (2, live) afterCrash ∧
      ReferencedBy live committedDeletions ∧ afterCrash.fileExists committedDeletions = true ∧
      (cleaned 2 (Compactor.referencedFiles live) afterCrash).fileExists committedDeletions =
        false := by
  have evaluated := load_afterCrash_evaluates
  split at evaluated
  · next effects latestSeq live outcome =>
      simp only [Bool.and_eq_true, decide_eq_true_eq, List.any_eq_true, Bool.not_eq_true',
        List.isEmpty_iff] at evaluated
      obtain ⟨⟨⟨⟨rfl, rfl⟩, entry, member, named⟩, there⟩, removed⟩ := evaluated
      exact ⟨live, (Script.ends_of_silent outcome).mpr ⟨rfl, rfl⟩, .deletions member named, there,
        removed⟩
  · cases evaluated

theorem afterCrash_keeps_iff :
    ∃ live after, (run (.compaction "now")).Ends afterCrash (2, live) after ∧
      ∃ loaded, (load (.compaction "now")).Ends afterCrash (2, live) loaded ∧
        ((∀ path, ReferencedBy live path → after.files.lookup path = loaded.files.lookup path) ↔
          ∀ path, ReferencedBy live path → loaded.fileExists path = true →
            ¬(compaction "now" : CleanupCaller Int).Endangers live loaded path) := by
  obtain ⟨live, load, -⟩ := load_afterCrash
  have run := ends_run.mpr ⟨afterCrash, load, rfl⟩
  exact ⟨live, _, run, keeps_referenced_iff (.compaction "now") run⟩

/-- The cleanup of a compaction removes a deletion vector that a delete has committed. -/
theorem afterCrash_loses_deletions :
    ∃ live after, (load (.compaction "now")).Ends afterCrash (2, live) afterCrash ∧
      (run (.compaction "now")).Ends afterCrash (2, live) after ∧
      ∃ path, ReferencedBy live path ∧ afterCrash.fileExists path = true ∧
        after.fileExists path = false := by
  obtain ⟨live, load, referenced, there, removed⟩ := load_afterCrash
  exact ⟨live, _, load, ends_run.mpr ⟨afterCrash, load, rfl⟩, _, referenced, there, removed⟩

end CleanupCaller

end IcefallDB
