import IcefallDB.Table.Files
import IcefallDB.Writer.Load
import IcefallDB.Writer.Cleanup

/-!
# Garbage collection

The collector folds the mutation log, decides which manifest snapshots to retain, and deletes the
files of the table that none of them refers to, what staging left behind, and the manifest files
below the retention cutoff.
-/

namespace IcefallDB

variable {R : Type}

/-- The table has a schema. -/
def requireTableExists : TableProgram R Unit := do
  let storage ← Script.read
  match storage.schemaPointer with
  | none => Script.fail .tableNotFound
  | some schemaId =>
      Script.ensure (storage.fileExists (schemaFilename schemaId)) .tableNotFound

variable {before after : TableStorage R}

theorem eq_of_ends_requireTableExists {result : Unit}
    (run : requireTableExists.Ends before result after) : after = before := by
  obtain ⟨_, _, ends_read, run⟩ := Script.ends_bind.mp run
  obtain ⟨rfl, rfl⟩ := Script.ends_read.mp ends_read
  split at run
  · exact absurd run (by simp)
  · exact (Script.ends_ensure.mp run).2.symm

/-- A path ends with a suffix. -/
def endsWith (path suffix : String) : Bool :=
  suffix.toList.isSuffixOf path.toList

/-- A file that lies directly in a directory; the name of a directory ends with a slash. -/
def inDirectory (directory path : String) : Bool :=
  directory.toList.isPrefixOf path.toList &&
    !(path.toList.drop directory.toList.length).contains '/'

/-- What a run of the collector did. -/
structure GcResult where
  /-- Paths deleted. -/
  deleted : List String
  /-- Sequences of the snapshots that were retained, highest first. -/
  retainedSnapshots : List Nat

/-- A garbage collector that keeps a window of recent snapshots; zero keeps all. -/
structure GarbageCollector where
  retainSnapshots : Nat

namespace GarbageCollector

/-- A manifest file that the collector accepts. -/
def isValid (sequence : Nat) (manifest : Manifest) : Bool :=
  manifest.sequence = sequence && manifest.formatVersion = 1 && manifest.verifyChecksum

/-- Sequences of the valid manifest files, highest first. -/
def validSequences (storage : TableStorage R) : List Nat :=
  (descendingSequences storage).filter fun sequence =>
    (storage.manifests.lookup sequence).any (isValid sequence)

/-- The sequence that defines the retention window: the pointer's, if it is valid; else the highest
valid one, to which the pointer is moved. -/
def resolveCurrentSequence (valid : List Nat) (highest : Nat) : TableProgram R Nat := do
  let storage ← Script.read
  match storage.pointer with
  | .latest sequence =>
      if sequence ∈ valid then pure sequence
      else do
        Script.emit (.writePointer highest)
        pure highest
  | _ => do
      Script.emit (.writePointer highest)
      pure highest

/-- The lowest sequence inside the retention window. -/
def cutoff (collector : GarbageCollector) (current : Nat) : Nat :=
  if collector.retainSnapshots = 0 then 0 else current - (collector.retainSnapshots - 1)

/-- Sequences of the snapshots to retain, highest first. -/
def retained (collector : GarbageCollector) (valid : List Nat) (current : Nat) : List Nat :=
  let inside := valid.filter fun sequence => sequence ≥ collector.cutoff current
  if current ∈ inside then inside
  else (inside ++ [current]).insertionSort fun left right => left ≥ right

/-- Files that some retained snapshot refers to. -/
def referencedBy (storage : TableStorage R) (retained : List Nat) : List String :=
  retained.flatMap fun sequence =>
    (storage.manifests.lookup sequence).toList.flatMap Writer.manifestReferencedFiles

/-- A temporary file in the table directory. -/
def isTemporary (path : String) : Bool :=
  inDirectory "" path && endsWith path ".json.tmp"

/-- A file of a row group in the table directory. -/
def isRowGroupFile (path : String) : Bool :=
  inDirectory "" path && "rg_".toList.isPrefixOf path.toList &&
    [".parquet", ".meta", ".agg"].any (endsWith path)

/-- A file of a directory with one of several suffixes. -/
def isDirectFile (directory : String) (suffixes : List String) (path : String) : Bool :=
  inDirectory directory path && suffixes.any (endsWith path)

/-- A generated file of a secondary index, which has a directory of its own. -/
def isIndexGeneration (path : String) : Bool :=
  "_indexes/".toList.isPrefixOf path.toList &&
    (path.toList.drop "_indexes/".toList.length).count '/' = 1 &&
    [".json", ".idx", ".model", ".tmp"].any (endsWith path)

/-- The passes over the files of the table, each with the files it deletes. -/
def passes (referenced : List String) : List (String → Bool) :=
  let unreferenced := fun path => !referenced.contains path
  [fun path => isTemporary path || isRowGroupFile path && unreferenced path,
    fun path => isDirectFile "_deletions/" [".del"] path && unreferenced path,
    fun path => isDirectFile "_rowindex/" [".idx"] path && unreferenced path,
    fun path => isDirectFile "_checkpoints/" [".json", ".rkyv", ".tmp"] path && unreferenced path,
    fun path => isIndexGeneration path && unreferenced path,
    isStagedPart]

/-- Files that the collector deletes. -/
def garbage (storage : TableStorage R) (referenced : List String) : List String :=
  (passes referenced).flatMap fun doomed => storage.files.keys.filter doomed

/-- Name of the file of an intent. -/
def intentFilename (intent : String) : String :=
  "_staging/intents/" ++ intent ++ ".json"

/-- Delete everything that no retained snapshot needs, and the manifest files below the cutoff.
Returns the paths deleted. -/
def sweep (referenced : List String) (cutoff : Nat) : TableProgram R (List String) := do
  let storage ← Script.read
  let files := garbage storage referenced
  let intents := storage.intents.keys
  let manifests := storage.manifests.keys.filter fun sequence => sequence < cutoff
  Script.each (fun path => Script.emit (.delete path)) files
  Script.each (fun intent => Script.emit (.deleteIntent intent)) intents
  Script.each (fun sequence => Script.emit (.deleteManifest sequence)) manifests
  pure (files ++ intents.map intentFilename ++ manifests.map Manifest.filename)

/-- Run garbage collection. -/
def run (collector : GarbageCollector) (now : String) : TableProgram R GcResult := do
  requireTableExists
  let _ ← MutationWal.checkpointLocked Except.ok now
  let storage ← Script.read
  match validSequences storage with
  | [] => pure { deleted := [], retainedSnapshots := [] }
  | highest :: lower => do
      let current ← resolveCurrentSequence (highest :: lower) highest
      let retained := collector.retained (highest :: lower) current
      let deleted ← sweep (referencedBy storage retained) (collector.cutoff current)
      pure { deleted, retainedSnapshots := retained }

/-! ## What a run does -/

/-- The directory that a sweep leaves. -/
def swept (referenced : List String) (cutoff : Nat) (storage : TableStorage R) : TableStorage R :=
  { storage with
    files := eraseAll (garbage storage referenced) storage.files
    intents := eraseAll storage.intents.keys storage.intents
    manifests := eraseAll (storage.manifests.keys.filter fun sequence => sequence < cutoff)
      storage.manifests }

variable {referenced : List String}

theorem ends_sweep {cutoff : Nat} {deleted : List String}
    (run : (sweep referenced cutoff).Ends before deleted after) :
    after = swept referenced cutoff before := by
  simp only [sweep, Script.ends_bind, Script.ends_read, ends_each_delete, ends_each_deleteIntent,
    ends_each_deleteManifest, Script.ends_pure] at run
  obtain ⟨_, _, ⟨rfl, rfl⟩, _, _, rfl, _, _, rfl, _, _, rfl, -, rfl⟩ := run
  rfl

theorem ends_resolveCurrentSequence {valid : List Nat} {highest current : Nat}
    (is_valid : highest ∈ valid)
    (run : (resolveCurrentSequence valid highest).Ends before current after) :
    current ∈ valid ∧ after = { before with pointer := .latest current } ∧
      ∀ sequence ∈ valid, before.pointer = .latest sequence → current = sequence := by
  simp only [resolveCurrentSequence, Script.ends_bind, Script.ends_read] at run
  obtain ⟨_, _, ⟨rfl, rfl⟩, run⟩ := run
  split at run
  · next sequence pointer_eq =>
      split at run
      · next inside =>
          obtain ⟨rfl, rfl⟩ := Script.ends_pure.mp run
          refine ⟨inside, by rw [← pointer_eq], fun other _ same => ?_⟩
          rw [pointer_eq] at same
          exact Pointer.latest.inj same
      · next outside =>
          simp only [Script.ends_bind, Script.ends_emit, Script.ends_pure] at run
          obtain ⟨_, _, rfl, rfl, rfl⟩ := run
          refine ⟨is_valid, rfl, fun other valid_other same => ?_⟩
          rw [pointer_eq] at same
          obtain rfl := Pointer.latest.inj same
          exact absurd valid_other outside
  · next other_pointer =>
      simp only [Script.ends_bind, Script.ends_emit, Script.ends_pure] at run
      obtain ⟨_, _, rfl, rfl, rfl⟩ := run
      exact ⟨is_valid, rfl, fun other _ same => absurd same (other_pointer other)⟩

variable {collector : GarbageCollector}

/-- What a complete run did: fold the log and, if there is a valid manifest, settle the pointer and
sweep. -/
theorem run_cases {now : String} {result : GcResult}
    (run : (collector.run now).Ends before result after) :
    ∃ folded done, (MutationWal.checkpointLocked Except.ok now).Ends before done folded ∧
      ((validSequences folded = [] ∧ after = folded ∧ result = ⟨[], []⟩) ∨
        ∃ current ∈ validSequences folded,
          (∀ sequence ∈ validSequences folded, folded.pointer = .latest sequence →
            current = sequence) ∧
          result.retainedSnapshots = collector.retained (validSequences folded) current ∧
          after = swept (referencedBy folded (collector.retained (validSequences folded) current))
            (collector.cutoff current) { folded with pointer := .latest current }) := by
  obtain ⟨⟨⟩, started, exists_run, rest⟩ := Script.ends_bind.mp run
  rw [eq_of_ends_requireTableExists exists_run] at rest
  obtain ⟨done, folded, fold_run, rest⟩ := Script.ends_bind.mp rest
  obtain ⟨_, _, ends_read, rest⟩ := Script.ends_bind.mp rest
  obtain ⟨rfl, rfl⟩ := Script.ends_read.mp ends_read
  refine ⟨folded, done, fold_run, ?_⟩
  split at rest
  · next empty =>
      obtain ⟨rfl, rfl⟩ := Script.ends_pure.mp rest
      exact .inl ⟨empty, rfl, rfl⟩
  · next highest lower valid_eq =>
      obtain ⟨current, resolved, resolve_run, rest⟩ := Script.ends_bind.mp rest
      obtain ⟨is_valid, rfl, chosen⟩ :=
        ends_resolveCurrentSequence List.mem_cons_self resolve_run
      obtain ⟨deleted, _, sweep_run, rest⟩ := Script.ends_bind.mp rest
      obtain ⟨rfl, rfl⟩ := Script.ends_pure.mp rest
      rw [valid_eq]
      exact .inr ⟨current, is_valid, chosen, rfl, ends_sweep sweep_run⟩

/-! ## Nothing that is needed goes -/

variable {storage : TableStorage R} {sequence : Nat}

theorem mem_validSequences :
    sequence ∈ validSequences storage ↔
      ∃ manifest, storage.manifests.lookup sequence = some manifest ∧
        isValid sequence manifest = true := by
  simp only [validSequences, descendingSequences, List.mem_filter, List.mem_insertionSort,
    Option.any_eq_true]
  constructor
  · rintro ⟨-, manifest, found, valid⟩
    exact ⟨manifest, found, valid⟩
  · rintro ⟨manifest, found, valid⟩
    refine ⟨?_, manifest, found, valid⟩
    exact AList.mem_keys.mp (AList.lookup_isSome.mp (by simp [found]))

theorem mem_retained {valid : List Nat} {current : Nat} :
    sequence ∈ collector.retained valid current ↔
      (sequence ∈ valid ∧ collector.cutoff current ≤ sequence) ∨ sequence = current := by
  simp only [retained]
  split
  · next inside =>
      rw [List.mem_filter, decide_eq_true_eq] at inside ⊢
      constructor
      · exact .inl
      · rintro (both | rfl)
        · exact both
        · exact inside
  · rw [List.mem_insertionSort, List.mem_append, List.mem_filter, decide_eq_true_eq,
      List.mem_singleton]

theorem cutoff_le (collector : GarbageCollector) (current : Nat) :
    collector.cutoff current ≤ current := by
  unfold cutoff
  split
  · exact Nat.zero_le _
  · exact Nat.sub_le _ _

/-- A manifest that refers neither to temporary nor to staged files. -/
def Settled (manifest : Manifest) : Prop :=
  ∀ path, ReferencedBy manifest path → isTemporary path = false ∧ isStagedPart path = false

/-- Files that a snapshot needs: those its manifest refers to, and its schema. -/
def Needs (manifest : Manifest) (path : String) : Prop :=
  ReferencedBy manifest path ∨ path = schemaFilename manifest.schemaId

theorem Settled.of_contents_eq {manifest other : Manifest} (settled : Settled manifest)
    (same : other.contents = manifest.contents) : Settled other :=
  fun path is_referenced => settled path ((referencedBy_of_contents_eq same).mp is_referenced)

theorem Needs.of_contents_eq {manifest other : Manifest} {path : String}
    (needs : Needs manifest path) (same : other.contents = manifest.contents) :
    Needs other path := by
  have schema_eq : other.schemaId = manifest.schemaId := (congrArg Manifest.schemaId same :)
  refine needs.imp (referencedBy_of_contents_eq same).mpr fun is_schema => ?_
  rw [is_schema, schema_eq]

private theorem schemaFilename_not_garbage (referenced : List String) (schemaId : Nat) :
    ∀ doomed ∈ passes referenced, doomed (schemaFilename schemaId) = false := by
  have path_eq : ∃ rest, (schemaFilename schemaId).toList = "_schemas/".toList ++ rest := by
    refine ⟨zeroPad 6 (Nat.toDigits 10 schemaId) ++ ".json".toList, ?_⟩
    simp [schemaFilename, String.toList_append]
  obtain ⟨rest, path_eq⟩ := path_eq
  have not_root : inDirectory "" (schemaFilename schemaId) = false := by
    simp [inDirectory, path_eq]
  have not_under : ∀ directory ∈ ["_deletions/", "_rowindex/", "_checkpoints/", "_indexes/",
      "_staging/incoming/", "_staging/compact/"],
      directory.toList.isPrefixOf (schemaFilename schemaId).toList = false := by
    rw [path_eq]
    simp [List.isPrefixOf]
  have not_direct : ∀ directory ∈ ["_deletions/", "_rowindex/", "_checkpoints/"], ∀ suffixes,
      isDirectFile directory suffixes (schemaFilename schemaId) = false := by
    intro directory member suffixes
    have outside := not_under directory (List.mem_append_left _ member)
    simp [isDirectFile, inDirectory, outside]
  intro doomed member
  simp only [passes, List.mem_cons, List.not_mem_nil, or_false] at member
  rcases member with rfl | rfl | rfl | rfl | rfl | rfl
  · simp [isTemporary, isRowGroupFile, not_root]
  · simp [not_direct]
  · simp [not_direct]
  · simp [not_direct]
  · have outside := not_under "_indexes/" (by simp)
    simp only [isIndexGeneration, outside, Bool.false_and]
  · have outside := not_under "_staging/incoming/" (by simp)
    have outside' := not_under "_staging/compact/" (by simp)
    simp only [isStagedPart, List.any_cons, List.any_nil, outside, outside', Bool.false_and,
      Bool.or_false]

/-- No pass deletes a file that a retained snapshot needs. -/
private theorem not_garbage_of_needs {manifest : Manifest} {path : String}
    (settled : Settled manifest)
    (protected_files : ∀ path, ReferencedBy manifest path → path ∈ referenced)
    (needs : Needs manifest path) : path ∉ garbage storage referenced := by
  intro member
  obtain ⟨doomed, is_pass, listed⟩ := List.mem_flatMap.mp member
  have deletes : doomed path = true := (List.mem_filter.mp listed).2
  rcases needs with is_referenced | rfl
  · obtain ⟨not_temporary, not_staged⟩ := settled path is_referenced
    have kept : referenced.contains path = true :=
      List.contains_iff_mem.mpr (protected_files path is_referenced)
    simp only [passes, List.mem_cons, List.not_mem_nil, or_false] at is_pass
    rcases is_pass with rfl | rfl | rfl | rfl | rfl | rfl <;>
      simp only [kept, not_temporary, not_staged, Bool.not_true, Bool.and_false, Bool.or_false,
        Bool.false_eq_true] at deletes
  · rw [schemaFilename_not_garbage referenced _ doomed is_pass] at deletes
    cases deletes

theorem lookup_swept_manifests {cutoff : Nat} :
    (swept referenced cutoff storage).manifests.lookup sequence =
      if sequence < cutoff then none else storage.manifests.lookup sequence := by
  simp only [swept, lookup_eraseAll, List.mem_filter, decide_eq_true_eq]
  by_cases below : sequence < cutoff
  · by_cases there : sequence ∈ storage.manifests.keys
    · simp [below, there]
    · simp [below, AList.lookup_eq_none.mpr there]
  · simp [below]

/-- A valid manifest that a sweep leaves keeps the files it needs. -/
private theorem lookup_swept_of_needs {current : Nat} {manifest : Manifest} {path : String}
    (kept : (swept (referencedBy storage (collector.retained (validSequences storage) current))
      (collector.cutoff current) { storage with pointer := .latest current }).manifests.lookup
        sequence = some manifest) (valid : isValid sequence manifest = true)
    (settled : Settled manifest) (needs : Needs manifest path) :
    (swept (referencedBy storage (collector.retained (validSequences storage) current))
      (collector.cutoff current) { storage with pointer := .latest current }).files.lookup path =
        storage.files.lookup path := by
  rw [lookup_swept_manifests] at kept
  split at kept
  · cases kept
  next inside =>
    have is_retained : sequence ∈ collector.retained (validSequences storage) current :=
      mem_retained.mpr (.inl ⟨mem_validSequences.mpr ⟨manifest, kept, valid⟩, Nat.le_of_not_lt inside⟩)
    have protected_files : ∀ path, ReferencedBy manifest path →
        path ∈ referencedBy storage (collector.retained (validSequences storage) current) := by
      intro path is_referenced
      refine List.mem_flatMap.mpr ⟨sequence, is_retained, List.mem_flatMap.mpr ⟨manifest, ?_, ?_⟩⟩
      · exact Option.mem_toList.mpr kept
      · exact mem_manifestReferencedFiles.mpr is_referenced
    simp only [swept, lookup_eraseAll]
    exact if_neg (not_garbage_of_needs settled protected_files needs)

/-- The log's fold adds files and changes none. -/
private theorem lookup_folded {now : String} {folded : TableStorage R} {done : Bool}
    (run : (MutationWal.checkpointLocked Except.ok now).Ends before done folded) {path : String}
    {contents : File R} (found : before.files.lookup path = some contents) :
    folded.files.lookup path = some contents := by
  rcases MutationWal.checkpointLocked_cases _ run with
    ⟨-, rfl⟩ | ⟨_, -, -, rfl⟩ | ⟨_, healed, -, -, materialized, rfl⟩
  · exact found
  · exact found
  · exact (MutationWal.addsFiles_of_materialized _ materialized).files path contents found

/-- After the fold the pointer designates the live manifest that readers saw before it, and the other
manifest files are as they were. -/
private theorem live_folded {now : String} {folded healed : TableStorage R} {done : Bool}
    {live : Manifest} (run : (MutationWal.checkpointLocked Except.ok now).Ends before done folded)
    (seen : (Catalog.refresh Except.ok).Ends before (some live) healed) :
    ∃ kept, folded.pointer = .latest kept.sequence ∧
      folded.manifests.lookup kept.sequence = some kept ∧ kept.verifyChecksum = true ∧
      kept.contents = live.contents ∧
      (∀ sequence, sequence ≠ live.sequence →
        folded.manifests.lookup sequence = before.manifests.lookup sequence) ∧
      ∀ path contents, healed.files.lookup path = some contents →
        folded.files.lookup path = some contents := by
  obtain ⟨base, pointer_eq, found, verified, replayed, materialized⟩ := Catalog.ends_refresh seen
  have pointed : MutationWal.pointerManifest before = some base := by
    rw [MutationWal.pointerManifest, pointer_eq]
    exact found
  -- without news in the log the live manifest is the pointer manifest
  have settled : (∀ record ∈ before.log, record.sequence ≤ base.sequence) →
      base = live ∧ before = healed := by
    intro old
    have old_sorted : ∀ record ∈ MutationWal.readRecords before, record.sequence ≤ base.sequence :=
      fun record member => old record ((List.mem_insertionSort _).mp member)
    rw [MutationWal.replay_eq_base old_sorted] at replayed
    rw [MutationWal.replayedArtifacts_eq_nil old_sorted, Script.ends_each_nil] at materialized
    exact ⟨replayed, materialized⟩
  rcases MutationWal.checkpointLocked_cases _ run with
    ⟨empty, rfl⟩ | ⟨base', pointed', old, rfl⟩ | ⟨base', healed', pointed', -, materialized', rfl⟩
  · obtain ⟨same, rfl⟩ := settled (by simp [empty])
    exact ⟨base, pointer_eq, found, verified, congrArg Manifest.contents same, fun _ _ => rfl,
      fun _ _ there => there⟩
  · obtain rfl := Option.some.inj (pointed.symm.trans pointed')
    obtain ⟨same, rfl⟩ := settled old
    exact ⟨base, pointer_eq, found, verified, congrArg Manifest.contents same, fun _ _ => rfl,
      fun _ _ there => there⟩
  · obtain rfl := Option.some.inj (pointed.symm.trans pointed')
    obtain ⟨-, rfl⟩ := materialized.deterministic materialized'
    refine ⟨(MutationWal.replay base (MutationWal.readRecords before)).finalize
      (MutationWal.parentManifestChecksum healed _) now, rfl, AList.lookup_insert _,
      Manifest.verifyChecksum_finalize _ _ _, ?_, fun sequence other => ?_, fun _ _ there => there⟩
    · rw [Manifest.contents_finalize, replayed]
    · rw [← replayed] at other
      have kept := (MutationWal.addsFiles_of_materialized _ materialized).manifests
      exact (AList.lookup_insert_ne other).trans (by rw [kept])

/-- A run keeps everything that is still needed: unless there was no valid manifest, the pointer
designates a retained one; every valid manifest that is left has the files it had; and the live manifest
that readers saw before the run is the one the pointer designates after it, with all of its files. -/
structure KeepsNeeded (before after : TableStorage R) (result : GcResult) : Prop where
  pointer : (result.deleted = [] ∧ result.retainedSnapshots = []) ∨
    ∃ kept, after.pointer = .latest kept.sequence ∧
      after.manifests.lookup kept.sequence = some kept ∧ isValid kept.sequence kept = true ∧
      kept.sequence ∈ result.retainedSnapshots
  manifests : ∀ sequence manifest, after.manifests.lookup sequence = some manifest →
    isValid sequence manifest = true → Settled manifest →
      ∀ path, Needs manifest path → ∀ contents, before.files.lookup path = some contents →
        after.files.lookup path = some contents
  live : ∀ live healed, (Catalog.refresh Except.ok).Ends before (some live) healed → Settled live →
    after.log = [] ∧ ∃ kept, after.pointer = .latest kept.sequence ∧
      after.manifests.lookup kept.sequence = some kept ∧ kept.contents = live.contents ∧
      ∀ path, Needs live path → ∀ contents, healed.files.lookup path = some contents →
        after.files.lookup path = some contents

/-- The collector knows the format of the live manifest, or it knows that of no other manifest. -/
def KnowsFormat (before : TableStorage R) : Prop :=
  ∀ live healed, (Catalog.refresh Except.ok).Ends before (some live) healed → Settled live →
    live.formatVersion = 1 ∨ ∀ sequence ∈ validSequences before, sequence = live.sequence

/-- Readers take manifests of any format, but the collector moves the pointer back from one that it does
not know to the last one that it does: a run that returns keeps everything that is needed exactly if it
need not. -/
theorem run_keepsNeeded_iff {collector : GarbageCollector} {now : String}
    {before after : TableStorage R} {result : GcResult}
    (run : (collector.run now).Ends before result after) :
    KeepsNeeded before after result ↔ KnowsFormat before := by
  obtain ⟨folded, done, fold_run, outcome⟩ := run_cases run
  have cleared := MutationWal.log_checkpointLocked _ fold_run
  rcases outcome with ⟨none_valid, rfl, rfl⟩ | ⟨current, is_valid, chosen, retained_eq, rfl⟩
  · apply iff_of_true
    · refine ⟨.inl ⟨rfl, rfl⟩, ?_, ?_⟩
      · exact fun _ _ _ _ _ path _ contents found => lookup_folded fold_run found
      · intro live healed seen _
        obtain ⟨kept, pointer_eq, found, -, same, -, files⟩ := live_folded fold_run seen
        exact ⟨cleared, kept, pointer_eq, found, same, fun path _ => files path⟩
    · intro live healed seen _
      obtain ⟨-, -, -, -, -, others, -⟩ := live_folded fold_run seen
      right
      intro sequence listed
      by_contra other
      rw [mem_validSequences, ← others sequence other, ← mem_validSequences, none_valid] at listed
      cases listed
  · have current_kept : ∀ manifest, folded.manifests.lookup current = some manifest →
        (swept (referencedBy folded (collector.retained (validSequences folded) current))
          (collector.cutoff current) { folded with pointer := .latest current }).manifests.lookup
            current = some manifest := by
      intro manifest found
      rw [lookup_swept_manifests, if_neg (Nat.not_lt.mpr (collector.cutoff_le current))]
      exact found
    obtain ⟨designated, designated_found, designated_valid⟩ := mem_validSequences.mp is_valid
    have numbered : designated.sequence = current := by simp_all [isValid]
    have known : designated.formatVersion = 1 := by simp_all [isValid]
    constructor
    · intro keeps live healed seen settled
      obtain ⟨-, kept, pointer_eq, kept_found, same, -⟩ := keeps.live live healed seen settled
      obtain rfl : current = kept.sequence := Pointer.latest.inj pointer_eq
      rw [current_kept designated designated_found] at kept_found
      obtain rfl := Option.some.inj kept_found
      exact .inl ((congrArg Manifest.formatVersion same).symm.trans known)
    · intro knows
      refine ⟨.inr ?_, ?_, ?_⟩
      · subst numbered
        refine ⟨designated, rfl, current_kept designated designated_found, designated_valid, ?_⟩
        rw [retained_eq]
        exact mem_retained.mpr (.inr rfl)
      · intro sequence manifest left valid settled path needs contents found
        rw [lookup_swept_of_needs left valid settled needs]
        exact lookup_folded fold_run found
      · intro live healed seen settled
        obtain ⟨kept, pointer_eq, found, verified, same, others, files⟩ := live_folded fold_run seen
        have sequence_eq : kept.sequence = live.sequence := (congrArg Manifest.sequence same :)
        have version_eq : kept.formatVersion = live.formatVersion :=
          (congrArg Manifest.formatVersion same :)
        have valid : isValid kept.sequence kept = true := by
          rcases knows live healed seen settled with supported | alone
          · simp [isValid, version_eq, supported, verified]
          · -- the manifest that the pointer ends at can only be the live one
            have current_eq : current = kept.sequence := by
              by_contra other
              rw [sequence_eq] at other
              rw [mem_validSequences, others current other, ← mem_validSequences] at is_valid
              exact other (alone current is_valid)
            subst current_eq
            rw [found] at designated_found
            obtain rfl := Option.some.inj designated_found
            exact designated_valid
        obtain rfl := chosen kept.sequence (mem_validSequences.mpr ⟨kept, found, valid⟩) pointer_eq
        refine ⟨cleared, kept, rfl, current_kept kept found, same, ?_⟩
        intro path needs contents there
        rw [lookup_swept_of_needs (current_kept kept found) valid (settled.of_contents_eq same)
          (needs.of_contents_eq same)]
        exact files path contents there

/-- A manifest of a table with a data file. -/
def manifestOf (formatVersion sequence : Nat) (data sidecar : String) : Manifest :=
  ({ formatVersion, sequence, schemaId := 1, nextRowId := 2, nextFragmentId := 1
     rowGroups := [{ data, metaFile := sidecar }] } : Manifest).finalize none "2026-01-01T00:00:00Z"

/-- A table with two snapshots, an orphaned data file and a leftover of staging. -/
def littered (formatVersion : Nat) : TableStorage Int where
  pointer := .latest 2
  manifests := AList.insert 2 (manifestOf formatVersion 2 "rg_b.parquet" "rg_b.meta")
    (AList.insert 1 (manifestOf 1 1 "rg_a.parquet" "rg_a.meta") ∅)
  log := []
  files := AList.insert "_schemas/000001.json" (.schema 1)
    (AList.insert "rg_a.parquet" (.data [10, 20])
      (AList.insert "rg_b.parquet" (.data [30])
        (AList.insert "rg_c.parquet" (.data [40])
          (AList.insert "_staging/incoming/rg_d.parquet.part" (.data [50]) ∅))))
  intents := ∅
  schemaPointer := some 1

/-- A collector that keeps one snapshot. -/
def keepOne : GarbageCollector where
  retainSnapshots := 1

private theorem littered_collects :
    (keepOne.run "2026-01-02T00:00:00Z" (littered 1)).2.isOk = true := by
  decide +kernel

/-- In a format that it does not know, the collector deletes the data file and moves the pointer. -/
private theorem littered_collected :
    (keepOne.run "2026-01-02T00:00:00Z" (littered 2)).2.isOk = true ∧
      (keepOne.run "2026-01-02T00:00:00Z" (littered 2)).2.toOption.any
        (fun result => decide ("rg_b.parquet" ∈ result.deleted)) = true ∧
      ((keepOne.run "2026-01-02T00:00:00Z").final (littered 2)).pointer = .latest 1 ∧
      (((keepOne.run "2026-01-02T00:00:00Z").final (littered 2)).manifests.lookup 1).map
        Manifest.formatVersion = some 1 := by
  decide +kernel

private theorem littered_seen (formatVersion : Nat) {live : Manifest} {healed : TableStorage Int}
    (seen : (Catalog.refresh Except.ok).Ends (littered formatVersion) (some live) healed) :
    live = manifestOf formatVersion 2 "rg_b.parquet" "rg_b.meta" := by
  obtain ⟨base, pointer_eq, found, -, rfl, -⟩ := Catalog.ends_refresh seen
  obtain sequence_eq : 2 = base.sequence := Pointer.latest.inj pointer_eq
  rw [← sequence_eq] at found
  exact (Option.some.inj found).symm

/-- Collecting the littered table keeps its live snapshot. -/
theorem littered_kept :
    ∃ result, (keepOne.run "2026-01-02T00:00:00Z").Ends (littered 1) result
        ((keepOne.run "2026-01-02T00:00:00Z").final (littered 1)) ∧
      KeepsNeeded (littered 1) ((keepOne.run "2026-01-02T00:00:00Z").final (littered 1)) result := by
  obtain ⟨result, run⟩ := Script.exists_ends_of_isOk littered_collects
  refine ⟨result, run, (run_keepsNeeded_iff run).mpr ?_⟩
  intro live healed seen _
  rw [littered_seen 1 seen]
  exact .inl rfl

private theorem littered_loads : ∃ live healed,
    (Catalog.refresh Except.ok).Ends (littered 2) (some live) healed := by
  have loads : (Catalog.refresh Except.ok (littered 2)).2.toOption.map Option.isSome = some true := by
    decide +kernel
  cases outcome : (Catalog.refresh Except.ok (littered 2)).2 with
  | error failure =>
      rw [outcome] at loads
      cases loads
  | ok found =>
      cases found with
      | none =>
          rw [outcome] at loads
          cases loads
      | some live => exact ⟨live, _, outcome, rfl⟩

/-- Of a live manifest in a format that the collector does not know, the data file is deleted. -/
theorem littered_loses :
    ∃ result, (keepOne.run "2026-01-02T00:00:00Z").Ends (littered 2) result
        ((keepOne.run "2026-01-02T00:00:00Z").final (littered 2)) ∧
      "rg_b.parquet" ∈ result.deleted ∧
      ¬KeepsNeeded (littered 2) ((keepOne.run "2026-01-02T00:00:00Z").final (littered 2)) result := by
  obtain ⟨collects, deleted, moved, first⟩ := littered_collected
  obtain ⟨result, run⟩ := Script.exists_ends_of_isOk collects
  rw [run.1] at deleted
  refine ⟨result, run, of_decide_eq_true deleted, fun keeps => ?_⟩
  obtain ⟨live, healed, seen⟩ := littered_loads
  have live_eq := littered_seen 2 seen
  have settled : Settled live := by
    have files : ∀ path ∈ Writer.manifestReferencedFiles live,
        isTemporary path = false ∧ isStagedPart path = false := by
      rw [live_eq]
      decide +kernel
    exact fun path is_referenced => files path (mem_manifestReferencedFiles.mpr is_referenced)
  obtain ⟨-, kept, pointer_eq, found, same, -⟩ := keeps.live live healed seen settled
  obtain sequence_eq : 1 = kept.sequence := Pointer.latest.inj (moved.symm.trans pointer_eq)
  rw [← sequence_eq] at found
  rw [found] at first
  have version_eq : kept.formatVersion = live.formatVersion :=
    (congrArg Manifest.formatVersion same :)
  rw [Option.map_some, version_eq, live_eq] at first
  exact absurd first (by decide)

end GarbageCollector

end IcefallDB
