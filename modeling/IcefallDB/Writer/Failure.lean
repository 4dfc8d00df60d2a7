import IcefallDB.MutationWal.Heal
import IcefallDB.Writer.Publish
import Mathlib

/-!
# Interrupted commits

A crash or a storage failure stops a commit somewhere in its effects.  Loading the current manifest
writes the artifacts of the log that are missing.  From there on until the pointer moves, the effects
of a commit and of its rollback draft: they spare the pointer, the log, the manifests up to the
current one, and the data files, sidecars and deletion vectors that the current manifest refers to.
-/

namespace IcefallDB

variable {β φ R : Type}

/-! ## What drafting spares -/

namespace Storage

/-- The pointer, the log, the manifests before a sequence and the files to keep are as they were. -/
structure Spared (kept : String → Prop) (nextSeq : Nat) (before after : Storage β φ) : Prop where
  pointer : after.pointer = before.pointer
  log : after.log = before.log
  manifests : ∀ sequence < nextSeq,
    after.manifests.lookup sequence = before.manifests.lookup sequence
  files : ∀ path, kept path → after.files.lookup path = before.files.lookup path

/-- The kinds of files that hold the rows of a table. -/
def IsRowFile : FileKind → Prop
  | .data | .sidecar | .deletions => True
  | _ => False

/-- The files to keep are there, and all of them hold rows. -/
structure Keeps (kept : String → Prop) (storage : Storage β φ) : Prop where
  there : ∀ path, kept path → storage.fileExists path = true
  kind : ∀ path, kept path → IsRowFile (kindOf path)

end Storage

namespace StorageEffect

/-- An effect of a commit before its pointer moves. -/
def Drafts (kept : String → Prop) (nextSeq : Nat) : StorageEffect β φ → Prop
  | .write path _ => ¬kept path
  | .rename source target => ¬kept source ∧ ¬kept target
  | .delete path => ¬kept path
  | .writeManifest sequence _ => sequence = nextSeq
  | .deleteManifest sequence => nextSeq ≤ sequence
  | .writeIntent _ _ => True
  | .deleteIntent _ => True
  | .note (.sequence sequence) => sequence = nextSeq
  | .note (.stagedFile path) => ¬kept path
  | .note (.intent _) => True
  | _ => False

/-- An effect of cleaning up or of rolling back, which deletes manifests of some sequences. -/
def Cleans (kept : String → Prop) (deleted : Nat → Prop) : StorageEffect β φ → Prop
  | .delete path => ¬kept path
  | .deleteManifest sequence => deleted sequence
  | .deleteIntent _ => True
  | _ => False

variable {kept : String → Prop} {nextSeq : Nat} {effect : StorageEffect β φ}

theorem Cleans.drafts {deleted : Nat → Prop} (cleans : effect.Cleans kept deleted)
    (above : ∀ sequence, deleted sequence → nextSeq ≤ sequence) : effect.Drafts kept nextSeq := by
  cases effect with
  | delete path => exact cleans
  | deleteManifest sequence => exact above sequence cleans
  | deleteIntent => trivial
  | _ => exact absurd cleans id

theorem Drafts.spared {before state : Storage β φ} (drafts : effect.Drafts kept nextSeq)
    (spared : Storage.Spared kept nextSeq before state) :
    Storage.Spared kept nextSeq before (Effect.perform effect state) := by
  obtain ⟨pointer, log, manifests, files⟩ := spared
  cases effect with
  | write path contents =>
      refine ⟨pointer, log, manifests, fun other other_kept => ?_⟩
      have different : other ≠ path := fun same => drafts (same ▸ other_kept)
      exact (AList.lookup_insert_ne different).trans (files other other_kept)
  | rename source target =>
      simp only [Effect.perform, Storage.perform]
      split
      · refine ⟨pointer, log, manifests, fun other other_kept => ?_⟩
        have not_target : other ≠ target := fun same => drafts.2 (same ▸ other_kept)
        have not_source : other ≠ source := fun same => drafts.1 (same ▸ other_kept)
        simp only
        rw [AList.lookup_insert_ne not_target, AList.lookup_erase_ne not_source]
        exact files other other_kept
      · exact ⟨pointer, log, manifests, files⟩
  | delete path =>
      refine ⟨pointer, log, manifests, fun other other_kept => ?_⟩
      have different : other ≠ path := fun same => drafts (same ▸ other_kept)
      exact (AList.lookup_erase_ne different).trans (files other other_kept)
  | writeManifest sequence manifest =>
      refine ⟨pointer, log, fun other below => ?_, files⟩
      have different : other ≠ sequence := by
        have : sequence = nextSeq := drafts
        omega
      exact (AList.lookup_insert_ne different).trans (manifests other below)
  | deleteManifest sequence =>
      refine ⟨pointer, log, fun other below => ?_, files⟩
      have different : other ≠ sequence := by
        have : nextSeq ≤ sequence := drafts
        omega
      exact (AList.lookup_erase_ne different).trans (manifests other below)
  | writeIntent | deleteIntent | note => exact ⟨pointer, log, manifests, files⟩
  | _ => exact absurd drafts id

end StorageEffect

namespace Storage

variable {kept : String → Prop} {nextSeq : Nat} {before after : Storage β φ}

theorem Spared.refl (storage : Storage β φ) : Spared kept nextSeq storage storage :=
  ⟨rfl, rfl, fun _ _ => rfl, fun _ _ => rfl⟩

theorem Spared.performAll {effects : List (StorageEffect β φ)}
    (drafts : ∀ effect ∈ effects, effect.Drafts kept nextSeq)
    (spared : Spared kept nextSeq before after) :
    Spared kept nextSeq before (Script.performAll effects after) := by
  apply Script.performAll_keeps _ spared
  intro effect member state still_spared
  exact (drafts effect member).spared still_spared

theorem Keeps.of_spared (keeps : Keeps kept before) (spared : Spared kept nextSeq before after) :
    Keeps kept after where
  there path path_kept := by
    rw [fileExists, spared.files path path_kept]
    exact keeps.there path path_kept
  kind := keeps.kind

theorem Keeps.unkept_of_kind (keeps : Keeps kept before) {path : String}
    (kind : ¬IsRowFile (kindOf path)) : ¬kept path :=
  fun path_kept => kind (keeps.kind path path_kept)

theorem Keeps.unkept_of_free (keeps : Keeps kept before) {path : String}
    (free : before.fileExists path = false) : ¬kept path := by
  intro path_kept
  rw [keeps.there path path_kept] at free
  cases free

/-- After a complete draft the files to keep are still there. -/
theorem Keeps.ends {α : Type} {script : Program β φ α} {value : α} (keeps : Keeps kept before)
    (only : script.PerformsOnly (StorageEffect.Drafts kept nextSeq) before)
    (run : script.Ends before value after) : Keeps kept after := by
  rw [← run.2]
  exact keeps.of_spared (Spared.performAll only (Spared.refl before))

/-- Without an effect that writes one, no manifest file appears. -/
theorem lookup_manifests_eq_none {effects : List (StorageEffect β φ)} {sequence : Nat}
    (unwritten : ∀ manifest, .writeManifest sequence manifest ∉ effects)
    (absent : before.manifests.lookup sequence = none) :
    (Script.performAll effects before).manifests.lookup sequence = none := by
  have keeps : ∀ effect ∈ effects, ∀ state : Storage β φ, state.manifests.lookup sequence = none →
      (Effect.perform effect state).manifests.lookup sequence = none := by
    intro effect member state still_absent
    cases effect with
    | writeManifest number manifest =>
        have different : sequence ≠ number := by
          rintro rfl
          exact unwritten manifest member
        exact (AList.lookup_insert_ne different).trans still_absent
    | deleteManifest number =>
        by_cases same : sequence = number
        · subst same
          exact AList.lookup_erase _ _
        · exact (AList.lookup_erase_ne same).trans still_absent
    | rename source target =>
        simp only [Effect.perform, Storage.perform]
        split <;> exact still_absent
    | _ => exact still_absent
  exact Script.performAll_keeps keeps absent

end Storage

namespace Writer

variable {choices : Choices R} {kept : String → Prop} {nextSeq : Nat}

/-! ## Rolling back -/

theorem ofEffects_append_singleton (effects : List (StorageEffect (File R) (File R)))
    (effect : StorageEffect (File R) (File R)) :
    RollbackInfo.ofEffects (effects ++ [effect]) =
      match effect with
      | .note entry => (RollbackInfo.ofEffects effects).record entry
      | _ => RollbackInfo.ofEffects effects := by
  rw [RollbackInfo.ofEffects, List.foldl_append]
  cases effect <;> rfl

/-- Only notes matter for a rollback. -/
theorem rollbackCommit_append {first second : List (StorageEffect (File R) (File R))}
    (unnoted : ∀ effect ∈ first, ∃ path contents, effect = .write path contents) :
    rollbackCommit (first ++ second) = rollbackCommit second := by
  have same : RollbackInfo.ofEffects first = {} := by
    induction first using List.reverseRecOn with
    | nil => rfl
    | append_singleton effects effect ih =>
        obtain ⟨path, contents, rfl⟩ := unnoted effect (List.mem_append_right _ List.mem_cons_self)
        rw [ofEffects_append_singleton]
        exact ih fun other member => unnoted other (List.mem_append_left _ member)
  have noted : RollbackInfo.ofEffects (first ++ second) = RollbackInfo.ofEffects second := by
    rw [RollbackInfo.ofEffects, List.foldl_append]
    exact congrArg (fun info => second.foldl _ info) same
  rw [rollbackCommit, noted]
  rfl

/-- What a draft notes down spares the files to keep, and the pointer has not moved. -/
structure RollbackInfo.Drafted (kept : String → Prop) (nextSeq : Nat) (info : RollbackInfo) :
    Prop where
  stagedFiles : ∀ path ∈ info.stagedFiles, ¬kept path
  sequence : info.sequence = 0 ∨ info.sequence = nextSeq
  pointerUpdated : info.pointerUpdated = false

variable {effects : List (StorageEffect (File R) (File R))}

theorem drafted_ofEffects (drafts : ∀ effect ∈ effects, effect.Drafts kept nextSeq) :
    (RollbackInfo.ofEffects effects).Drafted kept nextSeq := by
  induction effects using List.reverseRecOn with
  | nil => exact ⟨nofun, .inl rfl, rfl⟩
  | append_singleton effects effect ih =>
      have earlier := ih fun other member => drafts other (List.mem_append_left _ member)
      have last := drafts effect (List.mem_append_right _ List.mem_cons_self)
      rw [ofEffects_append_singleton]
      split
      · next entry =>
          cases entry with
          | sequence number => exact ⟨earlier.stagedFiles, .inr last, earlier.pointerUpdated⟩
          | intent => exact ⟨earlier.stagedFiles, earlier.sequence, earlier.pointerUpdated⟩
          | stagedFile path =>
              refine ⟨fun other member => ?_, earlier.sequence, earlier.pointerUpdated⟩
              rcases List.mem_append.mp member with before_last | same
              · exact earlier.stagedFiles other before_last
              · exact List.mem_singleton.mp same ▸ last
          | pointerUpdated => exact absurd last id
      · exact earlier

/-- A draft that notes its sequence down has it undone. -/
theorem sequence_ofEffects (drafts : ∀ effect ∈ effects, effect.Drafts kept nextSeq)
    (noted : .note (.sequence nextSeq) ∈ effects) :
    (RollbackInfo.ofEffects effects).sequence = nextSeq := by
  induction effects using List.reverseRecOn with
  | nil => cases noted
  | append_singleton effects effect ih =>
      have last := drafts effect (List.mem_append_right _ List.mem_cons_self)
      have earlier := ih fun other member => drafts other (List.mem_append_left _ member)
      rw [ofEffects_append_singleton]
      split
      · next entry =>
          cases entry with
          | sequence number => exact last
          | _ =>
              apply earlier
              simpa using noted
      · next other =>
          apply earlier
          rcases List.mem_append.mp noted with before_last | same
          · exact before_last
          · exact absurd (List.mem_singleton.mp same).symm (other _)

variable {performed : List (StorageEffect (File R) (File R))}

/-- What rolling a draft back performs. -/
theorem rollbackCommit_eq (drafted : (RollbackInfo.ofEffects performed).Drafted kept nextSeq)
    (before : TableStorage R) :
    rollbackCommit performed before =
      ((RollbackInfo.ofEffects performed).stagedFiles.map StorageEffect.delete ++
        (if 0 < (RollbackInfo.ofEffects performed).sequence then
          [.deleteManifest (RollbackInfo.ofEffects performed).sequence] else []) ++
        (RollbackInfo.ofEffects performed).intent.toList.map StorageEffect.deleteIntent,
      .ok ()) := by
  rw [rollbackCommit, drafted.pointerUpdated, if_neg Bool.false_ne_true]
  by_cases noted : 0 < (RollbackInfo.ofEffects performed).sequence
  · simp [Bind.bind, Script.andThen, Script.each_emit, Script.provided, Script.emit, noted]
  · simp [Bind.bind, Script.andThen, Script.each_emit, Script.provided, noted, pure]

/-- Rolling a draft back deletes no manifest but its own. -/
theorem cleans_rollbackCommit (drafts : ∀ effect ∈ performed, effect.Drafts kept nextSeq) :
    (rollbackCommit performed).Emits (StorageEffect.Cleans kept (· = nextSeq)) := by
  intro before effect rolled_back
  have drafted := drafted_ofEffects drafts
  rw [rollbackCommit_eq drafted] at rolled_back
  simp only [List.mem_append, List.mem_map] at rolled_back
  rcases rolled_back with (⟨path, staged, rfl⟩ | deleted) | ⟨intent, -, rfl⟩
  · exact drafted.stagedFiles path staged
  · split at deleted
    · next noted =>
        obtain rfl := List.mem_singleton.mp deleted
        exact drafted.sequence.resolve_left noted.ne'
    · cases deleted
  · trivial

/-- Rolling a draft back drafts. -/
theorem drafts_rollbackCommit (drafts : ∀ effect ∈ performed, effect.Drafts kept nextSeq) :
    (rollbackCommit performed).Emits (StorageEffect.Drafts kept nextSeq) :=
  (cleans_rollbackCommit drafts).mono fun _ cleans => cleans.drafts fun _ same => same.ge

/-! ## Loading -/

/-- Nothing has to be recovered to find out what is committed: nothing was ever published, or the
pointer designates a manifest that the log replays to the current one. -/
inductive Settled (storage : TableStorage R) (latestSeq : Nat) (current : Manifest) : Prop
  | fresh (pointer : storage.pointer = .latest 0) (log : storage.log = [])
      (unpublished : ∀ sequence, storage.manifests.lookup sequence = none) (zero : latestSeq = 0)
      (empty : current = emptyManifest)
  | published {base : Manifest} (pointer : storage.pointer = .latest base.sequence)
      (positive : 0 < base.sequence) (found : storage.manifests.lookup base.sequence = some base)
      (verified : base.verifyChecksum = true)
      (replayed : MutationWal.replay base (MutationWal.readRecords storage) = current)
      (numbered : current.sequence = latestSeq)

variable {storage : TableStorage R} {latestSeq : Nat} {current : Manifest}

/-- Writing the artifacts that are missing. -/
def writePending (storage : TableStorage R) : TableProgram R Unit :=
  Script.each (MutationWal.materializeArtifact Except.ok) (MutationWal.pendingArtifacts storage)

theorem ok_each_materialize (artifacts : List (StagedArtifact (File R))) (storage : TableStorage R) :
    (Script.each (MutationWal.materializeArtifact Except.ok) artifacts storage).2 = .ok () := by
  induction artifacts generalizing storage with
  | nil => rfl
  | cons artifact artifacts ih =>
      rw [MutationWal.each_materialize_cons]
      split
      · exact ih storage
      · exact ih _

theorem loadCheckpointManifest_of_pointer {base : Manifest}
    (pointer : storage.pointer = .latest base.sequence) (positive : 0 < base.sequence)
    (found : storage.manifests.lookup base.sequence = some base)
    (verified : base.verifyChecksum = true) :
    loadCheckpointManifest storage = ([], .ok (base.sequence, base)) := by
  obtain ⟨pointed, pointed_eq⟩ := Nat.exists_eq_add_of_lt positive
  rw [Nat.zero_add] at pointed_eq
  rw [pointed_eq] at pointer found ⊢
  simp [loadCheckpointManifest, readManifestValidated, Bind.bind, Script.andThen, Script.read,
    pointer, found, verified]
  rfl

/-- Behind a valid pointer, loading performs what replaying the log performs. -/
theorem effects_loadCurrent {base : Manifest}
    (pointer : storage.pointer = .latest base.sequence) (positive : 0 < base.sequence)
    (found : storage.manifests.lookup base.sequence = some base)
    (verified : base.verifyChecksum = true) :
    (loadCurrent storage).1 = (MutationWal.liveManifest Except.ok base storage).1 := by
  have pointed := loadCheckpointManifest_of_pointer pointer positive found verified
  rw [loadCurrent, loadCurrentManifest, Script.bind_of_silent pointed]
  simp only [if_neg positive.ne']
  exact Script.effects_bind_pure _ _ storage

/-- Loading the current manifest of a settled table writes the artifacts that are missing. -/
theorem Settled.load (settled : Settled storage latestSeq current) :
    loadCurrent storage = ((writePending storage storage).1, .ok (latestSeq, current)) := by
  cases settled with
  | fresh pointer log unpublished zero empty =>
      subst zero empty
      have no_keys : storage.manifests.keys = [] := by
        refine List.eq_nil_iff_forall_not_mem.mpr fun sequence member => ?_
        have there := AList.lookup_isSome.mpr (AList.mem_keys.mpr member)
        rw [unpublished sequence] at there
        cases there
      have sorted : descendingSequences storage = [] := by
        rw [descendingSequences, no_keys]
        rfl
      have recover : recoverPointer true false storage = ([], .ok (0, emptyManifest)) := by
        have nothing : highestValid storage = none := by
          rw [highestValid, sorted]
          rfl
        simp [recoverPointer, Bind.bind, Script.andThen, Script.read, nothing, sorted]
        rfl
      have no_base : MutationWal.pointerManifest storage = none := by
        rw [MutationWal.pointerManifest, pointer]
        exact unpublished 0
      have nothing : writePending storage storage = ([], .ok ()) := by
        rw [writePending, MutationWal.pendingArtifacts, no_base]
        rfl
      simp only [nothing, loadCurrent, loadCurrentManifest, loadCheckpointManifest, Bind.bind,
        Script.andThen, Script.read, Script.performAll_nil, pointer, recover]
      rfl
  | @published base pointer positive found verified replayed numbered =>
      subst replayed numbered
      have pointed_at := loadCheckpointManifest_of_pointer pointer positive found verified
      have pending : MutationWal.pendingArtifacts storage =
          MutationWal.replayedArtifacts base (MutationWal.readRecords storage) := by
        have found_base : MutationWal.pointerManifest storage = some base := by
          rw [MutationWal.pointerManifest, pointer]
          exact found
        rw [MutationWal.pendingArtifacts, found_base]
      rw [loadCurrent, loadCurrentManifest, Script.bind_of_silent pointed_at]
      simp only [if_neg positive.ne', MutationWal.liveManifest, Bind.bind, Script.andThen,
        Script.read, MutationWal.fold_replayRecord, writePending, pending, ok_each_materialize]
      simp [pure]

/-- Loading finds the current manifest and performs nothing. -/
def Loads (storage : TableStorage R) (latestSeq : Nat) (current : Manifest) : Prop :=
  loadCurrent storage = ([], .ok (latestSeq, current))

theorem Loads.silent (loads : Loads storage latestSeq current) :
    loadCurrent.PerformsOnly (fun _ => False) storage := by
  intro effect performed
  rw [Script.Performs, loads] at performed
  cases performed

variable {sequence : Nat}

theorem Loads.eq_of_ends (loads : Loads storage latestSeq current) {manifest : Manifest}
    {loaded : TableStorage R} (run : loadCurrent.Ends storage (sequence, manifest) loaded) :
    latestSeq = sequence ∧ current = manifest ∧ storage = loaded := by
  obtain ⟨same, rfl⟩ := (Script.ends_of_silent loads).mp run
  obtain ⟨rfl, rfl⟩ := Prod.mk.inj same
  exact ⟨rfl, rfl, rfl⟩

theorem Loads.final (loads : Loads storage latestSeq current) :
    loadCurrent.final storage = storage := by
  rw [Script.final, loads]
  rfl

theorem sequence_le_of_replayed {base : Manifest} {records : List (MutationRecord (File R))}
    (replayed : MutationWal.replay base records = current) : base.sequence ≤ current.sequence := by
  rw [← replayed]
  exact (MutationWal.sequence_le_replay base records).1

/-- No record of the log is newer than the current manifest. -/
theorem Settled.records_le (settled : Settled storage latestSeq current) :
    ∀ record ∈ MutationWal.readRecords storage, record.sequence ≤ latestSeq := by
  cases settled with
  | fresh _ log _ _ _ =>
      rw [MutationWal.readRecords, log]
      rintro _ ⟨⟩
  | published _ _ _ _ replayed numbered =>
      rw [← numbered, ← replayed]
      exact (MutationWal.sequence_le_replay _ _).2

theorem Settled.unpublished (settled : Settled storage latestSeq current) (zero : latestSeq = 0)
    (sequence : Nat) : storage.manifests.lookup sequence = none := by
  cases settled with
  | fresh _ _ unpublished _ _ => exact unpublished sequence
  | published _ positive _ _ replayed numbered =>
      have := sequence_le_of_replayed replayed
      omega

theorem Settled.pointer (settled : Settled storage latestSeq current) (zero : latestSeq = 0) :
    storage.pointer = .latest 0 := by
  cases settled with
  | fresh pointer _ _ _ _ => exact pointer
  | published _ positive _ _ replayed numbered =>
      have := sequence_le_of_replayed replayed
      omega

/-- The pointer designates no manifest above the current one. -/
theorem Settled.pointer_le (settled : Settled storage latestSeq current) :
    ∃ pointed, storage.pointer = .latest pointed ∧ pointed ≤ latestSeq := by
  cases settled with
  | fresh pointer => exact ⟨0, pointer, Nat.zero_le _⟩
  | published pointer _ _ _ replayed numbered =>
      exact ⟨_, pointer, numbered ▸ sequence_le_of_replayed replayed⟩

/-- Being settled depends on the pointer, the manifests up to the current one and the log. -/
theorem Settled.congr {before after : TableStorage R} (settled : Settled before latestSeq current)
    (pointer : after.pointer = before.pointer) (log : after.log = before.log)
    (manifests : ∀ sequence < latestSeq + 1,
      after.manifests.lookup sequence = before.manifests.lookup sequence)
    (unpublished : latestSeq = 0 → ∀ sequence, after.manifests.lookup sequence = none) :
    Settled after latestSeq current := by
  cases settled with
  | fresh pointed empty_log _ zero empty =>
      exact .fresh (pointer.trans pointed) (log.trans empty_log) (unpublished zero) zero empty
  | published pointed positive found verified replayed numbered =>
      apply Settled.published (pointer.trans pointed) positive _ verified _ numbered
      · rw [manifests _ _]
        · exact found
        · have := sequence_le_of_replayed replayed
          omega
      · rw [MutationWal.readRecords, log]
        exact replayed
/-- A load that crashed is resumed by the next one. -/
theorem Settled.crash (settled : Settled storage latestSeq current) (steps : Nat) :
    Settled (loadCurrent.crash storage steps) latestSeq current ∧
      loadCurrent (loadCurrent.crash storage steps) =
        ((loadCurrent storage).1.drop steps, .ok (latestSeq, current)) := by
  have same : loadCurrent.crash storage steps = (writePending storage).crash storage steps := by
    rw [Script.crash, settled.load, Script.crash]
  obtain ⟨pointer, manifests, log⟩ := MutationWal.each_materialize_frame Except.ok
    (MutationWal.pendingArtifacts storage) storage steps
  have resumed := MutationWal.each_materialize_resume Except.ok
    (MutationWal.pendingArtifacts storage) storage steps
  rw [same, settled.load]
  change ((writePending storage).crash storage steps).pointer = _ at pointer
  change ((writePending storage).crash storage steps).manifests = _ at manifests
  change ((writePending storage).crash storage steps).log = _ at log
  change writePending storage ((writePending storage).crash storage steps) = _ at resumed
  generalize (writePending storage).crash storage steps = crashed at *
  have settled' : Settled crashed latestSeq current := by
    apply settled.congr pointer log
    · intro sequence _
      rw [manifests]
    · intro zero sequence
      rw [manifests]
      exact settled.unpublished zero sequence
  refine ⟨settled', ?_⟩
  have pending : MutationWal.pendingArtifacts crashed = MutationWal.pendingArtifacts storage := by
    rw [MutationWal.pendingArtifacts, MutationWal.pendingArtifacts, MutationWal.pointerManifest,
      MutationWal.pointerManifest, MutationWal.readRecords, MutationWal.readRecords, pointer,
      manifests, log]
  rw [settled'.load, writePending, pending]
  exact congrArg (fun outcome => (outcome.1, Except.ok (latestSeq, current))) resumed

theorem Settled.final_crash (settled : Settled storage latestSeq current) (steps : Nat) :
    loadCurrent.final (loadCurrent.crash storage steps) = loadCurrent.final storage := by
  rw [Script.final, (settled.crash steps).2, Script.crash, ← Script.performAll_append,
    List.take_append_drop]
  rfl

theorem Settled.final (settled : Settled storage latestSeq current) :
    Settled (loadCurrent.final storage) latestSeq current := by
  have complete := (settled.crash (loadCurrent storage).1.length).1
  rwa [Script.crash, List.take_length] at complete

/-- What a complete load left is loaded without performing anything. -/
theorem Settled.loads (settled : Settled storage latestSeq current) :
    Loads (loadCurrent.final storage) latestSeq current := by
  have resumed := (settled.crash (loadCurrent storage).1.length).2
  rw [List.drop_length, Script.crash, List.take_length] at resumed
  exact resumed

theorem Settled.writes (settled : Settled storage latestSeq current) :
    ∀ effect ∈ (loadCurrent storage).1, ∃ path contents, effect = .write path contents := by
  intro effect member
  rw [settled.load] at member
  exact MutationWal.each_materialize_effects Except.ok member

theorem Settled.log_crash (settled : Settled storage latestSeq current) (steps : Nat) :
    (loadCurrent.crash storage steps).log = storage.log := by
  rw [Script.crash, settled.load]
  exact (MutationWal.each_materialize_frame Except.ok (MutationWal.pendingArtifacts storage) storage
    steps).2.2

theorem Settled.log_final (settled : Settled storage latestSeq current) :
    (loadCurrent.final storage).log = storage.log := by
  have same := settled.log_crash (loadCurrent storage).1.length
  rwa [Script.crash, List.take_length] at same

theorem Settled.ends (settled : Settled storage latestSeq current) :
    loadCurrent.Ends storage (latestSeq, current) (loadCurrent.final storage) :=
  ⟨congrArg Prod.snd settled.load, rfl⟩

/-- Without artifacts to write, loading performs nothing. -/
theorem Settled.loads_of_nothing_pending (settled : Settled storage latestSeq current)
    (nothing : MutationWal.pendingArtifacts storage = []) : Loads storage latestSeq current := by
  rw [Loads, settled.load, writePending, nothing]
  rfl

/-- Without a log there are none. -/
theorem Settled.loads_of_log (settled : Settled storage latestSeq current) (log : storage.log = []) :
    Loads storage latestSeq current := by
  apply settled.loads_of_nothing_pending
  rw [MutationWal.pendingArtifacts, MutationWal.readRecords, log]
  split <;> rfl

/-! ## Drafting -/

variable {writer : Writer R}

/-- The files that hold the rows of a manifest. -/
def IsRowGroupFile (current : Manifest) (path : String) : Prop :=
  ∃ entry ∈ current.rowGroups,
    path = entry.data ∨ path = entry.metaFile ∨ entry.deletes = some path

theorem IsRowGroupFile.referencedBy {path : String} (file : IsRowGroupFile current path) :
    ReferencedBy current path := by
  obtain ⟨entry, member, rfl | rfl | named⟩ := file
  · exact .data member
  · exact .sidecar member
  · exact .deletions member named

/-- Cleanup spares the row groups of the current manifest. -/
theorem cleans_cleanupStaging (keeps : storage.Keeps (IsRowGroupFile current)) :
    (cleanupStaging latestSeq (manifestReferencedFiles current)).PerformsOnly
      (StorageEffect.Cleans (IsRowGroupFile current) (latestSeq < ·)) storage := by
  apply Script.PerformsOnly.read_bind
  apply Script.Emits.performsOnly
  refine Script.Emits.bind (Script.Emits.each fun entry listed => ?_) fun _ => ?_
  · refine Script.Emits.bind (Script.Emits.each fun path member => ?_) fun _ =>
      Script.Emits.emit trivial
    refine Script.Emits.ite (fun _ => Script.emits_pure _) fun unreferenced => Script.Emits.emit ?_
    exact fun file => unreferenced (mem_manifestReferencedFiles.mpr file.referencedBy)
  refine Script.Emits.bind (Script.Emits.each fun path member => Script.Emits.emit ?_) fun _ => ?_
  · intro file
    have staging := kindOf_of_isStagedPart (List.mem_filter.mp member).2
    have kind := keeps.kind path file
    rw [staging] at kind
    exact kind
  · refine Script.Emits.each fun sequence member => Script.Emits.emit ?_
    have above : sequence > latestSeq := of_decide_eq_true (List.mem_filter.mp member).2
    exact above

/-- Beginning a commit cleans up, and finds the current manifest. -/
theorem cleans_beginAppend (loads : Loads storage latestSeq current)
    (keeps : storage.Keeps (IsRowGroupFile current)) :
    writer.beginAppend.PerformsOnly
      (StorageEffect.Cleans (IsRowGroupFile current) (latestSeq < ·)) storage := by
  refine (loads.silent.mono fun _ => False.elim).bind fun ⟨sequence, manifest⟩ loaded run => ?_
  obtain ⟨rfl, rfl, rfl⟩ := loads.eq_of_ends run
  refine ((emits_checkSchemaPointer _).performsOnly _).bind fun _ checked check_run => ?_
  obtain rfl := Script.Emits.silent (emits_checkSchemaPointer _) check_run
  refine (cleans_cleanupStaging keeps).bind fun _ _ _ => ?_
  refine ((emits_ensureNewSequence _).performsOnly _).bind fun _ _ _ => ?_
  exact (Script.emits_pure _).performsOnly _

theorem drafts_beginAppend (loads : Loads storage latestSeq current)
    (keeps : storage.Keeps (IsRowGroupFile current)) :
    writer.beginAppend.PerformsOnly
      (StorageEffect.Drafts (IsRowGroupFile current) (latestSeq + 1)) storage :=
  (cleans_beginAppend loads keeps).mono fun _ cleans => cleans.drafts fun _ above => above

theorem drafts_writeRowGroupPart (keeps : storage.Keeps kept) (planned : PlannedRowGroup R)
    (rgId : String) :
    (writer.writeRowGroupPart planned rgId).Emits (StorageEffect.Drafts kept nextSeq) := by
  have part : ∀ name, ¬kept (partPath "incoming" name) :=
    fun name => keeps.unkept_of_kind (by simp [Storage.IsRowFile])
  refine Script.Emits.bind (Script.Emits.emit (part _)) fun _ => ?_
  refine Script.Emits.bind (Script.emits_lift _) fun sidecar => ?_
  refine Script.Emits.bind (Script.Emits.emit (part _)) fun _ => ?_
  exact Script.Emits.ite (fun _ => Script.emits_pure _) fun _ => Script.Emits.emit (part _)

theorem drafts_verifyStaged (keeps : storage.Keeps kept) (planned : PlannedRowGroup R)
    (rgId : String) :
    (writer.verifyStaged planned rgId).Emits (StorageEffect.Drafts kept nextSeq) := by
  refine Script.Emits.bind (emits_verifyRowGroupChecksum _ _ _) fun verified => ?_
  refine Script.Emits.ite (fun _ => Script.emits_pure _) fun _ => ?_
  refine Script.Emits.bind (drafts_writeRowGroupPart keeps _ _) fun _ => ?_
  exact Script.Emits.bind (emits_verifyRowGroupChecksum _ _ _) fun _ => Script.emits_ensure _ _

/-- Promotion to names that are not kept drafts. -/
theorem drafts_promoteRowGroup (keeps : storage.Keeps kept) {index attempt : Nat}
    (data_unkept : ¬kept (dataFilename (choices.rgId index attempt)))
    (sidecar_unkept : ¬kept (metaFilename (choices.rgId index attempt))) :
    (promoteRowGroup (choices.rgId index attempt) : TableProgram R RowGroupFiles).Emits
      (StorageEffect.Drafts kept nextSeq) := by
  have part : ∀ name, ¬kept (partPath "incoming" name) :=
    fun name => keeps.unkept_of_kind (by simp [Storage.IsRowFile])
  have aggregate : ¬kept (aggFilename (choices.rgId index attempt)) :=
    keeps.unkept_of_kind (by simp [Storage.IsRowFile, Choices.rgId])
  refine Script.Emits.bind (emits_renameFile ⟨part _, data_unkept⟩) fun _ => ?_
  refine Script.Emits.bind (emits_renameFile ⟨part _, sidecar_unkept⟩) fun _ => ?_
  refine Script.Emits.bind (Script.Emits.emit data_unkept) fun _ => ?_
  refine Script.Emits.bind (Script.Emits.emit sidecar_unkept) fun _ => ?_
  refine Script.Emits.bind Script.emits_read fun _ => ?_
  refine Script.Emits.ite (fun _ => ?_) fun _ => Script.emits_pure _
  refine Script.Emits.bind (emits_renameFile ⟨part _, aggregate⟩) fun _ => ?_
  exact Script.Emits.bind (Script.Emits.emit aggregate) fun _ => Script.emits_pure _

/-- A row group is renamed to a name that is free, and so to none of a file to keep. -/
theorem drafts_renameRowGroup (planned : PlannedRowGroup R) {attempt attempts : Nat}
    (keeps : storage.Keeps kept) :
    (writer.renameRowGroupWithCollisionRetry choices planned attempt attempts).PerformsOnly
      (StorageEffect.Drafts kept nextSeq) storage := by
  induction attempts generalizing attempt storage with
  | zero => exact (Script.emits_fail _).performsOnly _
  | succ attempts ih =>
      have rewrites : (Script.provided (attempt > 0)
          (writer.writeRowGroupPart planned (choices.rgId planned.index attempt))).PerformsOnly
            (StorageEffect.Drafts kept nextSeq) storage :=
        (Script.Emits.provided fun _ => drafts_writeRowGroupPart keeps _ _).performsOnly _
      apply rewrites.bind
      intro _ rewritten rewrite_run
      have keeps := keeps.ends rewrites rewrite_run
      have verifies : (writer.verifyStaged planned (choices.rgId planned.index attempt)).PerformsOnly
          (StorageEffect.Drafts kept nextSeq) rewritten :=
        (drafts_verifyStaged keeps _ _).performsOnly _
      apply verifies.bind
      intro _ verified verify_run
      have keeps := keeps.ends verifies verify_run
      apply Script.PerformsOnly.read_bind
      split
      · split
        · exact (Script.emits_fail _).performsOnly _
        · have part : ∀ name, (Script.emit (.delete (partPath "incoming" name)) :
              TableProgram R Unit).Emits (StorageEffect.Drafts kept nextSeq) :=
            fun name => Script.Emits.emit (keeps.unkept_of_kind (by simp [Storage.IsRowFile]))
          refine ((part _).performsOnly _).bind fun _ _ run => ?_
          have keeps := keeps.ends ((part _).performsOnly _) run
          refine ((part _).performsOnly _).bind fun _ _ run => ?_
          have keeps := keeps.ends ((part _).performsOnly _) run
          refine ((part _).performsOnly _).bind fun _ _ run => ?_
          exact ih (keeps.ends ((part _).performsOnly _) run)
      · next free =>
          simp only [Bool.or_eq_true, not_or, Bool.not_eq_true] at free
          exact (drafts_promoteRowGroup keeps (keeps.unkept_of_free free.1)
            (keeps.unkept_of_free free.2)).performsOnly _

theorem drafts_stageRowGroups (planned : List (PlannedRowGroup R)) (keeps : storage.Keeps kept) :
    (writer.stageRowGroups choices planned).PerformsOnly (StorageEffect.Drafts kept nextSeq)
      storage := by
  have intent : ∀ paths, (Script.emit (.writeIntent choices.txnId paths) :
      TableProgram R Unit).Emits (StorageEffect.Drafts kept nextSeq) :=
    fun paths => Script.Emits.emit trivial
  have noted : (Script.emit (.note (.intent choices.txnId)) : TableProgram R Unit).Emits
      (StorageEffect.Drafts kept nextSeq) := Script.Emits.emit trivial
  refine ((intent _).performsOnly _).bind fun _ _ run => ?_
  have keeps := keeps.ends ((intent _).performsOnly _) run
  refine (noted.performsOnly _).bind fun _ _ run => ?_
  have keeps := keeps.ends (noted.performsOnly _) run
  have parts : (Script.each (fun group => writer.writeRowGroupPart group
      (choices.rgId group.index 0)) planned).Emits (StorageEffect.Drafts kept nextSeq) :=
    Script.Emits.each fun group _ => drafts_writeRowGroupPart keeps group _
  refine (parts.performsOnly _).bind fun _ _ run => ?_
  have keeps := keeps.ends (parts.performsOnly _) run
  have renames : ∀ group ∈ planned, ∀ state : TableStorage R, state.Keeps kept →
      (writer.renameRowGroupWithCollisionRetry choices group 0 3).PerformsOnly
        (StorageEffect.Drafts kept nextSeq) state :=
    fun group _ state keeps => drafts_renameRowGroup group keeps
  refine Script.PerformsOnly.bind ?_ fun files _ _ => ?_
  · apply Script.PerformsOnly.collect renames _ keeps
    intro group member state _ _ keeps run
    exact keeps.ends (renames group member state keeps) run
  refine Script.PerformsOnly.bind ?_ fun _ _ _ => (Script.emits_pure _).performsOnly _
  exact (Script.Emits.provided fun _ => intent _).performsOnly _

variable {draft : Manifest}

theorem drafts_buildIndexesIntoManifest (keeps : storage.Keeps kept) (files : List String)
    (incrementalAppend : Bool) :
    (writer.buildIndexesIntoManifest choices draft current files incrementalAppend).Emits
      (StorageEffect.Drafts kept nextSeq) := by
  refine Script.Emits.bind Script.emits_read fun storage => ?_
  refine Script.Emits.bind_ends (Script.emits_lift _) fun _ done _ run => ?_
  have maintained := (Script.ends_lift.mp run).1
  refine Script.Emits.bind (Script.Emits.each fun file member => Script.Emits.emit ?_) fun _ => ?_
  · have kind : kindOf file.1 = .index := by
      split at maintained
      · exact writer.maintainer.maintainOnInsert_kind maintained file member
      · exact writer.maintainer.maintain_kind maintained file member
    exact keeps.unkept_of_kind (by simp [Storage.IsRowFile, kind])
  · exact Script.Emits.bind (Script.Emits.emit trivial) fun _ => Script.emits_pure _

theorem drafts_checkpointManifest (keeps : storage.Keeps kept) (localRoot : Bool)
    (files : List String) :
    (checkpointManifest localRoot choices current draft files).Emits
      (StorageEffect.Drafts kept nextSeq) := by
  have unkept : ∀ path, CheckpointFile draft.sequence path → ¬kept path := by
    intro path file
    apply keeps.unkept_of_kind
    rcases file.kind with kind | kind <;> simp [Storage.IsRowFile, kind]
  have part : CheckpointFile draft.sequence (checkpointPart draft.sequence) :=
    .staging (kindOf_partPath _ _)
  refine Script.Emits.bind (emits_buildSnapshotCheckpoint _ _) fun checkpoint => ?_
  refine Script.Emits.bind ?_ fun _ => Script.emits_pure _
  refine Script.Emits.bind (Script.Emits.emit (unkept _ part)) fun _ => ?_
  refine Script.Emits.bind (Script.Emits.emit trivial) fun _ => ?_
  refine Script.Emits.bind (emits_renameFile ⟨unkept _ part, unkept _ .checkpoint⟩) fun _ => ?_
  refine Script.Emits.bind (Script.Emits.emit (unkept _ .checkpoint)) fun _ => ?_
  refine Script.Emits.bind (Script.Emits.provided fun _ => ?_) fun _ => Script.emits_pure _
  exact Script.Emits.bind (Script.Emits.emit (unkept _ .archive)) fun _ =>
    Script.Emits.emit (unkept _ .archive)

theorem drafts_writeManifest (numbered : draft.sequence = nextSeq) :
    (writeManifest choices draft : TableProgram R Manifest).Emits
      (StorageEffect.Drafts kept nextSeq) := by
  refine Script.Emits.bind Script.emits_read fun storage => ?_
  refine Script.Emits.bind (Script.emits_ensure _ _) fun _ => ?_
  exact Script.Emits.bind (Script.Emits.emit numbered) fun _ => Script.emits_pure _

/-! ## Before the pointer moves -/

/-- The effect moves the pointer, or notes that it moved. -/
def movesPointer : StorageEffect (File R) (File R) → Bool
  | .writePointer _ => true
  | .note .pointerUpdated => true
  | _ => false

/-- A commit of buffered batches drafts until it moves the pointer, and then succeeds. -/
theorem onlyUntil_tryCommit (loads : Loads storage latestSeq current)
    (keeps : storage.Keeps (IsRowGroupFile current)) (buffer : List (List R)) (replace : Bool) :
    (writer.tryCommit choices buffer replace).OnlyUntil
      (StorageEffect.Drafts (IsRowGroupFile current) (latestSeq + 1)) movesPointer storage := by
  have begins : writer.beginAppend.PerformsOnly _ storage := drafts_beginAppend loads keeps
  refine begins.bind_onlyUntil fun ⟨sequence, manifest⟩ begun run => ?_
  have keeps := keeps.ends begins run
  obtain ⟨loaded, load, -⟩ := ends_beginAppend run
  obtain ⟨rfl, rfl, -⟩ := loads.eq_of_ends load
  refine ((Script.emits_lift _).performsOnly _).bind_onlyUntil fun groups _ lift_run => ?_
  obtain ⟨-, rfl⟩ := Script.ends_lift.mp lift_run
  have noted : (Script.emit (.note (.sequence (latestSeq + 1))) : TableProgram R Unit).Emits
      (StorageEffect.Drafts (IsRowGroupFile current) (latestSeq + 1)) := Script.Emits.emit rfl
  refine (noted.performsOnly _).bind_onlyUntil fun _ _ run => ?_
  have keeps := keeps.ends (noted.performsOnly _) run
  have stages : ∀ planned, (writer.stageRowGroups choices planned).PerformsOnly
      (StorageEffect.Drafts (IsRowGroupFile current) (latestSeq + 1)) _ :=
    fun planned => drafts_stageRowGroups planned keeps
  refine (stages _).bind_onlyUntil fun files _ run => ?_
  have keeps := keeps.ends (stages _) run
  refine ((Script.emits_lift _).performsOnly _).bind_onlyUntil fun values _ _ => ?_
  refine (Script.emits_read.performsOnly _).bind_onlyUntil fun _ _ _ => ?_
  refine ((drafts_buildIndexesIntoManifest keeps _ _).performsOnly _).bind_onlyUntil
    fun ⟨built, intentFiles⟩ _ build_run => ?_
  obtain ⟨⟨generations, rfl⟩, -⟩ := ends_buildIndexesIntoManifest build_run
  refine ((drafts_checkpointManifest keeps _ _).performsOnly _).bind_onlyUntil
    fun checkpointed _ checkpoint_run => ?_
  obtain ⟨⟨checkpoint, rfl⟩, -⟩ := ends_checkpointManifest checkpoint_run
  refine ((drafts_writeManifest rfl).performsOnly _).bind_onlyUntil fun final _ _ => ?_
  have checks : ∀ entries, (Script.each plannedRowGroupForEntry entries : TableProgram R Unit).Emits
      (StorageEffect.Drafts (IsRowGroupFile current) (latestSeq + 1)) :=
    fun entries => Script.Emits.each fun entry _ => emits_plannedRowGroupForEntry entry
  refine ((checks _).performsOnly _).bind_onlyUntil fun _ _ _ => ?_
  apply Script.onlyUntil_emit_bind rfl
  · exact Script.Emits.bind (Script.Emits.emit (.inr rfl)) fun _ => Script.emits_pure _
  · exact fun state => ⟨final, rfl⟩

/-- A commit once it has loaded the current manifest. -/
def commitLoaded (writer : Writer R) (choices : Choices R) (buffer : List (List R)) :
    TableProgram R Unit :=
  if buffer.isEmpty then pure ()
  else do
    let _ ← (writer.tryCommit choices buffer false).onError rollbackCommit
    Script.emit (.deleteIntent choices.txnId)

theorem commit_eq_bind (writer : Writer R) (choices : Choices R) (buffer : List (List R)) :
    writer.commit choices buffer = loadCurrent >>= fun _ => writer.commitLoaded choices buffer :=
  rfl

/-- So does the whole commit, which rolls back what failed. -/
theorem onlyUntil_commitLoaded (loads : Loads storage latestSeq current)
    (keeps : storage.Keeps (IsRowGroupFile current)) (buffer : List (List R)) :
    (writer.commitLoaded choices buffer).OnlyUntil
      (StorageEffect.Drafts (IsRowGroupFile current) (latestSeq + 1)) movesPointer storage := by
  rw [commitLoaded]
  split
  · exact .inl ((Script.emits_pure _).performsOnly _)
  · apply Script.OnlyUntil.bind
    · exact (onlyUntil_tryCommit loads keeps buffer false).onError drafts_rollbackCommit
    · exact fun _ => Script.Emits.emit trivial
    · exact fun _ _ => ⟨(), rfl⟩

/-- The effects of a commit before it moves the pointer to its manifest.  Loading may move the
pointer before, to repair it. -/
def beforePointer (writer : Writer R) (choices : Choices R) (buffer : List (List R))
    (storage : TableStorage R) : List (StorageEffect (File R) (File R)) :=
  let loading := (loadCurrent storage).1
  loading ++ ((writer.commit choices buffer storage).1.drop loading.length).takeWhile
    fun effect => !movesPointer effect

/-- On a settled table a commit loads, and then drafts until it moves the pointer. -/
theorem Settled.commit (settled : Settled storage latestSeq current) (buffer : List (List R)) :
    writer.commit choices buffer storage =
      ((loadCurrent storage).1 ++
        (writer.commitLoaded choices buffer (loadCurrent.final storage)).1,
        (writer.commitLoaded choices buffer (loadCurrent.final storage)).2) := by
  rw [commit_eq_bind, Script.bind_of_ends settled.ends]

theorem Settled.beforePointer (settled : Settled storage latestSeq current)
    (buffer : List (List R)) :
    writer.beforePointer choices buffer storage = (loadCurrent storage).1 ++
      (writer.commitLoaded choices buffer (loadCurrent.final storage)).1.takeWhile
        fun effect => !movesPointer effect := by
  rw [Writer.beforePointer, settled.commit, List.drop_left]

/-- What drafts or moves the pointer leaves the files to keep as they were. -/
theorem lookup_files_of_drafts
    (drafts : ∀ effect ∈ effects, effect.Drafts kept nextSeq ∨ movesPointer effect = true)
    {path : String} (path_kept : kept path) (before : TableStorage R) :
    (Script.performAll effects before).files.lookup path = before.files.lookup path := by
  have keeps : ∀ effect ∈ effects, ∀ state : TableStorage R,
      state.files.lookup path = before.files.lookup path →
        (Effect.perform effect state).files.lookup path = before.files.lookup path := by
    intro effect member state same
    rcases drafts effect member with draft | moves
    · exact ((draft.spared (Storage.Spared.refl state)).files path path_kept).trans same
    · cases effect with
      | writePointer | note => exact same
      | _ => cases moves
  exact Script.performAll_keeps keeps rfl

/-! ## Failing -/

/-- A commit notes its sequence down before it writes its manifest. -/
theorem noted_of_writeManifest (loads : Loads storage latestSeq current)
    (keeps : storage.Keeps (IsRowGroupFile current)) {buffer : List (List R)} {replace : Bool}
    {manifest : Manifest}
    (written : (writer.tryCommit choices buffer replace).Performs storage
      (.writeManifest sequence manifest)) :
    (writer.tryCommit choices buffer replace).Performs storage
      (.note (.sequence (latestSeq + 1))) := by
  rcases Script.performs_bind.mp written with early | ⟨⟨number, loaded⟩, begun, begin_run, late⟩
  · exact absurd (cleans_beginAppend loads keeps _ early) id
  obtain ⟨_, load, -⟩ := ends_beginAppend begin_run
  obtain ⟨rfl, rfl, -⟩ := loads.eq_of_ends load
  rcases Script.performs_bind.mp late with lifted | ⟨groups, _, lift_run, -⟩
  · cases lifted
  · apply Script.performs_bind.mpr (.inr ⟨_, _, begin_run, _⟩)
    apply Script.performs_bind.mpr (.inr ⟨_, _, lift_run, _⟩)
    exact Script.performs_bind.mpr (.inl (Script.performs_emit.mpr rfl))

/-- Deleting its manifest takes a draft back. -/
theorem lookup_manifests_of_deleted (cleans : ∀ effect ∈ effects, effect.Cleans kept (· = nextSeq))
    (deleted : .deleteManifest sequence ∈ effects) (before : TableStorage R) :
    (Script.performAll effects before).manifests.lookup nextSeq = none := by
  obtain rfl : sequence = nextSeq := cleans _ deleted
  obtain ⟨first, rest, rfl⟩ := List.append_of_mem deleted
  rw [Script.performAll_append, Script.performAll_cons]
  apply Storage.lookup_manifests_eq_none
  · intro manifest written
    exact cleans _ (List.mem_append_right _ (List.mem_cons_of_mem _ written))
  · exact AList.lookup_erase _ _

/-- A draft that wrote no manifest, or whose manifest was deleted, leaves none behind. -/
theorem unpublished_of_undone {undone : List (StorageEffect (File R) (File R))}
    (drafts : ∀ effect ∈ performed, effect.Drafts kept nextSeq)
    (cleans : ∀ effect ∈ undone, effect.Cleans kept (· = nextSeq))
    (removed : (∀ sequence manifest, .writeManifest sequence manifest ∉ performed) ∨
      ∃ sequence, .deleteManifest sequence ∈ undone) {before : TableStorage R}
    (absent : before.manifests.lookup sequence = none) :
    (Script.performAll (performed ++ undone) before).manifests.lookup sequence = none := by
  by_cases deleted : sequence = nextSeq ∧ ∃ number, .deleteManifest number ∈ undone
  · obtain ⟨rfl, number, deleted⟩ := deleted
    rw [Script.performAll_append]
    exact lookup_manifests_of_deleted cleans deleted _
  · apply Storage.lookup_manifests_eq_none _ absent
    intro manifest written
    rcases List.mem_append.mp written with in_performed | in_undone
    · have numbered : sequence = nextSeq := drafts _ in_performed
      rcases removed with unwritten | removed
      · exact unwritten _ _ in_performed
      · exact deleted ⟨numbered, removed⟩
    · exact cleans _ in_undone

/-- A failed commit leaves no manifest behind. -/
theorem unpublished_of_failed (loads : Loads storage latestSeq current)
    (keeps : storage.Keeps (IsRowGroupFile current)) {buffer : List (List R)} {replace : Bool}
    {failure : IcefallDBError}
    (failed : (writer.tryCommit choices buffer replace storage).2 = .error failure)
    (absent : storage.manifests.lookup sequence = none) :
    (((writer.tryCommit choices buffer replace).onError rollbackCommit).final
      storage).manifests.lookup sequence = none := by
  have drafts := (onlyUntil_tryCommit loads keeps buffer replace).of_error failed
  have drafted := drafted_ofEffects drafts
  have rolled_back : ((writer.tryCommit choices buffer replace).onError rollbackCommit storage).1 =
      (writer.tryCommit choices buffer replace storage).1 ++
        (rollbackCommit (writer.tryCommit choices buffer replace storage).1
          (Script.performAll (writer.tryCommit choices buffer replace storage).1 storage)).1 := by
    rw [Script.onError, failed]
  rw [Script.final, rolled_back]
  apply unpublished_of_undone drafts (cleans_rollbackCommit drafts _) _ absent
  by_cases written : ∃ number manifest, StorageEffect.writeManifest number manifest ∈
      (writer.tryCommit choices buffer replace storage).1
  · right
    obtain ⟨number, manifest, written⟩ := written
    have noted := noted_of_writeManifest loads keeps written
    have numbered := sequence_ofEffects drafts noted
    rw [rollbackCommit_eq drafted, if_pos (by omega)]
    exact ⟨_, List.mem_append_left _ (List.mem_append_right _ List.mem_cons_self)⟩
  · left
    exact fun number manifest member => written ⟨number, manifest, member⟩

end Writer

end IcefallDB
