import IcefallDB.MutationWal

/-!
# Folding the log refines replaying it

Replaying the log is a pure fold over manifests together with the writing of missing artifacts.
The fold of the log moves through four kinds of crash states; in each of them the pointer and the
log together still replay to the live manifest from before.
-/

namespace IcefallDB

namespace MutationWal

variable {β φ : Type}

/-! ## Replay as a fold over manifests -/

/-- The base manifest with every newer record applied, in list order. -/
def replay (base : Manifest) (records : List (MutationRecord β)) : Manifest :=
  records.foldl
    (fun manifest record =>
      if record.sequence > manifest.sequence then apply manifest record else manifest)
    base

/-- The artifacts of the records that a replay applies, in order. -/
def replayedArtifacts : Manifest → List (MutationRecord β) → List (StagedArtifact β)
  | _, [] => []
  | base, record :: records =>
      if record.sequence > base.sequence then
        record.stagedArtifacts ++ replayedArtifacts (apply base record) records
      else replayedArtifacts base records

/-- A replay reaches the greatest of the sequences it meets. -/
theorem sequence_le_replay (base : Manifest) (records : List (MutationRecord β)) :
    base.sequence ≤ (replay base records).sequence ∧
      ∀ record ∈ records, record.sequence ≤ (replay base records).sequence := by
  induction records generalizing base with
  | nil => simp [replay]
  | cons record records ih =>
      rw [replay, List.foldl_cons]
      split
      · next newer =>
          obtain ⟨above, members⟩ := ih (apply base record)
          rw [apply_sequence] at above
          refine ⟨le_trans (Nat.le_of_lt newer) above, ?_⟩
          intro other member
          rcases List.mem_cons.mp member with rfl | member
          · exact above
          · exact members other member
      · next older =>
          obtain ⟨above, members⟩ := ih base
          refine ⟨above, ?_⟩
          intro other member
          rcases List.mem_cons.mp member with rfl | member
          · exact le_trans (Nat.le_of_not_lt older) above
          · exact members other member

variable {base : Manifest}

/-- Records that are not newer than the base leave it alone. -/
theorem replay_eq_base {records : List (MutationRecord β)}
    (folded : ∀ record ∈ records, record.sequence ≤ base.sequence) :
    replay base records = base := by
  induction records with
  | nil => rfl
  | cons record records ih =>
      have older : ¬record.sequence > base.sequence := by
        have := folded record List.mem_cons_self
        omega
      rw [replay, List.foldl_cons, if_neg older]
      exact ih fun other member => folded other (List.mem_cons_of_mem record member)

theorem replayedArtifacts_eq_nil {records : List (MutationRecord β)}
    (folded : ∀ record ∈ records, record.sequence ≤ base.sequence) :
    replayedArtifacts base records = [] := by
  induction records with
  | nil => rfl
  | cons record records ih =>
      have older : ¬record.sequence > base.sequence := by
        have := folded record List.mem_cons_self
        omega
      rw [replayedArtifacts, if_neg older]
      exact ih fun other member => folded other (List.mem_cons_of_mem record member)

variable (decode : β → Except String φ)

/-- Replaying records is writing the missing artifacts and folding the manifests. -/
theorem fold_replayRecord (base : Manifest) (records : List (MutationRecord β)) :
    Script.fold (replayRecord decode) base records =
      Script.each (materializeArtifact decode) (replayedArtifacts base records) >>= fun _ =>
        pure (replay base records) := by
  induction records generalizing base with
  | nil =>
      rw [replayedArtifacts, Script.each, Script.pure_bind]
      rfl
  | cons record records ih =>
      rw [Script.fold, replayRecord, replayedArtifacts, replay, List.foldl_cons]
      split
      · rw [Script.bind_assoc, Script.each_append, Script.bind_assoc]
        congr 1
        funext _
        rw [Script.pure_bind]
        exact ih (apply base record)
      · rw [Script.pure_bind]
        exact ih base

/-! ## Writing missing artifacts can be resumed -/

theorem each_materialize_cons (artifact : StagedArtifact β) (artifacts : List (StagedArtifact β))
    (storage : Storage β φ) :
    Script.each (materializeArtifact decode) (artifact :: artifacts) storage =
      if storage.fileExists artifact.path then
        Script.each (materializeArtifact decode) artifacts storage
      else
        match decode artifact.hex with
        | .ok contents =>
            let rest := Script.each (materializeArtifact decode) artifacts
              (Effect.perform (StorageEffect.write artifact.path contents) storage)
            (.write artifact.path contents :: rest.1, rest.2)
        | .error reason =>
            ([], .error (.other
              ("mutation_wal: bad artifact hex for " ++ artifact.path ++ ": " ++ reason))) := by
  by_cases there : storage.fileExists artifact.path
  · simp [Script.each, materializeArtifact, bind, pure, Script.andThen, Script.read, there]
  · cases decoded : decode artifact.hex <;>
      simp [Script.each, materializeArtifact, bind, Script.andThen, Script.read, there, decoded,
        Script.emit, Script.fail]

variable {storage : Storage β φ}

/-- Only writes are performed, and only to files of the artifacts. -/
theorem each_materialize_effects {artifacts : List (StagedArtifact β)} {effect : StorageEffect β φ}
    (performed : effect ∈ (Script.each (materializeArtifact decode) artifacts storage).1) :
    ∃ path contents, effect = .write path contents := by
  induction artifacts generalizing storage with
  | nil => simp [Script.each, pure] at performed
  | cons artifact artifacts ih =>
      rw [each_materialize_cons] at performed
      split at performed
      · exact ih performed
      · split at performed
        · rcases List.mem_cons.mp performed with rfl | later
          · exact ⟨_, _, rfl⟩
          · exact ih later
        · simp at performed

/-- Only the files of a directory decide which artifacts are missing. -/
theorem each_materialize_congr {left right : Storage β φ} (files_eq : left.files = right.files)
    (artifacts : List (StagedArtifact β)) :
    Script.each (materializeArtifact decode) artifacts left =
      Script.each (materializeArtifact decode) artifacts right := by
  induction artifacts generalizing left right with
  | nil => rfl
  | cons artifact artifacts ih =>
      have there : left.fileExists artifact.path = right.fileExists artifact.path := by
        rw [Storage.fileExists, Storage.fileExists, files_eq]
      rw [each_materialize_cons, each_materialize_cons, there, ih files_eq]
      split
      · rfl
      · cases decode artifact.hex with
        | error reason => rfl
        | ok contents =>
            simp only
            rw [ih]
            simp [Effect.perform, Storage.perform, files_eq]

theorem fileExists_performAll_write {effects : List (StorageEffect β φ)}
    (writes : ∀ effect ∈ effects, ∃ path contents, effect = .write path contents) {path : String}
    (there : storage.fileExists path = true) :
    (Script.performAll effects storage).fileExists path = true := by
  induction effects generalizing storage with
  | nil => exact there
  | cons effect effects ih =>
      obtain ⟨target, contents, rfl⟩ := writes effect List.mem_cons_self
      refine ih (fun other member => writes other (List.mem_cons_of_mem _ member)) ?_
      simp only [Effect.perform, Storage.perform, Storage.fileExists] at there ⊢
      by_cases same : path = target
      · subst same
        simp
      · rwa [AList.lookup_insert_ne same]

/-- Started again where a crash left it, the writing of missing artifacts performs the remaining
effects and has the same result. -/
theorem each_materialize_resume (artifacts : List (StagedArtifact β)) (storage : Storage β φ)
    (steps : Nat) :
    Script.each (materializeArtifact decode) artifacts
        ((Script.each (materializeArtifact decode) artifacts).crash storage steps) =
      ((Script.each (materializeArtifact decode) artifacts storage).1.drop steps,
        (Script.each (materializeArtifact decode) artifacts storage).2) := by
  induction artifacts generalizing storage steps with
  | nil => simp [Script.each, pure]
  | cons artifact artifacts ih =>
      by_cases there : storage.fileExists artifact.path
      · have same : Script.each (materializeArtifact decode) (artifact :: artifacts) storage =
            Script.each (materializeArtifact decode) artifacts storage := by
          rw [each_materialize_cons, if_pos there]
        have still : ((Script.each (materializeArtifact decode) artifacts).crash storage
            steps).fileExists artifact.path = true := by
          refine fileExists_performAll_write ?_ there
          intro effect member
          exact each_materialize_effects decode (List.mem_of_mem_take member)
        rw [Script.crash] at still ⊢
        rw [same, each_materialize_cons, if_pos still]
        exact ih storage steps
      · cases decoded : decode artifact.hex with
        | error reason =>
            have same : Script.each (materializeArtifact decode) (artifact :: artifacts) storage =
                ([], .error (.other
                  ("mutation_wal: bad artifact hex for " ++ artifact.path ++ ": " ++ reason))) := by
              rw [each_materialize_cons, if_neg there, decoded]
            simp [Script.crash, same]
        | ok contents =>
            have same := each_materialize_cons decode artifact artifacts storage
            simp only [if_neg there, decoded] at same
            cases steps with
            | zero => simp [Script.crash]
            | succ steps =>
                let written := Effect.perform (StorageEffect.write artifact.path contents) storage
                have resumed := ih written steps
                have still : ((Script.each (materializeArtifact decode) artifacts).crash written
                    steps).fileExists artifact.path = true := by
                  refine fileExists_performAll_write ?_ ?_
                  · intro effect member
                    exact each_materialize_effects decode (List.mem_of_mem_take member)
                  · simp [written, Effect.perform, Storage.perform, Storage.fileExists]
                rw [Script.crash, same]
                simp only [List.take_succ_cons, Script.performAll_cons, List.drop_succ_cons]
                rw [each_materialize_cons]
                rw [Script.crash] at still resumed
                rw [if_pos still]
                exact resumed

/-! ## The live manifest of a directory -/

/-- The manifest file that the pointer designates, if both are there. -/
def pointerManifest (storage : Storage β φ) : Option Manifest :=
  match storage.pointer with
  | .latest sequence => storage.manifests.lookup sequence
  | _ => none

theorem loadPointerManifest_eq (found : pointerManifest storage = some base) :
    loadPointerManifest storage = ([], .ok base) := by
  unfold pointerManifest at found
  split at found
  · next sequence pointer_eq =>
      simp [loadPointerManifest, bind, pure, Script.andThen, Script.read, pointer_eq, found]
  · cases found

/-- Without a pointer manifest, loading it fails and reads nothing but the pointer. -/
theorem loadPointerManifest_error (absent : pointerManifest storage = none) :
    ∃ failure, loadPointerManifest storage = ([], .error failure) := by
  unfold pointerManifest at absent
  cases pointer_eq : storage.pointer with
  | latest sequence =>
      rw [pointer_eq] at absent
      simp only at absent
      simp [loadPointerManifest, bind, Script.andThen, Script.read, pointer_eq, absent, Script.fail]
  | missing =>
      simp [loadPointerManifest, bind, Script.andThen, Script.read, pointer_eq, Script.fail]
  | notJson =>
      simp [loadPointerManifest, bind, Script.andThen, Script.read, pointer_eq, Script.fail]
  | noLatest =>
      simp [loadPointerManifest, bind, Script.andThen, Script.read, pointer_eq, Script.fail]

variable {before after : Storage β φ}

theorem ends_loadPointerManifest :
    loadPointerManifest.Ends before base after ↔
      pointerManifest before = some base ∧ before = after := by
  cases found : pointerManifest before with
  | none =>
      obtain ⟨failure, load_eq⟩ := loadPointerManifest_error found
      simpa using Script.not_ends_of_error load_eq
  | some manifest =>
      rw [Script.ends_of_silent (loadPointerManifest_eq found), Option.some.injEq]

/-- Replaying the log ends when the missing artifacts could be written. -/
theorem ends_liveManifest {live : Manifest} :
    (liveManifest decode base).Ends before live after ↔
      replay base (readRecords before) = live ∧
        (Script.each (materializeArtifact decode)
          (replayedArtifacts base (readRecords before))).Ends before () after := by
  simp only [liveManifest, Script.ends_bind, Script.ends_read, fold_replayRecord, Script.ends_pure]
  constructor
  · rintro ⟨_, _, ⟨rfl, rfl⟩, ⟨⟩, _, run, live_eq, rfl⟩
    exact ⟨live_eq, run⟩
  · rintro ⟨live_eq, run⟩
    exact ⟨_, _, ⟨rfl, rfl⟩, (), _, run, live_eq, rfl⟩

/-- Outcome of computing the live manifest, up to its seal. -/
def liveContents (storage : Storage β φ) : Except IcefallDBError Manifest :=
  (currentManifest decode storage).2.map Manifest.contents

theorem liveContents_eq (found : pointerManifest storage = some base) :
    liveContents decode storage =
      (Script.each (materializeArtifact decode) (replayedArtifacts base (readRecords storage))
        storage).2.map fun _ => (replay base (readRecords storage)).contents := by
  simp only [liveContents, currentManifest, liveManifest, bind, Script.andThen,
    loadPointerManifest_eq found, Script.read]
  rw [Script.performAll_nil, Script.performAll_nil, fold_replayRecord]
  simp only [bind, Script.andThen, pure]
  cases (Script.each (materializeArtifact decode) (replayedArtifacts base (readRecords storage))
    storage).2 <;> rfl

/-! ## Crash points of the fold -/

/-- The live manifest of a directory whose pointer manifest has absorbed the whole log. -/
theorem liveContents_of_folded (found : pointerManifest storage = some base)
    (folded : ∀ record ∈ storage.log, record.sequence ≤ base.sequence) :
    liveContents decode storage = .ok base.contents := by
  have sorted_folded : ∀ record ∈ readRecords storage, record.sequence ≤ base.sequence := by
    intro record member
    exact folded record ((List.mem_insertionSort _).mp member)
  rw [liveContents_eq decode found, replayedArtifacts_eq_nil sorted_folded,
    replay_eq_base sorted_folded]
  rfl

/-- Writing missing artifacts leaves the pointer, the manifests and the log alone. -/
theorem each_materialize_frame (artifacts : List (StagedArtifact β))
    (storage : Storage β φ) (steps : Nat) :
    let crashed := (Script.each (materializeArtifact decode) artifacts).crash storage steps
    crashed.pointer = storage.pointer ∧ crashed.manifests = storage.manifests ∧
      crashed.log = storage.log := by
  have writes : ∀ effect ∈ (Script.each (materializeArtifact decode) artifacts storage).1.take steps,
      ∃ path contents, effect = .write path contents :=
    fun effect member => each_materialize_effects decode (List.mem_of_mem_take member)
  simp only [Script.crash]
  generalize (Script.each (materializeArtifact decode) artifacts storage).1.take steps = effects
    at writes
  induction effects generalizing storage with
  | nil => exact ⟨rfl, rfl, rfl⟩
  | cons effect effects ih =>
      obtain ⟨path, contents, rfl⟩ := writes effect List.mem_cons_self
      exact ih _ fun other member => writes other (List.mem_cons_of_mem _ member)

/-- Writing missing artifacts of the replayed records never changes what is live. -/
theorem liveContents_each_materialize (found : pointerManifest storage = some base) :
    (Script.each (materializeArtifact decode)
      (replayedArtifacts base (readRecords storage))).Always
        (fun crashed => pointerManifest crashed = some base ∧
          readRecords crashed = readRecords storage ∧
          liveContents decode crashed = liveContents decode storage) storage := by
  intro steps
  obtain ⟨pointer_eq, manifests_eq, log_eq⟩ := each_materialize_frame decode
    (replayedArtifacts base (readRecords storage)) storage steps
  have resumed := each_materialize_resume decode (replayedArtifacts base (readRecords storage))
    storage steps
  generalize (Script.each (materializeArtifact decode)
    (replayedArtifacts base (readRecords storage))).crash storage steps = crashed at *
  have found' : pointerManifest crashed = some base := by
    rw [pointerManifest, pointer_eq, manifests_eq]
    exact found
  have records_eq : readRecords crashed = readRecords storage := by
    rw [readRecords, readRecords, log_eq]
  refine ⟨found', records_eq, ?_⟩
  rw [liveContents_eq decode found', liveContents_eq decode found, records_eq, resumed]

/-- Publishing the fold of the log keeps what is live at each of its steps. -/
theorem publishFolded_always (now : String) (found : pointerManifest storage = some base)
    (live : liveContents decode storage = .ok (replay base (readRecords storage)).contents) :
    (publishFolded now (replay base (readRecords storage))).Always
      (fun crashed => liveContents decode crashed = liveContents decode storage) storage := by
  let folded := (replay base (readRecords storage)).finalize
    (parentManifestChecksum storage (replay base (readRecords storage)).sequence) now
  have log_folded : ∀ record ∈ storage.log, record.sequence ≤ folded.sequence := by
    intro record member
    exact (sequence_le_replay base (readRecords storage)).2 record
      ((List.mem_insertionSort _).mpr member)
  let written := Effect.perform (StorageEffect.writeManifest folded.sequence folded) storage
  have after_write : liveContents decode written = liveContents decode storage := by
    by_cases overwritten : storage.pointer = .latest folded.sequence
    · -- The pointer already names the written sequence, which has absorbed the log.
      have found' : pointerManifest written = some folded := by
        simp [written, pointerManifest, Effect.perform, Storage.perform, overwritten]
      rw [live, liveContents_of_folded decode found' log_folded]
      rfl
    · have found' : pointerManifest written = some base := by
        rw [← found]
        simp only [written, pointerManifest, Effect.perform, Storage.perform]
        split
        · next sequence pointer_eq =>
            apply AList.lookup_insert_ne
            rintro rfl
            exact overwritten pointer_eq
        · rfl
      have records_eq : readRecords written = readRecords storage := rfl
      have files_eq : written.files = storage.files := rfl
      rw [liveContents_eq decode found', liveContents_eq decode found, records_eq,
        each_materialize_congr decode files_eq]
  have after_pointer : liveContents decode
      (Effect.perform (StorageEffect.writePointer folded.sequence) written) =
        liveContents decode storage := by
    have found' : pointerManifest
        (Effect.perform (StorageEffect.writePointer folded.sequence) written) = some folded := by
      simp [written, pointerManifest, Effect.perform, Storage.perform]
    rw [live, liveContents_of_folded decode found' log_folded]
    rfl
  have after_clear : liveContents decode (Effect.perform StorageEffect.clearLog
      (Effect.perform (StorageEffect.writePointer folded.sequence) written)) =
        liveContents decode storage := by
    have found' : pointerManifest (Effect.perform StorageEffect.clearLog
        (Effect.perform (StorageEffect.writePointer folded.sequence) written)) = some folded := by
      simp [written, pointerManifest, Effect.perform, Storage.perform]
    rw [live, liveContents_of_folded decode found' (by simp [Effect.perform, Storage.perform])]
    rfl
  simp only [publishFolded, Script.always_bind, Script.always_read, Script.always_emit,
    Script.always_pure, Script.ends_read, Script.ends_emit]
  refine ⟨trivial, ?_⟩
  rintro _ _ ⟨rfl, rfl⟩
  refine ⟨⟨rfl, after_write⟩, ?_⟩
  rintro _ _ rfl
  refine ⟨⟨after_write, after_pointer⟩, ?_⟩
  rintro _ _ rfl
  refine ⟨⟨after_pointer, after_clear⟩, ?_⟩
  rintro _ _ rfl
  exact after_clear

/-- In every crash state of the fold the directory has the live manifest it had before. -/
theorem checkpointLocked_always (now : String) (storage : Storage β φ) :
    (checkpointLocked decode now).Always
      (fun crashed => liveContents decode crashed = liveContents decode storage) storage := by
  simp only [checkpointLocked, Script.always_bind, Script.always_read, Script.ends_read]
  refine ⟨trivial, ?_⟩
  rintro _ _ ⟨rfl, rfl⟩
  split
  · exact Script.always_pure.mpr rfl
  cases found : pointerManifest storage with
  | none =>
      obtain ⟨failure, load_eq⟩ := loadPointerManifest_error found
      refine Script.always_bind.mpr ⟨(Script.always_of_silent load_eq).mpr rfl, ?_⟩
      intro value middle run
      exact absurd run (Script.not_ends_of_error load_eq)
  | some base =>
      have load_eq := loadPointerManifest_eq found
      refine Script.always_bind.mpr ⟨(Script.always_of_silent load_eq).mpr rfl, ?_⟩
      intro value middle run
      obtain ⟨rfl, rfl⟩ := (Script.ends_of_silent load_eq).mp run
      split
      · next folded =>
          have log_folded : ∀ record ∈ storage.log, record.sequence ≤ base.sequence := by
            simpa [readRecords] using folded
          have cleared : liveContents decode (Effect.perform StorageEffect.clearLog storage) =
              liveContents decode storage := by
            rw [liveContents_of_folded decode found log_folded]
            exact liveContents_of_folded decode found (by simp [Effect.perform, Storage.perform])
          simp [Script.always_bind, cleared]
      · have writes := liveContents_each_materialize decode found
        rw [fold_replayRecord, Script.bind_assoc]
        refine Script.always_bind.mpr ⟨writes.mono fun _ both => both.2.2, ?_⟩
        intro _ written run
        obtain ⟨found', records_eq, live_eq⟩ := writes.ends run
        rw [Script.pure_bind, ← records_eq, ← live_eq]
        refine publishFolded_always decode now found' ?_
        rw [live_eq, liveContents_eq decode found, run.1, records_eq]
        rfl

theorem relates_materializeArtifact (artifact : StagedArtifact β) :
    (materializeArtifact decode artifact).Relates Storage.AddsFiles := by
  intro before result after run
  simp only [materializeArtifact, Script.ends_bind, Script.ends_read] at run
  obtain ⟨_, _, ⟨rfl, rfl⟩, run⟩ := run
  split at run
  · obtain ⟨-, rfl⟩ := Script.ends_pure.mp run
    exact refl_of Storage.AddsFiles before
  · next absent =>
      split at run
      · obtain rfl := Script.ends_emit.mp run
        refine ⟨rfl, fun path contents found => ?_⟩
        have different : path ≠ artifact.path := by
          rintro rfl
          exact absent (by simp [Storage.fileExists, found])
        exact (AList.lookup_insert_ne different).trans found
      · exact absurd run (by simp)

/-- Materializing artifacts only adds files. -/
theorem addsFiles_of_materialized {artifacts : List (StagedArtifact β)} {result : Unit}
    (run : (Script.each (materializeArtifact decode) artifacts).Ends before result after) :
    Storage.AddsFiles before after :=
  Script.Relates.each (fun artifact _ => relates_materializeArtifact decode artifact) run

/-- The directory that publishing a folded manifest leaves. -/
def foldedInto (now : String) (live : Manifest) (storage : Storage β φ) : Storage β φ :=
  { storage with
    manifests := storage.manifests.insert live.sequence
      (live.finalize (parentManifestChecksum storage live.sequence) now)
    pointer := .latest live.sequence
    log := [] }

/-- What a complete fold did: nothing, for an empty log; clear a log without news; or publish the
live manifest. -/
theorem checkpointLocked_cases {now : String} {folded : Bool}
    (run : (checkpointLocked decode now).Ends before folded after) :
    (before.log = [] ∧ after = before) ∨
      (∃ base, pointerManifest before = some base ∧
        (∀ record ∈ before.log, record.sequence ≤ base.sequence) ∧
          after = { before with log := [] }) ∨
      ∃ base healed, pointerManifest before = some base ∧
        (∃ record ∈ before.log, base.sequence < record.sequence) ∧
          (Script.each (materializeArtifact decode)
            (replayedArtifacts base (readRecords before))).Ends before () healed ∧
          after = foldedInto now (replay base (readRecords before)) healed := by
  simp only [checkpointLocked, Script.ends_bind, Script.ends_read] at run
  obtain ⟨_, _, ⟨rfl, rfl⟩, run⟩ := run
  have mem_records : ∀ record, record ∈ readRecords before ↔ record ∈ before.log :=
    fun record => List.mem_insertionSort _
  split at run
  · next empty =>
      obtain ⟨-, rfl⟩ := Script.ends_pure.mp run
      refine .inl ⟨List.eq_nil_iff_forall_not_mem.mpr fun record member => ?_, rfl⟩
      rw [← mem_records, List.isEmpty_iff.mp empty] at member
      cases member
  obtain ⟨base, _, load, run⟩ := Script.ends_bind.mp run
  obtain ⟨found, rfl⟩ := ends_loadPointerManifest.mp load
  split at run
  · next all_old =>
      simp only [Script.ends_bind, Script.ends_emit, Script.ends_pure] at run
      obtain ⟨_, _, rfl, -, rfl⟩ := run
      refine .inr (.inl ⟨base, found, fun record member => ?_, rfl⟩)
      exact of_decide_eq_true (List.all_eq_true.mp all_old record ((mem_records record).mpr member))
  · next some_new =>
      rw [fold_replayRecord, Script.bind_assoc] at run
      obtain ⟨⟨⟩, healed, materialized, run⟩ := Script.ends_bind.mp run
      simp only [Script.pure_bind, publishFolded, Script.ends_bind, Script.ends_read,
        Script.ends_emit, Script.ends_pure] at run
      obtain ⟨_, _, ⟨rfl, rfl⟩, _, _, rfl, _, _, rfl, _, _, rfl, -, rfl⟩ := run
      refine .inr (.inr ⟨base, healed, found, ?_, materialized, rfl⟩)
      by_contra none_new
      refine some_new (List.all_eq_true.mpr fun record member => decide_eq_true ?_)
      by_contra newer
      exact none_new ⟨record, (mem_records record).mp member, Nat.lt_of_not_le newer⟩

theorem log_checkpointLocked {now : String} {folded : Bool}
    (run : (checkpointLocked decode now).Ends before folded after) : after.log = [] := by
  rcases checkpointLocked_cases decode run with ⟨empty, rfl⟩ | ⟨_, -, -, rfl⟩ | ⟨_, _, -, -, -, rfl⟩
  · exact empty
  · rfl
  · rfl

/-- A fold that succeeded left nothing to fold. -/
theorem checkpointLocked_again {now later : String} {folded : Bool}
    (run : (checkpointLocked decode now).Ends storage folded after) :
    checkpointLocked decode later after = ([], .ok false) := by
  have cleared := log_checkpointLocked decode run
  simp [checkpointLocked, bind, pure, Script.andThen, Script.read, readRecords, cleared]

/-- Folding the log refines replaying it: after a complete fold, after a crash between any two of
its steps and after any further fold the live manifest is the one from before, and a fold after a
complete one does nothing. -/
theorem checkpointLocked_refines_replay (now later : String) (storage : Storage β φ) :
    (∀ steps, liveContents decode ((checkpointLocked decode now).crash storage steps) =
      liveContents decode storage) ∧
    (∀ steps more, liveContents decode ((checkpointLocked decode later).crash
      ((checkpointLocked decode now).crash storage steps) more) = liveContents decode storage) ∧
    (∀ folded after, (checkpointLocked decode now).Ends storage folded after →
      liveContents decode after = liveContents decode storage ∧
        checkpointLocked decode later after = ([], .ok false)) := by
  have always := checkpointLocked_always decode now storage
  refine ⟨always, ?_, ?_⟩
  · intro steps more
    exact (checkpointLocked_always decode later _ more).trans (always steps)
  · intro folded after run
    exact ⟨always.ends run, checkpointLocked_again decode run⟩

end MutationWal

end IcefallDB
