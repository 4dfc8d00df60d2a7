import IcefallDB.Lib.CrashHoare
import IcefallDB.Table.Action
import IcefallDB.Table.Chain
import IcefallDB.Writer.Represents
import Mathlib

/-!
# Row counts of row groups

A manifest can carry the row counts of its row groups in a list beside them.  What a table refers to
(row groups of manifest files, of records of the mutation log and of compactions that are under way)
is accounted for: whichever of its two files are there agree on the number of rows, and a list of
row counts stands beside the row groups.  Effects that write no file of such a row group, and publish
only what is accounted for, keep it so.
-/

namespace IcefallDB

variable {R : Type}

/-- The data file and the sidecar of a row group. -/
def RowGroupEntry.files (entry : RowGroupEntry) : String × String :=
  (entry.data, entry.metaFile)

/-- The files of row groups, and their row counts if these are recorded. -/
abbrev RecordedCounts :=
  List (String × String) × Option (List Nat)

/-- What a manifest records of its row groups. -/
def Manifest.recordedCounts (manifest : Manifest) : RecordedCounts :=
  (manifest.rowGroups.map RowGroupEntry.files, manifest.rowCounts)

namespace RowCounts

/-! ## What is accounted for -/

/-- A row group has this many rows, by its data file and its sidecar, as far as these are there. -/
structure Sized (storage : TableStorage R) (files : String × String) (count : Nat) : Prop where
  data : ∀ rows, storage.files.lookup files.1 = some (.data rows) → rows.length = count
  sidecar : ∀ sidecar, storage.files.lookup files.2 = some (.sidecar sidecar) → sidecar.rows = count

/-- A row group was written with these rows and this sidecar, which are in its files as far as these
are there. -/
structure Held (storage : TableStorage R) (files : String × String) (rows : List R)
    (sidecar : RowGroupMeta) : Prop where
  data_eq : ∀ contents, storage.files.lookup files.1 = some contents → contents = .data rows
  sidecar_eq : ∀ contents, storage.files.lookup files.2 = some contents →
    contents = .sidecar sidecar
  rows_eq : sidecar.rows = rows.length

theorem Held.sized {storage : TableStorage R} {files : String × String} {rows : List R}
    {sidecar : RowGroupMeta} (held : Held storage files rows sidecar) :
    Sized storage files rows.length where
  data other found := by rw [File.data.inj (held.data_eq _ found)]
  sidecar other found := by rw [File.sidecar.inj (held.sidecar_eq _ found), held.rows_eq]

theorem Held.of_files {before after : TableStorage R} {files : String × String} {rows : List R}
    {sidecar : RowGroupMeta} (held : Held before files rows sidecar)
    (kept : ∀ path contents, path = files.1 ∨ path = files.2 →
      after.files.lookup path = some contents → before.files.lookup path = some contents) :
    Held after files rows sidecar where
  data_eq contents found := held.data_eq contents (kept _ _ (.inl rfl) found)
  sidecar_eq contents found := held.sidecar_eq contents (kept _ _ (.inr rfl) found)
  rows_eq := held.rows_eq

/-- What is promised of the row groups that are written: of their files, rows and sidecars. -/
abbrev Validity (R : Type) : Type :=
  String × String → List R → RowGroupMeta → Prop

/-- Each row group was written as promised, to files with the names of row groups that are not the
writer's own, and the row counts, if recorded, are the sizes of the row groups. -/
structure Parallel (valid : Validity R) (own : String → Prop) (storage : TableStorage R)
    (recorded : RecordedCounts) : Prop where
  kinds : ∀ files ∈ recorded.1, kindOf files.1 = .data ∧ kindOf files.2 = .sidecar
  foreign : ∀ files ∈ recorded.1, ¬own files.1 ∧ ¬own files.2
  held : ∀ files ∈ recorded.1, ∃ rows sidecar, Held storage files rows sidecar ∧
    valid files rows sidecar
  counted : ∀ counts, recorded.2 = some counts → List.Forall₂ (Sized storage) recorded.1 counts

/-- What a table refers to, or is about to. -/
inductive Tracked (staged : List RecordedCounts) (storage : TableStorage R) : RecordedCounts → Prop
  | staged {recorded : RecordedCounts} (member : recorded ∈ staged) :
      Tracked staged storage recorded
  | manifest {sequence : Nat} {manifest : Manifest}
      (found : storage.manifests.lookup sequence = some manifest) :
      Tracked staged storage manifest.recordedCounts
  | record {mutation : MutationRecord (File R)} (member : mutation ∈ storage.log) :
      Tracked staged storage (mutation.fragmentAdds.map RowGroupEntry.files, none)

/-- The file is neither a data file nor a sidecar. -/
def Auxiliary (path : String) : Prop :=
  kindOf path ≠ .data ∧ kindOf path ≠ .sidecar

/-- Everything that a table refers to is accounted for, and healing the log writes neither data files
nor sidecars. -/
structure Counted (valid : Validity R) (own : String → Prop) (staged : List RecordedCounts)
    (storage : TableStorage R) : Prop where
  parallel : ∀ recorded, Tracked staged storage recorded → Parallel valid own storage recorded
  artifacts : ∀ mutation ∈ storage.log, ∀ artifact ∈ mutation.stagedArtifacts,
    Auxiliary artifact.path

/-- No file is the writer's own. -/
def nothing : String → Prop :=
  fun _ => False

/-- The files that may get the identifiers of a call. -/
def Names (choices : Choices R) (path : String) : Prop :=
  ∃ group attempt, path = dataFilename (choices.rgId group attempt) ∨
    path = metaFilename (choices.rgId group attempt)

/-- What is computed of these rows is as promised, whatever name of its own the writer gives the row
group. -/
def Seals (valid : Validity R) (own : String → Prop) (kernel : Kernel R) (schema : Schema)
    (rows : List R) : Prop :=
  ∀ rgId rowIds sidecar, own (dataFilename rgId) → own (metaFilename rgId) →
    kernel.computeRowGroupMeta schema rgId rows rowIds = .ok sidecar →
      valid (dataFilename rgId, metaFilename rgId) rows sidecar

/-- A sidecar that is given a new name and new row ids, and sealed. -/
def resealed (sidecar : RowGroupMeta) (rgId : String) (rowIds : List RowIdSegment) : RowGroupMeta :=
  let renamed : RowGroupMeta := { sidecar with rowGroup := rgId, rowIds }
  { renamed with metaChecksum := renamed.computeMetaChecksum }

/-- Rows that are copied with their sidecar are as promised. -/
def Copies (valid : Validity R) (choices : Choices R) (rows : List R) (sidecar : RowGroupMeta) : Prop :=
  ∀ attempt rowIds, valid (dataFilename (choices.rgId 0 attempt), metaFilename (choices.rgId 0 attempt))
    rows (resealed sidecar (choices.rgId 0 attempt) rowIds)

/-- A row group that shares the data file of another one is as promised if that one is. -/
def Shares (valid : Validity R) (choices : Choices R) : Prop :=
  ∀ files rows sidecar rowIds, valid files rows sidecar →
    valid (files.1, metaFilename (choices.rgId 0 0)) rows
      (resealed sidecar (choices.rgId 0 0) rowIds)

/-- Names are new: no row group that the table refers to has one. -/
def New (own : String → Prop) (staged : List RecordedCounts) (storage : TableStorage R) : Prop :=
  ∀ recorded, Tracked staged storage recorded → ∀ files ∈ recorded.1, ¬own files.1 ∧ ¬own files.2

variable {valid : Validity R} {own : String → Prop} {staged : List RecordedCounts}
  {storage before after : TableStorage R} {recorded : RecordedCounts}

theorem Parallel.sized (parallel : Parallel valid own storage recorded) :
    ∀ files ∈ recorded.1, ∃ count, Sized storage files count := by
  intro files member
  obtain ⟨rows, sidecar, held, -⟩ := parallel.held files member
  exact ⟨rows.length, held.sized⟩

theorem counted_of_empty (unpublished : storage.manifests = ∅) (unlogged : storage.log = []) :
    Counted valid own [] storage := by
  constructor
  · intro recorded tracked
    cases tracked with
    | staged member => cases member
    | manifest found =>
        rw [unpublished] at found
        cases found
    | record member =>
        rw [unlogged] at member
        cases member
  · rw [unlogged]
    exact nofun

variable {base : List RecordedCounts}

theorem Counted.mono {fewer : String → Prop} (counted : Counted valid own staged storage)
    (inside : base ⊆ staged) (owned : ∀ path, fewer path → own path) :
    Counted valid fewer base storage := by
  constructor
  · intro recorded tracked
    have parallel : Parallel valid own storage recorded := by
      apply counted.parallel
      cases tracked with
      | staged member => exact .staged (inside member)
      | manifest found => exact .manifest found
      | record member => exact .record member
    constructor
    · exact parallel.kinds
    · intro files member
      obtain ⟨data, sidecar⟩ := parallel.foreign files member
      exact ⟨mt (owned files.1) data, mt (owned files.2) sidecar⟩
    · exact parallel.held
    · exact parallel.counted
  · exact counted.artifacts

/-- What a writer that is under way accounts for, the table does without it. -/
theorem Counted.settle (counted : Counted valid own staged storage) (inside : base ⊆ staged) :
    Counted valid nothing base storage :=
  counted.mono inside fun _ => False.elim

/-- With new names, the files that may get them are the writer's own. -/
theorem Counted.owned (counted : Counted valid nothing staged storage) (new : New own staged storage) :
    Counted valid own staged storage := by
  constructor
  · intro recorded tracked
    have parallel := counted.parallel recorded tracked
    exact ⟨parallel.kinds, new recorded tracked, parallel.held, parallel.counted⟩
  · exact counted.artifacts

theorem Counted.track (counted : Counted valid own staged storage)
    (parallel : Parallel valid own storage recorded) :
    Counted valid own (recorded :: staged) storage := by
  constructor
  · intro other tracked
    cases tracked with
    | staged member =>
        rcases List.mem_cons.mp member with rfl | member
        · exact parallel
        · exact counted.parallel _ (.staged member)
    | manifest found => exact counted.parallel _ (.manifest found)
    | record member => exact counted.parallel _ (.record member)
  · exact counted.artifacts

/-- A subset of row groups without row counts. -/
theorem Parallel.subset (parallel : Parallel valid own storage recorded) {groups : List (String × String)}
    (inside : ∀ files ∈ groups, files ∈ recorded.1) : Parallel valid own storage (groups, none) where
  kinds files member := parallel.kinds files (inside files member)
  foreign files member := parallel.foreign files (inside files member)
  held files member := parallel.held files (inside files member)
  counted := nofun

theorem Parallel.append {first second : RecordedCounts} (left : Parallel valid own storage first)
    (right : Parallel valid own storage second) (counts : Option (List Nat))
    (counted : ∀ all, counts = some all → ∃ some_first some_second, all = some_first ++ some_second ∧
      List.Forall₂ (Sized storage) first.1 some_first ∧
      List.Forall₂ (Sized storage) second.1 some_second) :
    Parallel valid own storage (first.1 ++ second.1, counts) where
  kinds files member := (List.mem_append.mp member).elim (left.kinds files) (right.kinds files)
  foreign files member := (List.mem_append.mp member).elim (left.foreign files) (right.foreign files)
  held files member := (List.mem_append.mp member).elim (left.held files) (right.held files)
  counted all counts_eq := by
    obtain ⟨some_first, some_second, rfl, beside_first, beside_second⟩ := counted all counts_eq
    exact List.rel_append beside_first beside_second

theorem Sized.of_files {files : String × String} {count : Nat} (sized : Sized before files count)
    (kept : ∀ path contents, path = files.1 ∨ path = files.2 →
      after.files.lookup path = some contents → before.files.lookup path = some contents) :
    Sized after files count where
  data rows found := sized.data rows (kept _ _ (.inl rfl) found)
  sidecar sidecar found := sized.sidecar sidecar (kept _ _ (.inr rfl) found)

/-- Whatever leaves or deletes the files of row groups keeps them accounted for. -/
theorem Parallel.of_files (parallel : Parallel valid own before recorded)
    (kept : ∀ path contents, (kindOf path = .data ∨ kindOf path = .sidecar) → ¬own path →
      after.files.lookup path = some contents → before.files.lookup path = some contents) :
    Parallel valid own after recorded := by
  have still : ∀ files ∈ recorded.1, ∀ path contents, path = files.1 ∨ path = files.2 →
      after.files.lookup path = some contents → before.files.lookup path = some contents := by
    rintro files member path contents (rfl | rfl)
    · exact kept _ _ (.inl (parallel.kinds files member).1) (parallel.foreign files member).1
    · exact kept _ _ (.inr (parallel.kinds files member).2) (parallel.foreign files member).2
  constructor
  · exact parallel.kinds
  · exact parallel.foreign
  · intro files member
    obtain ⟨rows, sidecar, held, written⟩ := parallel.held files member
    exact ⟨rows, sidecar, held.of_files (still files member), written⟩
  · intro counts counts_eq
    have sized := (List.forall₂_and_left _ _).mpr ⟨fun _ => id, parallel.counted counts counts_eq⟩
    apply sized.imp
    rintro files count ⟨member, sized⟩
    exact sized.of_files (still files member)

/-! ## Effects -/

/-- The effect writes no data file and no sidecar but the writer's own, and publishes only what is
staged. -/
def Lawful (own : String → Prop) (staged : List RecordedCounts) :
    StorageEffect (File R) (File R) → Prop
  | .write path _ => Auxiliary path ∨ own path
  | .rename _ target => Auxiliary target ∨ own target
  | .writeManifest _ manifest => manifest.recordedCounts ∈ staged
  | .appendRecord mutation =>
      (mutation.fragmentAdds.map RowGroupEntry.files, none) ∈ staged ∧
        ∀ artifact ∈ mutation.stagedArtifacts, Auxiliary artifact.path
  | _ => True

variable {effect : StorageEffect (File R) (File R)}

theorem lookup_of_perform (lawful : Lawful own staged effect) {path : String} {contents : File R}
    (kind : kindOf path = .data ∨ kindOf path = .sidecar) (foreign : ¬own path)
    (found : (Effect.perform effect storage).files.lookup path = some contents) :
    storage.files.lookup path = some contents := by
  have apart : ∀ {target}, Auxiliary target ∨ own target → path ≠ target := by
    rintro _ (auxiliary | owned) rfl
    · exact kind.elim auxiliary.1 auxiliary.2
    · exact foreign owned
  cases effect with
  | write target written =>
      simp only [Effect.perform, Storage.perform, AList.lookup_insert_ne (apart lawful)] at found
      exact found
  | rename source target =>
      simp only [Effect.perform, Storage.perform] at found
      split at found
      · rw [AList.lookup_insert_ne (apart lawful)] at found
        by_cases same : path = source
        · rw [same, AList.lookup_erase] at found
          cases found
        · rwa [AList.lookup_erase_ne same] at found
      · exact found
  | delete target =>
      simp only [Effect.perform, Storage.perform] at found
      by_cases same : path = target
      · rw [same, AList.lookup_erase] at found
        cases found
      · rwa [AList.lookup_erase_ne same] at found
  | _ => exact found

/-- What a table refers to after a lawful effect, it has referred to before. -/
theorem tracked_of_perform (lawful : Lawful own staged effect)
    (tracked : Tracked staged (Effect.perform effect storage) recorded) :
    Tracked staged storage recorded := by
  cases tracked with
  | staged member => exact .staged member
  | @manifest sequence manifest found =>
      cases effect with
      | writeManifest target written =>
          by_cases same : sequence = target
          · subst same
            rw [show (Effect.perform (StorageEffect.writeManifest sequence written) storage).manifests =
              storage.manifests.insert sequence written from rfl, AList.lookup_insert] at found
            obtain rfl := Option.some.inj found
            exact .staged lawful
          · rw [show (Effect.perform (StorageEffect.writeManifest target written) storage).manifests =
              storage.manifests.insert target written from rfl, AList.lookup_insert_ne same] at found
            exact .manifest found
      | deleteManifest target =>
          by_cases same : sequence = target
          · subst same
            rw [show (Effect.perform (StorageEffect.deleteManifest sequence) storage).manifests =
              storage.manifests.erase sequence from rfl, AList.lookup_erase] at found
            cases found
          · rw [show (Effect.perform (StorageEffect.deleteManifest target) storage).manifests =
              storage.manifests.erase target from rfl, AList.lookup_erase_ne same] at found
            exact .manifest found
      | rename source target =>
          simp only [Effect.perform, Storage.perform] at found
          split at found <;> exact .manifest found
      | _ => exact .manifest found
  | @record mutation member =>
      cases effect with
      | appendRecord appended =>
          rcases List.mem_append.mp member with old | new
          · exact .record old
          · obtain rfl := List.mem_singleton.mp new
            exact .staged lawful.1
      | clearLog => cases member
      | rename source target =>
          simp only [Effect.perform, Storage.perform] at member
          split at member <;> exact .record member
      | _ => exact .record member

theorem log_of_perform (lawful : Lawful own staged effect) {mutation : MutationRecord (File R)}
    (member : mutation ∈ (Effect.perform effect storage).log) :
    mutation ∈ storage.log ∨ ∀ artifact ∈ mutation.stagedArtifacts, Auxiliary artifact.path := by
  cases effect with
  | appendRecord appended =>
      rcases List.mem_append.mp member with old | new
      · exact .inl old
      · obtain rfl := List.mem_singleton.mp new
        exact .inr lawful.2
  | clearLog => cases member
  | rename source target =>
      simp only [Effect.perform, Storage.perform] at member
      split at member <;> exact .inl member
  | _ => exact .inl member

theorem Counted.perform (lawful : Lawful own staged effect)
    (counted : Counted valid own staged storage) :
    Counted valid own staged (Effect.perform effect storage) := by
  constructor
  · intro recorded tracked
    apply (counted.parallel recorded (tracked_of_perform lawful tracked)).of_files
    intro path contents kind foreign
    exact lookup_of_perform lawful kind foreign
  · intro mutation member
    rcases log_of_perform lawful member with old | auxiliary
    · exact counted.artifacts mutation old
    · exact auxiliary

/-- A program of lawful effects, which may leave more accounted for than its crash condition says. -/
theorem safe_of_lawful {α : Type} {script : TableProgram R α} (inside : base ⊆ staged)
    (emits : script.Emits (Lawful own staged)) (counted : Counted valid own staged before) :
    script.Safe (Counted valid nothing base) (fun _ after => Counted valid own staged after) before :=
  Script.safe_of_emits emits (fun _ _ => Counted.perform) (fun _ counted => counted.settle inside)
    counted

/-! ## Replaying the log -/

theorem map_files_applyDeletes (updates : List FragmentDelete) (groups : List RowGroupEntry) :
    (MutationWal.applyDeletes updates groups).map RowGroupEntry.files =
      groups.map RowGroupEntry.files := by
  have single : ∀ (update : FragmentDelete) (entries : List RowGroupEntry),
      (MutationWal.setDeletes update entries).map RowGroupEntry.files =
        entries.map RowGroupEntry.files := by
    intro update entries
    induction entries with
    | nil => rfl
    | cons entry entries ih =>
        rw [MutationWal.setDeletes]
        split
        · rfl
        · rw [List.map_cons, List.map_cons, ih]
  induction updates generalizing groups with
  | nil => rfl
  | cons update updates ih =>
      rw [MutationWal.applyDeletes, List.foldl_cons]
      exact (ih _).trans (single update groups)

/-- A record leaves the row groups of a manifest in place, adds its own, and drops the row counts. -/
theorem recordedCounts_apply (base : Manifest) (mutation : MutationRecord (File R)) :
    (MutationWal.apply base mutation).recordedCounts =
      (base.rowGroups.map RowGroupEntry.files ++ mutation.fragmentAdds.map RowGroupEntry.files,
        none) := by
  rw [← map_files_applyDeletes mutation.fragmentDeletes, ← List.map_append]
  rfl

variable {records : List (MutationRecord (File R))}

theorem parallel_replay (counted : Counted valid own staged storage) {base : Manifest}
    (parallel : Parallel valid own storage base.recordedCounts)
    (logged : ∀ mutation ∈ records, mutation ∈ storage.log) :
    Parallel valid own storage (MutationWal.replay base records).recordedCounts := by
  induction records generalizing base with
  | nil => exact parallel
  | cons mutation records ih =>
      have rest : ∀ other ∈ records, other ∈ storage.log :=
        fun other member => logged other (List.mem_cons_of_mem mutation member)
      rw [MutationWal.replay, List.foldl_cons]
      split
      · apply ih _ rest
        have added := counted.parallel _ (.record (logged mutation List.mem_cons_self))
        rw [recordedCounts_apply]
        exact parallel.append added none (by rintro _ ⟨⟩)
      · exact ih parallel rest

theorem mem_log_of_mem_readRecords {mutation : MutationRecord (File R)}
    (member : mutation ∈ MutationWal.readRecords storage) : mutation ∈ storage.log :=
  (List.mem_insertionSort _).mp member

/-- Replaying records of the log writes none of the files that hold rows. -/
theorem emits_replayRecords (counted : Counted valid own staged storage) (base : Manifest)
    (logged : ∀ mutation ∈ records, mutation ∈ storage.log) :
    (Script.fold (MutationWal.replayRecord Except.ok) base records :
      TableProgram R Manifest).Emits (Lawful own staged) := by
  refine Script.Emits.fold (fun base mutation member => ?_) base
  refine Script.Emits.ite (fun _ => ?_) fun _ => Script.emits_pure _
  refine Script.Emits.bind (Script.Emits.each fun artifact listed => ?_) fun _ => Script.emits_pure _
  refine Script.Emits.bind Script.emits_read fun _ => ?_
  refine Script.Emits.ite (fun _ => Script.emits_pure _) fun _ => Script.Emits.emit (.inl ?_)
  exact counted.artifacts mutation (logged mutation member) artifact listed

theorem ends_replayRecords {base live : Manifest}
    (run : (Script.fold (MutationWal.replayRecord Except.ok) base records :
      TableProgram R Manifest).Ends before live after) :
    live = MutationWal.replay base records := by
  rw [MutationWal.fold_replayRecord] at run
  obtain ⟨_, _, -, run⟩ := Script.ends_bind.mp run
  exact (Script.ends_pure.mp run).1.symm

/-! ## Loading the current manifest -/

theorem parallel_emptyManifest : Parallel valid own storage emptyManifest.recordedCounts :=
  ⟨nofun, nofun, nofun, nofun⟩

private theorem emits_recoverPointer (latestZero malformed : Bool) :
    (Writer.recoverPointer latestZero malformed : TableProgram R (Nat × Manifest)).Emits
      (Lawful own staged) := by
  refine Script.Emits.bind Script.emits_read fun storage => ?_
  split
  · exact Script.Emits.bind (Script.Emits.emit trivial) fun _ => Script.emits_pure _
  · refine Script.Emits.ite (fun _ => Script.emits_fail _) fun _ => ?_
    exact Script.Emits.ite (fun _ => Script.emits_fail _) fun _ => Script.emits_pure _

theorem emits_loadCheckpointManifest :
    (Writer.loadCheckpointManifest : TableProgram R (Nat × Manifest)).Emits (Lawful own staged) := by
  refine Script.Emits.bind Script.emits_read fun storage => ?_
  split
  · exact emits_recoverPointer _ _
  · exact emits_recoverPointer _ _
  · exact emits_recoverPointer _ _
  · exact emits_recoverPointer _ _
  · split
    · exact Script.emits_fail _
    · exact Script.Emits.bind (Writer.emits_readManifestValidated _) fun _ => Script.emits_pure _

private theorem parallel_of_ends_recoverPointer (counted : Counted valid own staged before)
    {latestZero malformed : Bool} {loaded : Nat × Manifest}
    (run : (Writer.recoverPointer latestZero malformed).Ends before loaded after) :
    Parallel valid own before loaded.2.recordedCounts := by
  obtain ⟨_, _, reading, run⟩ := Script.ends_bind.mp run
  obtain ⟨rfl, rfl⟩ := Script.ends_read.mp reading
  split at run
  · next sequence manifest valid =>
      obtain ⟨_, _, -, run⟩ := Script.ends_bind.mp run
      obtain ⟨rfl, -⟩ := Script.ends_pure.mp run
      obtain ⟨newest, -, valid⟩ := Option.bind_eq_some_iff.mp valid
      obtain ⟨_, found, valid⟩ := Option.bind_eq_some_iff.mp valid
      obtain ⟨-, same⟩ := Option.ite_none_right_eq_some.mp valid
      obtain ⟨-, rfl⟩ := Prod.mk.inj (Option.some.inj same)
      exact counted.parallel _ (.manifest found)
  · rw [Script.ends_ite, Script.ends_ite] at run
    rcases run with ⟨-, failed⟩ | ⟨-, ⟨-, failed⟩ | ⟨-, run⟩⟩
    · exact (Script.ends_fail.mp failed).elim
    · exact (Script.ends_fail.mp failed).elim
    · obtain ⟨rfl, -⟩ := Script.ends_pure.mp run
      exact parallel_emptyManifest

/-- The manifest that the writer starts from is a manifest file, or there is none. -/
theorem parallel_of_ends_loadCheckpointManifest (counted : Counted valid own staged before)
    {loaded : Nat × Manifest} (run : Writer.loadCheckpointManifest.Ends before loaded after) :
    Parallel valid own before loaded.2.recordedCounts := by
  obtain ⟨_, _, reading, run⟩ := Script.ends_bind.mp run
  obtain ⟨rfl, rfl⟩ := Script.ends_read.mp reading
  split at run
  · exact parallel_of_ends_recoverPointer counted run
  · exact parallel_of_ends_recoverPointer counted run
  · exact parallel_of_ends_recoverPointer counted run
  · exact parallel_of_ends_recoverPointer counted run
  · split at run
    · exact (Script.ends_fail.mp run).elim
    · obtain ⟨manifest, _, validated, run⟩ := Script.ends_bind.mp run
      obtain ⟨rfl, -⟩ := Script.ends_pure.mp run
      obtain ⟨found, -⟩ := Writer.ends_readManifestValidated.mp validated
      exact counted.parallel _ (.manifest found)

/-- The live manifest is accounted for as its base is. -/
theorem safe_liveManifest {manifest : Manifest} (inside : base ⊆ staged)
    (parallel : Parallel valid own before manifest.recordedCounts)
    (counted : Counted valid own staged before) :
    (MutationWal.liveManifest Except.ok manifest).Safe (Counted valid nothing base)
      (fun live after => Counted valid own (live.recordedCounts :: staged) after) before := by
  refine Script.safe_bind (Script.safe_read (counted.settle inside) ?_)
  have logged : ∀ mutation ∈ MutationWal.readRecords before, mutation ∈ before.log :=
    fun _ => mem_log_of_mem_readRecords
  have replayed := counted.track (parallel_replay counted parallel logged)
  refine (safe_of_lawful (List.subset_cons_of_subset _ inside)
    (emits_replayRecords replayed manifest logged) replayed).strengthen.weaken ?_
  rintro live after ⟨run, counted⟩
  obtain rfl := ends_replayRecords run
  exact counted

/-- Loading the current manifest accounts for it. -/
theorem safe_loadCurrent (inside : base ⊆ staged) (counted : Counted valid own staged before) :
    Writer.loadCurrent.Safe (Counted valid nothing base)
      (fun loaded after => Counted valid own (loaded.2.recordedCounts :: staged) after) before := by
  refine Script.safe_bind ((safe_of_lawful inside emits_loadCheckpointManifest counted).strengthen.weaken
    ?_)
  rintro ⟨sequence, manifest⟩ middle ⟨run, still⟩
  have parallel : Parallel valid own middle manifest.recordedCounts := by
    have loaded := counted.track (parallel_of_ends_loadCheckpointManifest counted run)
    exact ((safe_of_lawful (List.Subset.refl _) emits_loadCheckpointManifest loaded).ends _ _
      run).parallel _ (.staged List.mem_cons_self)
  have settled := still.settle inside
  refine Script.safe_ite (fun _ => Script.safe_pure settled (still.track parallel)) fun _ => ?_
  refine Script.safe_bind ((safe_liveManifest inside parallel still).weaken fun live after counted => ?_)
  exact Script.safe_pure (counted.settle (List.subset_cons_of_subset _ inside)) counted

/-- A reader's manifest is a manifest file with the log replayed onto it. -/
theorem safe_refresh (counted : Counted valid own staged before) :
    (Catalog.refresh Except.ok).Safe (Counted valid nothing staged)
      (fun loaded after => Counted valid own staged after ∧ ∀ live ∈ loaded,
        Parallel valid own after live.recordedCounts) before := by
  have settled := counted.settle (List.Subset.refl _)
  refine Script.safe_bind (Script.safe_read settled ?_)
  split
  · refine Script.safe_ite (fun _ => Script.safe_fail settled) fun _ => ?_
    exact Script.safe_pure settled ⟨counted, nofun⟩
  · exact Script.safe_fail settled
  · exact Script.safe_fail settled
  · exact Script.safe_pure settled ⟨counted, nofun⟩
  · refine Script.safe_bind ((safe_of_lawful (List.Subset.refl _) (Writer.emits_readManifestValidated _)
      counted).strengthen.weaken ?_)
    rintro manifest _ ⟨run, -⟩
    obtain ⟨found, -, rfl⟩ := Writer.ends_readManifestValidated.mp run
    refine Script.safe_bind (Script.safe_ensure settled fun _ => ?_)
    refine Script.safe_bind ((safe_liveManifest (List.Subset.refl _)
      (counted.parallel _ (.manifest found)) counted).weaken fun live after counted => ?_)
    have still := counted.mono (List.subset_cons_self _ _) fun _ => id
    refine Script.safe_pure (still.settle (List.Subset.refl _)) ⟨still, fun other same => ?_⟩
    obtain rfl := Option.mem_some_iff.mp same
    exact counted.parallel _ (.staged List.mem_cons_self)

/-! ## Folding the log -/

theorem emits_loadPointerManifest :
    (MutationWal.loadPointerManifest : TableProgram R Manifest).Emits (Lawful own staged) := by
  refine Script.Emits.bind Script.emits_read fun storage => ?_
  split
  · exact Script.emits_fail _
  · exact Script.emits_fail _
  · exact Script.emits_fail _
  · split
    · exact Script.emits_pure _
    · exact Script.emits_fail _

/-- The folded manifest is accounted for as the base and the records are. -/
theorem safe_checkpointLocked (now : String) (counted : Counted valid nothing staged before) :
    (MutationWal.checkpointLocked Except.ok now).Safe (Counted valid nothing staged)
      (fun _ after => Counted valid nothing staged after) before := by
  refine Script.safe_bind (Script.safe_read counted ?_)
  refine Script.safe_ite (fun _ => Script.safe_pure counted counted) fun _ => ?_
  refine Script.safe_bind ((safe_of_lawful (List.Subset.refl _) emits_loadPointerManifest
    counted).strengthen.weaken ?_)
  rintro base middle ⟨run, -⟩
  obtain ⟨found, rfl⟩ := MutationWal.ends_loadPointerManifest.mp run
  obtain ⟨pointed, -, lookup_eq⟩ := MutationWal.exists_of_pointerManifest found
  have parallel := counted.parallel _ (.manifest lookup_eq)
  refine Script.safe_ite (fun _ => ?_) fun _ => ?_
  · have lawful : Lawful nothing staged (.clearLog : StorageEffect (File R) (File R)) := trivial
    have cleared := counted.perform lawful
    exact Script.safe_bind (Script.safe_emit counted cleared (Script.safe_pure cleared cleared))
  · have logged : ∀ mutation ∈ MutationWal.readRecords before, mutation ∈ before.log :=
      fun _ => mem_log_of_mem_readRecords
    have replayed := counted.track (parallel_replay counted parallel logged)
    refine Script.safe_bind ((safe_of_lawful (List.subset_cons_self _ _)
      (emits_replayRecords replayed base logged) replayed).strengthen.weaken ?_)
    rintro live healed ⟨run, replayed⟩
    obtain rfl := ends_replayRecords run
    have publishes : (MutationWal.publishFolded now
        (MutationWal.replay base (MutationWal.readRecords before)) : TableProgram R Bool).Emits
        (Lawful nothing ((MutationWal.replay base (MutationWal.readRecords before)).recordedCounts ::
          staged)) := by
      refine Script.Emits.bind Script.emits_read fun storage => ?_
      refine Script.Emits.bind (Script.Emits.emit List.mem_cons_self) fun _ => ?_
      refine Script.Emits.bind (Script.Emits.emit trivial) fun _ => ?_
      exact Script.Emits.bind (Script.Emits.emit trivial) fun _ => Script.emits_pure _
    refine (safe_of_lawful (List.subset_cons_self _ _) publishes replayed).weaken ?_
    exact fun _ after counted => counted.settle (List.subset_cons_self _ _)

end RowCounts

end IcefallDB
