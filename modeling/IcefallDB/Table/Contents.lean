import IcefallDB.Compactor
import IcefallDB.Writer.Failure
import IcefallDB.Writer.Planning
import Mathlib

/-!
# Contents of a table

A table is read back row group by row group, without the rows that deletion vectors delete.  A
complete commit of buffered batches appends their rows; whatever spares the files that hold the rows
of the current manifest leaves the contents as they were.
-/

namespace IcefallDB

variable {R : Type}

namespace Reader

/-- The rows of a planned row group that its deletion vector leaves. -/
def readLiveRows (kernel : Kernel R) (planned : PlannedRowGroup) : TableProgram R (List R) := do
  let rows ← readRowGroup kernel planned
  match planned.entry.deletes with
  | none => pure rows
  | some path => do
      let deletions ← readDeletions path
      pure (liveRows deletions rows)

/-- The rows of a table.  A table without a committed manifest has none. -/
def readTable (kernel : Kernel R) (schemaId : Nat) : TableProgram R (List R) := do
  match ← Catalog.refresh Except.ok with
  | none => pure []
  | some manifest => do
      let plan ← buildScanPlan manifest schemaId
      let groups ← Script.collect (readLiveRows kernel) plan
      pure groups.flatten

end Reader

/-- The files of a row group hold live rows, and verify. -/
structure HoldsRows (kernel : Kernel R) (schemaId : Nat) (storage : TableStorage R)
    (entry : RowGroupEntry) (rows : List R) : Prop where
  data_kind : kindOf entry.data = .data
  sidecar_kind : kindOf entry.metaFile = .sidecar
  deletes_kind : ∀ path, entry.deletes = some path → kindOf path = .deletions
  data : ∃ physical offsets, storage.files.lookup entry.data = some (.data physical) ∧
    deletionsOf storage entry = some offsets ∧ liveRows offsets physical = rows ∧
      ∃ sidecar, storage.files.lookup entry.metaFile = some (.sidecar sidecar) ∧
        sidecar.verifyMetaChecksum = true ∧ sidecar.schemaId = schemaId ∧
          sidecar.checksum = kernel.dataChecksum physical

/-- A settled table whose row groups hold the rows, in order, once the log is replayed. -/
structure Contains (kernel : Kernel R) (schemaId : Nat) (storage : TableStorage R)
    (latestSeq : Nat) (current : Manifest) (rows : List R) : Prop where
  settled : Writer.Settled storage latestSeq current
  groups : ∃ groups, List.Forall₂ (HoldsRows kernel schemaId (Writer.loadCurrent.final storage))
    current.rowGroups groups ∧ groups.flatten = rows

variable {kernel : Kernel R} {schemaId latestSeq : Nat} {current : Manifest}
  {before after storage : TableStorage R} {rows : List R}

variable {entry : RowGroupEntry}

theorem HoldsRows.congr (holds : HoldsRows kernel schemaId before entry rows)
    (kept : ∀ path contents, path = entry.data ∨ path = entry.metaFile ∨ entry.deletes = some path →
      before.files.lookup path = some contents → after.files.lookup path = some contents) :
    HoldsRows kernel schemaId after entry rows := by
  obtain ⟨data_kind, sidecar_kind, deletes_kind, physical, offsets, data, deletions, live, sidecar,
    found, sealed⟩ := holds
  refine ⟨data_kind, sidecar_kind, deletes_kind, physical, offsets, kept _ _ (.inl rfl) data, ?_, live,
    sidecar, kept _ _ (.inr (.inl rfl)) found, sealed⟩
  rcases deletionsOf_eq_some.mp deletions with ⟨absent, same⟩ | ⟨path, named, found⟩
  · exact deletionsOf_eq_some.mpr (.inl ⟨absent, same⟩)
  · exact deletionsOf_eq_some.mpr (.inr ⟨path, named, kept _ _ (.inr (.inr named)) found⟩)

variable {entries : List RowGroupEntry} {groups : List (List R)}

theorem forall₂_holdsRows_congr
    (holds : List.Forall₂ (HoldsRows kernel schemaId before) entries groups)
    (kept : ∀ entry ∈ entries, ∀ path contents,
      path = entry.data ∨ path = entry.metaFile ∨ entry.deletes = some path →
        before.files.lookup path = some contents → after.files.lookup path = some contents) :
    List.Forall₂ (HoldsRows kernel schemaId after) entries groups := by
  induction holds with
  | nil => exact .nil
  | cons first _ ih =>
      apply List.Forall₂.cons (first.congr (kept _ List.mem_cons_self))
      exact ih fun entry member => kept entry (List.mem_cons_of_mem _ member)

theorem holdsRows_of_mem (holds : List.Forall₂ (HoldsRows kernel schemaId storage) entries groups)
    (member : entry ∈ entries) : ∃ rows, HoldsRows kernel schemaId storage entry rows := by
  induction holds with
  | nil => cases member
  | cons first _ ih =>
      rcases List.mem_cons.mp member with rfl | in_rest
      · exact ⟨_, first⟩
      · exact ih in_rest

namespace Contains

/-- Once the log is replayed, the files of the row groups are there. -/
theorem keeps (contains : Contains kernel schemaId storage latestSeq current rows) :
    (Writer.loadCurrent.final storage).Keeps (Writer.IsRowGroupFile current) := by
  obtain ⟨groups, holds, -⟩ := contains.groups
  constructor
  · rintro path ⟨entry, member, file⟩
    obtain ⟨_, held⟩ := holdsRows_of_mem holds member
    obtain ⟨physical, offsets, data, deletions, -, sidecar, found, -⟩ := held.data
    rcases file with rfl | rfl | named
    · rw [Storage.fileExists, data]
      rfl
    · rw [Storage.fileExists, found]
      rfl
    · rcases deletionsOf_eq_some.mp deletions with ⟨absent, -⟩ | ⟨other, same, vector⟩
      · rw [absent] at named
        cases named
      · obtain rfl := Option.some.inj (named.symm.trans same)
        rw [Storage.fileExists, vector]
        rfl
  · rintro path ⟨entry, member, file⟩
    obtain ⟨_, held⟩ := holdsRows_of_mem holds member
    rcases file with rfl | rfl | named
    · rw [held.data_kind]
      trivial
    · rw [held.sidecar_kind]
      trivial
    · rw [held.deletes_kind path named]
      trivial

/-- A crash while the log is replayed leaves the contents as they were. -/
theorem crash (contains : Contains kernel schemaId storage latestSeq current rows) (steps : Nat) :
    Contains kernel schemaId (Writer.loadCurrent.crash storage steps) latestSeq current rows where
  settled := (contains.settled.crash steps).1
  groups := by
    rw [contains.settled.final_crash]
    exact contains.groups

/-- What spares the row groups leaves the contents as they were, unless it leaves the first manifest
behind a pointer that designates none. -/
theorem of_spared (contains : Contains kernel schemaId before latestSeq current rows)
    (spared : Storage.Spared (Writer.IsRowGroupFile current) (latestSeq + 1)
      (Writer.loadCurrent.final before) after)
    (unpublished : latestSeq = 0 → ∀ sequence, after.manifests.lookup sequence = none) :
    Contains kernel schemaId after latestSeq current rows := by
  have settled := contains.settled.final.congr spared.pointer spared.log spared.manifests unpublished
  obtain ⟨groups, holds, flat⟩ := contains.groups
  refine ⟨settled, groups, forall₂_holdsRows_congr holds ?_, flat⟩
  intro entry member path contents file found
  apply Writer.lookup_of_ends_loadCurrentManifest settled.ends
  rw [spared.files path ⟨entry, member, file⟩]
  exact found

end Contains

/-! ## Reading -/

namespace Reader

theorem ends_readSnapshotFile {snapshot : Nat} {path : String} {contents : File R}
    (found : storage.files.lookup path = some contents) :
    (readSnapshotFile snapshot path).Ends storage contents storage := by
  refine Script.ends_bind.mpr ⟨storage, storage, Script.ends_read.mpr ⟨rfl, rfl⟩, ?_⟩
  rw [found]
  exact Script.ends_pure.mpr ⟨rfl, rfl⟩

theorem ends_readVerifiedMeta {snapshot : Nat} {path : String} {sidecar : RowGroupMeta}
    (found : storage.files.lookup path = some (.sidecar sidecar))
    (verified : sidecar.verifyMetaChecksum = true) :
    (readVerifiedMeta snapshot path).Ends storage sidecar storage := by
  refine Script.ends_bind.mpr ⟨_, storage, ends_readSnapshotFile found, ?_⟩
  refine Script.ends_bind.mpr ⟨(), storage, Script.ends_ensure.mpr ⟨verified, rfl⟩, ?_⟩
  exact Script.ends_pure.mpr ⟨rfl, rfl⟩

/-- A row group that holds rows is read as these rows. -/
theorem ends_readLiveRows {planned : PlannedRowGroup}
    (holds : HoldsRows kernel schemaId storage planned.entry rows) :
    (readLiveRows kernel planned).Ends storage rows storage := by
  obtain ⟨physical, offsets, data, deletions, rfl, sidecar, found, verified, -, checksum⟩ := holds.data
  have read : (readRowGroup kernel planned).Ends storage physical storage := by
    refine Script.ends_bind.mpr ⟨sidecar, storage, ends_readVerifiedMeta found verified, ?_⟩
    refine Script.ends_bind.mpr ⟨_, storage, ends_readSnapshotFile data, ?_⟩
    refine Script.ends_bind.mpr ⟨(), storage, Script.ends_ensure.mpr ⟨?_, rfl⟩, ?_⟩
    · exact decide_eq_true checksum
    · exact Script.ends_pure.mpr ⟨rfl, rfl⟩
  refine Script.ends_bind.mpr ⟨physical, storage, read, ?_⟩
  rcases deletionsOf_eq_some.mp deletions with ⟨absent, rfl⟩ | ⟨path, named, vector⟩
  · rw [absent, liveRows_empty]
    exact Script.ends_pure.mpr ⟨rfl, rfl⟩
  · rw [named]
    refine Script.ends_bind.mpr ⟨offsets, storage, ends_readDeletions.mpr ⟨vector, rfl⟩, ?_⟩
    exact Script.ends_pure.mpr ⟨rfl, rfl⟩

/-- A row group as it is planned from its sidecar. -/
def plannedFrom (manifest : Manifest) (entry : RowGroupEntry) (sidecar : RowGroupMeta) :
    PlannedRowGroup :=
  { snapshot := manifest.sequence
    entry
    sidecar
    partitionValues := manifest.partitionValues.bind fun values => values.lookup entry.data }

variable {manifest : Manifest}

theorem ends_planFromSidecar {sidecar : RowGroupMeta}
    (found : storage.files.lookup entry.metaFile = some (.sidecar sidecar))
    (verified : sidecar.verifyMetaChecksum = true) (same_schema : sidecar.schemaId = schemaId) :
    (planFromSidecar manifest schemaId entry).Ends storage (plannedFrom manifest entry sidecar)
      storage := by
  refine Script.ends_bind.mpr ⟨sidecar, storage, ends_readVerifiedMeta found verified, ?_⟩
  refine Script.ends_bind.mpr ⟨(), storage, Script.ends_ensure.mpr ⟨?_, rfl⟩, ?_⟩
  · exact decide_eq_true same_schema
  · exact Script.ends_pure.mpr ⟨rfl, rfl⟩

/-- Planning from the sidecars finds the row groups of the manifest. -/
theorem ends_collect_planFromSidecar (manifest : Manifest)
    (holds : List.Forall₂ (HoldsRows kernel schemaId storage) entries groups) :
    ∃ plan, (Script.collect (planFromSidecar manifest schemaId) entries).Ends storage plan storage ∧
      plan.map PlannedRowGroup.entry = entries := by
  induction holds with
  | nil => exact ⟨[], Script.ends_collect_nil.mpr ⟨rfl, rfl⟩, rfl⟩
  | @cons entry _ _ _ first _ ih =>
      obtain ⟨_, _, -, -, -, sidecar, found, verified, same_schema, -⟩ := first.data
      obtain ⟨plan, rest_run, entries_eq⟩ := ih
      have run : (planFromSidecar manifest schemaId entry).Ends storage
          (plannedFrom manifest entry sidecar) storage :=
        ends_planFromSidecar found verified same_schema
      refine ⟨plannedFrom manifest entry sidecar :: plan, ?_, ?_⟩
      · exact Script.ends_collect_cons.mpr ⟨_, _, run, _, rest_run, rfl⟩
      · rw [List.map_cons, entries_eq]
        rfl

theorem length_of_loadCheckpoint {checkpoint : SnapshotCheckpoint}
    (loaded : loadCheckpoint storage manifest = some checkpoint) :
    checkpoint.fragments.length = manifest.rowGroups.length := by
  have valid : validCheckpoint manifest checkpoint = true := by
    obtain ⟨path, -, loaded⟩ := Option.bind_eq_some_iff.mp loaded
    rcases Option.or_eq_some_iff.mp loaded with archived | ⟨-, stored⟩
    · exact (Option.filter_eq_some_iff.mp archived).2
    · exact (Option.filter_eq_some_iff.mp stored).2
  simp only [validCheckpoint, Bool.and_eq_true, decide_eq_true_eq] at valid
  exact valid.1.1.2

/-- Planning a scan finds the row groups of the manifest, from its checkpoint or from the sidecars. -/
theorem ends_buildScanPlan
    (holds : List.Forall₂ (HoldsRows kernel schemaId storage) manifest.rowGroups groups) :
    ∃ plan, (buildScanPlan manifest schemaId).Ends storage plan storage ∧
      plan.map PlannedRowGroup.entry = manifest.rowGroups := by
  have read : (Script.read : TableProgram R (TableStorage R)).Ends storage storage storage :=
    Script.ends_read.mpr ⟨rfl, rfl⟩
  cases checkpoint_eq : loadCheckpoint storage manifest with
  | none =>
      obtain ⟨plan, run, entries_eq⟩ := ends_collect_planFromSidecar manifest holds
      refine ⟨plan, Script.ends_bind.mpr ⟨storage, storage, read, ?_⟩, entries_eq⟩
      rw [checkpoint_eq]
      exact run
  | some checkpoint =>
      have same_length := length_of_loadCheckpoint checkpoint_eq
      refine ⟨List.zipWith (fun entry summary =>
        plannedFrom manifest entry (summarizedMeta schemaId entry summary)) manifest.rowGroups
          checkpoint.fragments, Script.ends_bind.mpr ⟨storage, storage, read, ?_⟩, ?_⟩
      · rw [checkpoint_eq]
        exact Script.ends_pure.mpr ⟨rfl, rfl⟩
      · rw [List.map_zipWith]
        have entries : (manifest.rowGroups.zip checkpoint.fragments).map Prod.fst =
            manifest.rowGroups := List.map_fst_zip same_length.ge
        rw [List.zip, List.map_zipWith] at entries
        exact entries

theorem ends_collect_readLiveRows {plan : List PlannedRowGroup}
    (holds : List.Forall₂ (HoldsRows kernel schemaId storage) (plan.map PlannedRowGroup.entry)
      groups) : (Script.collect (readLiveRows kernel) plan).Ends storage groups storage := by
  induction plan generalizing groups with
  | nil =>
      obtain rfl := List.forall₂_nil_left_iff.mp holds
      exact Script.ends_collect_nil.mpr ⟨rfl, rfl⟩
  | cons planned plan ih =>
      obtain ⟨rows, rest, first, later, rfl⟩ := List.forall₂_cons_left_iff.mp holds
      exact Script.ends_collect_cons.mpr ⟨rows, storage, ends_readLiveRows first, rest, ih later, rfl⟩

/-- What readers and writers see of a settled table is the same. -/
theorem ends_refresh_of_settled (settled : Writer.Settled storage latestSeq current) :
    (Catalog.refresh Except.ok).Ends storage (if latestSeq = 0 then none else some current)
      (Writer.loadCurrent.final storage) := by
  have read : (Script.read : TableProgram R (TableStorage R)).Ends storage storage storage :=
    Script.ends_read.mpr ⟨rfl, rfl⟩
  have loaded := settled.ends
  cases settled with
  | fresh pointer log unpublished zero empty =>
      have nothing := (Writer.Settled.fresh pointer log unpublished zero empty).loads_of_log log
      rw [nothing.final, if_pos zero]
      apply Script.ends_bind.mpr ⟨storage, storage, read, _⟩
      rw [pointer]
      exact Script.ends_pure.mpr ⟨rfl, rfl⟩
  | @published base pointer positive found verified replayed numbered =>
      obtain ⟨pointed, pointed_eq⟩ := Nat.exists_eq_succ_of_ne_zero positive.ne'
      rw [pointed_eq] at pointer found
      obtain ⟨-, -, written⟩ := (Writer.ends_loadCurrentManifest pointer found verified).mp loaded
      have live : (MutationWal.liveManifest Except.ok base).Ends storage current
          (Writer.loadCurrent.final storage) :=
        (MutationWal.ends_liveManifest Except.ok).mpr ⟨replayed, written⟩
      have not_empty : latestSeq ≠ 0 := by
        have := Writer.sequence_le_of_replayed replayed
        omega
      rw [if_neg not_empty]
      apply Script.ends_bind.mpr ⟨storage, storage, read, _⟩
      rw [pointer]
      apply Script.ends_bind.mpr ⟨base, storage, _, _⟩
      · exact Writer.ends_readManifestValidated.mpr ⟨found, verified, rfl⟩
      · apply Script.ends_bind.mpr ⟨(), storage, _, _⟩
        · exact Script.ends_ensure.mpr ⟨decide_eq_true pointed_eq, rfl⟩
        · exact Script.ends_bind.mpr ⟨current, _, live, Script.ends_pure.mpr ⟨rfl, rfl⟩⟩

/-- Reading a table finds what it contains, and replays the log. -/
theorem ends_readTable (contains : Contains kernel schemaId storage latestSeq current rows) :
    (readTable kernel schemaId).Ends storage rows (Writer.loadCurrent.final storage) := by
  obtain ⟨settled, groups, holds, rfl⟩ := contains
  apply Script.ends_bind.mpr ⟨_, _, ends_refresh_of_settled settled, _⟩
  by_cases zero : latestSeq = 0
  · rw [if_pos zero]
    cases settled with
    | fresh _ _ _ _ empty =>
        subst empty
        obtain rfl := List.forall₂_nil_left_iff.mp holds
        exact Script.ends_pure.mpr ⟨rfl, rfl⟩
    | published _ positive _ _ replayed numbered =>
        have := Writer.sequence_le_of_replayed replayed
        omega
  · rw [if_neg zero]
    obtain ⟨plan, plan_run, entries⟩ := ends_buildScanPlan holds
    have read : (Script.collect (readLiveRows kernel) plan).Ends (Writer.loadCurrent.final storage)
        groups (Writer.loadCurrent.final storage) := by
      apply ends_collect_readLiveRows
      rw [entries]
      exact holds
    apply Script.ends_bind.mpr ⟨plan, _, plan_run, _⟩
    exact Script.ends_bind.mpr ⟨groups, _, read, Script.ends_pure.mpr ⟨rfl, rfl⟩⟩

end Reader

/-! ## Committing -/

namespace Writer

variable {writer : Writer R} {choices : Choices R} {buffer : List (List R)}

theorem chunkRows_pos (rows : List R) : 0 < writer.chunkRows rows := by
  unfold chunkRows
  simp only
  split <;> omega

theorem flatten_sliceBatchIntoRowGroups (rows : List R) :
    (writer.sliceBatchIntoRowGroups rows).flatten = rows :=
  flatten_slices (chunkRows_pos rows) le_rfl

/-- Keys that are all different and cover a list tell its elements apart. -/
theorem flatMap_filter_perm {keys : List String} (distinct : keys.Nodup) {keyed : List (String × R)}
    (covered : ∀ row ∈ keyed, row.1 ∈ keys) :
    (keys.flatMap fun key => keyed.filter fun row => row.1 = key).Perm keyed := by
  induction keys generalizing keyed with
  | nil =>
      obtain rfl : keyed = [] := List.eq_nil_iff_forall_not_mem.mpr fun row member =>
        List.not_mem_nil (covered row member)
      exact .refl _
  | cons key keys ih =>
      obtain ⟨fresh, distinct⟩ := List.nodup_cons.mp distinct
      have rest_covered : ∀ row ∈ keyed.filter (fun row => ¬row.1 = key), row.1 ∈ keys := by
        intro row member
        obtain ⟨there, other⟩ := List.mem_filter.mp member
        exact (List.mem_cons.mp (covered row there)).resolve_left (of_decide_eq_true other)
      have same_groups : ∀ other ∈ keys, (keyed.filter fun row => row.1 = other) =
          (keyed.filter fun row => ¬row.1 = key).filter fun row => row.1 = other := by
        intro other member
        rw [List.filter_filter]
        apply List.filter_congr
        intro row _
        have different : other ≠ key := fun same => fresh (same ▸ member)
        by_cases equal : row.1 = other
        · simp [equal, different]
        · simp [equal]
      rw [List.flatMap_cons, List.flatMap_congr same_groups]
      have split_keyed := List.filter_append_perm (fun row => decide (row.1 = key)) keyed
      simp only [← decide_not] at split_keyed
      exact ((ih distinct rest_covered).append_left _).trans split_keyed

theorem map_snd_of_partitionKeys {rows : List R} {keyed : List (String × R)}
    (computed : writer.partitionKeys rows = .ok keyed) : keyed.map Prod.snd = rows := by
  induction rows generalizing keyed with
  | nil =>
      obtain rfl := Except.ok.inj computed
      rfl
  | cons row rows ih =>
      obtain ⟨key, -, computed⟩ := Script.except_bind_eq_ok.mp computed
      obtain ⟨rest, keyed_rest, same⟩ := Script.except_bind_eq_ok.mp computed
      obtain rfl := Except.ok.inj same
      rw [List.map_cons, ih keyed_rest]

/-- A commit writes the rows of its batches, in their order unless the table is partitioned. -/
theorem flatten_planRowGroups (planned : writer.planRowGroups choices buffer = .ok groups) :
    groups.flatten.Perm buffer.flatten ∧
      (writer.partitionColumns = [] → groups.flatten = buffer.flatten) := by
  rw [planRowGroups] at planned
  split at planned
  · obtain rfl := Except.ok.inj planned
    have same : (writer.sliceBatchIntoRowGroups buffer.flatten).flatten = buffer.flatten :=
      flatten_sliceBatchIntoRowGroups _
    exact ⟨.of_eq same, fun _ => same⟩
  · next partitioned =>
      obtain ⟨keyed, keys, same⟩ := Script.except_bind_eq_ok.mp planned
      obtain rfl := Except.ok.inj same
      refine ⟨?_, fun none => absurd (List.isEmpty_iff.mpr none) partitioned⟩
      have sliced : ((choices.groupOrder (groupByKey keyed)).flatMap
          writer.sliceBatchIntoRowGroups).flatten =
            (choices.groupOrder (groupByKey keyed)).flatten := by
        generalize choices.groupOrder (groupByKey keyed) = groups
        induction groups with
        | nil => rfl
        | cons rows groups ih =>
            rw [List.flatMap_cons, List.flatten_append, ih, flatten_sliceBatchIntoRowGroups,
              List.flatten_cons]
      have grouped : (groupByKey keyed).flatten =
          ((keyed.map Prod.fst).dedup.flatMap fun key =>
            keyed.filter fun row => row.1 = key).map Prod.snd := by
        rw [groupByKey, ← List.flatMap_def, List.map_flatMap]
      have covered : ∀ row ∈ keyed, row.1 ∈ (keyed.map Prod.fst).dedup :=
        fun row member => List.mem_dedup.mpr (List.mem_map_of_mem member)
      have told_apart := flatMap_filter_perm (List.nodup_dedup (keyed.map Prod.fst)) covered
      rw [sliced]
      calc (choices.groupOrder (groupByKey keyed)).flatten.Perm (groupByKey keyed).flatten :=
            (choices.groupOrder_perm _).flatten
        _ = _ := grouped
        List.Perm _ (keyed.map Prod.snd) := told_apart.map Prod.snd
        _ = buffer.flatten := map_snd_of_partitionKeys keys

/-- A sidecar verifies, has the schema and the checksum of its rows. -/
theorem sealed_computeRowGroupMeta {rgId : String} {rows : List R} {rowIds : List RowIdSegment}
    {sidecar : RowGroupMeta} (computed : writer.computeRowGroupMeta rgId rows rowIds = .ok sidecar) :
    sidecar.verifyMetaChecksum = true ∧ sidecar.schemaId = writer.schema.schemaId ∧
      sidecar.checksum = writer.kernel.dataChecksum rows := by
  obtain ⟨⟨columns, offsets⟩, -, same⟩ := Script.except_bind_eq_ok.mp computed
  obtain rfl := Except.ok.inj same
  exact ⟨RowGroupMeta.verifyMetaChecksum_sealed _, rfl, rfl⟩

/-- The entry of a promoted row group holds its rows. -/
theorem Promoted.holdsRows {group : PlannedRowGroup R} {files : RowGroupFiles}
    {begun : TableStorage R} (promoted : writer.Promoted choices group begun after files) :
    HoldsRows writer.kernel writer.schema.schemaId after (newEntry group.fragmentId files)
      group.rows := by
  obtain ⟨attempt, data_eq, sidecar_eq, -, data, sidecar, computed, found⟩ := promoted.attempt
  have sealed := sealed_computeRowGroupMeta computed
  constructor
  · simp [newEntry, data_eq, Choices.rgId]
  · simp [newEntry, sidecar_eq, Choices.rgId]
  · rintro _ ⟨⟩
  · exact ⟨group.rows, ∅, data, rfl, liveRows_empty _, sidecar, found, sealed⟩

theorem forall₂_holdsRows_newEntry {planned : List (PlannedRowGroup R)} {files : List RowGroupFiles}
    {begun : TableStorage R}
    (promoted : List.Forall₂ (fun group => writer.Promoted choices group begun after) planned
      files) :
    List.Forall₂ (HoldsRows writer.kernel writer.schema.schemaId after)
      (List.zipWith (fun group => newEntry group.fragmentId) planned files)
      (planned.map PlannedRowGroup.rows) := by
  induction promoted with
  | nil => exact .nil
  | cons first _ ih => exact .cons first.holdsRows ih

/-- The manifest that a complete commit publishes is sealed. -/
theorem verifyChecksum_of_ends_tryCommit {replace : Bool} {published : Manifest}
    (run : (writer.tryCommit choices buffer replace).Ends before published after) :
    published.verifyChecksum = true := by
  obtain ⟨⟨latestSeq, current⟩, begun, -, run⟩ := Script.ends_bind.mp run
  obtain ⟨groups, _, -, run⟩ := Script.ends_bind.mp run
  obtain ⟨_, _, -, run⟩ := Script.ends_bind.mp run
  obtain ⟨files, staged, -, run⟩ := Script.ends_bind.mp run
  obtain ⟨values, _, -, run⟩ := Script.ends_bind.mp run
  obtain ⟨_, _, -, run⟩ := Script.ends_bind.mp run
  obtain ⟨⟨built, intentFiles⟩, indexed, -, run⟩ := Script.ends_bind.mp run
  obtain ⟨checkpointed, saved, -, run⟩ := Script.ends_bind.mp run
  obtain ⟨final, written, write_run, run⟩ := Script.ends_bind.mp run
  iterate 3 obtain ⟨_, _, -, run⟩ := Script.ends_bind.mp run
  obtain ⟨rfl, -⟩ := Script.ends_pure.mp run
  obtain ⟨⟨parent, rfl⟩, -⟩ := ends_writeManifest write_run
  exact Manifest.verifyChecksum_finalize _ _ _

/-- Rows that a commit of batches appends: theirs, in their order unless the table is partitioned. -/
def Appends (writer : Writer R) (buffer : List (List R)) (added : List R) : Prop :=
  added.Perm buffer.flatten ∧ (writer.partitionColumns = [] → added = buffer.flatten)

/-- A complete commit appends the rows of its batches. -/
theorem contains_of_ends_tryCommit {published : Manifest}
    (contains : Contains writer.kernel writer.schema.schemaId before latestSeq current rows)
    (run : (writer.tryCommit choices buffer false).Ends (loadCurrent.final before) published after) :
    (∃ added, writer.Appends buffer added ∧ Contains writer.kernel writer.schema.schemaId after
      (latestSeq + 1) published (rows ++ added)) ∧ loadCurrent.final after = after ∧
        after.log = before.log := by
  have loads := contains.settled.loads
  have only : (writer.tryCommit choices buffer false).OnlyUntil
      (StorageEffect.Drafts (IsRowGroupFile current) (latestSeq + 1)) movesPointer
        (loadCurrent.final before) :=
    onlyUntil_tryCommit loads contains.keeps buffer false
  obtain ⟨sequence, manifest, begun, groups, files, begin_run, commits⟩ :=
    commits_of_ends_tryCommit run
  obtain ⟨loaded, load_run, rfl⟩ := ends_beginAppend begin_run
  obtain ⟨rfl, rfl, rfl⟩ := loads.eq_of_ends load_run
  have log : after.log = before.log := commits.log.trans contains.settled.log_final
  have older : ∀ record ∈ MutationWal.readRecords after, record.sequence ≤ published.sequence := by
    intro record member
    rw [MutationWal.readRecords, log] at member
    have := contains.settled.records_le record member
    rw [commits.sequence]
    omega
  have found : after.manifests.lookup published.sequence = some published := by
    rw [commits.manifests, commits.sequence]
    exact AList.lookup_insert _
  have settled : Settled after (latestSeq + 1) published := by
    apply Settled.published _ _ found (verifyChecksum_of_ends_tryCommit run)
      (MutationWal.replay_eq_base older) commits.sequence
    · rw [commits.sequence]
      exact commits.pointer
    · rw [commits.sequence]
      exact Nat.succ_pos _
  have loaded_after : loadCurrent.final after = after := by
    apply Loads.final (settled.loads_of_nothing_pending _)
    have designated : MutationWal.pointerManifest after = some published := by
      rw [MutationWal.pointerManifest, commits.pointer, ← commits.sequence]
      exact found
    rw [MutationWal.pendingArtifacts, designated]
    exact MutationWal.replayedArtifacts_eq_nil older
  obtain ⟨held, holds, rfl⟩ := contains.groups
  refine ⟨⟨groups.flatten, flatten_planRowGroups commits.planned, settled, held ++ groups, ?_, ?_⟩,
    loaded_after, log⟩
  · rw [loaded_after, commits.rowGroups, if_neg Bool.false_ne_true]
    apply List.rel_append
    · apply forall₂_holdsRows_congr holds
      intro entry member path contents file there
      rw [← run.2, lookup_files_of_drafts only.performsOnly ⟨entry, member, file⟩]
      exact there
    · have added := forall₂_holdsRows_newEntry commits.promoted
      rw [plannedOn, allocate_rows] at added
      exact added
  · rw [List.flatten_append]

/-- A commit of no batches only loads. -/
theorem commit_nil (settled : Settled storage latestSeq current) :
    writer.commit choices [] storage = ((loadCurrent storage).1, .ok ()) := by
  rw [settled.commit, commitLoaded, if_pos List.isEmpty_nil]
  simp [pure]

/-- A commit that succeeds appends the rows of its batches. -/
theorem contains_of_ends_commit
    (contains : Contains writer.kernel writer.schema.schemaId before latestSeq current rows)
    (run : (writer.commit choices buffer).Ends before () after) :
    (∃ latestSeq current added, writer.Appends buffer added ∧
      Contains writer.kernel writer.schema.schemaId after latestSeq current (rows ++ added)) ∧
        after.log = before.log := by
  obtain ⟨_, loaded, load_run, run⟩ := Script.ends_bind.mp run
  obtain ⟨-, rfl⟩ := contains.settled.ends.deterministic load_run
  by_cases buffered : buffer = []
  · subst buffered
    rw [if_pos List.isEmpty_nil] at run
    obtain ⟨-, rfl⟩ := Script.ends_pure.mp run
    refine ⟨⟨latestSeq, current, [], ⟨.refl _, fun _ => rfl⟩, ?_⟩, contains.settled.log_final⟩
    rw [List.append_nil]
    have crashed := contains.crash (loadCurrent before).1.length
    rwa [Script.crash, List.take_length] at crashed
  · rw [if_neg (by simpa using buffered)] at run
    obtain ⟨published, committed, try_run, dropped⟩ := Script.ends_bind.mp run
    obtain ⟨⟨added, appends, appended⟩, loaded, log⟩ :=
      contains_of_ends_tryCommit contains (Script.ends_onError.mp try_run)
    rw [← Script.ends_emit.mp dropped]
    refine ⟨⟨latestSeq + 1, published, added, appends, appended.of_spared ?_ (by rintro ⟨⟩)⟩, log⟩
    rw [loaded]
    have drafts : StorageEffect.Drafts (IsRowGroupFile published) (latestSeq + 1 + 1)
        (.deleteIntent choices.txnId : StorageEffect (File R) (File R)) := trivial
    exact drafts.spared (Storage.Spared.refl committed)

/-- A commit that fails leaves the contents as they were. -/
theorem contains_of_failed_commit {failure : IcefallDBError}
    (contains : Contains kernel schemaId before latestSeq current rows)
    (failed : (writer.commit choices buffer before).2 = .error failure) :
    Contains kernel schemaId ((writer.commit choices buffer).final before) latestSeq current rows ∧
      ((writer.commit choices buffer).final before).log = before.log := by
  have loads := contains.settled.loads
  have committed : writer.commit choices buffer before = _ := contains.settled.commit buffer
  have final : (writer.commit choices buffer).final before =
      (writer.commitLoaded choices buffer).final (loadCurrent.final before) := by
    rw [Script.final, committed, Script.performAll_append]
    rfl
  rw [committed] at failed
  have drafts := (onlyUntil_commitLoaded loads contains.keeps buffer).of_error failed
  have spared := Storage.Spared.performAll drafts (Storage.Spared.refl (loadCurrent.final before))
  rw [final]
  refine ⟨contains.of_spared spared ?_, spared.log.trans contains.settled.log_final⟩
  intro zero sequence
  have absent := contains.settled.final.unpublished zero sequence
  by_cases buffered : buffer = []
  · rw [commitLoaded, if_pos (List.isEmpty_iff.mpr buffered)] at failed
    cases failed
  rw [commitLoaded, if_neg (by simpa using buffered)] at failed ⊢
  cases outcome : (writer.tryCommit choices buffer false (loadCurrent.final before)).2 with
  | ok published =>
      have tried : ((writer.tryCommit choices buffer false).onError rollbackCommit).Ends
          (loadCurrent.final before) published _ := Script.ends_onError.mpr ⟨outcome, rfl⟩
      rw [Script.bind_of_ends tried] at failed
      cases failed
  | error reason =>
      have stopped : ((writer.tryCommit choices buffer false).onError rollbackCommit
          (loadCurrent.final before)).2 = .error reason := by
        rw [Script.onError, outcome]
      rw [Script.final, Script.bind_of_error stopped]
      exact unpublished_of_failed loads contains.keeps outcome absent

/-- A commit that stops before it moves the pointer, and a rollback of it, leave the contents as they
were, unless the first manifest stays behind. -/
theorem contains_interrupted (contains : Contains kernel schemaId before latestSeq current rows)
    {steps : Nat} {undone : List (StorageEffect (File R) (File R))}
    (rolled_back : ∀ effect ∈ undone,
      effect ∈ (rollbackCommit ((writer.beforePointer choices buffer before).take steps)
        (Script.performAll ((writer.beforePointer choices buffer before).take steps) before)).1)
    (removed : before.pointer = .latest 0 →
      (∀ sequence manifest, .writeManifest sequence manifest ∉
        (writer.beforePointer choices buffer before).take steps) ∨
          ∃ sequence, .deleteManifest sequence ∈ undone) :
    Contains kernel schemaId
      (Script.performAll ((writer.beforePointer choices buffer before).take steps ++ undone) before)
        latestSeq current rows ∧
      (Script.performAll ((writer.beforePointer choices buffer before).take steps ++ undone)
        before).log = before.log := by
  have loads := contains.settled.loads
  have writes := contains.settled.writes
  have drafting : (writer.commitLoaded choices buffer).OnlyUntil
      (StorageEffect.Drafts (IsRowGroupFile current) (latestSeq + 1)) movesPointer
        (loadCurrent.final before) :=
    onlyUntil_commitLoaded loads contains.keeps buffer
  rw [contains.settled.beforePointer, List.take_append] at *
  rw [rollbackCommit_append fun effect member => writes effect (List.mem_of_mem_take member)]
    at rolled_back
  by_cases loading : steps ≤ (loadCurrent before).1.length
  · -- the commit stops while it loads, and there is nothing to roll back
    rw [Nat.sub_eq_zero_of_le loading, List.take_zero, List.append_nil] at *
    obtain rfl : undone = [] := List.eq_nil_iff_forall_not_mem.mpr fun effect member =>
      List.not_mem_nil (rolled_back effect member)
    rw [List.append_nil]
    exact ⟨contains.crash steps, contains.settled.log_crash steps⟩
  · rw [List.take_of_length_le (Nat.le_of_not_le loading)] at *
    generalize performed_eq : List.take (steps - (loadCurrent before).1.length) _ = performed at *
    have drafts : ∀ effect ∈ performed,
        effect.Drafts (IsRowGroupFile current) (latestSeq + 1) := by
      rw [← performed_eq]
      exact fun effect member => drafting.takeWhile effect (List.mem_of_mem_take member)
    have cleans : ∀ effect ∈ undone,
        effect.Cleans (IsRowGroupFile current) (· = latestSeq + 1) :=
      fun effect member => cleans_rollbackCommit drafts _ effect (rolled_back effect member)
    have spared : Storage.Spared (IsRowGroupFile current) (latestSeq + 1) (loadCurrent.final before)
        (Script.performAll (performed ++ undone) (loadCurrent.final before)) := by
      apply Storage.Spared.performAll _ (Storage.Spared.refl _)
      intro effect member
      rcases List.mem_append.mp member with early | late
      · exact drafts effect early
      · exact (cleans effect late).drafts fun _ same => same.ge
    rw [List.append_assoc, Script.performAll_append]
    refine ⟨contains.of_spared spared ?_, spared.log.trans contains.settled.log_final⟩
    · intro zero sequence
      apply unpublished_of_undone drafts cleans _ (contains.settled.final.unpublished zero sequence)
      rcases removed (contains.settled.pointer zero) with unwritten | deleted
      · exact .inl fun number manifest member =>
          unwritten number manifest (List.mem_append_right _ member)
      · exact .inr deleted

/-- So does a crash before the pointer moves. -/
theorem contains_crashed (contains : Contains kernel schemaId before latestSeq current rows)
    {steps : Nat}
    (unwritten : before.pointer = .latest 0 → ∀ sequence manifest,
      .writeManifest sequence manifest ∉ (writer.beforePointer choices buffer before).take steps) :
    Contains kernel schemaId
      (Script.performAll ((writer.beforePointer choices buffer before).take steps) before) latestSeq
        current rows ∧
      (Script.performAll ((writer.beforePointer choices buffer before).take steps) before).log =
        before.log := by
  rw [← List.append_nil ((writer.beforePointer choices buffer before).take steps)]
  apply contains_interrupted contains
  · exact fun _ member => absurd member List.not_mem_nil
  · exact fun pointer => .inl (unwritten pointer)

end Writer

end IcefallDB
