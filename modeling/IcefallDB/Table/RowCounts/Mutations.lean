import IcefallDB.Table.RowCounts.Commits
import Mathlib

/-!
# Mutations keep row counts

A delete carries the row counts over, since it leaves the files of the row groups alone.  An update
and a merge add row groups and record no counts, and neither does a record of the mutation log.
-/

namespace IcefallDB

namespace RowCounts

variable {R : Type} {choices : Choices R} {own : String → Prop} {base staged : List RecordedCounts}
  {storage before after : TableStorage R} {valid : Validity R}

/-! ## Committing what is prepared -/

variable (writer : Writer R)

theorem safe_foldPending (counted : Counted valid nothing base before) :
    (writer.foldPending choices).Safe (Counted valid nothing base)
      (fun _ after => Counted valid nothing base after) before := by
  refine Script.safe_bind (Script.safe_read counted ?_)
  refine Script.safe_ite (fun _ => ?_) fun _ => Script.safe_pure counted counted
  refine Script.safe_bind ((safe_checkpointLocked choices.now counted).weaken
    fun _ _ counted => ?_)
  exact Script.safe_pure counted counted

/-- A record whose new row groups are accounted for, and which heals no file that holds rows. -/
theorem safe_appendRecord {mutation : MutationRecord (File R)} (inside : base ⊆ staged)
    (member : (mutation.fragmentAdds.map RowGroupEntry.files, none) ∈ staged)
    (auxiliary : ∀ artifact ∈ mutation.stagedArtifacts, Auxiliary artifact.path)
    (counted : Counted valid own staged before) :
    (Script.emit (.appendRecord mutation) : TableProgram R Unit).Safe (Counted valid nothing base)
      (fun _ after => Counted valid nothing base after) before := by
  have lawful : Lawful own staged (.appendRecord mutation) := ⟨member, auxiliary⟩
  refine (safe_of_lawful inside (Script.Emits.emit lawful) counted).weaken ?_
  exact fun _ after counted => counted.settle inside

variable {current : Manifest}

theorem safe_commitSwap {manifest : Manifest} (files : List String)
    (counted : Counted valid own (manifest.recordedCounts :: base) before) :
    (writer.commitSwap choices current manifest files).Safe (Counted valid nothing base)
      (fun _ after => Counted valid nothing base after) before := by
  have inside : base ⊆ manifest.recordedCounts :: base := List.subset_cons_self _ _
  refine (safe_of_lawful inside (emits_commitSwap writer files List.mem_cons_self) counted).weaken ?_
  exact fun _ after counted => counted.settle inside

variable {prepared : Writer.PreparedMutation R}

theorem safe_commitPrepared (auxiliary : ∀ artifact ∈ prepared.artifacts, Auxiliary artifact.path)
    (counted : Counted valid nothing (prepared.manifest.recordedCounts :: base) before) :
    (writer.commitPrepared choices prepared).Safe (Counted valid nothing base)
      (fun _ after => Counted valid nothing base after) before := by
  refine Script.safe_ite (fun _ => ?_) fun _ => safe_commitSwap writer _ counted
  have added : Parallel valid nothing before ((Writer.mutationRecord prepared.current prepared.manifest
      prepared.artifacts).fragmentAdds.map RowGroupEntry.files, none) := by
    apply (counted.parallel _ (.staged List.mem_cons_self)).subset
    intro files member
    obtain ⟨entry, listed, rfl⟩ := List.mem_map.mp member
    exact List.mem_map_of_mem (List.mem_of_mem_filter listed)
  have tracked := (counted.settle (List.subset_cons_self _ _)).track added
  refine Script.safe_bind ((safe_appendRecord (List.subset_cons_self _ _) List.mem_cons_self auxiliary
    tracked).weaken fun _ _ counted => ?_)
  refine Script.safe_bind ((safe_deleteIntent (List.Subset.refl _) counted _).weaken
    fun _ _ counted => ?_)
  exact safe_foldPending writer counted

/-- Preparing a mutation leaves the current manifest accounted for. -/
theorem safe_prepare {α : Type} {prepare : TableProgram R α} {rest : Nat × Manifest → TableProgram R α}
    (currentOf : α → Manifest) (prepare_eq : prepare = Writer.beginMutation >>= rest)
    (frame : ∀ latestSeq current,
      (rest (latestSeq, current)).Emits
          (StorageEffect.Within (Touches choices (latestSeq + 1) current)) ∧
        ∀ before prepared after, (rest (latestSeq, current)).Ends before prepared after →
          currentOf prepared = current)
    (counted : Counted valid (Names choices) base before) :
    prepare.Safe (Counted valid nothing base)
      (fun prepared after => prepare.Ends before prepared after ∧
        Counted valid nothing ((currentOf prepared).recordedCounts :: base) after) before := by
  suffices safe : prepare.Safe (Counted valid nothing base)
      (fun prepared after => Counted valid nothing ((currentOf prepared).recordedCounts :: base) after)
      before from safe.strengthen
  rw [prepare_eq]
  refine Script.safe_bind ((safe_beginMutation (List.Subset.refl _) counted).weaken ?_)
  rintro ⟨latestSeq, current⟩ begun counted
  obtain ⟨emits, current_eq⟩ := frame latestSeq current
  refine (safe_of_lawful (List.subset_cons_self _ _) (emits.mono fun _ => lawful_of_touches)
    counted).strengthen.weaken ?_
  rintro prepared after ⟨run, counted⟩
  rw [current_eq _ _ _ run]
  exact counted.settle (List.Subset.refl _)

/-! ## Deletes -/

variable {byFragment : HashMap Nat (List Nat)}

theorem auxiliary_of_plannedFor {entry : RowGroupEntry} {work : Writer.DelWork}
    (planned : work.PlannedFor storage byFragment entry) : Auxiliary work.path := by
  obtain ⟨version, path_eq, -⟩ := planned.path
  rw [path_eq]
  exact auxiliary_of_kind (kindOf_deletionPath _ _) nofun nofun

/-- Deleting rows leaves the files of the row groups in place. -/
theorem files_of_ends_deleteRows {entries rowGroups : List RowGroupEntry}
    {works : List Writer.DelWork}
    (run : (Writer.deleteRows byFragment entries).Ends before (rowGroups, works) after) :
    rowGroups.map RowGroupEntry.files = entries.map RowGroupEntry.files ∧
      ∀ work ∈ works, Auxiliary work.path := by
  induction entries generalizing before after rowGroups works with
  | nil =>
      obtain ⟨ended, -⟩ := Script.ends_pure.mp run
      obtain ⟨rfl, rfl⟩ := Prod.mk.inj ended
      exact ⟨rfl, nofun⟩
  | cons entry entries ih =>
      rw [Writer.deleteRows] at run
      split at run
      · obtain ⟨⟨rest, later⟩, _, first, run⟩ := Script.ends_bind.mp run
        obtain ⟨rfl, rfl⟩ := Prod.mk.inj (Script.ends_pure.mp run).1
        obtain ⟨files_eq, auxiliary⟩ := ih first
        exact ⟨by rw [List.map_cons, List.map_cons, files_eq], auxiliary⟩
      · next offsets requested =>
          obtain ⟨work, _, plan, run⟩ := Script.ends_bind.mp run
          obtain ⟨planned, rfl⟩ := Writer.plannedFor_of_ends requested plan
          obtain ⟨_, _, -, run⟩ := Script.ends_bind.mp run
          obtain ⟨⟨rest, later⟩, _, others, run⟩ := Script.ends_bind.mp run
          obtain ⟨rfl, rfl⟩ := Prod.mk.inj (Script.ends_pure.mp run).1
          obtain ⟨files_eq, auxiliary⟩ := ih others
          constructor
          · rw [List.map_cons, List.map_cons, files_eq]
            rfl
          · exact List.forall_mem_cons.mpr ⟨auxiliary_of_plannedFor planned, auxiliary⟩

theorem auxiliary_of_ends_appendTombstones {writer : Writer R} {rowIds : List Nat} {sequence : Nat}
    {indexes : List CatalogIndex} {generations : HashMap String IndexRef}
    {result : HashMap String IndexRef × List String}
    (run : (writer.appendTombstones rowIds sequence indexes generations).Ends before result after) :
    ∀ path ∈ result.2, Auxiliary path := by
  induction indexes generalizing generations before after result with
  | nil =>
      obtain ⟨rfl, -⟩ := Script.ends_pure.mp run
      rintro _ ⟨⟩
  | cons index indexes ih =>
      rw [Writer.appendTombstones, Script.ends_ite] at run
      rcases run with ⟨-, run⟩ | ⟨-, run⟩
      · split at run
        · exact ih run
        · obtain ⟨_, _, -, run⟩ := Script.ends_bind.mp run
          obtain ⟨⟨later, paths⟩, _, others, run⟩ := Script.ends_bind.mp run
          obtain ⟨rfl, -⟩ := Script.ends_pure.mp run
          refine List.forall_mem_cons.mpr ⟨?_, fun path member => ih others path member⟩
          exact auxiliary_of_kind (Writer.kindOf_indexDeltaPath _ _) (by rintro ⟨⟩) (by rintro ⟨⟩)
      · exact ih run

/-- A delete records the counts of the current manifest. -/
theorem recorded_of_ends_prepareDelete {writer : Writer R} {prepared : Writer.PreparedDelete}
    (run : (writer.prepareDelete byFragment).Ends before prepared after) :
    prepared.manifest.recordedCounts = prepared.current.recordedCounts ∧
      (∀ work ∈ prepared.works, Auxiliary work.path) ∧
      ∀ path ∈ prepared.tombstonePaths, Auxiliary path := by
  obtain ⟨⟨latestSeq, current⟩, _, -, run⟩ := Script.ends_bind.mp run
  obtain ⟨⟨rowGroups, works⟩, _, deleting, run⟩ := Script.ends_bind.mp run
  obtain ⟨⟨rowIds, legacy⟩, _, -, run⟩ := Script.ends_bind.mp run
  obtain ⟨_, _, -, run⟩ := Script.ends_bind.mp run
  obtain ⟨⟨generations, paths⟩, _, tombstones, run⟩ := Script.ends_bind.mp run
  obtain ⟨rfl, -⟩ := Script.ends_pure.mp run
  obtain ⟨files_eq, auxiliary⟩ := files_of_ends_deleteRows deleting
  refine ⟨?_, auxiliary, auxiliary_of_ends_appendTombstones tombstones⟩
  rw [Manifest.recordedCounts, Manifest.recordedCounts, files_eq]

theorem safe_commitDeletes (byFragment : HashMap Nat (List Nat))
    (counted : Counted valid (Names choices) base before) :
    (writer.commitDeletes choices byFragment).Safe (Counted valid nothing base)
      (fun _ after => Counted valid nothing base after) before := by
  obtain ⟨rest, prepare_eq, frame⟩ := writer.prepareDelete_frame byFragment choices
  have prepares := safe_prepare Writer.PreparedDelete.current prepare_eq
    (fun latestSeq current => ⟨(frame latestSeq current).1, fun before prepared after run =>
      ((frame latestSeq current).2 before prepared after run).2.1⟩) counted
  refine Script.safe_bind (prepares.weaken ?_)
  rintro prepared after ⟨run, counted⟩
  obtain ⟨recorded_eq, works_auxiliary, tombstones_auxiliary⟩ := recorded_of_ends_prepareDelete run
  have inside : base ⊆ prepared.current.recordedCounts :: base := List.subset_cons_self _ _
  refine Script.safe_ite (fun _ => ?_) fun _ => ?_
  · have nothing_added : Parallel valid nothing after
        ((Writer.deleteRecord (R := R) byFragment prepared).fragmentAdds.map RowGroupEntry.files,
          none) := ⟨nofun, nofun, nofun, nofun⟩
    have auxiliary : ∀ artifact ∈ (Writer.deleteRecord (R := R) byFragment prepared).stagedArtifacts,
        Auxiliary artifact.path := by
      intro artifact member
      rcases List.mem_append.mp member with deletion | tombstone
      · obtain ⟨work, listed, rfl⟩ := List.mem_map.mp deletion
        exact works_auxiliary work listed
      · obtain ⟨path, listed, rfl⟩ := List.mem_map.mp tombstone
        exact tombstones_auxiliary path listed
    have tracked := (counted.settle inside).track nothing_added
    refine Script.safe_bind ((safe_appendRecord (List.subset_cons_self _ _) List.mem_cons_self
      auxiliary tracked).weaken fun _ _ counted => ?_)
    exact safe_foldPending writer counted
  · rw [← recorded_eq] at counted
    refine Script.safe_bind ((safe_writeIntent (List.subset_cons_self _ _) counted _ _).weaken
      fun _ _ counted => ?_)
    exact safe_commitSwap writer _ counted

/-! ## Updates and merges -/

/-- The latest sequence is the one of the manifest that is loaded. -/
theorem sequence_of_ends_loadCurrent {latestSeq : Nat}
    (run : Writer.loadCurrent.Ends before (latestSeq, current) after) :
    current.sequence = latestSeq := by
  have recovered : ∀ {latestZero malformed : Bool} {state result : TableStorage R}
      {loaded : Nat × Manifest}, (Writer.recoverPointer latestZero malformed).Ends state loaded result →
        loaded.1 = 0 → loaded.2.sequence = 0 := by
    intro latestZero malformed state result loaded run zero
    obtain ⟨_, _, -, run⟩ := Script.ends_bind.mp run
    split at run
    · next sequence manifest valid =>
        obtain ⟨_, _, -, run⟩ := Script.ends_bind.mp run
        obtain ⟨rfl, -⟩ := Script.ends_pure.mp run
        obtain ⟨newest, -, valid⟩ := Option.bind_eq_some_iff.mp valid
        obtain ⟨_, -, valid⟩ := Option.bind_eq_some_iff.mp valid
        obtain ⟨positive, same⟩ := Option.ite_none_right_eq_some.mp valid
        obtain ⟨rfl, -⟩ := Prod.mk.inj (Option.some.inj same)
        exact absurd zero positive.ne'
    · rw [Script.ends_ite, Script.ends_ite] at run
      rcases run with ⟨-, failed⟩ | ⟨-, ⟨-, failed⟩ | ⟨-, run⟩⟩
      · exact (Script.ends_fail.mp failed).elim
      · exact (Script.ends_fail.mp failed).elim
      · obtain ⟨rfl, -⟩ := Script.ends_pure.mp run
        rfl
  obtain ⟨⟨sequence, manifest⟩, middle, loading, run⟩ := Script.ends_bind.mp run
  rw [Script.ends_ite] at run
  rcases run with ⟨zero, run⟩ | ⟨-, run⟩
  · obtain ⟨same, -⟩ := Script.ends_pure.mp run
    obtain ⟨rfl, rfl⟩ := Prod.mk.inj same
    rw [zero]
    obtain ⟨_, _, reading, loading⟩ := Script.ends_bind.mp loading
    split at loading
    · exact recovered loading zero
    · exact recovered loading zero
    · exact recovered loading zero
    · exact recovered loading zero
    · split at loading
      · exact (Script.ends_fail.mp loading).elim
      · obtain ⟨_, _, -, loading⟩ := Script.ends_bind.mp loading
        obtain ⟨same, -⟩ := Script.ends_pure.mp loading
        exact absurd (congrArg Prod.fst same) (by simp [zero])
  · obtain ⟨live, _, -, run⟩ := Script.ends_bind.mp run
    obtain ⟨same, -⟩ := Script.ends_pure.mp run
    obtain ⟨rfl, rfl⟩ := Prod.mk.inj same
    rfl

theorem map_files_applyWork (works : List Writer.DelWork) (entries : List RowGroupEntry) :
    (entries.map (Writer.applyWork works)).map RowGroupEntry.files =
      entries.map RowGroupEntry.files := by
  rw [List.map_map]
  apply List.map_congr_left
  intro entry _
  simp only [Function.comp_apply, Writer.applyWork]
  split <;> rfl

/-- The row groups of the current manifest and new fragments whose files are written. -/
theorem parallel_of_mutates {works : List Writer.DelWork}
    {delta : Option (String × List AddrSegment)} {added : List (Writer.MergeFragment R)}
    (known : Parallel valid nothing after current.recordedCounts)
    (mutates : Writer.Mutates before after current byFragment works delta added)
    (written : ∀ fragment ∈ added, fragment.sidecar.rows = fragment.rows.length ∧
      valid fragment.entry.files fragment.rows fragment.sidecar) :
    Parallel valid nothing after ((current.rowGroups.map (Writer.applyWork works) ++
      added.map Writer.MergeFragment.entry).map RowGroupEntry.files, none) := by
  rw [List.map_append, map_files_applyWork]
  have new : Parallel valid nothing after ((added.map Writer.MergeFragment.entry).map RowGroupEntry.files,
      some (added.map fun fragment => fragment.rows.length)) := by
    apply parallel_of_forall₂
    rw [List.map_map, List.forall₂_map_left_iff, List.forall₂_map_right_iff, List.forall₂_same]
    intro fragment member
    obtain ⟨data, sidecar⟩ := mutates.lookup_added member
    obtain ⟨uuid, rgId_eq⟩ := mutates.named fragment member
    constructor
    · simp only [Function.comp_apply, RowGroupEntry.files, Writer.MergeFragment.entry, rgId_eq]
      exact ⟨kindOf_dataFilename _, kindOf_metaFilename _⟩
    · obtain ⟨rows_eq, promised⟩ := written fragment member
      exact ⟨fragment.rows, fragment.sidecar, held_of_lookup data sidecar rows_eq, promised, rfl⟩
  exact known.append new none (by rintro _ ⟨⟩)

variable {sorted : List (MatchLoc × R)}

theorem unrecorded_of_ends_prepareUpdate {writer : Writer R} {setColumns : List String}
    (run : (writer.prepareUpdate choices sorted setColumns).Ends before prepared after) :
    prepared.manifest.rowCounts = none ∧
      ∀ artifact ∈ prepared.artifacts, Auxiliary artifact.path := by
  obtain ⟨⟨latestSeq, current⟩, _, -, run⟩ := Script.ends_bind.mp run
  obtain ⟨_, _, -, run⟩ := Script.ends_bind.mp run
  obtain ⟨_, _, -, run⟩ := Script.ends_bind.mp run
  obtain ⟨works, _, plan, run⟩ := Script.ends_bind.mp run
  obtain ⟨-, planned⟩ := Writer.plannedFor_of_ends_planDeletions plan
  iterate 9 obtain ⟨_, _, -, run⟩ := Script.ends_bind.mp run
  obtain ⟨rfl, -⟩ := Script.ends_pure.mp run
  refine ⟨rfl, fun artifact member => ?_⟩
  rcases List.mem_append.mp member with deletion | delta
  · obtain ⟨work, listed, rfl⟩ := List.mem_map.mp deletion
    obtain ⟨entry, -, work_planned⟩ := planned.exists_of_mem_right listed
    exact auxiliary_of_plannedFor work_planned
  · obtain rfl := List.mem_singleton.mp delta
    exact auxiliary_of_kind (kindOf_rowIndexDeltaPath _) nofun nofun

theorem safe_commitUpdate {batch : RowBatch R} {locs : List MatchLoc} (setColumns : List String)
    (seals : Seals valid (Names choices) writer.kernel writer.schema
      ((Writer.sortByRowId locs batch.rows).map Prod.snd))
    (counted : Counted valid (Names choices) base before) :
    (writer.commitUpdate choices batch locs setColumns).Safe (Counted valid nothing base)
      (fun _ after => Counted valid nothing base after) before := by
  have settled := counted.settle (List.Subset.refl _)
  refine Script.safe_bind (Script.safe_ensure settled fun _ => ?_)
  refine Script.safe_bind (Script.safe_ensure settled fun _ => ?_)
  refine Script.safe_bind (Script.safe_ensure settled fun _ => ?_)
  obtain ⟨rest, prepare_eq, frame⟩ :=
    writer.prepareUpdate_frame choices (Writer.sortByRowId locs batch.rows) setColumns
  have prepares := safe_prepare Writer.PreparedMutation.current prepare_eq
    (fun latestSeq current => ⟨(frame latestSeq current).1, fun before prepared after run =>
      ((frame latestSeq current).2 before prepared after run).1⟩) counted
  refine Script.safe_bind (prepares.weaken ?_)
  rintro prepared after ⟨run, counted⟩
  obtain ⟨unrecorded, auxiliary⟩ := unrecorded_of_ends_prepareUpdate run
  obtain ⟨latestSeq, loaded, load, staged, -, sidecar, computed, works, mutates, rowGroups_eq, -⟩ :=
    Writer.mutates_prepareUpdate run
  have known := counted.parallel _ (.staged List.mem_cons_self)
  have draft := parallel_of_mutates known (mutates (sequence_of_ends_loadCurrent load).le) (by
    intro fragment member
    obtain rfl := List.mem_singleton.mp member
    exact ⟨rows_of_computeRowGroupMeta computed, seals _ _ _ ⟨_, _, .inl rfl⟩ ⟨_, _, .inr rfl⟩ computed⟩)
  rw [List.map_singleton, ← rowGroups_eq, ← unrecorded] at draft
  exact safe_commitPrepared writer auxiliary
    ((counted.settle (List.subset_cons_self _ _)).track draft)

theorem exists_located (sorted : List (MatchLoc × R)) :
    ∃ rows : List (Address × R), sorted = rows.map Writer.located := by
  refine ⟨sorted.map fun row => ((row.1.rowId, row.1.fragmentId, row.1.offset), row.2), ?_⟩
  rw [List.map_map]
  exact (List.map_id sorted).symm

variable {inserts : RowBatch R}

theorem unrecorded_of_ends_prepareMerge {writer : Writer R}
    (run : (writer.prepareMerge choices sorted inserts).Ends before prepared after) :
    prepared.manifest.rowCounts = none ∧ prepared.artifacts = [] := by
  obtain ⟨⟨latestSeq, current⟩, _, -, run⟩ := Script.ends_bind.mp run
  obtain ⟨patch, _, -, run⟩ := Script.ends_bind.mp run
  obtain ⟨inserted, _, -, run⟩ := Script.ends_bind.mp run
  obtain ⟨works, _, -, run⟩ := Script.ends_bind.mp run
  iterate 4 obtain ⟨_, _, -, run⟩ := Script.ends_bind.mp run
  obtain ⟨⟨manifest, files⟩, _, index, run⟩ := Script.ends_bind.mp run
  obtain ⟨rfl, -⟩ := Script.ends_pure.mp run
  obtain ⟨⟨generations, rfl⟩, -⟩ := Writer.ends_buildIndexesIntoManifest index
  exact ⟨rfl, rfl⟩

/-- The fragments of a merge are as promised if the matched rows, in the order of their row ids, and
the inserted ones are. -/
theorem written_of_mergeFragments {writer : Writer R}
    {patch inserted : List (Writer.MergeFragment R)}
    (patches : Seals valid (Names choices) writer.kernel writer.schema (sorted.map Prod.snd))
    (adds : Seals valid (Names choices) writer.kernel writer.schema inserts.rows)
    (patched : writer.mergePatch choices current sorted = .ok patch)
    (inserted_ok : writer.mergeInsert choices current patch inserts = .ok inserted) :
    ∀ fragment ∈ patch ++ inserted, fragment.sidecar.rows = fragment.rows.length ∧
      valid fragment.entry.files fragment.rows fragment.sidecar := by
  intro fragment member
  rcases List.mem_append.mp member with member | member
  · rcases Writer.mergePatch_eq_ok patched with ⟨-, rfl⟩ | ⟨-, sidecar, computed, rfl⟩
    · cases member
    · obtain rfl := List.mem_singleton.mp member
      exact ⟨rows_of_computeRowGroupMeta computed, patches _ _ _ ⟨_, _, .inl rfl⟩ ⟨_, _, .inr rfl⟩
        computed⟩
  · rcases Writer.mergeInsert_eq_ok inserted_ok with ⟨-, rfl⟩ | ⟨-, sidecar, computed, rfl⟩
    · cases member
    · obtain rfl := List.mem_singleton.mp member
      exact ⟨rows_of_computeRowGroupMeta computed, adds _ _ _ ⟨_, _, .inl rfl⟩ ⟨_, _, .inr rfl⟩ computed⟩

theorem safe_commitMerge {matched : List R} {locs : List MatchLoc}
    (patches : Seals valid (Names choices) writer.kernel writer.schema
      ((Writer.sortByRowId locs matched).map Prod.snd))
    (adds : Seals valid (Names choices) writer.kernel writer.schema inserts.rows)
    (counted : Counted valid (Names choices) base before) :
    (writer.commitMerge choices matched locs inserts).Safe (Counted valid nothing base)
      (fun _ after => Counted valid nothing base after) before := by
  have settled := counted.settle (List.Subset.refl _)
  refine Script.safe_bind (Script.safe_ensure settled fun _ => ?_)
  refine Script.safe_bind (Script.safe_ensure settled fun _ => ?_)
  obtain ⟨rows, sorted_eq⟩ := exists_located (Writer.sortByRowId locs matched)
  rw [sorted_eq] at patches ⊢
  obtain ⟨rest, prepare_eq, frame⟩ :=
    writer.prepareMerge_frame choices (rows.map Writer.located) inserts
  have prepares := safe_prepare Writer.PreparedMutation.current prepare_eq
    (fun latestSeq current => ⟨(frame latestSeq current).1, fun before prepared after run =>
      ((frame latestSeq current).2 before prepared after run).1⟩) counted
  refine Script.safe_bind (prepares.weaken ?_)
  rintro prepared after ⟨run, counted⟩
  obtain ⟨unrecorded, no_artifacts⟩ := unrecorded_of_ends_prepareMerge run
  obtain ⟨latestSeq, loaded, load, added, works, -, ⟨patch, inserted, patched, inserted_ok, rfl⟩,
    mutates, rowGroups_eq, -⟩ := Writer.mutates_prepareMerge run
  have known := counted.parallel _ (.staged List.mem_cons_self)
  have draft := parallel_of_mutates known (mutates (sequence_of_ends_loadCurrent load).le)
    (written_of_mergeFragments patches adds patched inserted_ok)
  rw [← rowGroups_eq, ← unrecorded] at draft
  apply safe_commitPrepared writer _ ((counted.settle (List.subset_cons_self _ _)).track draft)
  rw [no_artifacts]
  exact nofun

/-- What a mutation writes is as promised. -/
def MutationSealed (valid : Validity R) (choices : Choices R) (writer : Writer R) : Mutation R → Prop
  | .delete _ => True
  | .update batch locs _ =>
      Seals valid (Names choices) writer.kernel writer.schema
        ((Writer.sortByRowId locs batch.rows).map Prod.snd)
  | .merge matched locs inserts =>
      Seals valid (Names choices) writer.kernel writer.schema
          ((Writer.sortByRowId locs matched).map Prod.snd) ∧
        Seals valid (Names choices) writer.kernel writer.schema inserts.rows

/-- A mutation, committed either way, keeps everything accounted for. -/
theorem safe_mutate {mutation : Mutation R} (seals : MutationSealed valid choices writer mutation)
    (counted : Counted valid (Names choices) base before) :
    (mutation.commit writer choices).Safe (Counted valid nothing base)
      (fun _ after => Counted valid nothing base after) before := by
  cases mutation with
  | delete byFragment => exact safe_commitDeletes writer byFragment counted
  | update batch locs setColumns => exact safe_commitUpdate writer setColumns seals counted
  | merge matched locs inserts => exact safe_commitMerge writer seals.1 seals.2 counted

end RowCounts

end IcefallDB
