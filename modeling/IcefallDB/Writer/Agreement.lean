import IcefallDB.Writer.Frame
import Mathlib

/-!
# The two ways to commit a mutation

A mutation is committed either by publishing a manifest or by appending the difference to the
mutation log.  Both are computed from the same prepared mutation, so they differ only where
replaying the difference does not give back the manifest it was taken from.
-/

namespace IcefallDB

/-- A call that deletes, updates or merges rows. -/
inductive Mutation (R : Type)
  | delete (byFragment : HashMap Nat (List Nat))
  | update (batch : RowBatch R) (locs : List MatchLoc) (setColumns : List String)
  | merge (matched : List R) (locs : List MatchLoc) (inserts : RowBatch R)

namespace Mutation

variable {R : Type}

/-- Commit a mutation the way the writer is configured. -/
def commit (writer : Writer R) (choices : Choices R) : Mutation R → TableProgram R Unit
  | delete byFragment => writer.commitDeletes choices byFragment
  | update batch locs setColumns => writer.commitUpdate choices batch locs setColumns
  | merge matched locs inserts => writer.commitMerge choices matched locs inserts

/-- Fragment ids that a mutation of a manifest allocates. -/
def allocatedFragments (current : Manifest) : Mutation R → List Nat
  | delete _ => []
  | update _ _ _ => [current.nextFragmentId]
  | merge _ locs inserts =>
      List.range' current.nextFragmentId
        ((if locs.isEmpty then 0 else 1) + if inserts.rows.isEmpty then 0 else 1)

end Mutation

/-- Two manifests describe the same table. -/
structure Manifest.SameTable (left right : Manifest) : Prop where
  rowGroups : left.rowGroups = right.rowGroups
  indexGenerations : left.indexGenerations = right.indexGenerations
  rowindexGeneration : left.rowindexGeneration = right.rowindexGeneration
  nextFragmentId : left.nextFragmentId = right.nextFragmentId
  nextRowId : left.nextRowId = right.nextRowId
  schemaId : left.schemaId = right.schemaId
  partitionValues : left.partitionValues = right.partitionValues

/-! ## Replaying replaced deletion vectors -/

namespace MutationWal

theorem applyDeletes_cons_of_ne {updates : List FragmentDelete} {entry : RowGroupEntry}
    (other : ∀ update ∈ updates, update.fragmentId ≠ entry.fragmentId)
    (entries : List RowGroupEntry) :
    applyDeletes updates (entry :: entries) = entry :: applyDeletes updates entries := by
  induction updates generalizing entries with
  | nil => rfl
  | cons update updates ih =>
      have different : ¬entry.fragmentId = update.fragmentId :=
        fun same => other update List.mem_cons_self same.symm
      have head : applyDeletes (update :: updates) (entry :: entries) =
          applyDeletes updates (entry :: setDeletes update entries) := by
        rw [applyDeletes, List.foldl_cons, setDeletes, if_neg different]
        rfl
      rw [head, ih fun later member => other later (List.mem_cons_of_mem update member)]
      rfl

/-- `change` reports how `new` differs from `old` in its deletion vector, if it does. -/
def Reports (change : RowGroupEntry → Option FragmentDelete) (old new : RowGroupEntry) : Prop :=
  (change new = none ∧ new = old) ∨
    ∃ update, change new = some update ∧ update.fragmentId = old.fragmentId ∧
      new = { old with deletes := some update.deletes, deletedCount := update.deletedCount }

private theorem fragmentId_of_reported {change : RowGroupEntry → Option FragmentDelete}
    {olds news : List RowGroupEntry} (reports : List.Forall₂ (Reports change) olds news)
    {update : FragmentDelete} (member : update ∈ news.filterMap change) :
    update.fragmentId ∈ olds.map RowGroupEntry.fragmentId := by
  induction reports with
  | nil => simp at member
  | @cons old new olds news report reports ih =>
      rw [List.map_cons, List.mem_cons]
      rw [List.mem_filterMap] at member
      obtain ⟨entry, entry_member, changed⟩ := member
      rcases List.mem_cons.mp entry_member with rfl | later
      · rcases report with ⟨unchanged, -⟩ | ⟨reported, report_eq, same, -⟩
        · rw [unchanged] at changed
          cases changed
        · rw [report_eq] at changed
          exact .inl (Option.some.inj changed ▸ same)
      · exact .inr (ih (List.mem_filterMap.mpr ⟨entry, later, changed⟩))

/-- Replaying reported changes of deletion vectors gives the changed row groups, if no two row
groups share a fragment id that is reported. -/
theorem applyDeletes_filterMap {change : RowGroupEntry → Option FragmentDelete}
    {olds news : List RowGroupEntry} (reports : List.Forall₂ (Reports change) olds news)
    (apart : olds.Pairwise fun left right => left.fragmentId = right.fragmentId →
      ∀ update ∈ news.filterMap change, update.fragmentId ≠ left.fragmentId) :
    applyDeletes (news.filterMap change) olds = news := by
  induction reports with
  | nil => rfl
  | @cons old new olds news report reports ih =>
      obtain ⟨head_apart, tail_apart⟩ := List.pairwise_cons.mp apart
      have later : ∀ update ∈ news.filterMap change, update ∈ (new :: news).filterMap change := by
        intro update member
        obtain ⟨entry, entry_member, changed⟩ := List.mem_filterMap.mp member
        exact List.mem_filterMap.mpr ⟨entry, List.mem_cons_of_mem new entry_member, changed⟩
      have rest : applyDeletes (news.filterMap change) olds = news := by
        apply ih
        exact tail_apart.imp fun separate same update member =>
          separate same update (later update member)
      have others : ∀ entry : RowGroupEntry, entry.fragmentId = old.fragmentId →
          ∀ update ∈ news.filterMap change, update.fragmentId ≠ entry.fragmentId := by
        intro entry same_id update member same
        obtain ⟨other, other_member, other_id⟩ :=
          List.mem_map.mp (fragmentId_of_reported reports member)
        have shared : old.fragmentId = other.fragmentId := by
          rw [other_id, same, same_id]
        exact head_apart other other_member shared update (later update member)
          (same.trans same_id)
      rcases report with ⟨unchanged, rfl⟩ | ⟨update, report_eq, same, rfl⟩
      · rw [List.filterMap_cons_none unchanged, applyDeletes_cons_of_ne (others _ rfl), rest]
      · rw [List.filterMap_cons_some report_eq]
        have head : applyDeletes (update :: news.filterMap change) (old :: olds) =
            applyDeletes (news.filterMap change)
              ({ old with deletes := some update.deletes
                          deletedCount := update.deletedCount } :: olds) := by
          rw [applyDeletes, List.foldl_cons, setDeletes, if_pos same.symm]
          rfl
        have tail := applyDeletes_cons_of_ne (others
          { old with deletes := some update.deletes, deletedCount := update.deletedCount } rfl) olds
        rw [head, tail, rest]

/-- Row groups with distinct fragment ids share none. -/
theorem pairwise_of_nodup {entries : List RowGroupEntry} {separate : RowGroupEntry → Prop}
    (distinct : (entries.map RowGroupEntry.fragmentId).Nodup) :
    entries.Pairwise fun left right => left.fragmentId = right.fragmentId → separate left :=
  (List.pairwise_map.mp distinct).imp fun different same => absurd same different

end MutationWal

/-! ## The difference of a mutated manifest -/

namespace Writer

variable {R : Type}

variable {entries : List RowGroupEntry}

theorem find?_fragmentId (distinct : (entries.map RowGroupEntry.fragmentId).Nodup)
    {entry : RowGroupEntry} (member : entry ∈ entries) :
    entries.find? (fun other => other.fragmentId = entry.fragmentId) = some entry := by
  induction entries with
  | nil => simp at member
  | cons first entries ih =>
      obtain ⟨fresh, rest_distinct⟩ := List.nodup_cons.mp distinct
      rcases List.mem_cons.mp member with rfl | later
      · simp
      · have different : ¬first.fragmentId = entry.fragmentId :=
          fun same => fresh (same ▸ List.mem_map_of_mem later)
        rw [List.find?_cons_of_neg (by simpa using different)]
        exact ih rest_distinct later

@[simp]
theorem applyWork_fragmentId (works : List DelWork) (entry : RowGroupEntry) :
    (applyWork works entry).fragmentId = entry.fragmentId := by
  unfold applyWork
  split <;> rfl

variable {byFragment : HashMap Nat (List Nat)} {works : List DelWork}

private theorem reports_applyWork {storage : TableStorage R}
    (distinct : (entries.map RowGroupEntry.fragmentId).Nodup)
    (planned : ∀ work ∈ works, ∃ entry ∈ entries, work.PlannedFor storage byFragment entry)
    {change : RowGroupEntry → Option FragmentDelete}
    (changes : ∀ entry ∈ entries, ∀ new : RowGroupEntry, new.fragmentId = entry.fragmentId →
      change new = if entry.deletes = new.deletes then none
        else new.deletes.map fun deletes =>
          { fragmentId := new.fragmentId, deletes, deletedCount := new.deletedCount }) :
    List.Forall₂ (MutationWal.Reports change) entries (entries.map (applyWork works)) := by
  rw [List.forall₂_map_right_iff, List.forall₂_same]
  intro entry member
  have report := changes entry member (applyWork works entry) (applyWork_fragmentId works entry)
  cases found : works.find? (fun work => work.fragmentId = entry.fragmentId) with
  | none =>
      have kept : applyWork works entry = entry := by rw [applyWork, found]
      rw [kept, if_pos rfl] at report
      exact .inl ⟨by rw [kept, report], kept⟩
  | some work =>
      have same_id : work.fragmentId = entry.fragmentId := by simpa using List.find?_some found
      obtain ⟨origin, origin_member, origin_planned⟩ :=
        planned work (List.mem_of_find?_eq_some found)
      have origin_eq : origin = entry := by
        have first := find?_fragmentId distinct origin_member
        have second := find?_fragmentId distinct member
        rw [← origin_planned.fragmentId, same_id] at first
        exact Option.some.inj (first.symm.trans second)
      have replaced : applyWork works entry = withDeletions entry work := by rw [applyWork, found]
      rw [replaced] at report ⊢
      rw [if_neg (origin_eq ▸ origin_planned.path_ne)] at report
      exact .inr ⟨_, report, rfl, rfl⟩

variable {current manifest : Manifest}

/-- Replaying the difference of a mutated manifest gives its row groups, but for those new ones
whose fragment id was there before. -/
theorem apply_mutationRecord_rowGroups {storage : TableStorage R} {added : List RowGroupEntry}
    (artifacts : List (StagedArtifact (File R)))
    (distinct : (current.rowGroups.map RowGroupEntry.fragmentId).Nodup)
    (planned : ∀ work ∈ works, ∃ entry ∈ current.rowGroups,
      work.PlannedFor storage byFragment entry)
    (rowGroups_eq : manifest.rowGroups = current.rowGroups.map (applyWork works) ++ added)
    (undeleted : ∀ entry ∈ added, entry.deletes = none) :
    (MutationWal.apply current (mutationRecord current manifest artifacts)).rowGroups =
      current.rowGroups.map (applyWork works) ++ added.filter fun entry =>
        entry.fragmentId ∉ current.rowGroups.map RowGroupEntry.fragmentId := by
  obtain ⟨change, whole, changes, unchanged⟩ : ∃ change,
      (mutationRecord current manifest artifacts).fragmentDeletes =
          manifest.rowGroups.filterMap change ∧
        (∀ entry ∈ current.rowGroups, ∀ new : RowGroupEntry, new.fragmentId = entry.fragmentId →
          change new = if entry.deletes = new.deletes then none
            else new.deletes.map fun deletes =>
              { fragmentId := new.fragmentId, deletes, deletedCount := new.deletedCount }) ∧
        ∀ new : RowGroupEntry, new.deletes = none → change new = none := by
    refine ⟨_, rfl, fun entry member new same_id => ?_, fun new none_deleted => ?_⟩
    · have found := find?_fragmentId distinct member
      rw [← same_id] at found
      simp only [found]
    · simp only [none_deleted, Option.map_none]
      split
      · rfl
      · split <;> rfl
  have reports := reports_applyWork distinct planned changes
  have no_change : added.filterMap change = [] := by
    rw [List.filterMap_eq_nil_iff]
    exact fun entry member => unchanged entry (undeleted entry member)
  have kept : (current.rowGroups.map (applyWork works)).filter (fun entry =>
      entry.fragmentId ∉ current.rowGroups.map RowGroupEntry.fragmentId) = [] := by
    rw [List.filter_eq_nil_iff]
    intro entry member
    obtain ⟨old, old_member, rfl⟩ := List.mem_map.mp member
    rw [applyWork_fragmentId]
    simpa using ⟨old, old_member, rfl⟩
  have deletes_eq : (mutationRecord current manifest artifacts).fragmentDeletes =
      (current.rowGroups.map (applyWork works)).filterMap change := by
    rw [whole, rowGroups_eq, List.filterMap_append, no_change, List.append_nil]
  have adds_eq : (mutationRecord current manifest artifacts).fragmentAdds =
      added.filter fun entry =>
        entry.fragmentId ∉ current.rowGroups.map RowGroupEntry.fragmentId := by
    rw [mutationRecord, rowGroups_eq, List.filter_append, kept, List.nil_append]
  have applied : (MutationWal.apply current (mutationRecord current manifest artifacts)).rowGroups =
      MutationWal.applyDeletes (mutationRecord current manifest artifacts).fragmentDeletes
        current.rowGroups ++ (mutationRecord current manifest artifacts).fragmentAdds := rfl
  rw [applied, deletes_eq, adds_eq,
    MutationWal.applyDeletes_filterMap reports (MutationWal.pairwise_of_nodup distinct)]

/-! ## What is performed before the commit -/

/-- The effect neither appends to the log nor writes a manifest. -/
def Prepares : StorageEffect (File R) (File R) → Prop
  | .appendRecord _ => False
  | .writeManifest _ _ => False
  | _ => True

private theorem emits_materialize (record : MutationRecord (File R)) :
    (MutationWal.materialize Except.ok record).Emits (Prepares (R := R)) := by
  refine Script.Emits.each fun artifact _ => Script.Emits.bind Script.emits_read fun storage => ?_
  exact Script.Emits.ite (fun _ => Script.emits_pure _) fun _ => Script.Emits.emit trivial

private theorem emits_recoverPointer (latestZero malformed : Bool) :
    (recoverPointer latestZero malformed : TableProgram R (Nat × Manifest)).Emits Prepares := by
  refine Script.Emits.bind Script.emits_read fun storage => ?_
  split
  · exact Script.Emits.bind (Script.Emits.emit trivial) fun _ => Script.emits_pure _
  · refine Script.Emits.ite (fun _ => Script.emits_fail _) fun _ => ?_
    exact Script.Emits.ite (fun _ => Script.emits_fail _) fun _ => Script.emits_pure _

theorem emits_loadCurrent : (loadCurrent (R := R)).Emits Prepares := by
  refine Script.Emits.bind ?_ fun ⟨sequence, manifest⟩ => ?_
  · refine Script.Emits.bind Script.emits_read fun storage => ?_
    split
    · exact emits_recoverPointer _ _
    · exact emits_recoverPointer _ _
    · exact emits_recoverPointer _ _
    · exact emits_recoverPointer _ _
    · split
      · exact Script.emits_fail _
      · exact Script.Emits.bind (emits_readManifestValidated _) fun _ => Script.emits_pure _
  · refine Script.Emits.ite (fun _ => Script.emits_pure _) fun _ => ?_
    refine Script.Emits.bind ?_ fun _ => Script.emits_pure _
    refine Script.Emits.bind Script.emits_read fun storage => ?_
    refine Script.Emits.fold (fun base record _ => ?_) manifest
    refine Script.Emits.ite (fun _ => ?_) fun _ => Script.emits_pure _
    exact Script.Emits.bind (emits_materialize record) fun _ => Script.emits_pure _

theorem emits_cleanupStaging (latestSeq : Nat) (referenced : List String) :
    (cleanupStaging latestSeq referenced : TableProgram R Unit).Emits Prepares := by
  refine Script.Emits.bind Script.emits_read fun storage => ?_
  refine Script.Emits.bind (Script.Emits.each fun entry _ => ?_) fun _ => ?_
  · refine Script.Emits.bind (Script.Emits.each fun path _ => ?_) fun _ => Script.Emits.emit trivial
    exact Script.Emits.ite (fun _ => Script.emits_pure _) fun _ => Script.Emits.emit trivial
  · refine Script.Emits.bind (Script.Emits.each fun path _ => Script.Emits.emit trivial) fun _ => ?_
    exact Script.Emits.each fun sequence _ => Script.Emits.emit trivial

theorem emits_beginMutation : (beginMutation (R := R)).Emits Prepares := by
  refine Script.Emits.bind emits_loadCurrent fun ⟨latestSeq, current⟩ => ?_
  refine Script.Emits.bind (emits_cleanupStaging _ _) fun _ => ?_
  refine Script.Emits.bind ?_ fun _ => Script.emits_pure _
  exact Script.Emits.bind Script.emits_read fun storage => Script.emits_ensure _ _

theorem prepares_of_within {paths : String → Prop} {effect : StorageEffect (File R) (File R)}
    (within : effect.Within paths) : Prepares effect := by
  cases effect <;> trivial

theorem emits_prepareDelete (writer : Writer R) (choices : Choices R)
    (byFragment : HashMap Nat (List Nat)) : (writer.prepareDelete byFragment).Emits Prepares := by
  obtain ⟨rest, prepare_eq, frame⟩ := writer.prepareDelete_frame byFragment choices
  rw [prepare_eq]
  exact Script.Emits.bind emits_beginMutation fun ⟨latestSeq, current⟩ =>
    (frame latestSeq current).1.mono fun _ => prepares_of_within

theorem emits_prepareUpdate (writer : Writer R) (choices : Choices R)
    (sorted : List (MatchLoc × R)) (setColumns : List String) :
    (writer.prepareUpdate choices sorted setColumns).Emits Prepares := by
  obtain ⟨rest, prepare_eq, frame⟩ := writer.prepareUpdate_frame choices sorted setColumns
  rw [prepare_eq]
  exact Script.Emits.bind emits_beginMutation fun ⟨latestSeq, current⟩ =>
    (frame latestSeq current).1.mono fun _ => prepares_of_within

theorem emits_prepareMerge (writer : Writer R) (choices : Choices R) (sorted : List (MatchLoc × R))
    (inserts : RowBatch R) : (writer.prepareMerge choices sorted inserts).Emits Prepares := by
  obtain ⟨rest, prepare_eq, frame⟩ := writer.prepareMerge_frame choices sorted inserts
  rw [prepare_eq]
  exact Script.Emits.bind emits_beginMutation fun ⟨latestSeq, current⟩ =>
    (frame latestSeq current).1.mono fun _ => prepares_of_within

/-! ## What the two ways commit -/

variable {writer : Writer R} {choices : Choices R} {published : Manifest} {before : TableStorage R}

/-- Publishing writes the prepared manifest, up to its checkpoint and its seal. -/
theorem sameTable_of_performs_commitSwap {files : List String} {sequence : Nat}
    (performed : (writer.commitSwap choices current manifest files).Performs before
      (.writeManifest sequence published)) : manifest.SameTable published := by
  rw [commitSwap, Script.performs_bind] at performed
  rcases performed with early | ⟨checkpointed, middle, checkpoint_run, performed⟩
  · have quiet : (checkpointManifest writer.localRoot choices current manifest files).Emits
        (StorageEffect.Within (Touches choices manifest.sequence current)) :=
      emits_checkpointManifest writer.localRoot rfl
    exact absurd early ((quiet.mono fun _ => prepares_of_within).not_performs id before)
  simp only [checkpointManifest, Script.ends_bind, Script.ends_pure] at checkpoint_run
  obtain ⟨_, _, -, _, _, -, rfl, -⟩ := checkpoint_run
  simp only [publish, writeManifest, Script.performs_bind, Script.performs_emit,
    Script.performs_read, Script.performs_ensure, Script.performs_pure, reduceCtorEq, false_or,
    and_false, exists_false, or_false, StorageEffect.writeManifest.injEq] at performed
  obtain ⟨_, _, -, _, _, -, -, rfl⟩ := performed
  exact ⟨rfl, rfl, rfl, rfl, rfl, rfl, rfl⟩

private theorem emits_foldPending (writer : Writer R) (choices : Choices R) :
    (writer.foldPending choices).Emits fun effect => ∀ record, effect ≠ .appendRecord record := by
  refine Script.Emits.bind Script.emits_read fun storage => ?_
  refine Script.Emits.ite (fun _ => ?_) fun _ => Script.emits_pure _
  refine Script.Emits.bind ?_ fun _ => Script.emits_pure _
  refine Script.Emits.bind Script.emits_read fun storage => ?_
  refine Script.Emits.ite (fun _ => Script.emits_pure _) fun _ => ?_
  refine Script.Emits.bind ?_ fun base => ?_
  · refine Script.Emits.bind Script.emits_read fun storage => ?_
    split
    · exact Script.emits_fail _
    · exact Script.emits_fail _
    · exact Script.emits_fail _
    · split
      · exact Script.emits_pure _
      · exact Script.emits_fail _
  · refine Script.Emits.ite (fun _ => ?_) fun _ => ?_
    · exact Script.Emits.bind (Script.Emits.emit (by simp)) fun _ => Script.emits_pure _
    · refine Script.Emits.bind ?_ fun live => ?_
      · refine Script.Emits.fold (fun base record _ => ?_) base
        refine Script.Emits.ite (fun _ => ?_) fun _ => Script.emits_pure _
        refine Script.Emits.bind ?_ fun _ => Script.emits_pure _
        refine (emits_materialize record).mono fun effect prepares record same => ?_
        rw [same] at prepares
        exact prepares
      · refine Script.Emits.bind Script.emits_read fun storage => ?_
        refine Script.Emits.bind (Script.Emits.emit (by simp)) fun _ => ?_
        refine Script.Emits.bind (Script.Emits.emit (by simp)) fun _ => ?_
        exact Script.Emits.bind (Script.Emits.emit (by simp)) fun _ => Script.emits_pure _

variable {record : MutationRecord (File R)}

theorem appended_commitDeferred {mutation : MutationRecord (File R)}
    (performed : (writer.commitDeferred choices mutation).Performs before (.appendRecord record)) :
    record = mutation := by
  simp only [commitDeferred, Script.performs_bind, Script.performs_emit, reduceCtorEq, false_or,
    StorageEffect.appendRecord.injEq] at performed
  rcases performed with same | ⟨_, _, -, _, _, -, folded⟩
  · exact same
  · exact absurd folded ((emits_foldPending writer choices).not_performs (by simp) _)

/-! ## Agreement -/

/-- A manifest that a mutation builds from the current one, with new row groups. -/
structure MutatedFrom (current manifest : Manifest) (added : List RowGroupEntry) : Prop where
  rowGroups : ∃ (storage : TableStorage R) (byFragment : HashMap Nat (List Nat))
    (works : List DelWork),
    (∀ work ∈ works, ∃ entry ∈ current.rowGroups, work.PlannedFor storage byFragment entry) ∧
      manifest.rowGroups = current.rowGroups.map (applyWork works) ++ added
  undeleted : ∀ entry ∈ added, entry.deletes = none
  schemaId : manifest.schemaId = current.schemaId
  partitionValues : manifest.partitionValues = current.partitionValues
  rowindexGeneration : manifest.rowindexGeneration = none → current.rowindexGeneration = none
  nextFragmentId : current.nextFragmentId ≤ manifest.nextFragmentId
  nextRowId : current.nextRowId ≤ manifest.nextRowId

/-- The replayed difference of a mutated manifest agrees with the manifest exactly when the new row
groups have new fragment ids. -/
theorem MutatedFrom.sameTable_iff {added : List RowGroupEntry}
    (mutated : MutatedFrom (R := R) current manifest added)
    (distinct : (current.rowGroups.map RowGroupEntry.fragmentId).Nodup)
    (same : manifest.SameTable published) (artifacts : List (StagedArtifact (File R))) :
    (MutationWal.apply current (mutationRecord current manifest artifacts)).SameTable published ↔
      ∀ entry ∈ added, entry.fragmentId ∉ current.rowGroups.map RowGroupEntry.fragmentId := by
  obtain ⟨storage, byFragment, works, planned, rowGroups_eq⟩ := mutated.rowGroups
  have applied := apply_mutationRecord_rowGroups artifacts distinct planned rowGroups_eq
    mutated.undeleted
  constructor
  · intro agreed
    have groups_eq := agreed.rowGroups
    rw [applied, ← same.rowGroups, rowGroups_eq, List.append_cancel_left_eq,
      List.filter_eq_self] at groups_eq
    exact fun entry member => by simpa using groups_eq entry member
  · intro unallocated
    have all_kept : (added.filter fun entry =>
        entry.fragmentId ∉ current.rowGroups.map RowGroupEntry.fragmentId) = added := by
      rw [List.filter_eq_self]
      exact fun entry member => by simpa using unallocated entry member
    refine ⟨?_, same.indexGenerations, ?_, ?_, ?_, ?_, ?_⟩
    · rw [applied, all_kept, ← same.rowGroups, rowGroups_eq]
    · rw [← same.rowindexGeneration]
      change (if manifest.rowindexGeneration.isSome then manifest.rowindexGeneration
        else current.rowindexGeneration) = manifest.rowindexGeneration
      cases generation : manifest.rowindexGeneration with
      | none => simpa using mutated.rowindexGeneration generation
      | some index => rfl
    · rw [← same.nextFragmentId]
      change (if manifest.nextFragmentId ≠ 0 then manifest.nextFragmentId
        else current.nextFragmentId) = manifest.nextFragmentId
      have := mutated.nextFragmentId
      split <;> omega
    · rw [← same.nextRowId]
      change (if manifest.nextRowId ≠ 0 then manifest.nextRowId
        else current.nextRowId) = manifest.nextRowId
      have := mutated.nextRowId
      split <;> omega
    · rw [← same.schemaId, mutated.schemaId]
      rfl
    · rw [← same.partitionValues, mutated.partitionValues]
      rfl

variable {after : TableStorage R}

private theorem planned_of_ends {unparsed : String → String}
    (run : (planDeletions unparsed byFragment entries).Ends before works after) :
    ∀ work ∈ works, ∃ entry ∈ entries, work.PlannedFor before byFragment entry := by
  obtain ⟨-, planned⟩ := plannedFor_of_ends_planDeletions run
  intro work member
  obtain ⟨index, bound, rfl⟩ := List.getElem_of_mem member
  obtain ⟨length_eq, pairs⟩ := List.forall₂_iff_get.mp planned
  refine ⟨_, List.mem_of_mem_filter (List.getElem_mem (length_eq ▸ bound)), ?_⟩
  exact pairs index (length_eq ▸ bound) bound

theorem mutatedFrom_prepareUpdate {sorted : List (MatchLoc × R)} {setColumns : List String}
    {prepared : PreparedMutation R}
    (run : (writer.prepareUpdate choices sorted setColumns).Ends before prepared after) :
    (∃ latestSeq loaded, loadCurrent.Ends before (latestSeq, prepared.current) loaded) ∧
      ∃ added, MutatedFrom (R := R) prepared.current prepared.manifest added ∧
        added.map RowGroupEntry.fragmentId = [prepared.current.nextFragmentId] := by
  simp only [prepareUpdate, Script.ends_bind, Prod.exists, ends_beginMutation] at run
  obtain ⟨latestSeq, current, _, ⟨loaded, load, -, -⟩, _, _, -, _, _, -, works, _, plan, _, _, -,
    _, _, -, _, _, -, _, _, -, _, _, -, _, _, -, _, _, -, _, _, -, _, _, -, ended⟩ := run
  obtain ⟨rfl, -⟩ := Script.ends_pure.mp ended
  refine ⟨⟨latestSeq, loaded, load⟩, _, ⟨⟨_, _, works, planned_of_ends plan, rfl⟩, ?_, rfl, rfl,
    ?_, ?_, ?_⟩, rfl⟩
  · simp
  · simp
  · simp
  · simp

private theorem mergeGeneration_eq_none {deltaPath : Option String}
    (absent : mergeGeneration current deltaPath = none) : current.rowindexGeneration = none := by
  cases deltaPath <;> simp only [mergeGeneration] at absent <;> split at absent
  · exact absent
  · cases absent
  · exact absent
  · cases absent

theorem mutatedFrom_prepareMerge {sorted : List (MatchLoc × R)} {inserts : RowBatch R}
    {prepared : PreparedMutation R}
    (run : (writer.prepareMerge choices sorted inserts).Ends before prepared after) :
    (∃ latestSeq loaded, loadCurrent.Ends before (latestSeq, prepared.current) loaded) ∧
      ∃ added, MutatedFrom (R := R) prepared.current prepared.manifest added ∧
        added.map RowGroupEntry.fragmentId = List.range' prepared.current.nextFragmentId
          ((if sorted.isEmpty then 0 else 1) + if inserts.rows.isEmpty then 0 else 1) := by
  simp only [prepareMerge, buildIndexesIntoManifest, Script.ends_bind, Prod.exists,
    ends_beginMutation, Script.ends_lift, Script.ends_pure, Prod.mk.injEq] at run
  obtain ⟨latestSeq, current, _, ⟨loaded, load, -, -⟩, patch, _, ⟨patched, -⟩, inserted, _,
    ⟨inserted_ok, -⟩, works, _, plan, _, _, -, _, _, -, _, _, -, _, _, -, _, _, _,
    ⟨_, _, -, _, _, -, _, _, -, _, _, -, ⟨rfl, rfl⟩, -⟩, rfl, -⟩ := run
  have patch_ids : patch.map MergeFragment.fragmentId = List.range' current.nextFragmentId
      (if sorted.isEmpty then 0 else 1) := by
    rcases mergePatch_eq_ok patched with ⟨rfl, rfl⟩ | ⟨nonempty, sidecar, -, rfl⟩
    · simp
    · simp [nonempty]
  have inserted_ids : inserted.map MergeFragment.fragmentId =
      List.range' (current.nextFragmentId + patch.length)
        (if inserts.rows.isEmpty then 0 else 1) := by
    rcases mergeInsert_eq_ok inserted_ok with ⟨empty, rfl⟩ | ⟨nonempty, sidecar, -, rfl⟩
    · simp [empty]
    · simp [nonempty]
  refine ⟨⟨latestSeq, loaded, load⟩, _, ⟨⟨_, _, works, planned_of_ends plan, rfl⟩, ?_, rfl, rfl,
    mergeGeneration_eq_none, ?_, ?_⟩, ?_⟩
  · intro entry member
    obtain ⟨fragment, -, rfl⟩ := List.mem_map.mp member
    rfl
  · simp
  · simp
  · have length_eq : patch.length = if sorted.isEmpty then 0 else 1 := by
      simpa using congrArg List.length patch_ids
    rw [List.map_map, List.map_append]
    change patch.map MergeFragment.fragmentId ++ inserted.map MergeFragment.fragmentId = _
    rw [patch_ids, inserted_ids, length_eq, List.range'_append_1]

/-- How a deferred delete reports the row groups it was asked to delete from. -/
private def deleteChange (byFragment : HashMap Nat (List Nat)) (entry : RowGroupEntry) :
    Option FragmentDelete :=
  if (requestedOffsets byFragment entry).isSome then
    entry.deletes.map fun deletes =>
      { fragmentId := entry.fragmentId, deletes, deletedCount := entry.deletedCount }
  else none

private theorem reports_deleteRows {rowGroups : List RowGroupEntry}
    (run : (deleteRows byFragment entries).Ends before (rowGroups, works) after) :
    List.Forall₂ (MutationWal.Reports (deleteChange byFragment)) entries rowGroups := by
  induction entries generalizing before rowGroups works after with
  | nil =>
      obtain ⟨ended, -⟩ := Script.ends_pure.mp run
      obtain ⟨rfl, -⟩ := Prod.mk.inj ended
      exact .nil
  | cons entry entries ih =>
      rw [deleteRows] at run
      split at run
      · next absent =>
          simp only [Script.ends_bind, Prod.exists, Script.ends_pure, Prod.mk.injEq] at run
          obtain ⟨rest, _, _, later, ⟨rfl, rfl⟩, -⟩ := run
          exact .cons (.inl ⟨by simp [deleteChange, absent], rfl⟩) (ih later)
      · next offsets requested =>
          simp only [Script.ends_bind, Prod.exists, Script.ends_pure, Prod.mk.injEq] at run
          obtain ⟨work, _, planned, _, _, -, rest, _, _, later, ⟨rfl, rfl⟩, -⟩ := run
          have reported : deleteChange byFragment (withDeletions entry work) =
              some { fragmentId := entry.fragmentId, deletes := work.path
                     deletedCount := work.deletions.cardinality } := by
            have same : requestedOffsets byFragment (withDeletions entry work) = some offsets :=
              requested
            rw [deleteChange, same]
            rfl
          exact .cons (.inr ⟨_, reported, rfl, rfl⟩) (ih later)

variable {prepared : PreparedDelete}

private theorem reports_prepareDelete
    (run : (writer.prepareDelete byFragment).Ends before prepared after) :
    (∃ latestSeq loaded, loadCurrent.Ends before (latestSeq, prepared.current) loaded) ∧
      List.Forall₂ (MutationWal.Reports (deleteChange byFragment)) prepared.current.rowGroups
        prepared.manifest.rowGroups ∧
      prepared.manifest = { prepared.current with
        formatVersion := 1
        sequence := prepared.latestSeq + 1
        rowGroups := prepared.manifest.rowGroups
        indexGenerations := prepared.manifest.indexGenerations
        checkpoint := none
        parentHash := none
        committedAt := none
        checksum := "" } := by
  simp only [prepareDelete, Script.ends_bind, Prod.exists, ends_beginMutation,
    Script.ends_pure] at run
  obtain ⟨latestSeq, current, _, ⟨loaded, load, -, -⟩, rowGroups, works, _, deleted, _, _, _, -,
    _, _, -, _, _, _, -, rfl, -⟩ := run
  exact ⟨⟨latestSeq, loaded, load⟩, reports_deleteRows deleted, rfl⟩

/-- No two row groups share a fragment id that has offsets to delete. -/
def Unshared (byFragment : HashMap Nat (List Nat)) (entries : List RowGroupEntry) : Prop :=
  entries.Pairwise fun left right => left.fragmentId = right.fragmentId →
    requestedOffsets byFragment left = none

/-- A deferred delete is replayed to the row groups that it has prepared. -/
theorem rowGroups_apply_deleteRecord
    (run : (writer.prepareDelete byFragment).Ends before prepared after)
    (unshared : Unshared byFragment prepared.current.rowGroups) :
    (MutationWal.apply prepared.current (deleteRecord (R := R) byFragment prepared)).rowGroups =
      prepared.manifest.rowGroups := by
  obtain ⟨-, reports, -⟩ := reports_prepareDelete run
  have deletes_eq : (deleteRecord (R := R) byFragment prepared).fragmentDeletes =
      prepared.manifest.rowGroups.filterMap (deleteChange byFragment) := by
    simp only [deleteRecord, List.filterMap_filter]
    rfl
  change MutationWal.applyDeletes _ _ ++ [] = _
  rw [deletes_eq, List.append_nil]
  apply MutationWal.applyDeletes_filterMap reports
  refine unshared.imp fun {left _} separate same update member update_id => ?_
  obtain ⟨entry, -, changed⟩ := List.mem_filterMap.mp member
  rw [deleteChange] at changed
  split at changed
  · next requested =>
      obtain ⟨deletes, -, rfl⟩ := Option.map_eq_some_iff.mp changed
      have asked : requestedOffsets byFragment left = requestedOffsets byFragment entry := by
        rw [requestedOffsets, requestedOffsets, ← update_id]
      rw [← asked, separate same] at requested
      cases requested
  · cases changed

/-- A deferred delete is replayed to the manifest that a published delete has. -/
theorem sameTable_deleteRecord (run : (writer.prepareDelete byFragment).Ends before prepared after)
    (distinct : (prepared.current.rowGroups.map RowGroupEntry.fragmentId).Nodup)
    (same : prepared.manifest.SameTable published) :
    (MutationWal.apply prepared.current
      (deleteRecord (R := R) byFragment prepared)).SameTable published := by
  obtain ⟨-, -, manifest_eq⟩ := reports_prepareDelete run
  have applied := rowGroups_apply_deleteRecord run (MutationWal.pairwise_of_nodup distinct)
  refine ⟨applied.trans same.rowGroups, same.indexGenerations, ?_, ?_, ?_, ?_, ?_⟩
  · rw [← same.rowindexGeneration, manifest_eq]
    rfl
  · rw [← same.nextFragmentId, manifest_eq]
    rfl
  · rw [← same.nextRowId, manifest_eq]
    change (if prepared.current.nextRowId ≠ 0 then _ else _) = prepared.current.nextRowId
    split <;> rfl
  · rw [← same.schemaId, manifest_eq]
    rfl
  · rw [← same.partitionValues, manifest_eq]
    rfl

/-- How mutations are committed makes no difference to how they are prepared. -/
private theorem prepareDelete_walMode (writer : Writer R) (mode : Bool)
    (byFragment : HashMap Nat (List Nat)) :
    ({ writer with walMode := mode } : Writer R).prepareDelete byFragment =
      writer.prepareDelete byFragment := by
  have tombstones : ∀ rowIds nextSeq indexes generations,
      ({ writer with walMode := mode } : Writer R).appendTombstones rowIds nextSeq indexes
        generations = writer.appendTombstones rowIds nextSeq indexes generations := by
    intro rowIds nextSeq indexes
    induction indexes with
    | nil => exact fun _ => rfl
    | cons index indexes ih => simp only [appendTombstones, ih, implies_true]
  simp only [prepareDelete, tombstones]
  rfl

private theorem appended_commitDeletes
    (performed : (({ writer with walMode := true } : Writer R).commitDeletes choices
      byFragment).Performs before (.appendRecord record)) :
    ∃ prepared after, (writer.prepareDelete byFragment).Ends before prepared after ∧
      record = deleteRecord byFragment prepared := by
  rw [commitDeletes, prepareDelete_walMode, Script.performs_bind] at performed
  rcases performed with early | ⟨prepared, after, run, performed⟩
  · exact absurd early ((emits_prepareDelete writer choices byFragment).not_performs id before)
  simp only [if_true, Script.performs_bind, Script.performs_emit,
    StorageEffect.appendRecord.injEq] at performed
  rcases performed with same | ⟨_, _, -, folded⟩
  · exact ⟨prepared, after, run, same⟩
  · exact absurd folded ((emits_foldPending _ choices).not_performs (by simp) _)

private theorem published_commitDeletes {sequence : Nat}
    (performed : (({ writer with walMode := false } : Writer R).commitDeletes choices
      byFragment).Performs before (.writeManifest sequence published)) :
    ∃ prepared after, (writer.prepareDelete byFragment).Ends before prepared after ∧
      prepared.manifest.SameTable published := by
  rw [commitDeletes, prepareDelete_walMode, Script.performs_bind] at performed
  rcases performed with early | ⟨prepared, after, run, performed⟩
  · exact absurd early ((emits_prepareDelete writer choices byFragment).not_performs id before)
  simp only [Bool.false_eq_true, if_false, Script.performs_bind, Script.performs_emit,
    reduceCtorEq, false_or] at performed
  obtain ⟨_, _, -, swapped⟩ := performed
  exact ⟨prepared, after, run, sameTable_of_performs_commitSwap swapped⟩

private theorem appended_commitPrepared {prepare : TableProgram R (PreparedMutation R)}
    (emits : prepare.Emits Prepares)
    (performed : (prepare >>= ({ writer with walMode := true } : Writer R).commitPrepared
      choices).Performs before (.appendRecord record)) :
    ∃ prepared after, prepare.Ends before prepared after ∧
      record = mutationRecord prepared.current prepared.manifest prepared.artifacts := by
  rcases Script.performs_bind.mp performed with early | ⟨prepared, after, run, performed⟩
  · exact absurd early (emits.not_performs id before)
  · exact ⟨prepared, after, run, appended_commitDeferred performed⟩

private theorem published_commitPrepared {prepare : TableProgram R (PreparedMutation R)}
    (emits : prepare.Emits Prepares) {sequence : Nat}
    (performed : (prepare >>= ({ writer with walMode := false } : Writer R).commitPrepared
      choices).Performs before (.writeManifest sequence published)) :
    ∃ prepared after, prepare.Ends before prepared after ∧
      prepared.manifest.SameTable published := by
  rcases Script.performs_bind.mp performed with early | ⟨prepared, after, run, performed⟩
  · exact absurd early (emits.not_performs id before)
  · exact ⟨prepared, after, run, sameTable_of_performs_commitSwap performed⟩

end Writer

namespace Mutation

variable {R : Type}

private theorem sameTable_iff_of_mutatedFrom {prepare : TableProgram R (Writer.PreparedMutation R)}
    (emits : prepare.Emits Writer.Prepares) {writer : Writer R} {choices : Choices R}
    {before loaded : TableStorage R} {latestSeq sequence : Nat} {current published : Manifest}
    {record : MutationRecord (File R)} (allocated : Manifest → List Nat)
    (mutates : ∀ prepared after, prepare.Ends before prepared after →
      (∃ latestSeq loaded, Writer.loadCurrent.Ends before (latestSeq, prepared.current) loaded) ∧
        ∃ added, Writer.MutatedFrom (R := R) prepared.current prepared.manifest added ∧
          added.map RowGroupEntry.fragmentId = allocated prepared.current)
    (load : Writer.loadCurrent.Ends before (latestSeq, current) loaded)
    (distinct : (current.rowGroups.map RowGroupEntry.fragmentId).Nodup)
    (appended : (prepare >>= ({ writer with walMode := true } : Writer R).commitPrepared
      choices).Performs before (.appendRecord record))
    (wrote : (prepare >>= ({ writer with walMode := false } : Writer R).commitPrepared
      choices).Performs before (.writeManifest sequence published)) :
    (MutationWal.apply current record).SameTable published ↔
      ∀ fragmentId ∈ allocated current,
        fragmentId ∉ current.rowGroups.map RowGroupEntry.fragmentId := by
  obtain ⟨prepared, after, run, rfl⟩ := Writer.appended_commitPrepared emits appended
  obtain ⟨prepared', after', run', same⟩ := Writer.published_commitPrepared emits wrote
  obtain ⟨rfl, rfl⟩ := run.deterministic run'
  obtain ⟨⟨_, _, load'⟩, added, mutated, added_ids⟩ := mutates prepared after run
  obtain ⟨-, rfl⟩ := Prod.mk.inj (load.deterministic load').1
  rw [mutated.sameTable_iff distinct same, ← added_ids]
  simp

/-- Two runs of one mutation, one deferred and one published, commit the same table exactly when
the fragment ids that the mutation allocates are new. -/
theorem sameTable_iff_unallocated (writer : Writer R) (choices : Choices R) (mutation : Mutation R)
    {before loaded : TableStorage R} {latestSeq sequence : Nat} {current published : Manifest}
    {record : MutationRecord (File R)}
    (load : Writer.loadCurrent.Ends before (latestSeq, current) loaded)
    (distinct : (current.rowGroups.map RowGroupEntry.fragmentId).Nodup)
    (appended : (mutation.commit { writer with walMode := true } choices).Performs before
      (.appendRecord record))
    (wrote : (mutation.commit { writer with walMode := false } choices).Performs before
      (.writeManifest sequence published)) :
    (MutationWal.apply current record).SameTable published ↔
      ∀ fragmentId ∈ mutation.allocatedFragments current,
        fragmentId ∉ current.rowGroups.map RowGroupEntry.fragmentId := by
  cases mutation with
  | delete byFragment =>
      obtain ⟨prepared, after, run, rfl⟩ := Writer.appended_commitDeletes appended
      obtain ⟨prepared', after', run', same⟩ := Writer.published_commitDeletes wrote
      obtain ⟨rfl, rfl⟩ := run.deterministic run'
      obtain ⟨⟨_, _, load'⟩, -⟩ := Writer.reports_prepareDelete run
      obtain ⟨-, rfl⟩ := Prod.mk.inj (load.deterministic load').1
      simpa [allocatedFragments] using Writer.sameTable_deleteRecord run distinct same
  | update batch locs setColumns =>
      simp only [commit, Writer.commitUpdate, Script.performs_ensure_bind] at appended wrote
      obtain ⟨-, -, -, appended⟩ := appended
      obtain ⟨-, -, -, wrote⟩ := wrote
      exact sameTable_iff_of_mutatedFrom (Writer.emits_prepareUpdate writer choices _ _)
        (fun current => [current.nextFragmentId])
        (fun _ _ => Writer.mutatedFrom_prepareUpdate) load distinct appended wrote
  | merge matched locs inserts =>
      simp only [commit, Writer.commitMerge, Script.performs_ensure_bind] at appended wrote
      obtain ⟨lengths, -, appended⟩ := appended
      obtain ⟨-, -, wrote⟩ := wrote
      have empty_iff : (Writer.sortByRowId locs matched).isEmpty = locs.isEmpty := by
        simp only [Bool.or_eq_true, decide_eq_true_eq] at lengths
        rw [Bool.eq_iff_iff, List.isEmpty_iff_length_eq_zero, List.isEmpty_iff_length_eq_zero,
          Writer.sortByRowId, List.length_insertionSort, List.length_zip]
        rcases lengths with empty | same
        · simp [List.isEmpty_iff.mp empty]
        · omega
      have agrees := sameTable_iff_of_mutatedFrom (Writer.emits_prepareMerge writer choices _ _)
        (fun current => List.range' current.nextFragmentId
          ((if (Writer.sortByRowId locs matched).isEmpty then 0 else 1) +
            if inserts.rows.isEmpty then 0 else 1))
        (fun _ _ => Writer.mutatedFrom_prepareMerge) load distinct appended wrote
      rwa [empty_iff] at agrees

/-! ## A table from before fragment ids -/

/-- The manifest of a table that was written before row groups had fragment ids. -/
def legacyManifest : Manifest :=
  let manifest : Manifest :=
    { formatVersion := 1, sequence := 1, schemaId := 1
      rowGroups := [{ data := "rg_1.parquet", metaFile := "rg_1.meta" }] }
  { manifest with checksum := manifest.computeChecksum }

/-- Its directory, with one row. -/
def legacyTable : TableStorage Int where
  pointer := .latest 1
  manifests := AList.singleton 1 legacyManifest
  log := []
  files := ([⟨"rg_1.parquet", .data [7]⟩, ⟨"rg_1.meta", .sidecar
    { rowGroup := "rg_1", schemaId := 1, rows := 1, columns := ∅, columnOffsets := none
      sort := none, rowIds := [], checksum := "sha256:0", metaChecksum := "" }⟩] :
    List (Sigma fun _ : String => File Int)).toAList
  intents := ∅
  schemaPointer := some 1

/-- A merge that inserts one row. -/
def insertOne : Mutation Int :=
  .merge [] [] { rows := [8] }

private theorem load_legacyTable :
    Writer.loadCurrent.Ends legacyTable (1, legacyManifest) legacyTable := by
  have verified : legacyManifest.verifyChecksum = true := Manifest.verifyChecksum_sealed _
  exact (Writer.ends_loadCurrentManifest rfl rfl verified).mpr
    ⟨rfl, rfl, Script.ends_each_nil.mpr rfl⟩

/-- A deferred merge appends a record that replays to the row groups from before. -/
private theorem append_legacyTable :
    ∃ record, (insertOne.commit { Integers.writer with walMode := true }
        (Integers.choices 0)).Performs legacyTable (.appendRecord record) ∧
      (MutationWal.apply legacyManifest record).rowGroups.length = 1 := by
  have found : ((insertOne.commit { Integers.writer with walMode := true }
      (Integers.choices 0)) legacyTable).1.any (fun effect =>
        match effect with
        | .appendRecord record =>
            (MutationWal.apply legacyManifest record).rowGroups.length = 1
        | _ => false) = true := by
    decide +kernel
  obtain ⟨effect, performed, matched⟩ := List.any_eq_true.mp found
  cases effect with
  | appendRecord record => exact ⟨record, performed, of_decide_eq_true matched⟩
  | _ => cases matched

private def writesTwoRowGroups : StorageEffect (File Int) (File Int) → Bool
  | .writeManifest _ published => published.rowGroups.length = 2
  | _ => false

/-- A published merge has the new row group too. -/
private theorem publish_legacyTable :
    ∃ sequence published, (insertOne.commit { Integers.writer with walMode := false }
        (Integers.choices 0)).Performs legacyTable (.writeManifest sequence published) ∧
      published.rowGroups.length = 2 := by
  have found : ((insertOne.commit { Integers.writer with walMode := false }
      (Integers.choices 0)) legacyTable).1.any writesTwoRowGroups = true := by
    decide +kernel
  obtain ⟨effect, performed, matched⟩ := List.any_eq_true.mp found
  cases effect with
  | writeManifest sequence published =>
      exact ⟨sequence, published, performed, of_decide_eq_true matched⟩
  | _ => exact absurd matched Bool.false_ne_true

theorem insertOne_sameTable_iff :
    ∃ record sequence published,
      (insertOne.commit { Integers.writer with walMode := true } (Integers.choices 0)).Performs
        legacyTable (.appendRecord record) ∧
      (insertOne.commit { Integers.writer with walMode := false } (Integers.choices 0)).Performs
        legacyTable (.writeManifest sequence published) ∧
      ((MutationWal.apply legacyManifest record).SameTable published ↔
        ∀ fragmentId ∈ insertOne.allocatedFragments legacyManifest,
          fragmentId ∉ legacyManifest.rowGroups.map RowGroupEntry.fragmentId) := by
  obtain ⟨record, appended, -⟩ := append_legacyTable
  obtain ⟨sequence, published, wrote, -⟩ := publish_legacyTable
  have distinct : (legacyManifest.rowGroups.map RowGroupEntry.fragmentId).Nodup :=
    List.nodup_singleton 0
  exact ⟨record, sequence, published, appended, wrote,
    sameTable_iff_unallocated Integers.writer (Integers.choices 0) insertOne load_legacyTable
      distinct appended wrote⟩

/-- On a table from before fragment ids, replaying a deferred merge loses the inserted row group
that the published merge has. -/
theorem insertOne_not_sameTable :
    ∃ record sequence published,
      Writer.loadCurrent.Ends legacyTable (1, legacyManifest) legacyTable ∧
      (legacyManifest.rowGroups.map RowGroupEntry.fragmentId).Nodup ∧
      (insertOne.commit { Integers.writer with walMode := true } (Integers.choices 0)).Performs
        legacyTable (.appendRecord record) ∧
      (insertOne.commit { Integers.writer with walMode := false } (Integers.choices 0)).Performs
        legacyTable (.writeManifest sequence published) ∧
      ¬(MutationWal.apply legacyManifest record).SameTable published := by
  obtain ⟨record, appended, one⟩ := append_legacyTable
  obtain ⟨sequence, published, wrote, two⟩ := publish_legacyTable
  refine ⟨record, sequence, published, load_legacyTable, List.nodup_singleton 0, appended, wrote,
    ?_⟩
  intro same
  rw [same.rowGroups, two] at one
  omega

end Mutation

end IcefallDB
