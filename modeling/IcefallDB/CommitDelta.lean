import IcefallDB.MetadataAggregate

/-!
# Commit deltas

A commit returns the manifest it found and the manifest it published.  A cached scan plan of the
first is turned into one of the second without reading any metadata: dropped fragments leave the
plan, new deletion vectors replace the old ones, and the row groups that the commit wrote are added.
-/

namespace IcefallDB

/-- A change of the deletion vector of a fragment. -/
structure FragmentDelta where
  fragmentId : Nat
  oldDeletes : Option String
  newDeletes : Option String
  oldDeletedCount : Nat
  newDeletedCount : Nat
  deriving DecidableEq

/-- What a commit changed. -/
structure CommitDelta (F : Type) where
  previousSequence : Nat
  newSequence : Nat
  previousManifest : Manifest
  newManifest : Manifest
  /-- Planned row groups of the fragments that the commit wrote. -/
  addedRowGroups : List (AggregatedRowGroup F)

/-- Fragment ids of a list of row groups. -/
def fragmentIds (entries : List RowGroupEntry) : List Nat :=
  entries.map RowGroupEntry.fragmentId

/-- The entry of a fragment in a map collected from a list, which keeps the last one. -/
def entryOf (entries : List RowGroupEntry) (fragmentId : Nat) : Option RowGroupEntry :=
  entries.reverse.find? fun entry => entry.fragmentId = fragmentId

theorem entryOf_eq_some {entries : List RowGroupEntry} (nodup : (fragmentIds entries).Nodup)
    {entry : RowGroupEntry} (member : entry ∈ entries) :
    entryOf entries entry.fragmentId = some entry := by
  have found : (entryOf entries entry.fragmentId).isSome := by
    rw [entryOf, List.find?_isSome]
    exact ⟨entry, List.mem_reverse.mpr member, decide_eq_true rfl⟩
  obtain ⟨other, other_eq⟩ := Option.isSome_iff_exists.mp found
  have same : other.fragmentId = entry.fragmentId := by
    simpa using List.find?_some other_eq
  have other_member : other ∈ entries := List.mem_reverse.mp (List.mem_of_find?_eq_some other_eq)
  rw [other_eq, List.inj_on_of_nodup_map nodup other_member member same]

namespace CommitDelta

variable {F : Type}

/-- The commit published no manifest. -/
def isNoop (delta : CommitDelta F) : Bool :=
  delta.previousSequence = delta.newSequence

/-- Fragments that the commit dropped. -/
def removedFragmentIds (delta : CommitDelta F) : List Nat :=
  fragmentIds (delta.previousManifest.rowGroups.filter fun entry =>
    entry.fragmentId ∉ fragmentIds delta.newManifest.rowGroups)

/-- The change of the deletion vector of a fragment whose files stayed the same. -/
def fragmentDelta (delta : CommitDelta F) (new : RowGroupEntry) : Option FragmentDelta :=
  match entryOf delta.previousManifest.rowGroups new.fragmentId with
  | none => none
  | some old =>
      if old.data = new.data ∧ old.metaFile = new.metaFile ∧
          (old.deletes ≠ new.deletes ∨ old.deletedCount ≠ new.deletedCount) then
        some
          { fragmentId := new.fragmentId
            oldDeletes := old.deletes
            newDeletes := new.deletes
            oldDeletedCount := old.deletedCount
            newDeletedCount := new.deletedCount }
      else none

/-- Fragments whose deletion vector changed while their files stayed the same. -/
def updatedFragments (delta : CommitDelta F) : List FragmentDelta :=
  delta.newManifest.rowGroups.filterMap delta.fragmentDelta

/-- The row group after the change of its deletion vector, if it has one. -/
def patchEntry (delta : CommitDelta F) (entry : RowGroupEntry) : RowGroupEntry :=
  match delta.updatedFragments.reverse.find? fun change => change.fragmentId = entry.fragmentId with
  | some change =>
      { entry with deletes := change.newDeletes, deletedCount := change.newDeletedCount }
  | none => entry

/-- The row groups of a scan plan after the commit, from those before it. -/
def refreshRowGroups (delta : CommitDelta F) (base : List (AggregatedRowGroup F)) :
    List (AggregatedRowGroup F) :=
  (base.filter fun group => group.entry.fragmentId ∉ delta.removedFragmentIds).map
    (fun group => { group with entry := delta.patchEntry group.entry }) ++ delta.addedRowGroups

/-- The delta of a commit: fragments keep their files, and the row groups added are the new ones. -/
structure Committed (delta : CommitDelta F) : Prop where
  previous : delta.previousManifest.sequence = delta.previousSequence
  new : delta.newManifest.sequence = delta.newSequence
  advances : delta.previousSequence < delta.newSequence
  previousNodup : (fragmentIds delta.previousManifest.rowGroups).Nodup
  newNodup : (fragmentIds delta.newManifest.rowGroups).Nodup
  kept : ∀ old ∈ delta.previousManifest.rowGroups, ∀ new ∈ delta.newManifest.rowGroups,
    old.fragmentId = new.fragmentId →
      new = { old with deletes := new.deletes, deletedCount := new.deletedCount }
  added : (delta.addedRowGroups.map fun group => group.entry).Perm
    (delta.newManifest.rowGroups.filter fun entry =>
      entry.fragmentId ∉ fragmentIds delta.previousManifest.rowGroups)
  selected : ∀ group ∈ delta.addedRowGroups, group.snapshot ≤ delta.newSequence

variable {delta : CommitDelta F}

@[simp]
theorem mem_removedFragmentIds {fragmentId : Nat} :
    fragmentId ∈ delta.removedFragmentIds ↔
      fragmentId ∈ fragmentIds delta.previousManifest.rowGroups ∧
        fragmentId ∉ fragmentIds delta.newManifest.rowGroups := by
  simp only [removedFragmentIds, fragmentIds, List.mem_map, List.mem_filter, decide_eq_true_eq]
  constructor
  · rintro ⟨entry, ⟨member, absent⟩, rfl⟩
    exact ⟨⟨entry, member, rfl⟩, absent⟩
  · rintro ⟨⟨entry, member, rfl⟩, absent⟩
    exact ⟨entry, ⟨member, absent⟩, rfl⟩

theorem fragmentId_fragmentDelta {new : RowGroupEntry} {change : FragmentDelta}
    (changed : delta.fragmentDelta new = some change) :
    change.fragmentId = new.fragmentId ∧ change.newDeletes = new.deletes ∧
      change.newDeletedCount = new.deletedCount := by
  rw [fragmentDelta] at changed
  split at changed
  · cases changed
  · split at changed
    · obtain rfl := Option.some.inj changed
      exact ⟨rfl, rfl, rfl⟩
    · cases changed

/-- Patching the entry of a kept fragment gives its new entry. -/
theorem patchEntry_eq (committed : delta.Committed) {old new : RowGroupEntry}
    (old_member : old ∈ delta.previousManifest.rowGroups)
    (new_member : new ∈ delta.newManifest.rowGroups) (same : old.fragmentId = new.fragmentId) :
    delta.patchEntry old = new := by
  have kept := committed.kept old old_member new new_member same
  have old_eq := entryOf_eq_some committed.previousNodup old_member
  rw [same] at old_eq
  rw [patchEntry]
  split
  · rename_i change found
    have change_id : change.fragmentId = old.fragmentId := by
      simpa using List.find?_some found
    have change_member := List.mem_reverse.mp (List.mem_of_find?_eq_some found)
    obtain ⟨other, other_member, changed⟩ := List.mem_filterMap.mp change_member
    obtain ⟨other_id, deletes, deletedCount⟩ := fragmentId_fragmentDelta changed
    have other_eq : other = new := by
      apply List.inj_on_of_nodup_map committed.newNodup other_member new_member
      rw [← other_id, change_id, same]
    rw [deletes, deletedCount, other_eq]
    exact kept.symm
  · rename_i missing
    have unchanged : delta.fragmentDelta new = none := by
      rw [← Option.not_isSome_iff_eq_none, Option.isSome_iff_exists]
      rintro ⟨change, changed⟩
      have change_id := (fragmentId_fragmentDelta changed).1
      have member : change ∈ delta.updatedFragments.reverse :=
        List.mem_reverse.mpr (List.mem_filterMap.mpr ⟨new, new_member, changed⟩)
      apply List.find?_eq_none.mp missing change member
      exact decide_eq_true (change_id.trans same.symm)
    rw [fragmentDelta, old_eq] at unchanged
    have data : old.data = new.data := by rw [kept]
    have metaFile : old.metaFile = new.metaFile := by rw [kept]
    have equal : old.deletes = new.deletes ∧ old.deletedCount = new.deletedCount := by
      by_contra different
      rw [not_and_or] at different
      simp [data, metaFile, different] at unchanged
    rw [kept, ← equal.1, ← equal.2]

@[simp]
theorem patchEntry_fragmentId (entry : RowGroupEntry) :
    (delta.patchEntry entry).fragmentId = entry.fragmentId := by
  rw [patchEntry]
  split <;> rfl

theorem mem_patched_iff (committed : delta.Committed) {entry : RowGroupEntry} :
    entry ∈ (delta.previousManifest.rowGroups.filter fun old =>
        old.fragmentId ∉ delta.removedFragmentIds).map delta.patchEntry ↔
      entry ∈ delta.newManifest.rowGroups ∧
        entry.fragmentId ∈ fragmentIds delta.previousManifest.rowGroups := by
  simp only [List.mem_map, List.mem_filter, decide_eq_true_eq, mem_removedFragmentIds, not_and,
    not_not]
  constructor
  · rintro ⟨old, ⟨old_member, kept⟩, rfl⟩
    have old_id : old.fragmentId ∈ fragmentIds delta.previousManifest.rowGroups :=
      List.mem_map_of_mem old_member
    obtain ⟨new, new_member, same⟩ := List.mem_map.mp (kept old_id)
    rw [patchEntry_eq committed old_member new_member same.symm]
    exact ⟨new_member, same ▸ old_id⟩
  · rintro ⟨new_member, known⟩
    obtain ⟨old, old_member, same⟩ := List.mem_map.mp known
    have kept : old.fragmentId ∈ fragmentIds delta.newManifest.rowGroups := by
      rw [same]
      exact List.mem_map_of_mem new_member
    exact ⟨old, ⟨old_member, fun _ => kept⟩,
      patchEntry_eq committed old_member new_member same⟩

/-- The patched row groups are those of the new manifest whose fragments were there before. -/
theorem patched_perm (committed : delta.Committed) :
    ((delta.previousManifest.rowGroups.filter fun entry =>
      entry.fragmentId ∉ delta.removedFragmentIds).map delta.patchEntry).Perm
        (delta.newManifest.rowGroups.filter fun entry =>
          entry.fragmentId ∈ fragmentIds delta.previousManifest.rowGroups) := by
  have patched_nodup : ((delta.previousManifest.rowGroups.filter fun entry =>
      entry.fragmentId ∉ delta.removedFragmentIds).map delta.patchEntry).Nodup := by
    apply List.Nodup.map_on
    · intro first first_member second second_member same
      have ids := congrArg RowGroupEntry.fragmentId same
      rw [patchEntry_fragmentId, patchEntry_fragmentId] at ids
      exact List.inj_on_of_nodup_map committed.previousNodup
        (List.mem_of_mem_filter first_member) (List.mem_of_mem_filter second_member) ids
    · exact (List.Nodup.of_map _ committed.previousNodup).filter _
  apply (List.perm_ext_iff_of_nodup patched_nodup
    ((List.Nodup.of_map _ committed.newNodup).filter _)).mpr
  intro entry
  rw [mem_patched_iff committed, List.mem_filter, decide_eq_true_eq]

/-- The refreshed plan has the row groups of the new manifest, in some order. -/
theorem entries_refreshRowGroups (committed : delta.Committed) {base : List (AggregatedRowGroup F)}
    (planned : (base.map fun group => group.entry).Perm delta.previousManifest.rowGroups) :
    ((delta.refreshRowGroups base).map fun group => group.entry).Perm
      delta.newManifest.rowGroups := by
  have split_eq : (delta.refreshRowGroups base).map (fun group => group.entry) =
      ((base.map fun group => group.entry).filter fun entry =>
        entry.fragmentId ∉ delta.removedFragmentIds).map delta.patchEntry ++
          delta.addedRowGroups.map fun group => group.entry := by
    rw [refreshRowGroups, List.map_append, List.map_map, List.filter_map, List.map_map]
    rfl
  have parted : ((delta.newManifest.rowGroups.filter fun entry =>
        entry.fragmentId ∈ fragmentIds delta.previousManifest.rowGroups) ++
      delta.newManifest.rowGroups.filter fun entry =>
        entry.fragmentId ∉ fragmentIds delta.previousManifest.rowGroups).Perm
      delta.newManifest.rowGroups := by
    simpa using List.filter_append_perm (fun entry : RowGroupEntry =>
      decide (entry.fragmentId ∈ fragmentIds delta.previousManifest.rowGroups))
      delta.newManifest.rowGroups
  rw [split_eq]
  apply List.Perm.trans _ parted
  exact (((planned.filter _).map _).trans (patched_perm committed)).append committed.added

theorem snapshot_refreshRowGroups (committed : delta.Committed) {base : List (AggregatedRowGroup F)}
    (selected : ∀ group ∈ base, group.snapshot ≤ delta.previousSequence)
    {group : AggregatedRowGroup F} (member : group ∈ delta.refreshRowGroups base) :
    group.snapshot ≤ delta.newSequence := by
  rcases List.mem_append.mp member with patched | added
  · obtain ⟨old, old_member, rfl⟩ := List.mem_map.mp patched
    exact (selected old (List.mem_of_mem_filter old_member)).trans committed.advances.le
  · exact committed.selected group added

end CommitDelta

end IcefallDB
