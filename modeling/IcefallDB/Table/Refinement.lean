import IcefallDB.Table.Contents
import IcefallDB.Table.Deletions
import Mathlib

/-!
# Tables and snapshots

Between calls a table holds a snapshot: the manifest that writers load represents it.  What complete
commits, replaces, deletes, updates and merges do to the table is what appending, replacing and
changing do to the snapshot, whether a mutation publishes a manifest or is left in the log.
-/

namespace IcefallDB

open Writer

variable {R : Type} {before staged after storage : TableStorage R} {latestSeq : Nat}
  {current manifest : Manifest} {snapshot next : Snapshot R} {writer : Writer R} {choices : Choices R}

/-- The manifest that writers load represents the snapshot. -/
structure HoldsSnapshot (storage : TableStorage R) (latestSeq : Nat) (current : Manifest)
    (snapshot : Snapshot R) : Prop where
  settled : Settled storage latestSeq current
  represents : Represents (loadCurrent.final storage) current snapshot
  named : current.Named
  wellFormed : snapshot.WellFormed

theorem Manifest.SameTable.refl (manifest : Manifest) : manifest.SameTable manifest :=
  ⟨rfl, rfl, rfl, rfl, rfl, rfl, rfl⟩

theorem Manifest.SameTable.trans {first second third : Manifest} (left : first.SameTable second)
    (right : second.SameTable third) : first.SameTable third where
  rowGroups := left.rowGroups.trans right.rowGroups
  indexGenerations := left.indexGenerations.trans right.indexGenerations
  rowindexGeneration := left.rowindexGeneration.trans right.rowindexGeneration
  nextFragmentId := left.nextFragmentId.trans right.nextFragmentId
  nextRowId := left.nextRowId.trans right.nextRowId
  schemaId := left.schemaId.trans right.schemaId
  partitionValues := left.partitionValues.trans right.partitionValues

theorem Represents.of_sameTable {published : Manifest}
    (represents : Represents storage manifest snapshot) (same : manifest.SameTable published) :
    Represents storage published snapshot where
  fragments := same.rowGroups ▸ represents.fragments
  nextFragmentId := same.nextFragmentId ▸ represents.nextFragmentId
  nextRowId := same.nextRowId ▸ represents.nextRowId
  rowIndex := same.rowindexGeneration ▸ represents.rowIndex

theorem Writer.Settled.sequence_eq (settled : Settled storage latestSeq current) :
    current.sequence = latestSeq := by
  cases settled with
  | fresh _ _ _ zero empty =>
      rw [zero, empty]
      rfl
  | published _ _ _ _ _ numbered => exact numbered

namespace HoldsSnapshot

theorem distinct (holds : HoldsSnapshot storage latestSeq current snapshot) :
    (current.rowGroups.map RowGroupEntry.fragmentId).Nodup := by
  rw [holds.represents.fragmentIds]
  exact holds.wellFormed.fragmentIds_nodup

/-- Fragment ids from the counter on are new. -/
theorem unallocated (holds : HoldsSnapshot storage latestSeq current snapshot) {fragmentId : Nat}
    (above : current.nextFragmentId ≤ fragmentId) :
    fragmentId ∉ current.rowGroups.map RowGroupEntry.fragmentId := by
  rw [holds.represents.fragmentIds]
  intro member
  obtain ⟨fragment, listed, rfl⟩ := List.mem_map.mp member
  have := holds.wellFormed.fragmentIds_lt fragment listed
  have := holds.represents.nextFragmentId
  omega

/-- The table that is left when a manifest with these contents has become the current one. -/
theorem of_settled {published : Manifest} (settled : Settled after latestSeq published)
    (represents : Represents staged manifest next) (named : manifest.Named)
    (numbered : manifest.sequence = latestSeq) (same : manifest.SameTable published)
    (keeps : KeepsFiles staged after) (wellFormed : next.WellFormed) :
    HoldsSnapshot after latestSeq published next := by
  have published_named : published.Named := by
    constructor
    · exact same.rowGroups ▸ named.rowGroups
    · rw [settled.sequence_eq, ← numbered, ← same.rowindexGeneration]
      exact named.rowIndex
  refine ⟨settled, ?_, published_named, wellFormed⟩
  refine Represents.of_sameTable (represents.congr fun path contents file found => ?_) same
  apply lookup_of_ends_loadCurrentManifest settled.ends
  exact keeps path contents (file.isContent named) found

/-! ## Leaving a mutation in the log -/

/-- A record that replays to a manifest makes it the current one, folded or not. -/
theorem of_deferred {record : MutationRecord (File R)} {appended : TableStorage R}
    (settled : Settled staged latestSeq current) (committed : 0 < latestSeq)
    (numbered : record.sequence = latestSeq + 1)
    (represents : Represents staged manifest next) (named : manifest.Named)
    (manifest_numbered : manifest.sequence = latestSeq + 1)
    (applied : (MutationWal.apply current record).SameTable manifest) (wellFormed : next.WellFormed)
    (run : (writer.foldPending choices).Ends appended () after)
    (pointer : appended.pointer = staged.pointer) (manifests : appended.manifests = staged.manifests)
    (log : appended.log = staged.log ++ [record]) (files : appended.files = staged.files) :
    ∃ published, HoldsSnapshot after (latestSeq + 1) published next := by
  have deferred : Settled appended (latestSeq + 1) (MutationWal.apply current record) := by
    apply (settled_appendRecord settled committed numbered).congr pointer log
    · intro sequence _
      rw [manifests]
      rfl
    · nofun
  obtain ⟨folded, same, folded_settled, keeps⟩ :=
    settled_of_ends_foldPending deferred (Nat.succ_pos latestSeq) run
  have reverse : manifest.SameTable (MutationWal.apply current record) :=
    ⟨applied.rowGroups.symm, applied.indexGenerations.symm, applied.rowindexGeneration.symm,
      applied.nextFragmentId.symm, applied.nextRowId.symm, applied.schemaId.symm,
      applied.partitionValues.symm⟩
  refine ⟨folded, of_settled folded_settled represents named manifest_numbered (reverse.trans same) ?_
    wellFormed⟩
  intro path contents content found
  exact keeps path contents content (files ▸ found)

/-- Publishing a manifest makes it the current one. -/
theorem of_swapped {files : List String} (settled : Settled staged latestSeq current)
    (represents : Represents staged manifest next) (named : manifest.Named)
    (numbered : manifest.sequence = latestSeq + 1) (wellFormed : next.WellFormed)
    (run : (writer.commitSwap choices current manifest files).Ends staged () after) :
    ∃ published, HoldsSnapshot after (latestSeq + 1) published next := by
  obtain ⟨published, same, published_settled, keeps⟩ := settled_of_ends_commitSwap settled numbered run
  exact ⟨published, of_settled published_settled represents named numbered same keeps wellFormed⟩

/-! ## Names -/

theorem named_applyWork {works : List DelWork} {byFragment : HashMap Nat (List Nat)}
    {entries : List RowGroupEntry} {entry : RowGroupEntry} (named : entry.Named)
    (planned : ∀ work ∈ works, ∃ entry ∈ entries, work.PlannedFor storage byFragment entry) :
    (applyWork works entry).Named := by
  unfold applyWork
  split
  · next work found =>
      refine ⟨named.data, named.sidecar, fun path deletes => ?_⟩
      obtain ⟨other, -, plan⟩ := planned work (List.mem_of_find?_eq_some found)
      obtain ⟨version, path_eq, -⟩ := plan.path
      have same : work.fragmentId = entry.fragmentId := by simpa using List.find?_some found
      refine ⟨version, ?_⟩
      obtain rfl := Option.some.inj deletes
      rw [path_eq, ← plan.fragmentId, same]
      rfl
  · exact named

/-- A mutated manifest has names that commits give. -/
theorem named_of_works {works : List DelWork} {byFragment : HashMap Nat (List Nat)}
    {added : List RowGroupEntry} (named : current.Named)
    (planned : ∀ work ∈ works, ∃ entry ∈ current.rowGroups, work.PlannedFor storage byFragment entry)
    (rowGroups : manifest.rowGroups = current.rowGroups.map (applyWork works) ++ added)
    (added_named : ∀ entry ∈ added, entry.Named)
    (rowIndex : ∀ generation, manifest.rowindexGeneration = some generation →
      generation.Named manifest.sequence) : manifest.Named := by
  refine ⟨fun entry member => ?_, rowIndex⟩
  rw [rowGroups] at member
  rcases List.mem_append.mp member with old | new
  · obtain ⟨entry, listed, rfl⟩ := List.mem_map.mp old
    exact named_applyWork (named.rowGroups entry listed) planned
  · exact added_named entry new

theorem named_fragments {added : List (MergeFragment R)}
    (named : ∀ fragment ∈ added, ∃ uuid, fragment.rgId = "rg_" ++ uuid) :
    ∀ entry ∈ added.map MergeFragment.entry, entry.Named := by
  intro entry member
  obtain ⟨fragment, listed, rfl⟩ := List.mem_map.mp member
  obtain ⟨uuid, rgId_eq⟩ := named fragment listed
  refine ⟨?_, ?_, nofun⟩
  · simp [MergeFragment.entry, rgId_eq]
  · simp [MergeFragment.entry, rgId_eq]

theorem named_mono {generation : RowIndexRef} {sequence later : Nat}
    (named : generation.Named sequence) (le : sequence ≤ later) : generation.Named later where
  base := named.base
  deltas path member := by
    obtain ⟨commit, bound, path_eq⟩ := named.deltas path member
    exact ⟨commit, bound.trans le, path_eq⟩

theorem named_pushDelta (named : current.Named) (later : current.sequence ≤ latestSeq) :
    (pushDelta current.rowindexGeneration (rowIndexDeltaPath (latestSeq + 1))).Named
      (latestSeq + 1) := by
  cases found : current.rowindexGeneration with
  | none =>
      refine ⟨nofun, fun path member => ?_⟩
      obtain rfl := List.mem_singleton.mp member
      exact ⟨latestSeq + 1, le_refl _, rfl⟩
  | some generation =>
      have old := named_mono (named.rowIndex generation found) (Nat.le_succ_of_le later)
      refine ⟨old.base, fun path member => ?_⟩
      rcases List.mem_append.mp member with earlier | new
      · exact old.deltas path earlier
      · obtain rfl := List.mem_singleton.mp new
        exact ⟨latestSeq + 1, le_refl _, rfl⟩

/-! ## Mutations -/

/-- What a mutation does after it has loaded the current manifest leaves it the current one. -/
theorem settled_of_frame {α : Type} {rest : Nat × Manifest → TableProgram R α} {value : α}
    (holds : HoldsSnapshot before latestSeq current snapshot)
    (frame : (rest (latestSeq, current)).Emits
      (StorageEffect.Within (Touches choices (latestSeq + 1) current)))
    (run : (beginMutation >>= rest).Ends before value staged) :
    Settled staged latestSeq current ∧
      ∃ begun, (rest (latestSeq, current)).Ends begun value staged := by
  obtain ⟨⟨sequence, loaded⟩, begun, start, run⟩ := Script.ends_bind.mp run
  obtain ⟨middle, load, rfl, -⟩ := ends_beginMutation.mp start
  obtain ⟨same, rfl⟩ := holds.settled.ends.deterministic load
  obtain ⟨rfl, rfl⟩ := Prod.mk.inj same
  exact ⟨(holds.settled.final.cleaned _).of_sameOutside (sameOutside_of_emits frame run), _, run⟩

/-- An update or a merge, committed either way. -/
theorem of_commitPrepared {prepare : TableProgram R (PreparedMutation R)}
    (holds : HoldsSnapshot before latestSeq current snapshot)
    (committed : writer.walMode = true → 0 < latestSeq)
    (frame : ∃ rest, prepare = beginMutation >>= rest ∧ ∀ latestSeq current,
      (rest (latestSeq, current)).Emits
          (StorageEffect.Within (Touches choices (latestSeq + 1) current)) ∧
        ∀ before prepared after, (rest (latestSeq, current)).Ends before prepared after →
          prepared.current = current ∧ prepared.manifest.DraftOf (latestSeq + 1))
    (mutated : ∀ prepared staged, prepare.Ends before prepared staged →
      prepared.manifest.sequence = latestSeq + 1 →
      Represents staged prepared.manifest next ∧ prepared.manifest.Named ∧
        ∃ added, MutatedFrom (R := R) prepared.current prepared.manifest added ∧
          ∀ fragmentId ∈ added.map RowGroupEntry.fragmentId,
            prepared.current.nextFragmentId ≤ fragmentId)
    (wellFormed : next.WellFormed)
    (run : (prepare >>= writer.commitPrepared choices).Ends before () after) :
    ∃ published, HoldsSnapshot after (latestSeq + 1) published next := by
  obtain ⟨prepared, staged, prepare_run, commit_run⟩ := Script.ends_bind.mp run
  obtain ⟨rest, rfl, frames⟩ := frame
  obtain ⟨touches, drafts⟩ := frames latestSeq current
  obtain ⟨settled, begun, rest_run⟩ := holds.settled_of_frame touches prepare_run
  obtain ⟨rfl, draft⟩ := drafts _ _ _ rest_run
  obtain ⟨represents, named, added, from_current, above⟩ :=
    mutated prepared staged prepare_run draft.sequence
  unfold commitPrepared at commit_run
  rw [Script.ends_ite] at commit_run
  rcases commit_run with ⟨deferred, run⟩ | ⟨swapped, run⟩
  · obtain ⟨_, _, append, run⟩ := Script.ends_bind.mp run
    obtain rfl := Script.ends_emit.mp append
    obtain ⟨_, _, dropped, run⟩ := Script.ends_bind.mp run
    obtain rfl := Script.ends_emit.mp dropped
    have applied := (from_current.sameTable_iff holds.distinct (.refl prepared.manifest)
      prepared.artifacts).mpr fun entry member =>
        holds.unallocated (above _ (List.mem_map_of_mem member))
    exact of_deferred settled (committed deferred) draft.sequence represents named draft.sequence
      applied wellFormed run rfl rfl rfl rfl
  · exact of_swapped settled represents named draft.sequence wellFormed run

/-- The rows of a change were located in the snapshot, each once. -/
def Located (snapshot : Snapshot R) : Change R → Prop
  | .deletes _ => True
  | .update rows => snapshot.Moves (rows.map Prod.fst)
  | .merge matched _ => snapshot.Moves (matched.map Prod.fst)

theorem moves_sortLocated {rows : List (Address × R)} (moves : snapshot.Moves (rows.map Prod.fst)) :
    snapshot.Moves ((sortLocated rows).map Prod.fst) := by
  have sorted : ((sortLocated rows).map Prod.fst).Perm (rows.map Prod.fst) :=
    (List.perm_insertionSort _ rows).map _
  exact ⟨fun address member => moves.live address (sorted.subset member),
    sorted.nodup_iff.mpr moves.distinct⟩

theorem wellFormed_apply (wellFormed : snapshot.WellFormed) {change : Change R}
    (located : Located snapshot change) : (change.apply snapshot).WellFormed := by
  cases change with
  | deletes locs => exact wellFormed.delete _
  | update rows => exact wellFormed.mutate (moves_sortLocated located) _ _
  | merge matched inserts => exact wellFormed.mutate (moves_sortLocated located) _ _

/-- An update of located rows. -/
theorem update {rows : List (Address × R)} {batch : RowBatch R} {setColumns : List String}
    (holds : HoldsSnapshot before latestSeq current snapshot)
    (committed : writer.walMode = true → 0 < latestSeq)
    (located : snapshot.Moves (rows.map Prod.fst)) (batch_eq : batch.rows = rows.map Prod.snd)
    (run : (writer.commitUpdate choices batch ((rows.map Prod.fst).map matchLoc) setColumns).Ends
      before () after) :
    ∃ published, HoldsSnapshot after (latestSeq + 1) published
      ((Change.update rows).apply snapshot) := by
  simp only [commitUpdate, Script.ends_bind, Script.ends_ensure] at run
  obtain ⟨_, _, ⟨nonempty, rfl⟩, _, _, ⟨-, rfl⟩, _, _, ⟨-, rfl⟩, run⟩ := run
  have rows_ne : rows ≠ [] := by
    rintro rfl
    simp [batch_eq] at nonempty
  rw [batch_eq] at run
  apply holds.of_commitPrepared committed (prepareUpdate_frame writer choices _ _) _ _
    (Script.ends_bind.mpr run)
  · intro prepared staged prepare_run numbered
    refine ⟨represents_prepareUpdate holds.settled.ends holds.represents holds.named
      holds.settled.sequence_eq.le holds.wellFormed rows_ne prepare_run, ?_, ?_⟩
    · rw [sortByRowId_located] at prepare_run
      obtain ⟨_, _, load, staging, -, sidecar, -, works, mutates, rowGroups, -, -, rowIndex⟩ :=
        mutates_prepareUpdate prepare_run
      obtain ⟨same, rfl⟩ := holds.settled.ends.deterministic load
      obtain ⟨rfl, rfl⟩ := Prod.mk.inj same
      have mutates := mutates holds.settled.sequence_eq.le
      apply named_of_works holds.named mutates.plans.origin rowGroups
      · exact named_fragments mutates.named
      · intro generation found
        obtain rfl := Option.some.inj (rowIndex.symm.trans found)
        rw [numbered]
        exact named_pushDelta holds.named holds.settled.sequence_eq.le
    · obtain ⟨-, added, mutated, added_ids⟩ := mutatedFrom_prepareUpdate prepare_run
      refine ⟨added, mutated, fun fragmentId member => ?_⟩
      rw [added_ids] at member
      exact (List.mem_singleton.mp member).ge
  · exact wellFormed_apply holds.wellFormed located

/-- A merge of located rows and new ones. -/
theorem merge {matched : List (Address × R)} {inserts : RowBatch R}
    (holds : HoldsSnapshot before latestSeq current snapshot)
    (committed : writer.walMode = true → 0 < latestSeq)
    (located : snapshot.Moves (matched.map Prod.fst))
    (run : (writer.commitMerge choices (matched.map Prod.snd) ((matched.map Prod.fst).map matchLoc)
      inserts).Ends before () after) :
    ∃ published, HoldsSnapshot after (latestSeq + 1) published
      ((Change.merge matched inserts.rows).apply snapshot) := by
  simp only [commitMerge, Script.ends_bind, Script.ends_ensure] at run
  obtain ⟨_, _, ⟨-, rfl⟩, _, _, ⟨-, rfl⟩, run⟩ := run
  apply holds.of_commitPrepared committed (prepareMerge_frame writer choices _ _) _ _
    (Script.ends_bind.mpr run)
  · intro prepared staged prepare_run numbered
    refine ⟨represents_prepareMerge holds.settled.ends holds.represents holds.named
      holds.settled.sequence_eq.le holds.wellFormed prepare_run, ?_, ?_⟩
    · rw [sortByRowId_located] at prepare_run
      obtain ⟨_, _, load, added, works, fragments, -, mutates, rowGroups, -, -, rowIndex⟩ :=
        mutates_prepareMerge prepare_run
      obtain ⟨same, rfl⟩ := holds.settled.ends.deterministic load
      obtain ⟨rfl, rfl⟩ := Prod.mk.inj same
      have earlier := holds.settled.sequence_eq.le
      apply named_of_works holds.named (mutates earlier).plans.origin rowGroups
      · exact named_fragments fragments.named
      · intro generation found
        rw [numbered]
        rw [rowIndex] at found
        split at found
        · rw [mergeGeneration_none] at found
          exact named_mono (holds.named.rowIndex generation found) (Nat.le_succ_of_le earlier)
        · rw [mergeGeneration_some] at found
          obtain rfl := Option.some.inj found
          exact named_pushDelta holds.named earlier
    · obtain ⟨-, added, mutated, added_ids⟩ := mutatedFrom_prepareMerge prepare_run
      refine ⟨added, mutated, fun fragmentId member => ?_⟩
      rw [added_ids] at member
      exact (List.mem_range'_1.mp member).1
  · exact wellFormed_apply holds.wellFormed located

/-- A delete of located rows. -/
theorem deletes {locs : List Address} (holds : HoldsSnapshot before latestSeq current snapshot)
    (committed : writer.walMode = true → 0 < latestSeq)
    (run : (writer.commitDeletes choices (offsetsByFragment (locs.map matchLoc))).Ends before ()
      after) :
    ∃ published, HoldsSnapshot after (latestSeq + 1) published
      ((Change.deletes locs).apply snapshot) := by
  obtain ⟨prepared, staged, prepare_run, commit_run⟩ := Script.ends_bind.mp run
  obtain ⟨works, mutates, rowGroups, -, -, rowIndex⟩ :=
    mutates_prepareDelete holds.settled.ends holds.named holds.distinct prepare_run
  have represents := represents_prepareDelete holds.settled.ends holds.represents holds.named
    holds.wellFormed prepare_run
  have wellFormed : ((Change.deletes locs).apply snapshot).WellFormed :=
    wellFormed_apply holds.wellFormed trivial
  obtain ⟨rest, prepare_eq, frames⟩ :=
    prepareDelete_frame writer (offsetsByFragment (locs.map matchLoc)) choices
  obtain ⟨touches, drafts⟩ := frames latestSeq current
  have framed := prepare_run
  rw [prepare_eq] at framed
  obtain ⟨settled, begun, rest_run⟩ := holds.settled_of_frame touches framed
  obtain ⟨latest_eq, rfl, draft⟩ := drafts _ _ _ rest_run
  have named : prepared.manifest.Named := by
    have unextended : prepared.manifest.rowGroups =
        prepared.current.rowGroups.map (applyWork works) ++ [] := by
      rw [rowGroups, List.append_nil]
    apply named_of_works holds.named mutates.plans.origin unextended
    · exact nofun
    · rw [rowIndex, draft.sequence]
      exact fun generation found => named_mono (holds.named.rowIndex generation found)
        (Nat.le_succ_of_le holds.settled.sequence_eq.le)
  rw [Script.ends_ite] at commit_run
  rcases commit_run with ⟨deferred, run⟩ | ⟨swapped, run⟩
  · obtain ⟨_, _, append, run⟩ := Script.ends_bind.mp run
    obtain rfl := Script.ends_emit.mp append
    have applied := sameTable_deleteRecord prepare_run holds.distinct (.refl prepared.manifest)
    have numbered : (deleteRecord (R := R) (offsetsByFragment (locs.map matchLoc)) prepared).sequence =
        latestSeq + 1 := by
      rw [← latest_eq]
      rfl
    exact of_deferred settled (committed deferred) numbered represents named draft.sequence applied
      wellFormed run rfl rfl rfl rfl
  · obtain ⟨_, _, intent, run⟩ := Script.ends_bind.mp run
    obtain rfl := Script.ends_emit.mp intent
    have intended : Settled (Effect.perform (StorageEffect.writeIntent choices.txnId
        (prepared.works.map DelWork.path ++ prepared.tombstonePaths)) staged) latestSeq
        prepared.current :=
      settled.congr rfl rfl (fun _ _ => rfl) fun zero => settled.unpublished zero
    exact of_swapped intended (represents.congr fun _ _ _ found => found) named draft.sequence
      wellFormed run

/-! ## Appends -/

theorem exists_of_forall₂ {α β : Type} {related : α → β → Prop} {firsts : List α} {seconds : List β}
    (pairs : List.Forall₂ related firsts seconds) {first : α} (member : first ∈ firsts) :
    ∃ second, related first second := by
  induction pairs with
  | nil => cases member
  | cons first _ ih =>
      rcases List.mem_cons.mp member with rfl | later
      · exact ⟨_, first⟩
      · exact ih later

/-- Once the log is replayed, the files of the row groups are there. -/
theorem keeps (holds : HoldsSnapshot before latestSeq current snapshot) :
    (loadCurrent.final before).Keeps (IsRowGroupFile current) := by
  constructor
  · rintro path ⟨entry, member, file⟩
    obtain ⟨fragment, stores⟩ := exists_of_forall₂ holds.represents.fragments member
    obtain ⟨sidecar, found, -⟩ := stores.sidecar
    rcases file with rfl | rfl | named
    · rw [Storage.fileExists, stores.data]
      rfl
    · rw [Storage.fileExists, found]
      rfl
    · rcases deletionsOf_eq_some.mp stores.deletions with ⟨absent, -⟩ | ⟨other, same, vector⟩
      · rw [absent] at named
        cases named
      · obtain rfl := Option.some.inj (named.symm.trans same)
        rw [Storage.fileExists, vector]
        rfl
  · rintro path ⟨entry, member, file⟩
    have entry_named := holds.named.rowGroups entry member
    rcases file with rfl | rfl | deletes
    · rw [entry_named.data]
      trivial
    · rw [entry_named.sidecar]
      trivial
    · obtain ⟨version, rfl⟩ := entry_named.deletes path deletes
      rw [kindOf_deletionPath]
      trivial

theorem stores_of_promoted {group : Writer.PlannedRowGroup R} {files : RowGroupFiles} {rowId : Nat}
    (promoted : writer.Promoted choices group before after files)
    (rowIds : group.rowIds = .range rowId group.rows.length) :
    Stores after (newEntry group.fragmentId files)
        { id := group.fragmentId, rows := numberRows rowId group.rows, deleted := ∅ } ∧
      (newEntry group.fragmentId files).Named := by
  obtain ⟨attempt, data_eq, sidecar_eq, -, data, sidecar, computed, found⟩ := promoted.attempt
  obtain ⟨⟨columns, columnOffsets⟩, -, made⟩ := Script.except_bind_eq_ok.mp computed
  obtain rfl := Except.ok.inj made
  refine ⟨⟨rfl, ?_, ⟨_, found, ?_, ?_⟩, rfl⟩, ?_, ?_, nofun⟩
  · rw [numberRows_rows]
    exact data
  · simp [rowIds, expand, segmentIds]
  · exact (length_numberRows rowId group.rows).symm
  · simp [newEntry, data_eq, Choices.rgId]
  · simp [newEntry, sidecar_eq, Choices.rgId]

/-- The new row groups hold the new fragments. -/
theorem stores_allocate {start nextRowId nextFragmentId : Nat} {groups : List (List R)}
    {files : List RowGroupFiles}
    (promoted : List.Forall₂ (fun group => writer.Promoted choices group before after)
      (allocate start nextRowId nextFragmentId groups) files) :
    List.Forall₂ (fun entry fragment => Stores after entry fragment ∧ entry.Named)
      (List.zipWith (fun group => newEntry group.fragmentId)
        (allocate start nextRowId nextFragmentId groups) files)
      (newFragments nextFragmentId (numberGroups nextRowId groups)) := by
  induction groups generalizing start nextRowId nextFragmentId files with
  | nil => exact .nil
  | cons rows groups ih =>
      cases promoted with
      | cons first rest => exact .cons (stores_of_promoted first rfl) (ih rest)

/-- A complete commit of batches appends its row groups to the fragments, or to none when it replaces
them. -/
theorem of_tryCommit {buffer : List (List R)} {replace : Bool} {published : Manifest}
    {committed : TableStorage R} (holds : HoldsSnapshot before latestSeq current snapshot)
    (run : (writer.tryCommit choices buffer replace).Ends (loadCurrent.final before) published
      committed)
    (dropped : (Script.emit (.deleteIntent choices.txnId) : TableProgram R Unit).Ends committed ()
      after) :
    ∃ groups, writer.planRowGroups choices buffer = .ok groups ∧
      HoldsSnapshot after (latestSeq + 1) published
        ((if replace then { snapshot with fragments := [] } else snapshot : Snapshot R).append
          groups) := by
  obtain rfl := Script.ends_emit.mp dropped
  have loads := holds.settled.loads
  have only : (writer.tryCommit choices buffer replace).OnlyUntil
      (StorageEffect.Drafts (IsRowGroupFile current) (latestSeq + 1)) movesPointer
        (loadCurrent.final before) :=
    onlyUntil_tryCommit loads holds.keeps buffer replace
  obtain ⟨sequence, manifest, begun, groups, files, begin_run, commits⟩ :=
    commits_of_ends_tryCommit run
  obtain ⟨loaded, load_run, rfl⟩ := ends_beginAppend begin_run
  obtain ⟨rfl, rfl, rfl⟩ := loads.eq_of_ends load_run
  have older : ∀ record ∈ MutationWal.readRecords committed, record.sequence ≤ published.sequence := by
    intro record member
    rw [MutationWal.readRecords, commits.log.trans holds.settled.log_final] at member
    have := holds.settled.records_le record member
    rw [commits.sequence]
    omega
  have found : committed.manifests.lookup published.sequence = some published := by
    rw [commits.manifests, commits.sequence]
    exact AList.lookup_insert _
  have settled : Settled committed (latestSeq + 1) published := by
    apply Settled.published _ _ found (verifyChecksum_of_ends_tryCommit run)
      (MutationWal.replay_eq_base older) commits.sequence
    · rw [commits.sequence]
      exact commits.pointer
    · rw [commits.sequence]
      exact Nat.succ_pos _
  have added := stores_allocate commits.promoted
  rw [holds.represents.nextRowId, holds.represents.nextFragmentId] at added
  have rowGroups := commits.rowGroups
  rw [plannedOn, holds.represents.nextRowId, holds.represents.nextFragmentId] at rowGroups
  -- an append gives the row index up, so only the files of the row groups have to be there
  have kept : Represents committed { current with rowindexGeneration := none }
      { snapshot with rowIndex := none } := by
    have unindexed : Represents (loadCurrent.final before) { current with rowindexGeneration := none }
        { snapshot with rowIndex := none } :=
      ⟨holds.represents.fragments, holds.represents.nextFragmentId, holds.represents.nextRowId, .none⟩
    apply unindexed.congr
    intro path contents file there
    have row_file : IsRowGroupFile current path := by
      cases file with
      | data member => exact ⟨_, member, .inl rfl⟩
      | sidecar member => exact ⟨_, member, .inr (.inl rfl)⟩
      | deletions member named => exact ⟨_, member, .inr (.inr named)⟩
      | rowIndexBase indexed => cases indexed
      | rowIndexDelta indexed => cases indexed
    rw [← run.2, lookup_files_of_drafts only.performsOnly row_file]
    exact there
  have wellFormed : ((if replace then { snapshot with fragments := [] } else snapshot :
      Snapshot R).append groups).WellFormed := by
    cases replace with
    | false => exact holds.wellFormed.append groups
    | true => exact .replace snapshot groups
  have counters : (if replace then { snapshot with fragments := [] } else snapshot :
      Snapshot R).nextRowId = snapshot.nextRowId ∧
        (if replace then { snapshot with fragments := [] } else snapshot :
          Snapshot R).nextFragmentId = snapshot.nextFragmentId := by
    cases replace <;> exact ⟨rfl, rfl⟩
  have represents : Represents committed published
      ((if replace then { snapshot with fragments := [] } else snapshot : Snapshot R).append
        groups) := by
    constructor
    · rw [rowGroups, Snapshot.append, Snapshot.extend, counters.1, counters.2]
      refine List.rel_append ?_ (added.imp fun _ _ => And.left)
      cases replace with
      | false => exact kept.fragments
      | true => exact .nil
    · rw [commits.nextFragmentId, holds.represents.nextFragmentId, Snapshot.append, Snapshot.extend,
        counters.2, length_numberGroups]
    · rw [commits.nextRowId, holds.represents.nextRowId, Snapshot.append, Snapshot.extend, counters.1]
    · rw [commits.rowindexGeneration]
      exact .none
  have named : published.Named := by
    constructor
    · intro entry member
      rw [rowGroups] at member
      rcases List.mem_append.mp member with old | new
      · cases replace with
        | false => exact holds.named.rowGroups entry old
        | true => cases old
      · obtain ⟨_, -, entry_named⟩ := exists_of_forall₂ added new
        exact entry_named
    · rw [commits.rowindexGeneration]
      rintro _ ⟨⟩
  have dropped : Settled (Effect.perform (.deleteIntent choices.txnId :
      StorageEffect (File R) (File R)) committed) (latestSeq + 1) published :=
    settled.congr rfl rfl (fun _ _ => rfl) (by rintro ⟨⟩)
  exact ⟨groups, commits.planned, of_settled dropped represents named commits.sequence
    (.refl published) (fun _ _ _ found => found) wellFormed⟩

/-- An append of batches. -/
theorem append {buffer : List (List R)} (holds : HoldsSnapshot before latestSeq current snapshot)
    (buffered : buffer ≠ []) (run : (writer.commit choices buffer).Ends before () after) :
    ∃ groups published, writer.planRowGroups choices buffer = .ok groups ∧
      HoldsSnapshot after (latestSeq + 1) published (snapshot.append groups) := by
  obtain ⟨_, loaded, load_run, run⟩ := Script.ends_bind.mp run
  obtain ⟨-, rfl⟩ := holds.settled.ends.deterministic load_run
  rw [if_neg (by simpa using buffered)] at run
  obtain ⟨published, committed, try_run, dropped⟩ := Script.ends_bind.mp run
  obtain ⟨groups, planned, appended⟩ := holds.of_tryCommit (Script.ends_onError.mp try_run) dropped
  exact ⟨groups, published, planned, appended⟩

/-- A replacement of all rows. -/
theorem replace {buffer : List (List R)} (holds : HoldsSnapshot before latestSeq current snapshot)
    (run : (writer.replace choices buffer).Ends before () after) :
    ∃ groups published, writer.planRowGroups choices buffer = .ok groups ∧
      HoldsSnapshot after (latestSeq + 1) published (snapshot.replace groups) := by
  obtain ⟨_, loaded, load_run, run⟩ := Script.ends_bind.mp run
  obtain ⟨-, rfl⟩ := holds.settled.ends.deterministic load_run
  obtain ⟨published, committed, try_run, dropped⟩ := Script.ends_bind.mp run
  obtain ⟨groups, planned, replaced⟩ := holds.of_tryCommit (Script.ends_onError.mp try_run) dropped
  exact ⟨groups, published, planned, replaced⟩

end HoldsSnapshot

/-! ## Runs -/

/-- A call on a table, beside what it does to a snapshot.  Loading may crash, other calls are complete.
The rows of a mutation were located in the snapshot, each once, and a mutation is left in the log only
once a manifest has been published. -/
inductive SnapshotStep : TableStorage R × Snapshot R → TableStorage R × Snapshot R → Prop
  | load {before : TableStorage R} {snapshot : Snapshot R} (steps : Nat) :
      SnapshotStep (before, snapshot) (loadCurrent.crash before steps, snapshot)
  | append {before after : TableStorage R} {snapshot : Snapshot R} {writer : Writer R}
      {choices : Choices R} {buffer groups : List (List R)} (buffered : buffer ≠ [])
      (planned : writer.planRowGroups choices buffer = .ok groups)
      (run : (writer.commit choices buffer).Ends before () after) :
      SnapshotStep (before, snapshot) (after, snapshot.append groups)
  | replace {before after : TableStorage R} {snapshot : Snapshot R} {writer : Writer R}
      {choices : Choices R} {buffer groups : List (List R)}
      (planned : writer.planRowGroups choices buffer = .ok groups)
      (run : (writer.replace choices buffer).Ends before () after) :
      SnapshotStep (before, snapshot) (after, snapshot.replace groups)
  | deletes {before after : TableStorage R} {snapshot : Snapshot R} {writer : Writer R}
      {choices : Choices R} (locs : List Address)
      (committed : writer.walMode = true → before.pointer ≠ .latest 0)
      (run : (writer.commitDeletes choices (offsetsByFragment (locs.map matchLoc))).Ends before ()
        after) :
      SnapshotStep (before, snapshot) (after, (Change.deletes locs).apply snapshot)
  | update {before after : TableStorage R} {snapshot : Snapshot R} {writer : Writer R}
      {choices : Choices R} {rows : List (Address × R)} {batch : RowBatch R}
      {setColumns : List String} (committed : writer.walMode = true → before.pointer ≠ .latest 0)
      (located : snapshot.Moves (rows.map Prod.fst)) (batch_eq : batch.rows = rows.map Prod.snd)
      (run : (writer.commitUpdate choices batch ((rows.map Prod.fst).map matchLoc) setColumns).Ends
        before () after) :
      SnapshotStep (before, snapshot) (after, (Change.update rows).apply snapshot)
  | merge {before after : TableStorage R} {snapshot : Snapshot R} {writer : Writer R}
      {choices : Choices R} {matched : List (Address × R)} {inserts : RowBatch R}
      (committed : writer.walMode = true → before.pointer ≠ .latest 0)
      (located : snapshot.Moves (matched.map Prod.fst))
      (run : (writer.commitMerge choices (matched.map Prod.snd)
        ((matched.map Prod.fst).map matchLoc) inserts).Ends before () after) :
      SnapshotStep (before, snapshot) (after, (Change.merge matched inserts.rows).apply snapshot)

theorem HoldsSnapshot.committed (holds : HoldsSnapshot before latestSeq current snapshot)
    {wal : Prop} (published : wal → before.pointer ≠ .latest 0) : wal → 0 < latestSeq :=
  fun deferred => Nat.pos_of_ne_zero fun zero => published deferred (holds.settled.pointer zero)

/-- A call leaves the table with what it does to the snapshot. -/
theorem HoldsSnapshot.step (holds : HoldsSnapshot before latestSeq current snapshot)
    (step : SnapshotStep (before, snapshot) (after, next)) :
    ∃ latestSeq current, HoldsSnapshot after latestSeq current next := by
  cases step with
  | load steps =>
      refine ⟨latestSeq, current, (holds.settled.crash steps).1, ?_, holds.named, holds.wellFormed⟩
      rw [holds.settled.final_crash]
      exact holds.represents
  | append buffered planned run =>
      obtain ⟨groups, published, same, appended⟩ := holds.append buffered run
      obtain rfl := Except.ok.inj (planned.symm.trans same)
      exact ⟨_, published, appended⟩
  | replace planned run =>
      obtain ⟨groups, published, same, replaced⟩ := holds.replace run
      obtain rfl := Except.ok.inj (planned.symm.trans same)
      exact ⟨_, published, replaced⟩
  | deletes locs committed run => exact ⟨_, holds.deletes (holds.committed committed) run⟩
  | update committed located batch_eq run =>
      exact ⟨_, holds.update (holds.committed committed) located batch_eq run⟩
  | merge committed located run => exact ⟨_, holds.merge (holds.committed committed) located run⟩

theorem HoldsSnapshot.empty (pointer : storage.pointer = .latest 0) (log : storage.log = [])
    (unpublished : ∀ sequence, storage.manifests.lookup sequence = none) :
    HoldsSnapshot storage 0 emptyManifest .empty where
  settled := .fresh pointer log unpublished rfl rfl
  represents := ⟨.nil, rfl, rfl, .none⟩
  named := ⟨nofun, nofun⟩
  wellFormed := .empty

/-- Whatever complete calls are made on a new table, by writers of either kind, readers and writers load
one manifest, and it represents the well-formed snapshot that the calls make of the empty one. -/
theorem represents_of_run {start : TableStorage R} (pointer : start.pointer = .latest 0)
    (log : start.log = []) (unpublished : ∀ sequence, start.manifests.lookup sequence = none)
    (run : Relation.ReflTransGen SnapshotStep (start, .empty) (after, snapshot)) :
    ∃ latestSeq current loaded, loadCurrent.Ends after (latestSeq, current) loaded ∧
      (Catalog.refresh Except.ok).Ends after (if latestSeq = 0 then none else some current) loaded ∧
      Represents loaded current snapshot ∧ snapshot.WellFormed := by
  suffices held : ∀ reached, Relation.ReflTransGen SnapshotStep (start, .empty) reached →
      ∃ latestSeq current, HoldsSnapshot reached.1 latestSeq current reached.2 by
    obtain ⟨latestSeq, current, holds⟩ := held _ run
    exact ⟨latestSeq, current, _, holds.settled.ends,
      Reader.ends_refresh_of_settled holds.settled,
      holds.represents, holds.wellFormed⟩
  intro reached run
  induction run with
  | refl => exact ⟨0, emptyManifest, .empty pointer log unpublished⟩
  | tail _ step ih =>
      obtain ⟨latestSeq, current, holds⟩ := ih
      exact holds.step step

/-! ## Two calls -/

/-- A writer that leaves its mutations in the log. -/
def deferringWriter : Writer Int :=
  { Integers.writer with walMode := true }

/-- The table of integers after an append of two rows. -/
def twoAppended : TableStorage Int :=
  (deferringWriter.commit (Integers.choices 0) [[10, 20]]).final Integers.emptyTable

/-- And after a delete of the second one. -/
def oneDeleted : TableStorage Int :=
  (deferringWriter.commitDeletes (Integers.choices 1)
    (offsetsByFragment ([(1, 0, 1)].map matchLoc))).final twoAppended

private theorem oneDeleted_runs :
    ((deferringWriter.commit (Integers.choices 0) [[10, 20]]) Integers.emptyTable).2.isOk = true ∧
      twoAppended.pointer ≠ .latest 0 ∧
      ((deferringWriter.commitDeletes (Integers.choices 1)
        (offsetsByFragment ([(1, 0, 1)].map matchLoc))) twoAppended).2.isOk = true := by
  decide +kernel

theorem oneDeleted_represents : ∃ latestSeq current loaded,
    loadCurrent.Ends oneDeleted (latestSeq, current) loaded ∧
      (Catalog.refresh Except.ok).Ends oneDeleted (if latestSeq = 0 then none else some current)
        loaded ∧
      Represents loaded current
        ((Change.deletes [(1, 0, 1)]).apply (Snapshot.empty.append [[10, 20]])) ∧
      ((Change.deletes [(1, 0, 1)]).apply (Snapshot.empty.append [[(10 : Int), 20]])).WellFormed := by
  obtain ⟨appends, published, deletes⟩ := oneDeleted_runs
  obtain ⟨⟨⟩, appending⟩ := Script.exists_ends_of_isOk appends
  obtain ⟨⟨⟩, deleting⟩ := Script.exists_ends_of_isOk deletes
  have planned : deferringWriter.planRowGroups (Integers.choices 0) [[10, 20]] = .ok [[10, 20]] := rfl
  have run : Relation.ReflTransGen SnapshotStep (Integers.emptyTable, .empty)
      (oneDeleted, (Change.deletes [(1, 0, 1)]).apply (Snapshot.empty.append [[10, 20]])) :=
    .tail (.single (.append (List.cons_ne_nil _ _) planned appending))
      (.deletes [(1, 0, 1)] (fun _ => published) deleting)
  exact represents_of_run rfl rfl (fun _ => rfl) run

end IcefallDB
