import IcefallDB.Lib.Options
import IcefallDB.Writer.Failure
import IcefallDB.Writer.Represents

/-!
# Deletion vectors along a run of deletes

Each delete of a run replaces the deletion vectors of the row groups it is asked for by larger ones,
under names that no manifest has referred to before.  Row groups are told apart by their fragment
ids; a record of the mutation log reaches only the first row group with an id.
-/

namespace IcefallDB

theorem MutationWal.replay_append {β : Type} (base : Manifest)
    (first second : List (MutationRecord β)) :
    replay base (first ++ second) = replay (replay base first) second :=
  List.foldl_append

namespace Writer

variable {R : Type} {byFragment : HashMap Nat (List Nat)} {before after : TableStorage R}

/-! ## One delete -/

variable {entry : RowGroupEntry}

theorem DelWork.PlannedFor.requested {work : DelWork}
    (planned : work.PlannedFor before byFragment entry) :
    (requestedOffsets byFragment entry).isSome = true := by
  obtain ⟨offsets, old, requested, -⟩ := planned.deletions
  rw [requested]
  rfl

/-- Row groups with the same fragment id and deletion vector have the same next one. -/
theorem DelWork.PlannedFor.unique {other : RowGroupEntry} {left right : DelWork}
    (planned : left.PlannedFor before byFragment entry)
    (again : right.PlannedFor before byFragment other) (id_eq : entry.fragmentId = other.fragmentId)
    (deletes_eq : entry.deletes = other.deletes) : left = right := by
  obtain ⟨offsets, old, requested, loaded, deletions_eq⟩ := planned.deletions
  obtain ⟨offsets', old', requested', loaded', deletions_eq'⟩ := again.deletions
  obtain ⟨version, path_eq, versions⟩ := planned.path
  obtain ⟨version', path_eq', versions'⟩ := again.path
  have offsets_eq : offsets = offsets' := by
    rw [requestedOffsets, id_eq] at requested
    exact Option.some.inj (requested.symm.trans requested')
  have old_eq : old = old' := by
    rw [deletionsOf, deletes_eq] at loaded
    exact Option.some.inj (loaded.symm.trans loaded')
  have version_eq : version = version' := by
    rw [deletes_eq] at versions
    rcases versions with ⟨absent, rfl⟩ | ⟨path, previous, named, parsed, rfl⟩
    · rcases versions' with ⟨-, rfl⟩ | ⟨path, previous, named, -⟩
      · rfl
      · rw [absent] at named
        cases named
    · rcases versions' with ⟨absent, -⟩ | ⟨path', previous', named', parsed', rfl⟩
      · rw [absent] at named
        cases named
      · obtain rfl := Option.some.inj (named.symm.trans named')
        rw [Option.some.inj (parsed.symm.trans parsed')]
  obtain ⟨fragmentId, path, deletions⟩ := left
  obtain ⟨fragmentId', path', deletions'⟩ := right
  have ids := planned.fragmentId.trans (id_eq.trans again.fragmentId.symm)
  simp only at ids path_eq path_eq' deletions_eq deletions_eq'
  rw [DelWork.mk.injEq]
  refine ⟨ids, ?_, ?_⟩
  · rw [path_eq, path_eq', id_eq, version_eq]
  · rw [deletions_eq, deletions_eq', old_eq, offsets_eq]

/-- The deletion vector of a row group, if there is one, is a version of its fragment's. -/
def Versioned (entry : RowGroupEntry) : Prop :=
  ∀ path, entry.deletes = some path → ∃ version, path = deletionPath entry.fragmentId version

/-- What a delete makes of row groups, and the new versions it has written. -/
structure Marks (before after : TableStorage R) (byFragment : HashMap Nat (List Nat))
    (olds news : List RowGroupEntry) (works : List DelWork) : Prop where
  planned : ∀ work ∈ works, ∃ old ∈ olds, work.PlannedFor before byFragment old
  written : ∀ work ∈ works, after.files.lookup work.path = some (.deletions work.deletions)
  rowGroups : List.Forall₂
    (fun old new => (requestedOffsets byFragment old = none ∧ new = old) ∨
      ∃ work ∈ works, work.PlannedFor before byFragment old ∧ new = withDeletions old work)
    olds news
  others : ∀ path, (∀ work ∈ works, work.path ≠ path) →
    after.files.lookup path = before.files.lookup path

/-- A new version leaves the vectors of a row group alone that agrees with its own. -/
private theorem deletionsOf_write_of_agree {other : RowGroupEntry} {work : DelWork}
    (planned : work.PlannedFor before byFragment entry) (versioned : Versioned other)
    (agree : entry.fragmentId = other.fragmentId → entry.deletes = other.deletes) :
    deletionsOf (Effect.perform (.write work.path (.deletions work.deletions) :
      StorageEffect (File R) (File R)) before) other = deletionsOf before other := by
  unfold deletionsOf
  cases named : other.deletes with
  | none => rfl
  | some path =>
      have apart : path ≠ work.path := by
        rintro rfl
        obtain ⟨old, path_eq⟩ := versioned _ named
        obtain ⟨version, path_eq', -⟩ := planned.path
        have same_id := deletionPath_fragment_injective (path_eq'.symm.trans path_eq)
        exact planned.path_ne ((agree same_id).trans named)
      simp only [Effect.perform, Storage.perform, AList.lookup_insert_ne apart]

/-- Deleting rows writes a new version for each row group with offsets. -/
theorem marks_of_ends_deleteRows {entries rowGroups : List RowGroupEntry} {works : List DelWork}
    (versioned : ∀ entry ∈ entries, Versioned entry)
    (agree : entries.Pairwise fun left right => left.fragmentId = right.fragmentId →
      left.deletes = right.deletes)
    (run : (deleteRows byFragment entries).Ends before (rowGroups, works) after) :
    Marks before after byFragment entries rowGroups works := by
  induction entries generalizing before rowGroups works with
  | nil =>
      obtain ⟨ended, rfl⟩ := Script.ends_pure.mp run
      obtain ⟨rfl, rfl⟩ := Prod.mk.inj ended
      exact ⟨nofun, nofun, .nil, fun _ _ => rfl⟩
  | cons entry entries ih =>
      obtain ⟨agrees, agree⟩ := List.pairwise_cons.mp agree
      have versioned_rest : ∀ other ∈ entries, Versioned other :=
        fun other member => versioned other (List.mem_cons_of_mem entry member)
      rw [deleteRows] at run
      split at run
      · next unrequested =>
          obtain ⟨⟨rest, later⟩, _, first, run⟩ := Script.ends_bind.mp run
          obtain ⟨ended, rfl⟩ := Script.ends_pure.mp run
          obtain ⟨rfl, rfl⟩ := Prod.mk.inj ended
          have marks := ih versioned_rest agree first
          constructor
          · intro work member
            obtain ⟨old, old_member, planned⟩ := marks.planned work member
            exact ⟨old, List.mem_cons_of_mem entry old_member, planned⟩
          · exact marks.written
          · exact .cons (.inl ⟨unrequested, rfl⟩) marks.rowGroups
          · exact marks.others
      · next offsets requested =>
          obtain ⟨work, _, plan, run⟩ := Script.ends_bind.mp run
          obtain ⟨planned, rfl⟩ := plannedFor_of_ends requested plan
          obtain ⟨_, _, write, run⟩ := Script.ends_bind.mp run
          obtain rfl := Script.ends_emit.mp write
          obtain ⟨⟨rest, later⟩, _, others, run⟩ := Script.ends_bind.mp run
          obtain ⟨ended, rfl⟩ := Script.ends_pure.mp run
          obtain ⟨rfl, rfl⟩ := Prod.mk.inj ended
          have marks := ih versioned_rest agree others
          have unchanged : ∀ other ∈ entries, deletionsOf (Effect.perform
              (.write work.path (.deletions work.deletions) : StorageEffect (File R) (File R))
                before) other = deletionsOf before other := fun other member =>
            deletionsOf_write_of_agree planned (versioned_rest other member) (agrees other member)
          have planned_rest : ∀ next ∈ later, ∃ old ∈ entries,
              next.PlannedFor before byFragment old := by
            intro next member
            obtain ⟨old, old_member, next_planned⟩ := marks.planned next member
            exact ⟨old, old_member, next_planned.of_deletionsOf (unchanged old old_member)⟩
          constructor
          · intro next member
            rcases List.mem_cons.mp member with rfl | member
            · exact ⟨entry, List.mem_cons_self, planned⟩
            · obtain ⟨old, old_member, next_planned⟩ := planned_rest next member
              exact ⟨old, List.mem_cons_of_mem entry old_member, next_planned⟩
          · intro next member
            rcases List.mem_cons.mp member with rfl | member
            · -- a later version of the same name is the same version
              by_cases again : ∃ other ∈ later, other.path = next.path
              · obtain ⟨other, other_member, path_eq⟩ := again
                obtain ⟨old, old_member, other_planned⟩ := planned_rest other other_member
                obtain ⟨version, named, -⟩ := planned.path
                obtain ⟨version', named', -⟩ := other_planned.path
                have id_eq : entry.fragmentId = old.fragmentId :=
                  deletionPath_fragment_injective (named.symm.trans (path_eq.symm.trans named'))
                rw [planned.unique other_planned id_eq (agrees old old_member id_eq)]
                exact marks.written other other_member
              · rw [marks.others next.path fun other other_member path_eq =>
                  again ⟨other, other_member, path_eq⟩]
                exact AList.lookup_insert _
            · exact marks.written next member
          · apply List.Forall₂.cons
            · exact .inr ⟨work, List.mem_cons_self, planned, rfl⟩
            · refine (List.forall₂_and_left _ _ |>.mpr ⟨fun old member => member,
                marks.rowGroups⟩).imp ?_
              rintro old new ⟨old_member, kept | ⟨next, member, next_planned, rfl⟩⟩
              · exact .inl kept
              · exact .inr ⟨next, List.mem_cons_of_mem work member,
                  next_planned.of_deletionsOf (unchanged old old_member), rfl⟩
          · intro path different
            rw [marks.others path fun next member =>
              different next (List.mem_cons_of_mem work member)]
            exact AList.lookup_insert_ne (different work List.mem_cons_self).symm

/-- What a delete makes of a row group: without offsets it stays as it is, with offsets it has a new
version of its deletion vector. -/
inductive Marked (before after : TableStorage R) (byFragment : HashMap Nat (List Nat))
    (old : RowGroupEntry) : RowGroupEntry → Prop
  | kept (unrequested : requestedOffsets byFragment old = none)
      (same : ∀ deletions, deletionsOf before old = some deletions →
        deletionsOf after old = some deletions) : Marked before after byFragment old old
  | extended {work : DelWork} (planned : work.PlannedFor before byFragment old)
      (written : after.files.lookup work.path = some (.deletions work.deletions)) :
      Marked before after byFragment old (withDeletions old work)

/-- A directory keeps the deletion vectors of another one. -/
def KeepsVectors (before after : TableStorage R) : Prop :=
  ∀ path contents, kindOf path = .deletions → before.files.lookup path = some contents →
    after.files.lookup path = some contents

theorem KeepsVectors.trans {first second third : TableStorage R} (left : KeepsVectors first second)
    (right : KeepsVectors second third) : KeepsVectors first third :=
  fun path contents kind found => right path contents kind (left path contents kind found)

theorem KeepsVectors.of_sameOutside {allowed : String → Prop}
    (same : Storage.SameOutside allowed before after)
    (outside : ∀ path, kindOf path = .deletions → ¬allowed path) : KeepsVectors before after :=
  fun path _ kind found => (same.files path (outside path kind)).trans found

theorem KeepsVectors.deletionsOf {deletions : DeletionVector} (keeps : KeepsVectors before after)
    (versioned : Versioned entry) (found : deletionsOf before entry = some deletions) :
    IcefallDB.deletionsOf after entry = some deletions := by
  rw [deletionsOf_eq_some] at found ⊢
  rcases found with absent | ⟨path, named, found⟩
  · exact .inl absent
  · obtain ⟨version, rfl⟩ := versioned path named
    exact .inr ⟨_, named, keeps _ _ (kindOf_deletionPath _ _) found⟩

theorem Marked.mono {later : TableStorage R} {old new : RowGroupEntry}
    (marked : Marked before after byFragment old new) (versioned : Versioned old)
    (keeps : KeepsVectors after later) : Marked before later byFragment old new := by
  cases marked with
  | kept unrequested same =>
      refine .kept unrequested fun deletions found => ?_
      exact keeps.deletionsOf versioned (same deletions found)
  | extended planned written =>
      obtain ⟨version, path_eq, -⟩ := planned.path
      exact .extended planned (keeps _ _ (path_eq ▸ kindOf_deletionPath _ _) written)

/-- Cleanup keeps the deletion vectors that the current manifest refers to. -/
private theorem deletionsOf_cleaned {storage : TableStorage R} {current : Manifest}
    (member : entry ∈ current.rowGroups) (versioned : Versioned entry) (latestSeq : Nat) :
    deletionsOf (cleaned latestSeq (manifestReferencedFiles current) storage) entry =
      deletionsOf storage entry := by
  unfold deletionsOf
  cases named : entry.deletes with
  | none => rfl
  | some path =>
      obtain ⟨version, rfl⟩ := versioned path named
      simp only
      rw [lookup_cleaned]
      rintro (part | ⟨unreferenced, -⟩)
      · have kind := kindOf_of_isStagedPart part
        rw [kindOf_deletionPath] at kind
        cases kind
      · exact unreferenced (mem_manifestReferencedFiles.mpr (.deletions member named))

/-- Cleanup leaves a settled table settled. -/
theorem Settled.cleaned {latestSeq : Nat} {current : Manifest}
    (settled : Settled before latestSeq current) (referenced : List String) :
    Settled (IcefallDB.cleaned latestSeq referenced before) latestSeq current := by
  have pointer : (IcefallDB.cleaned latestSeq referenced before).pointer = before.pointer := rfl
  apply settled.congr pointer rfl
  · intro sequence below
    simp only [IcefallDB.cleaned, lookup_eraseAll, List.mem_filter, decide_eq_true_eq]
    rw [if_neg (by omega)]
  · intro zero sequence
    simp only [IcefallDB.cleaned, lookup_eraseAll, settled.unpublished zero sequence, ite_self]

theorem Settled.of_sameOutside {latestSeq : Nat} {current : Manifest} {allowed : String → Prop}
    (settled : Settled before latestSeq current)
    (same : Storage.SameOutside allowed before after) : Settled after latestSeq current := by
  apply settled.congr same.pointer same.log
  · intro sequence _
    rw [same.manifests]
  · intro zero sequence
    rw [same.manifests]
    exact settled.unpublished zero sequence

/-- What a delete has prepared by the time it commits. -/
theorem marked_of_ends_prepareDelete {writer : Writer R} (choices : Choices R)
    {prepared : PreparedDelete} {latestSeq : Nat} {current : Manifest}
    (settled : Settled before latestSeq current)
    (versioned : ∀ entry ∈ current.rowGroups, Versioned entry)
    (agree : current.rowGroups.Pairwise fun left right => left.fragmentId = right.fragmentId →
      left.deletes = right.deletes)
    (run : (writer.prepareDelete byFragment).Ends before prepared after) :
    (prepared.latestSeq = latestSeq ∧ prepared.current = current ∧
        prepared.manifest.sequence = latestSeq + 1) ∧
      Settled after latestSeq current ∧
      List.Forall₂ (Marked (loadCurrent.final before) after byFragment) current.rowGroups
        prepared.manifest.rowGroups := by
  simp only [prepareDelete, Script.ends_bind, Prod.exists, ends_beginMutation, Script.ends_ensure,
    Script.ends_pure] at run
  obtain ⟨_, _, _, ⟨loaded, load, rfl, -⟩, rowGroups, works, written, deleted, _, _, _, reading,
    _, _, ⟨-, rfl⟩, _, _, _, tombstones, rfl, rfl⟩ := run
  obtain ⟨loads, rfl⟩ := settled.ends.deterministic load
  obtain ⟨rfl, rfl⟩ := Prod.mk.inj loads
  obtain rfl := Script.Emits.silent (emits_deletedRowIds _ _) reading
  have marks := marks_of_ends_deleteRows versioned agree deleted
  have marking : (deleteRows byFragment current.rowGroups : TableProgram R _).Emits
      (StorageEffect.Within (Touches choices (latestSeq + 1) current)) :=
    emits_deleteRows byFragment fun _ member => member
  have indexed := sameOutside_of_emits (within_appendTombstones _ _ _ _ _) tombstones
  have keeps : KeepsVectors _ _ := .of_sameOutside indexed fun path kind is_index => by
    rw [kind] at is_index
    cases is_index
  refine ⟨⟨rfl, rfl, rfl⟩, ?_, ?_⟩
  · have marked := (settled.final.cleaned _).of_sameOutside (sameOutside_of_emits marking deleted)
    exact marked.of_sameOutside indexed
  · refine (List.forall₂_and_left _ _ |>.mpr ⟨fun old member => member, marks.rowGroups⟩).imp ?_
    rintro old new ⟨member, marked⟩
    have versioned_old := versioned old member
    have cleaned_eq : deletionsOf (IcefallDB.cleaned latestSeq (manifestReferencedFiles current)
        (loadCurrent.final before)) old = deletionsOf (loadCurrent.final before) old :=
      deletionsOf_cleaned member versioned_old latestSeq
    refine Marked.mono ?_ versioned_old keeps
    rcases marked with ⟨unrequested, rfl⟩ | ⟨work, work_member, planned, rfl⟩
    · refine .kept unrequested fun deletions found => ?_
      rw [← cleaned_eq, deletionsOf_eq_some] at found
      rw [deletionsOf_eq_some]
      rcases found with absent | ⟨path, named, found⟩
      · exact .inl absent
      · refine .inr ⟨path, named, ?_⟩
        rw [marks.others path, found]
        -- the new versions are of other fragments, which have offsets
        rintro work work_member rfl
        obtain ⟨other, -, planned⟩ := marks.planned work work_member
        obtain ⟨version, path_eq, -⟩ := planned.path
        obtain ⟨version', path_eq'⟩ := versioned_old _ named
        have id_eq := deletionPath_fragment_injective (path_eq.symm.trans path_eq')
        have requested := planned.requested
        rw [requestedOffsets, id_eq] at requested
        rw [requestedOffsets] at unrequested
        rw [unrequested] at requested
        cases requested
    · exact .extended (planned.of_deletionsOf cleaned_eq) (marks.written work work_member)

/-! ## Committing it -/

variable {writer : Writer R} {choices : Choices R} {latestSeq : Nat} {current : Manifest}

/-- Files are still there as they were. -/
def KeepsFiles (before after : TableStorage R) : Prop :=
  ∀ path contents, (kindOf path).IsContent → before.files.lookup path = some contents →
    after.files.lookup path = some contents

theorem KeepsFiles.vectors (keeps : KeepsFiles before after) : KeepsVectors before after :=
  fun path contents kind => keeps path contents (by rw [kind]; trivial)

/-- Publishing a manifest makes it the current one. -/
theorem settled_of_ends_commitSwap {manifest : Manifest} {files : List String}
    (settled : Settled before latestSeq current) (numbered : manifest.sequence = latestSeq + 1)
    (run : (writer.commitSwap choices current manifest files).Ends before () after) :
    ∃ published, manifest.SameTable published ∧
      Settled after (latestSeq + 1) published ∧ KeepsFiles before after := by
  obtain ⟨built, checkpointed, checkpoint_run, run⟩ := Script.ends_bind.mp run
  obtain ⟨⟨checkpoint, rfl⟩, same⟩ := ends_checkpointManifest checkpoint_run
  obtain ⟨final, _, write_run, run⟩ := Script.ends_bind.mp run
  obtain ⟨⟨parent, final_eq⟩, rfl⟩ := ends_writeManifest write_run
  obtain ⟨_, _, move, run⟩ := Script.ends_bind.mp run
  obtain rfl := Script.ends_emit.mp move
  obtain rfl := Script.ends_emit.mp run
  have sequence_eq : final.sequence = manifest.sequence := by rw [final_eq]; rfl
  refine ⟨final, by rw [final_eq]; exact ⟨rfl, rfl, rfl, rfl, rfl, rfl, rfl⟩, ?_, ?_⟩
  · apply Settled.published
    · rw [sequence_eq]
      rfl
    · omega
    · rw [sequence_eq]
      exact AList.lookup_insert _
    · rw [final_eq]
      exact Manifest.verifyChecksum_finalize _ _ _
    · apply MutationWal.replay_eq_base
      intro record member
      have inside : record ∈ MutationWal.readRecords before := by
        rw [MutationWal.readRecords, List.mem_insertionSort] at member ⊢
        rw [← same.log]
        exact member
      have below := settled.records_le record inside
      omega
    · rw [sequence_eq, numbered]
  · intro path contents content found
    have outside : ¬IsSupport path := by
      rintro (support | support | support) <;> rw [support] at content <;> exact content
    exact (same.files path outside).trans found

/-- A record above all others is the last one that is replayed. -/
theorem readRecords_append {storage : TableStorage R} {record : MutationRecord (File R)}
    (newest : ∀ other ∈ storage.log, other.sequence ≤ record.sequence) :
    MutationWal.readRecords { storage with log := storage.log ++ [record] } =
      MutationWal.readRecords storage ++ [record] := by
  simp only [MutationWal.readRecords]
  generalize storage.log = log at newest ⊢
  induction log with
  | nil => rfl
  | cons first log ih =>
      have insert_last : ∀ records : List (MutationRecord (File R)),
          List.orderedInsert (fun left right => left.sequence ≤ right.sequence) first
              (records ++ [record]) =
            List.orderedInsert (fun left right => left.sequence ≤ right.sequence) first records ++
              [record] := by
        intro records
        induction records with
        | nil => simp [newest first List.mem_cons_self]
        | cons head records ih =>
            simp only [List.cons_append, List.orderedInsert_cons, ih]
            split <;> rfl
      rw [List.cons_append, List.insertionSort_cons, List.insertionSort_cons,
        ih fun other member => newest other (List.mem_cons_of_mem first member), insert_last]

/-- Appending a record to the log applies it to the current manifest. -/
theorem settled_appendRecord (settled : Settled before latestSeq current) (positive : 0 < latestSeq)
    {record : MutationRecord (File R)} (numbered : record.sequence = latestSeq + 1) :
    Settled (Effect.perform (StorageEffect.appendRecord record) before) (latestSeq + 1)
      (MutationWal.apply current record) := by
  have newest : ∀ other ∈ before.log, other.sequence ≤ record.sequence := by
    intro other member
    have inside : other ∈ MutationWal.readRecords before :=
      (List.mem_insertionSort _).mpr member
    have := settled.records_le other inside
    omega
  cases settled with
  | fresh _ _ _ zero _ => omega
  | @published base pointer base_positive found verified replayed current_numbered =>
      have still : (Effect.perform (StorageEffect.appendRecord record) before).pointer =
          .latest base.sequence := pointer
      apply Settled.published still base_positive found verified
      · change MutationWal.replay base (MutationWal.readRecords
          { before with log := before.log ++ [record] }) = _
        have newer : record.sequence > current.sequence := by omega
        rw [readRecords_append newest, MutationWal.replay_append, replayed, MutationWal.replay,
          List.foldl_cons, if_pos newer]
        rfl
      · exact numbered

/-- Folding the log leaves the table of the current manifest as it is. -/
theorem settled_of_ends_foldPending (settled : Settled before latestSeq current)
    (positive : 0 < latestSeq) (run : (writer.foldPending choices).Ends before () after) :
    ∃ folded, current.SameTable folded ∧ Settled after latestSeq folded ∧
      KeepsFiles before after := by
  have unchanged : ∃ folded, current.SameTable folded ∧
      Settled before latestSeq folded ∧ KeepsFiles before before :=
    ⟨current, ⟨rfl, rfl, rfl, rfl, rfl, rfl, rfl⟩, settled, fun _ _ _ found => found⟩
  obtain ⟨_, _, reading, run⟩ := Script.ends_bind.mp run
  obtain ⟨rfl, rfl⟩ := Script.ends_read.mp reading
  split at run
  · obtain ⟨folded, _, fold_run, run⟩ := Script.ends_bind.mp run
    obtain ⟨-, rfl⟩ := Script.ends_pure.mp run
    cases settled with
    | fresh _ _ _ zero _ => omega
    | @published base pointer base_positive found verified replayed numbered =>
        have pointed : MutationWal.pointerManifest before = some base := by
          rw [MutationWal.pointerManifest, pointer]
          exact found
        rcases MutationWal.checkpointLocked_cases Except.ok fold_run with
          ⟨-, rfl⟩ | ⟨other, found', old, rfl⟩ | ⟨other, healed, found', -, materialized, rfl⟩
        · exact unchanged
        · obtain rfl := Option.some.inj (pointed.symm.trans found')
          have same : base = current := by
            rw [← replayed]
            refine (MutationWal.replay_eq_base fun record member => ?_).symm
            exact old record ((List.mem_insertionSort _).mp member)
          refine ⟨base, by rw [same]; exact ⟨rfl, rfl, rfl, rfl, rfl, rfl, rfl⟩, ?_,
            fun _ _ _ found => found⟩
          exact .published pointer base_positive found verified rfl (by rw [same, numbered])
        · obtain rfl := Option.some.inj (pointed.symm.trans found')
          have added := MutationWal.addsFiles_of_materialized Except.ok materialized
          let folded := current.finalize
            (MutationWal.parentManifestChecksum healed current.sequence) choices.now
          rw [replayed]
          refine ⟨folded, ⟨rfl, rfl, rfl, rfl, rfl, rfl, rfl⟩, ?_,
            fun path contents _ found => added.files path contents found⟩
          have live_positive : 0 < folded.sequence := by
            change 0 < current.sequence
            omega
          have moved : (MutationWal.foldedInto choices.now current healed).pointer =
              .latest folded.sequence := rfl
          exact .published moved live_positive (AList.lookup_insert _)
            (Manifest.verifyChecksum_finalize _ _ _) rfl numbered
  · obtain ⟨-, rfl⟩ := Script.ends_pure.mp run
    exact unchanged

/-- A delete can tell the row groups apart: it swaps the manifest, or no two row groups share a
fragment id that has offsets. -/
def Unambiguous (writer : Writer R) (byFragment : HashMap Nat (List Nat))
    (rowGroups : List RowGroupEntry) : Prop :=
  writer.walMode = false ∨ Unshared byFragment rowGroups

/-- A complete delete has marked the row groups of the current manifest. -/
theorem marked_of_ends_commitDeletes (settled : Settled before latestSeq current)
    (committed : 0 < latestSeq) (versioned : ∀ entry ∈ current.rowGroups, Versioned entry)
    (agree : current.rowGroups.Pairwise fun left right => left.fragmentId = right.fragmentId →
      left.deletes = right.deletes)
    (unambiguous : Unambiguous writer byFragment current.rowGroups)
    (run : (writer.commitDeletes choices byFragment).Ends before () after) :
    ∃ next, Settled after (latestSeq + 1) next ∧
      List.Forall₂ (Marked (loadCurrent.final before) (loadCurrent.final after) byFragment)
        current.rowGroups next.rowGroups := by
  obtain ⟨prepared, staged, prepare_run, run⟩ := Script.ends_bind.mp run
  obtain ⟨⟨latest_eq, current_eq, numbered⟩, staged_settled, marked⟩ :=
    marked_of_ends_prepareDelete choices settled versioned agree prepare_run
  -- whatever happens to the directory after the preparation, its deletion vectors stay
  have later : ∀ {next : Manifest}, Settled after (latestSeq + 1) next → KeepsVectors staged after →
      List.Forall₂ (Marked (loadCurrent.final before) (loadCurrent.final after) byFragment)
        current.rowGroups prepared.manifest.rowGroups := by
    intro next next_settled keeps
    have loads : KeepsVectors after (loadCurrent.final after) := fun path contents _ found =>
      lookup_of_ends_loadCurrentManifest next_settled.ends found
    refine (List.forall₂_and_left _ _ |>.mpr ⟨fun old member => member, marked⟩).imp ?_
    rintro old new ⟨member, marked_old⟩
    exact marked_old.mono (versioned old member) (keeps.trans loads)
  rw [Script.ends_ite] at run
  rcases run with ⟨deferred, run⟩ | ⟨swapped, run⟩
  · have unshared : Unshared byFragment prepared.current.rowGroups := by
      rw [current_eq]
      exact unambiguous.resolve_left (by simp [deferred])
    obtain ⟨_, _, append, run⟩ := Script.ends_bind.mp run
    obtain rfl := Script.ends_emit.mp append
    have numbered : (deleteRecord (R := R) byFragment prepared).sequence = latestSeq + 1 := by
      rw [← latest_eq]
      rfl
    have appended := settled_appendRecord staged_settled committed numbered
    obtain ⟨folded, same, folded_settled, keeps⟩ :=
      settled_of_ends_foldPending appended (Nat.succ_pos latestSeq) run
    refine ⟨folded, folded_settled, ?_⟩
    rw [← same.rowGroups, ← current_eq, rowGroups_apply_deleteRecord prepare_run unshared, current_eq]
    exact later folded_settled keeps.vectors
  · obtain ⟨_, _, intent, run⟩ := Script.ends_bind.mp run
    obtain rfl := Script.ends_emit.mp intent
    rw [current_eq] at run
    have intended : Settled (Effect.perform (StorageEffect.writeIntent choices.txnId
        (prepared.works.map DelWork.path ++ prepared.tombstonePaths)) staged) latestSeq current :=
      staged_settled.congr rfl rfl (fun _ _ => rfl) fun zero => by omega
    obtain ⟨published, same, published_settled, keeps⟩ :=
      settled_of_ends_commitSwap intended numbered run
    refine ⟨published, published_settled, ?_⟩
    rw [← same.rowGroups]
    exact later published_settled keeps.vectors

end Writer

/-! ## Runs of deletes -/

open Writer

variable {R : Type} {byFragment : HashMap Nat (List Nat)} {before after : TableStorage R}
  {latestSeq : Nat} {current next : Manifest} {earlier : List Manifest}

/-- The deletion vector of a row group, once the log is replayed. -/
def vectorOf (storage : TableStorage R) (entry : RowGroupEntry) : Option DeletionVector :=
  deletionsOf (loadCurrent.final storage) entry

/-- Versions of a fragment's deletion vector have names of their own. -/
theorem deletionPath_version_injective {fragmentId version version' : Nat}
    (same : deletionPath fragmentId version = deletionPath fragmentId version') :
    version = version' := by
  have chars := congrArg String.toList same
  simp only [deletionPath, String.toList_append, String.toList_ofList, List.append_assoc] at chars
  have digits := List.append_cancel_right
    (List.append_cancel_left (List.append_cancel_left (List.append_cancel_left chars)))
  have read : ∀ number, ofDigits 10 (Nat.toDigits 10 number) = number :=
    ofDigits_toDigits (by decide) (by decide)
  rw [← read version, digits, read version']

/-- The current manifest counts its deletion vectors, and has the newest versions of all manifests
that have been there. -/
structure Tracks (storage : TableStorage R) (current : Manifest) (earlier : List Manifest) :
    Prop where
  listed : current ∈ earlier
  counted : ∀ entry ∈ current.rowGroups, ∃ deletions, vectorOf storage entry = some deletions ∧
    entry.deletedCount = deletions.cardinality
  newest : ∀ manifest ∈ earlier, ∀ entry ∈ manifest.rowGroups, ∀ path, entry.deletes = some path →
    ∃ version, path = deletionPath entry.fragmentId version ∧
      ∀ live ∈ current.rowGroups, live.fragmentId = entry.fragmentId →
        ∃ latest, version ≤ latest ∧ live.deletes = some (deletionPath entry.fragmentId latest)

namespace Tracks

/-- Nothing has been deleted yet. -/
theorem of_undeleted {storage : TableStorage R} (listed : current ∈ earlier)
    (undeleted : ∀ manifest ∈ earlier, ∀ entry ∈ manifest.rowGroups,
      entry.deletes = none ∧ entry.deletedCount = 0) : Tracks storage current earlier where
  listed := listed
  counted entry member := by
    obtain ⟨absent, none_deleted⟩ := undeleted current listed entry member
    refine ⟨∅, ?_, none_deleted⟩
    rw [vectorOf, deletionsOf, absent]
  newest manifest member entry entry_member path named := by
    rw [(undeleted manifest member entry entry_member).1] at named
    cases named

theorem versioned (tracks : Tracks before current earlier) :
    ∀ entry ∈ current.rowGroups, Versioned entry := by
  intro entry member path named
  obtain ⟨version, path_eq, -⟩ := tracks.newest current tracks.listed entry member path named
  exact ⟨version, path_eq⟩

/-- Row groups that share a fragment id share their deletion vector. -/
theorem agree (tracks : Tracks before current earlier) {left right : RowGroupEntry}
    (left_member : left ∈ current.rowGroups) (right_member : right ∈ current.rowGroups)
    (same : left.fragmentId = right.fragmentId) : left.deletes = right.deletes := by
  cases named : left.deletes with
  | none =>
      cases named' : right.deletes with
      | none => rfl
      | some path =>
          obtain ⟨version, -, latest⟩ :=
            tracks.newest current tracks.listed right right_member path named'
          obtain ⟨_, -, found⟩ := latest left left_member same
          rw [named] at found
          cases found
  | some path =>
      obtain ⟨version, rfl, latest⟩ :=
        tracks.newest current tracks.listed left left_member path named
      obtain ⟨version', le, found⟩ := latest right right_member same.symm
      obtain ⟨version'', path_eq, latest'⟩ :=
        tracks.newest current tracks.listed right right_member _ found
      obtain ⟨last, le', found'⟩ := latest' left left_member same
      rw [named, ← same] at found'
      rw [← same] at path_eq
      have first_eq := deletionPath_version_injective (Option.some.inj found')
      have second_eq := deletionPath_version_injective path_eq
      have versions_eq : version' = version := by omega
      rw [found, versions_eq]

/-- The next version of a deletion vector is newer than that of the row group. -/
private theorem next_version (tracks : Tracks before current earlier) {old : RowGroupEntry}
    {work : DelWork} {storage : TableStorage R}
    (planned : work.PlannedFor storage byFragment old) {manifest : Manifest}
    (member : manifest ∈ earlier) {entry : RowGroupEntry}
    (entry_member : entry ∈ manifest.rowGroups) {path : String}
    (named : entry.deletes = some path) (old_member : old ∈ current.rowGroups)
    (same : old.fragmentId = entry.fragmentId) :
    ∃ version next, path = deletionPath entry.fragmentId version ∧ version < next ∧
      work.path = deletionPath entry.fragmentId next := by
  obtain ⟨version, path_eq, latest⟩ := tracks.newest manifest member entry entry_member path named
  obtain ⟨last, le, found⟩ := latest old old_member same
  obtain ⟨next, work_eq, ⟨absent, -⟩ | ⟨previous_path, previous, named', parsed, rfl⟩⟩ :=
    planned.path
  · rw [absent] at found
    cases found
  · obtain rfl := Option.some.inj (named'.symm.trans found)
    rw [parseVersion_deletionPath] at parsed
    split at parsed
    · obtain rfl := Option.some.inj parsed
      exact ⟨version, last + 1, path_eq, by omega, same ▸ work_eq⟩
    · cases parsed

end Tracks

/-- A row group after a delete, in a table with some earlier manifests: its deletion vector has
grown by the offsets and is counted; if there were offsets, its file has a new name. -/
structure Grows (byFragment : HashMap Nat (List Nat)) (earlier : List Manifest)
    (before after : TableStorage R) (old new : RowGroupEntry) : Prop where
  fragment : new = { old with deletes := new.deletes, deletedCount := new.deletedCount }
  vector : ∃ deletions, vectorOf before old = some deletions ∧
    vectorOf after new = some (deletions ∪ requestedDeletions byFragment old.fragmentId) ∧
    new.deletedCount = (deletions ∪ requestedDeletions byFragment old.fragmentId).card
  unrequested : requestedOffsets byFragment old = none → new = old
  fresh : (requestedOffsets byFragment old).isSome = true → ∃ path, new.deletes = some path ∧
    ∀ manifest ∈ earlier, ∀ entry ∈ manifest.rowGroups, entry.deletes ≠ some path

theorem Tracks.grows_of_marked (tracks : Tracks before current earlier) {old new : RowGroupEntry}
    (member : old ∈ current.rowGroups)
    (marked : Marked (loadCurrent.final before) (loadCurrent.final after) byFragment old new) :
    Grows byFragment earlier before after old new := by
  obtain ⟨deletions, found, counted⟩ := tracks.counted old member
  cases marked with
  | kept unrequested same =>
      constructor
      · rfl
      · refine ⟨deletions, found, ?_, ?_⟩
        · rw [requestedDeletions_of_none unrequested, Finset.union_empty]
          exact same deletions found
        · rw [requestedDeletions_of_none unrequested, Finset.union_empty]
          exact counted
      · exact fun _ => rfl
      · intro requested
        rw [unrequested] at requested
        cases requested
  | @extended work planned written =>
      obtain ⟨offsets, loaded, requested, loaded_eq, deletions_eq⟩ := planned.deletions
      obtain rfl := Option.some.inj (found.symm.trans loaded_eq)
      have grown : work.deletions =
          deletions ∪ requestedDeletions byFragment old.fragmentId := by
        rw [deletions_eq, requestedDeletions_of_requestedOffsets requested]
        rfl
      constructor
      · rfl
      · refine ⟨deletions, found, ?_, ?_⟩
        · rw [← grown]
          exact deletionsOf_eq_some.mpr (.inr ⟨work.path, rfl, written⟩)
        · rw [← grown]
          rfl
      · intro unrequested
        rw [unrequested] at requested
        cases requested
      · intro _
        refine ⟨work.path, rfl, fun manifest listed entry entry_member named => ?_⟩
        obtain ⟨own, own_eq, -⟩ := planned.path
        obtain ⟨version, path_eq, -⟩ :=
          tracks.newest manifest listed entry entry_member work.path named
        have same := deletionPath_fragment_injective (own_eq.symm.trans path_eq)
        obtain ⟨version', next, path_eq', less, next_eq⟩ :=
          tracks.next_version planned listed entry_member named member same
        have := deletionPath_version_injective (path_eq'.symm.trans next_eq)
        omega

/-- A commit carries row groups over, with or without offsets to delete, and adds ones without a
deletion vector under fragment ids that no earlier manifest has. -/
structure Carries (before after : TableStorage R) (byFragment : HashMap Nat (List Nat))
    (earlier : List Manifest) (current next : Manifest) : Prop where
  rowGroups : ∀ new ∈ next.rowGroups,
    (∃ old ∈ current.rowGroups,
      Marked (loadCurrent.final before) (loadCurrent.final after) byFragment old new) ∨
    (new.deletes = none ∧ new.deletedCount = 0 ∧ ∀ manifest ∈ earlier,
      new.fragmentId ∉ manifest.rowGroups.map RowGroupEntry.fragmentId)

theorem Writer.Marked.fragmentId {old new : RowGroupEntry}
    (marked : Marked before after byFragment old new) : new.fragmentId = old.fragmentId := by
  cases marked <;> rfl

/-- What carries row groups over keeps track of their deletion vectors. -/
theorem Tracks.carried (tracks : Tracks before current earlier)
    (carries : Carries before after byFragment earlier current next) :
    Tracks after next (next :: earlier) := by
  have latest : ∀ manifest ∈ earlier, ∀ entry ∈ manifest.rowGroups, ∀ path,
      entry.deletes = some path → ∃ version, path = deletionPath entry.fragmentId version ∧
        ∀ live ∈ next.rowGroups, live.fragmentId = entry.fragmentId →
          ∃ latest, version ≤ latest ∧
            live.deletes = some (deletionPath entry.fragmentId latest) := by
    intro manifest listed entry member path named
    obtain ⟨version, path_eq, newest⟩ := tracks.newest manifest listed entry member path named
    refine ⟨version, path_eq, fun live live_member same => ?_⟩
    rcases carries.rowGroups live live_member with ⟨old, old_member, marked⟩ | ⟨-, -, new_id⟩
    · have old_same := marked.fragmentId.symm.trans same
      cases marked with
      | kept => exact newest _ old_member old_same
      | @extended work planned written =>
          obtain ⟨version', later, path_eq', less, work_eq⟩ :=
            tracks.next_version planned listed member named old_member old_same
          have := deletionPath_version_injective (path_eq.symm.trans path_eq')
          exact ⟨later, by omega, congrArg some work_eq⟩
    · exact absurd (List.mem_map.mpr ⟨entry, member, same.symm⟩) (new_id manifest listed)
  constructor
  · exact List.mem_cons_self
  · intro new member
    rcases carries.rowGroups new member with ⟨old, old_member, marked⟩ | ⟨absent, zero, -⟩
    · obtain ⟨deletions, -, found, counted⟩ := (tracks.grows_of_marked old_member marked).vector
      exact ⟨_, found, counted⟩
    · refine ⟨∅, ?_, zero⟩
      rw [vectorOf, deletionsOf, absent]
  · intro manifest listed entry member path named
    rcases List.mem_cons.mp listed with rfl | listed
    · rcases carries.rowGroups entry member with ⟨old, old_member, marked⟩ | ⟨absent, -, -⟩
      · -- row groups of one fragment id are marked in the same way
        have versioned : ∃ version, path = deletionPath entry.fragmentId version := by
          cases marked with
          | kept => exact tracks.versioned _ old_member path named
          | extended planned written =>
              obtain ⟨version, path_eq, -⟩ := planned.path
              exact ⟨version, (Option.some.inj named).symm.trans path_eq⟩
        obtain ⟨version, path_eq⟩ := versioned
        refine ⟨version, path_eq, fun live live_member same => ⟨version, Nat.le_refl _, ?_⟩⟩
        rcases carries.rowGroups live live_member with ⟨other, other_member, other_marked⟩ |
          ⟨-, -, new_id⟩
        · have ids_eq : other.fragmentId = old.fragmentId :=
            other_marked.fragmentId.symm.trans (same.trans marked.fragmentId)
          have deletes_eq := tracks.agree other_member old_member ids_eq
          have requests_eq :
              requestedOffsets byFragment other = requestedOffsets byFragment old := by
            rw [requestedOffsets, requestedOffsets, ids_eq]
          rw [← path_eq, ← named]
          cases marked with
          | kept unrequested =>
              cases other_marked with
              | kept => exact deletes_eq
              | extended planned =>
                  have requested := planned.requested
                  rw [requests_eq, unrequested] at requested
                  cases requested
          | extended planned =>
              cases other_marked with
              | kept unrequested =>
                  have requested := planned.requested
                  rw [← requests_eq, unrequested] at requested
                  cases requested
              | extended other_planned =>
                  rw [other_planned.unique planned ids_eq deletes_eq]
                  rfl
        · refine absurd (List.mem_map.mpr ⟨old, old_member, ?_⟩) (new_id current tracks.listed)
          exact marked.fragmentId.symm.trans same.symm
      · rw [absent] at named
        cases named
    · exact latest manifest listed entry member path named

/-- Directories along a run of deletes, with all manifests that have been current so far.  Between
the deletes other commits may come. -/
inductive DeleteRun (start : TableStorage R) (history : List Manifest) :
    List Manifest → TableStorage R → Prop
  | start : DeleteRun start history history start
  | delete {before after : TableStorage R} {earlier : List Manifest} {writer : Writer R}
      {choices : Choices R} {byFragment : HashMap Nat (List Nat)} {latestSeq nextSeq : Nat}
      {current next : Manifest} (run : DeleteRun start history earlier before)
      (settled : Settled before latestSeq current)
      (unambiguous : Unambiguous writer byFragment current.rowGroups)
      (commit : (writer.commitDeletes choices byFragment).Ends before () after)
      (committed : Settled after nextSeq next) : DeleteRun start history (next :: earlier) after
  | other {before after : TableStorage R} {earlier : List Manifest}
      {byFragment : HashMap Nat (List Nat)} {latestSeq nextSeq : Nat} {current next : Manifest}
      (run : DeleteRun start history earlier before) (settled : Settled before latestSeq current)
      (carries : Carries before after byFragment earlier current next)
      (committed : Settled after nextSeq next) (later : latestSeq ≤ nextSeq) :
      DeleteRun start history (next :: earlier) after

theorem Writer.Settled.unique {storage : TableStorage R} {latestSeq' : Nat} {current' : Manifest}
    (settled : Settled storage latestSeq current) (again : Settled storage latestSeq' current') :
    latestSeq = latestSeq' ∧ current = current' :=
  Prod.mk.inj (settled.ends.deterministic again.ends).1

/-- One delete of a tracked table. -/
theorem Tracks.commitDeletes {writer : Writer R} {choices : Choices R}
    (tracks : Tracks before current earlier) (settled : Settled before latestSeq current)
    (committed : 0 < latestSeq) (unambiguous : Unambiguous writer byFragment current.rowGroups)
    (run : (writer.commitDeletes choices byFragment).Ends before () after) :
    ∃ next, Settled after (latestSeq + 1) next ∧
      List.Forall₂ (Grows byFragment earlier before after) current.rowGroups next.rowGroups ∧
      Tracks after next (next :: earlier) := by
  have agree : current.rowGroups.Pairwise fun left right => left.fragmentId = right.fragmentId →
      left.deletes = right.deletes :=
    List.pairwise_iff_forall_sublist.mpr fun {left right} sublist =>
      tracks.agree (sublist.subset List.mem_cons_self)
        (sublist.subset (List.mem_cons_of_mem left List.mem_cons_self))
  obtain ⟨next, next_settled, marked⟩ :=
    marked_of_ends_commitDeletes settled committed tracks.versioned agree unambiguous run
  refine ⟨next, next_settled, ?_, ?_⟩
  · refine (List.forall₂_and_left _ _ |>.mpr ⟨fun old member => member, marked⟩).imp ?_
    rintro old new ⟨member, marked_old⟩
    exact tracks.grows_of_marked member marked_old
  · exact tracks.carried ⟨fun new member => .inl (marked.exists_of_mem_right member)⟩

/-- Every directory of a run is tracked. -/
theorem DeleteRun.tracks {start : TableStorage R} {history : List Manifest} {firstSeq : Nat}
    {first : Manifest} (settled : Settled start firstSeq first) (committed : 0 < firstSeq)
    (tracked : Tracks start first history) {storage : TableStorage R}
    (run : DeleteRun start history earlier storage) :
    ∃ latestSeq current, Settled storage latestSeq current ∧ 0 < latestSeq ∧
      Tracks storage current earlier := by
  induction run with
  | start => exact ⟨firstSeq, first, settled, committed, tracked⟩
  | delete run settled' unambiguous commit committed' ih =>
      obtain ⟨latestSeq, current, found, positive, tracks⟩ := ih
      obtain ⟨rfl, rfl⟩ := settled'.unique found
      obtain ⟨next, next_settled, -, next_tracks⟩ :=
        tracks.commitDeletes found positive unambiguous commit
      obtain ⟨rfl, rfl⟩ := committed'.unique next_settled
      exact ⟨_, _, next_settled, Nat.succ_pos _, next_tracks⟩
  | other run settled' carries committed' later ih =>
      obtain ⟨latestSeq, current, found, positive, tracks⟩ := ih
      obtain ⟨rfl, rfl⟩ := settled'.unique found
      exact ⟨_, _, committed', by omega, tracks.carried carries⟩

/-- The same deletion vector, and the same count. -/
def SameDeletions (before after : TableStorage R) (old new : RowGroupEntry) : Prop :=
  vectorOf after new = vectorOf before old ∧ new.deletedCount = old.deletedCount

/-- In a run whose deletes can all tell the row groups apart, every delete unions the deletion
vectors with its offsets, counts them and names their files as no earlier manifest does; deleting
the same offsets again changes neither a vector nor a count. -/
theorem DeleteRun.grows_of_unambiguous {start : TableStorage R} {history : List Manifest}
    {firstSeq : Nat} {first : Manifest} (settled : Settled start firstSeq first)
    (committed : 0 < firstSeq) (tracked : Tracks start first history)
    (run : DeleteRun start history earlier before)
    (found : Settled before latestSeq current) {writer : Writer R} {choices : Choices R}
    (unambiguous : Unambiguous writer byFragment current.rowGroups)
    (commit : (writer.commitDeletes choices byFragment).Ends before () after) :
    ∃ next, Settled after (latestSeq + 1) next ∧
      List.Forall₂ (Grows byFragment earlier before after) current.rowGroups next.rowGroups ∧
      ∀ (writer' : Writer R) (choices' : Choices R) (last : TableStorage R),
        Unambiguous writer' byFragment next.rowGroups →
        (writer'.commitDeletes choices' byFragment).Ends after () last →
          ∃ again, Settled last (latestSeq + 2) again ∧
            List.Forall₂ (SameDeletions after last) next.rowGroups again.rowGroups := by
  obtain ⟨_, _, found', positive, tracks⟩ := run.tracks settled committed tracked
  obtain ⟨rfl, rfl⟩ := found.unique found'
  obtain ⟨next, next_settled, grows, next_tracks⟩ :=
    tracks.commitDeletes found positive unambiguous commit
  refine ⟨next, next_settled, grows, fun writer' choices' last unambiguous' repeated => ?_⟩
  obtain ⟨again, again_settled, grows_again, -⟩ :=
    next_tracks.commitDeletes next_settled (Nat.succ_pos _) unambiguous' repeated
  refine ⟨again, again_settled, ?_⟩
  refine (List.forall₂_and_left _ _ |>.mpr ⟨fun new member => member, grows_again⟩).imp ?_
  rintro new last_entry ⟨member, grown_again⟩
  obtain ⟨old, -, grown⟩ := grows.exists_of_mem_right member
  obtain ⟨deletions, -, vector, counted⟩ := grown.vector
  obtain ⟨deletions', vector', vector_again, counted_again⟩ := grown_again.vector
  obtain rfl := Option.some.inj (vector.symm.trans vector')
  have id_eq : new.fragmentId = old.fragmentId := by rw [grown.fragment]
  have same : deletions ∪ requestedDeletions byFragment old.fragmentId ∪
      requestedDeletions byFragment new.fragmentId =
        deletions ∪ requestedDeletions byFragment old.fragmentId := by
    rw [id_eq, Finset.union_assoc, Finset.union_self]
  rw [same] at vector_again counted_again
  exact ⟨vector_again.trans vector.symm, counted_again.trans counted.symm⟩

/-! ## Tables from before fragment ids -/

namespace DeleteRun

/-- A delete of the first row of fragment 0. -/
def firstRow : HashMap Nat (List Nat) :=
  AList.singleton 0 [0]

/-- A writer that defers its mutations. -/
def deferred : Writer Int :=
  { Integers.writer with walMode := true }

/-- The sidecar of a row group without row ids. -/
def legacySidecar (rowGroup : String) (rows : Nat) : File Int :=
  .sidecar
    { rowGroup, schemaId := 1, rows, columns := ∅, columnOffsets := none, sort := none
      rowIds := [], checksum := "sha256:0", metaChecksum := "" }

/-- The directory of one row group with two rows. -/
def legacyTable : TableStorage Int :=
  { Mutation.legacyTable with
    files := ([⟨"rg_1.parquet", .data [7, 8]⟩, ⟨"rg_1.meta", legacySidecar "rg_1" 2⟩] :
      List (Sigma fun _ : String => File Int)).toAList }

/-- The first row is deleted. -/
def afterFirst : TableStorage Int :=
  (deferred.commitDeletes (Integers.choices 0) firstRow).final legacyTable

/-- A delete of the second row of fragment 0. -/
def secondRow : HashMap Nat (List Nat) :=
  AList.singleton 0 [1]

private theorem settled_legacyTable : Settled legacyTable 1 Mutation.legacyManifest :=
  .published rfl Nat.one_pos rfl (Manifest.verifyChecksum_sealed _) rfl rfl

private theorem legacyTable_deletes :
    (deferred.commitDeletes (Integers.choices 0) firstRow legacyTable).2.isOk = true ∧
      (deferred.commitDeletes (Integers.choices 1) secondRow afterFirst).2.isOk = true := by
  decide +kernel

/-- With one row group there is nothing to tell apart: the second delete extends the vector of the
first one. -/
theorem legacyTable_grows :
    ∃ current after next,
      (deferred.commitDeletes (Integers.choices 1) secondRow).Ends afterFirst () after ∧
        Settled afterFirst 2 current ∧ Settled after 3 next ∧
          List.Forall₂ (Grows secondRow [current, Mutation.legacyManifest] afterFirst after)
            current.rowGroups next.rowGroups := by
  obtain ⟨⟨⟩, first⟩ := Script.exists_ends_of_isOk legacyTable_deletes.1
  obtain ⟨⟨⟩, second⟩ := Script.exists_ends_of_isOk legacyTable_deletes.2
  have tracked : Tracks legacyTable Mutation.legacyManifest [Mutation.legacyManifest] :=
    .of_undeleted List.mem_cons_self (by decide)
  have unambiguous : Unambiguous deferred firstRow Mutation.legacyManifest.rowGroups :=
    .inr (List.pairwise_singleton _ _)
  obtain ⟨current, settled, grown, -⟩ := tracked.commitDeletes settled_legacyTable Nat.one_pos
    unambiguous first
  have single : current.rowGroups.length = 1 := grown.length_eq.symm
  obtain ⟨entry, rowGroups_eq⟩ := List.length_eq_one_iff.mp single
  have unambiguous' : Unambiguous deferred secondRow current.rowGroups := by
    rw [rowGroups_eq]
    exact .inr (List.pairwise_singleton _ _)
  have run : DeleteRun legacyTable [Mutation.legacyManifest] [current, Mutation.legacyManifest]
      afterFirst :=
    .delete .start settled_legacyTable unambiguous first settled
  obtain ⟨next, next_settled, grows, -⟩ := run.grows_of_unambiguous settled_legacyTable
    Nat.one_pos tracked settled unambiguous' second
  exact ⟨current, _, next, second, settled, next_settled, grows⟩

/-- Two row groups without fragment ids. -/
def pairManifest : Manifest :=
  let manifest : Manifest :=
    { formatVersion := 1, sequence := 1, schemaId := 1
      rowGroups := [{ data := "rg_1.parquet", metaFile := "rg_1.meta" },
        { data := "rg_2.parquet", metaFile := "rg_2.meta" }] }
  { manifest with checksum := manifest.computeChecksum }

/-- Their directory. -/
def pairTable : TableStorage Int where
  pointer := .latest 1
  manifests := AList.singleton 1 pairManifest
  log := []
  files := ([⟨"rg_1.parquet", .data [7]⟩, ⟨"rg_1.meta", legacySidecar "rg_1" 1⟩,
    ⟨"rg_2.parquet", .data [8]⟩, ⟨"rg_2.meta", legacySidecar "rg_2" 1⟩] :
    List (Sigma fun _ : String => File Int)).toAList
  intents := ∅
  schemaPointer := some 1

private theorem pairTable_deletes :
    (deferred.commitDeletes (Integers.choices 0) firstRow pairTable).2.isOk = true := by
  decide +kernel

/-- The files of the deletion vectors of the current row groups. -/
def deletionFiles (storage : TableStorage Int) : List (Option String) :=
  match (loadCurrent storage).2 with
  | .ok (_, current) => current.rowGroups.map RowGroupEntry.deletes
  | .error _ => []

private theorem deletionFiles_eq {storage : TableStorage Int} {latestSeq : Nat} {current : Manifest}
    (settled : Settled storage latestSeq current) :
    deletionFiles storage = current.rowGroups.map RowGroupEntry.deletes := by
  rw [deletionFiles, settled.load]

private theorem deletionFiles_pairTable :
    deletionFiles ((deferred.commitDeletes (Integers.choices 0) firstRow).final pairTable) =
      [some "_deletions/rg_0000000000000000__v1.del", none] := by
  decide +kernel

private theorem settled_pairTable : Settled pairTable 1 pairManifest :=
  .published rfl Nat.one_pos rfl (Manifest.verifyChecksum_sealed _) rfl rfl

/-- A deferred delete from two row groups of one fragment id leaves the second one as it was. -/
theorem pairTable_not_grows :
    Settled pairTable 1 pairManifest ∧ Tracks pairTable pairManifest [pairManifest] ∧
      ∃ after, (deferred.commitDeletes (Integers.choices 0) firstRow).Ends pairTable () after ∧
        ¬∃ next, Settled after 2 next ∧
          List.Forall₂ (Grows firstRow [pairManifest] pairTable after) pairManifest.rowGroups
            next.rowGroups := by
  obtain ⟨⟨⟩, commit⟩ := Script.exists_ends_of_isOk pairTable_deletes
  refine ⟨settled_pairTable, .of_undeleted List.mem_cons_self (by decide), _, commit, ?_⟩
  rintro ⟨next, settled, grows⟩
  have reads := (deletionFiles_eq settled).symm.trans deletionFiles_pairTable
  have requested : ∀ entry ∈ pairManifest.rowGroups,
      (requestedOffsets firstRow entry).isSome = true := by
    decide
  obtain ⟨new, member, absent⟩ : ∃ new ∈ next.rowGroups, new.deletes = none := by
    rw [← List.mem_map, reads]
    exact List.mem_cons_of_mem _ List.mem_cons_self
  obtain ⟨old, old_member, grown⟩ := grows.exists_of_mem_right member
  obtain ⟨path, named, -⟩ := grown.fresh (requested old old_member)
  rw [absent] at named
  cases named

end DeleteRun

end IcefallDB
