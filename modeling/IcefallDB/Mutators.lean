import IcefallDB.Lib.Rewrite
import IcefallDB.Table.Snapshot
import IcefallDB.Writer.Mutate

/-!
# Clients that mutate one table

A client locates the rows of its statement on the snapshot that it has pinned, without a lock, and
hands their locations to the writer.  The writer takes the lock, loads the newest manifest, marks
the located offsets as deleted, whatever has become of the rows there, and adds the new rows.
-/

namespace IcefallDB

variable {R K : Type}

/-! ## Statements -/

/-- A row of the source of a merge. -/
structure MergeRow (R : Type) where
  /-- The row that is inserted if no row of the target has the key. -/
  row : R
  /-- The new version of the row of the target that has the key. -/
  assign : R → R

/-- The rows of a source by their keys, in the order of the source. -/
structure DedupedSource (R K : Type) where
  byKey : List (K × MergeRow R)
  distinct : (byKey.map Prod.fst).Nodup

/-- A unique index that a merge finds the rows of the target with. -/
structure UniqueKey (R K : Type) where
  table : String
  index : String
  /-- The key of a row, if it is not null. -/
  keyOf : R → Option K
  keyText : K → String

/-- A statement that changes rows. -/
inductive Statement (R K : Type)
  | delete (predicate : R → Bool)
  | update (predicate : R → Bool) (sets : R → R)
  | merge (key : UniqueKey R K) (source : DedupedSource R K)

/-- What a client hands to the writer. -/
inductive Change (R : Type)
  | deletes (locs : List Address)
  | update (rows : List (Address × R))
  | merge (matched : List (Address × R)) (inserts : List R)

/-! ## Locating rows -/

/-- The live rows that match a predicate. -/
def locateMatches (snapshot : Snapshot R) (predicate : R → Bool) : List (Address × R) :=
  snapshot.addressed.filter fun row => predicate row.2

/-- The located rows with their new versions. -/
def planUpdate (snapshot : Snapshot R) (predicate : R → Bool) (sets : R → R) :
    List (Address × R) :=
  (locateMatches snapshot predicate).map fun row => (row.1, sets row.2)

section Merge

variable [DecidableEq K]

/-- The row of the source with a key. -/
def DedupedSource.get (source : DedupedSource R K) (key : K) : Option (MergeRow R) :=
  (source.byKey.find? fun entry => entry.1 = key).map Prod.snd

/-- Add a live row to the map from keys to rows, if the source has its key.  No two live rows may
have the same key. -/
def probeRow (key : UniqueKey R K) (source : DedupedSource R K)
    (live : HashMap K (Address × R)) (row : Address × R) :
    Except IcefallDBError (HashMap K (Address × R)) :=
  match (key.keyOf row.2).filter fun found => (source.get found).isSome with
  | none => .ok live
  | some found =>
      if found ∈ live then
        .error (.uniqueKeyViolation key.table key.index (key.keyText found))
      else .ok (live.insert found row)

/-- Tell the rows of the source that match a live row from the ones that do not. -/
def routeRows (live : HashMap K (Address × R)) :
    List (K × MergeRow R) → List (Address × R) × List R
  | [] => ([], [])
  | (key, source) :: rest =>
      match live.lookup key with
      | some found =>
          let (matched, unmatched) := routeRows (live.erase key) rest
          ((found.1, source.assign found.2) :: matched, unmatched)
      | none =>
          let (matched, unmatched) := routeRows live rest
          (matched, source.row :: unmatched)

/-- Classify the rows of the source by a probe of the live rows. -/
def planMerge (snapshot : Snapshot R) (key : UniqueKey R K) (source : DedupedSource R K) :
    Except IcefallDBError (List (Address × R) × List R) := do
  let live ← snapshot.addressed.foldlM (probeRow key source) ∅
  pure (routeRows live source.byKey)

/-- What a client hands to the writer for a statement, if there is anything to do. -/
def Statement.plan (snapshot : Snapshot R) :
    Statement R K → Except IcefallDBError (Option (Change R))
  | delete predicate =>
      let located := locateMatches snapshot predicate
      .ok (if located.isEmpty then none else some (.deletes (located.map Prod.fst)))
  | update predicate sets =>
      let rows := planUpdate snapshot predicate sets
      .ok (if rows.isEmpty then none else some (.update rows))
  | merge key source => do
      let (matched, inserts) ← planMerge snapshot key source
      pure (if matched.isEmpty && inserts.isEmpty then none else some (.merge matched inserts))

end Merge

/-! ## Committing -/

/-- Located rows by ascending row id. -/
def sortLocated (rows : List (Address × R)) : List (Address × R) :=
  rows.insertionSort fun left right => left.1.1 ≤ right.1.1

/-- The row index with a delta for the rows of a patch fragment. -/
def relocate (snapshot : Snapshot R) (patch : List (Address × R)) : AddressMap :=
  let index := snapshot.rowIndex.getD {}
  let segments := Writer.patchSegments snapshot.nextFragmentId (patch.map fun row => row.1.1)
  { index with deltas := index.deltas ++ [sortSegments segments] }

/-- The snapshot that a commit publishes. -/
def Change.apply (snapshot : Snapshot R) : Change R → Snapshot R
  | deletes locs => snapshot.delete (Snapshot.locatedOffsets (locs.map Prod.snd))
  | update rows =>
      let patch := sortLocated rows
      snapshot.mutate patch [] (some (relocate snapshot patch))
  | merge matched inserts =>
      let patch := sortLocated matched
      snapshot.mutate patch inserts
        (if patch.isEmpty then snapshot.rowIndex else some (relocate snapshot patch))

/-- What the writer checks of a change against the newest snapshot, the unique indexes above all. -/
abbrev CommitCheck (R : Type) : Type :=
  Snapshot R → Change R → Except IcefallDBError Unit

/-- Commit a change to the newest snapshot. -/
def commit (check : CommitCheck R) (snapshot : Snapshot R) (change : Change R) :
    Except IcefallDBError (Snapshot R) := do
  check snapshot change
  pure (change.apply snapshot)

/-- Commit what was located, if it is anything. -/
def commitPlanned (check : CommitCheck R) (snapshot : Snapshot R) :
    Option (Change R) → Except IcefallDBError (Snapshot R)
  | none => .ok snapshot
  | some change => commit check snapshot change

/-! ## Two clients -/

/-- The two clients. -/
inductive Client
  | left
  | right
  deriving DecidableEq

/-- The other client. -/
def Client.other : Client → Client
  | left => right
  | right => left

/-- What a client does. -/
inductive ClientStep
  /-- Pin the newest snapshot and locate the rows of the statement. -/
  | locate (client : Client)
  /-- Hand what was located to the writer. -/
  | commit (client : Client)
  deriving DecidableEq

/-- What a client does for its statement. -/
def Client.script (client : Client) : List ClientStep :=
  [.locate client, .commit client]

/-- A table and what its clients have located. -/
structure Mutators (R : Type) where
  table : Snapshot R
  located : Client → Option (Change R)

namespace Mutators

variable [DecidableEq K]

/-- No client has located anything yet. -/
def start (table : Snapshot R) : Mutators R :=
  { table, located := fun _ => none }

/-- One step of a client. -/
def perform (check : CommitCheck R) (statements : Client → Statement R K) (system : Mutators R) :
    ClientStep → Except IcefallDBError (Mutators R)
  | .locate client => do
      let change ← (statements client).plan system.table
      pure { system with located := Function.update system.located client change }
  | .commit client => do
      let table ← commitPlanned check system.table (system.located client)
      pure { system with table }

/-- Steps of the clients, one after the other. -/
def run (check : CommitCheck R) (statements : Client → Statement R K) (system : Mutators R)
    (steps : List ClientStep) : Except IcefallDBError (Mutators R) :=
  steps.foldlM (perform check statements) system

end Mutators

/-! ## What a statement means -/

/-- What a statement does to single rows. -/
def Statement.rewrite [DecidableEq K] : Statement R K → Rewrite R
  | delete predicate => { selects := predicate, image := fun _ => none }
  | update predicate sets => { selects := predicate, image := fun row => some (sets row) }
  | merge key source =>
      { selects := fun row => ((key.keyOf row).bind source.get).isSome
        image := fun row => ((key.keyOf row).bind source.get).map fun found => found.assign row }

/-- The rows that a statement inserts into a table. -/
def Statement.inserts [DecidableEq K] (rows : List (Nat × R)) : Statement R K → List R
  | delete _ | update _ _ => []
  | merge key source =>
      (source.byKey.filter fun entry => !rows.any fun row => key.keyOf row.2 = some entry.1).map
        fun entry => entry.2.row

theorem Statement.inserts_perm [DecidableEq K] {left right : List (Nat × R)}
    (perm : left.Perm right) (statement : Statement R K) :
    statement.inserts left = statement.inserts right := by
  cases statement with
  | delete predicate => rfl
  | update predicate sets => rfl
  | merge key source =>
      have same (key' : K) : (left.any fun row => key.keyOf row.2 = some key') =
          right.any fun row => key.keyOf row.2 = some key' := by
        rw [Bool.eq_iff_iff, List.any_eq_true, List.any_eq_true]
        simp only [perm.mem_iff]
      simp only [inserts, same]

/-! ## What a commit leaves -/

namespace Fragment

theorem addressed_delete (offsets : DeletionVector) (fragment : Fragment R) :
    (fragment.delete offsets).addressed =
      fragment.addressed.filter fun row => row.1.2.2 ∉ offsets := by
  rw [addressed, addressed, List.filter_map, List.filter_filter]
  congr 1
  apply List.filter_congr
  intro row _
  simp [delete, not_or, Bool.and_comm]

end Fragment

namespace Snapshot

theorem addressed_delete (snapshot : Snapshot R) (requested : Nat → DeletionVector) :
    (snapshot.delete requested).addressed =
      snapshot.addressed.filter fun row => row.1.2.2 ∉ requested row.1.2.1 := by
  rw [addressed, addressed, delete, List.filter_flatMap, List.flatMap_map]
  apply List.flatMap_congr
  intro fragment _
  rw [Fragment.addressed_delete]
  apply List.filter_congr
  intro row member
  rw [(Fragment.mem_addressed.mp (show (row.1, row.2) ∈ fragment.addressed from member)).1]

theorem addressed_delete_located (snapshot : Snapshot R) (locs : List (Nat × Nat)) :
    (snapshot.delete (locatedOffsets locs)).addressed =
      snapshot.addressed.filter fun row => row.1.2 ∉ locs := by
  simp only [addressed_delete, mem_locatedOffsets, Prod.mk.eta]

theorem addressed_extend (snapshot : Snapshot R) (added : List (List (Nat × R))) (nextRowId : Nat)
    (rowIndex : Option AddressMap) :
    (snapshot.extend added nextRowId rowIndex).addressed = snapshot.addressed ++
      (newFragments snapshot.nextFragmentId added).flatMap Fragment.addressed := by
  rw [addressed, extend, List.flatMap_append, addressed]

/-- Live rows of new fragments are all their rows. -/
theorem liveRows_newFragments (fragmentId : Nat) (added : List (List (Nat × R))) :
    ((newFragments fragmentId added).flatMap Fragment.addressed).map (fun row => (row.1.1, row.2)) =
      added.flatten := by
  induction added generalizing fragmentId with
  | nil => rfl
  | cons rows added ih =>
      have head : (({ id := fragmentId, rows, deleted := ∅ } : Fragment R).addressed.map fun row =>
          (row.1.1, row.2)) = rows := by
        simp only [Fragment.addressed, Finset.notMem_empty, not_false_eq_true, decide_true,
          List.filter_true, List.map_map]
        exact List.zipIdx_map_fst 0 rows
      rw [newFragments, List.flatMap_cons, List.map_append, ih, head, List.flatten_cons]

theorem fragment_ge_of_mem_newFragments {fragmentId : Nat} {added : List (List (Nat × R))}
    {row : Address × R} (member : row ∈ (newFragments fragmentId added).flatMap Fragment.addressed) :
    fragmentId ≤ row.1.2.1 := by
  obtain ⟨fragment, fragment_member, member⟩ := List.mem_flatMap.mp member
  rw [(Fragment.mem_addressed.mp (show (row.1, row.2) ∈ fragment.addressed from member)).1]
  have id_member := List.mem_map_of_mem (f := Fragment.id) fragment_member
  rw [newFragments_ids] at id_member
  exact (List.mem_range'_1.mp id_member).1

theorem fragment_lt_of_mem_addressed {snapshot : Snapshot R} (wellFormed : snapshot.WellFormed)
    {row : Address × R} (member : row ∈ snapshot.addressed) :
    row.1.2.1 < snapshot.nextFragmentId := by
  obtain ⟨fragment, fragment_member, member⟩ := List.mem_flatMap.mp member
  rw [(Fragment.mem_addressed.mp (show (row.1, row.2) ∈ fragment.addressed from member)).1]
  exact wellFormed.fragmentIds_lt fragment fragment_member

/-- Where a live row is determines it. -/
theorem eq_of_same_location {snapshot : Snapshot R} (wellFormed : snapshot.WellFormed)
    {left right : Address × R} (left_member : left ∈ snapshot.addressed)
    (right_member : right ∈ snapshot.addressed) (same : left.1.2 = right.1.2) : left = right := by
  obtain ⟨⟨leftId, leftFragment, leftOffset⟩, leftRow⟩ := left
  obtain ⟨⟨rightId, rightFragment, rightOffset⟩, rightRow⟩ := right
  obtain ⟨rfl, rfl⟩ := Prod.mk.inj same
  obtain ⟨one, one_member, left_found⟩ := List.mem_flatMap.mp left_member
  obtain ⟨other, other_member, right_found⟩ := List.mem_flatMap.mp right_member
  obtain ⟨one_id, -, left_row⟩ := Fragment.mem_addressed.mp left_found
  obtain ⟨other_id, -, right_row⟩ := Fragment.mem_addressed.mp right_found
  obtain rfl := List.inj_on_of_nodup_map wellFormed.fragmentIds_nodup one_member other_member
    (one_id.symm.trans other_id)
  obtain ⟨rfl, rfl⟩ := Prod.mk.inj (Option.some.inj (left_row.symm.trans right_row))
  rfl

end Snapshot

namespace Change

/-- The rows that a change removes. -/
def locs : Change R → List Address
  | deletes locs => locs
  | update rows => rows.map Prod.fst
  | merge matched _ => matched.map Prod.fst

/-- The versions that a change adds. -/
def patched : Change R → List (Nat × R)
  | deletes _ => []
  | update rows => rows.map fun row => (row.1.1, row.2)
  | merge matched _ => matched.map fun row => (row.1.1, row.2)

/-- The rows that a change inserts. -/
def inserted : Change R → List R
  | merge _ inserts => inserts
  | _ => []

/-- The snapshot after a change has the rows that were not located, and new fragments with the new
versions and the inserted rows. -/
structure Leaves (change : Change R) (snapshot after : Snapshot R) : Prop where
  addressed : ∃ added,
    after.addressed = (snapshot.addressed.filter fun row => row.1.2 ∉ change.locs.map Prod.snd) ++
      (newFragments snapshot.nextFragmentId added).flatMap Fragment.addressed ∧
    added.flatten.Perm (change.patched ++ numberRows snapshot.nextRowId change.inserted)
  nextRowId : after.nextRowId = snapshot.nextRowId + change.inserted.length

theorem leaves_mutate (snapshot : Snapshot R) (rows : List (Address × R)) (inserts : List R)
    (rowIndex : Option AddressMap) :
    Leaves (.merge rows inserts) snapshot
      (snapshot.mutate (sortLocated rows) inserts rowIndex) where
  addressed := by
    have sorted : (sortLocated rows).Perm rows := List.perm_insertionSort _ rows
    refine ⟨(if (sortLocated rows).isEmpty then []
        else [(sortLocated rows).map fun row => (row.1.1, row.2)]) ++
      if inserts.isEmpty then [] else [numberRows snapshot.nextRowId inserts], ?_, ?_⟩
    · rw [Snapshot.mutate, Snapshot.addressed_extend, Snapshot.addressed_delete_located]
      congr 1
      apply List.filter_congr
      intro row _
      simp only [locs, List.map_map, decide_not]
      have same := (sorted.map fun row => row.1.2).mem_iff (a := row.1.2)
      simpa [Function.comp_def] using same
    · rw [List.flatten_append]
      have patch_eq : (if (sortLocated rows).isEmpty then []
          else [(sortLocated rows).map fun row => (row.1.1, row.2)]).flatten =
            (sortLocated rows).map fun row => (row.1.1, row.2) := by
        cases sortLocated rows <;> simp
      have inserts_eq : (if inserts.isEmpty then [] else [numberRows snapshot.nextRowId
          inserts]).flatten = numberRows snapshot.nextRowId inserts := by
        cases inserts <;> simp [numberRows]
      rw [patch_eq, inserts_eq]
      exact (sorted.map _).append_right _
  nextRowId := rfl

theorem leaves_apply (change : Change R) (snapshot : Snapshot R) :
    change.Leaves snapshot (change.apply snapshot) := by
  cases change with
  | deletes locs =>
      constructor
      · refine ⟨[], ?_, .refl _⟩
        rw [apply, Snapshot.addressed_delete_located, newFragments, List.flatMap_nil, List.append_nil]
        exact List.filter_congr fun row _ => decide_eq_decide.mpr Iff.rfl
      · rfl
  | update rows =>
      have merged := leaves_mutate snapshot rows [] (some (relocate snapshot (sortLocated rows)))
      exact ⟨merged.addressed, merged.nextRowId⟩
  | merge matched inserts => exact leaves_mutate snapshot matched inserts _

end Change

/-! ## What a client locates -/

/-- A plan removes the selected rows, adds their versions and inserts what the statement inserts. -/
structure Statement.Plans [DecidableEq K] (statement : Statement R K) (snapshot : Snapshot R)
    (locs : List Address) (patched : List (Nat × R)) (inserted : List R) : Prop where
  locs : ∀ address, address ∈ locs ↔
    ∃ row, (address, row) ∈ snapshot.addressed ∧ statement.rewrite.selects row = true
  patched : patched.Perm (statement.rewrite.versions snapshot.liveRows)
  inserted : inserted = statement.inserts snapshot.liveRows

variable {snapshot : Snapshot R}

theorem mem_locateMatches {predicate : R → Bool} {row : Address × R} :
    row ∈ locateMatches snapshot predicate ↔ row ∈ snapshot.addressed ∧ predicate row.2 = true :=
  List.mem_filter

theorem mem_locs_locateMatches {predicate : R → Bool} {address : Address} :
    address ∈ (locateMatches snapshot predicate).map Prod.fst ↔
      ∃ row, (address, row) ∈ snapshot.addressed ∧ predicate row = true := by
  simp [mem_locateMatches]

section Merge

variable [DecidableEq K] {key : UniqueKey R K} {source : DedupedSource R K}

theorem DedupedSource.get_eq_some {found : K} {row : MergeRow R} :
    source.get found = some row ↔ (found, row) ∈ source.byKey := by
  rw [get, Option.map_eq_some_iff]
  constructor
  · rintro ⟨⟨found', row'⟩, first, rfl⟩
    have same := List.find?_some first
    rw [decide_eq_true_eq] at same
    obtain rfl : found' = found := same
    exact List.mem_of_find?_eq_some first
  · intro member
    obtain ⟨other, first⟩ := Option.isSome_iff_exists.mp
      (List.find?_isSome.mpr ⟨_, member, decide_eq_true (Eq.refl found)⟩ :
        (source.byKey.find? fun entry => entry.1 = found).isSome)
    have same := List.find?_some first
    rw [decide_eq_true_eq] at same
    have equal := List.inj_on_of_nodup_map source.distinct (List.mem_of_find?_eq_some first) member
      same
    exact ⟨other, first, congrArg Prod.snd equal⟩

/-- The key of a row, if the source has it. -/
def sourceKey (key : UniqueKey R K) (source : DedupedSource R K) (row : R) : Option K :=
  (key.keyOf row).filter fun found => (source.get found).isSome

theorem sourceKey_eq_some {row : R} {found : K} :
    sourceKey key source row = some found ↔
      key.keyOf row = some found ∧ (source.get found).isSome = true :=
  Option.filter_eq_some_iff

variable {rows : List (Address × R)} {live : HashMap K (Address × R)}

/-- A successful probe holds the rows whose key the source has, by their keys. -/
theorem entries_of_probe {after : HashMap K (Address × R)}
    (probed : rows.foldlM (probeRow key source) live = .ok after) :
    after.entries = (rows.filterMap fun row =>
      (sourceKey key source row.2).map fun found => (⟨found, row⟩ : Sigma fun _ : K => _)).reverse ++
        live.entries := by
  induction rows generalizing live with
  | nil => exact congrArg AList.entries (Except.ok.inj probed).symm
  | cons row rows ih =>
      rw [List.foldlM_cons] at probed
      obtain ⟨next, probe, probed⟩ := Script.except_bind_eq_ok.mp probed
      have entries_eq := ih probed
      unfold probeRow at probe
      split at probe
      · next unkeyed =>
          obtain rfl := Except.ok.inj probe
          have unkeyed : sourceKey key source row.2 = none := unkeyed
          rw [entries_eq, List.filterMap_cons_none (by rw [unkeyed, Option.map_none])]
      · next found keyed =>
          have keyed : sourceKey key source row.2 = some found := keyed
          split at probe
          · cases probe
          · next absent =>
              obtain rfl := Except.ok.inj probe
              rw [entries_eq, AList.entries_insert_of_notMem absent,
                List.filterMap_cons_some (by rw [keyed, Option.map_some]), List.reverse_cons,
                List.append_assoc, List.singleton_append]

theorem lookup_of_probe (probed : rows.foldlM (probeRow key source) ∅ = .ok live) {found : K}
    {row : Address × R} :
    live.lookup found = some row ↔ row ∈ rows ∧ sourceKey key source row.2 = some found := by
  rw [← Option.mem_def, AList.mem_lookup_iff, entries_of_probe probed]
  simp only [AList.empty_entries, List.append_nil, List.mem_reverse, List.mem_filterMap,
    Option.map_eq_some_iff, Sigma.mk.injEq]
  constructor
  · rintro ⟨_, member, _, keyed, rfl, same⟩
    obtain rfl := eq_of_heq same
    exact ⟨member, keyed⟩
  · rintro ⟨member, keyed⟩
    exact ⟨row, member, found, keyed, rfl, HEq.rfl⟩

theorem routeRows_eq {entries : List (K × MergeRow R)} (distinct : (entries.map Prod.fst).Nodup)
    (live : HashMap K (Address × R)) :
    routeRows live entries =
      (entries.filterMap fun entry => (live.lookup entry.1).map fun found =>
          (found.1, entry.2.assign found.2),
        (entries.filter fun entry => (live.lookup entry.1).isNone).map fun entry => entry.2.row) := by
  induction entries generalizing live with
  | nil => rfl
  | cons entry entries ih =>
      rw [List.map_cons, List.nodup_cons] at distinct
      cases found : live.lookup entry.1 with
      | none => simp [routeRows, found, ih distinct.2]
      | some row =>
          have erased : ∀ other ∈ entries,
              (live.erase entry.1).lookup other.1 = live.lookup other.1 := by
            intro other member
            apply AList.lookup_erase_ne
            intro same
            exact distinct.1 (same ▸ List.mem_map_of_mem member)
          rw [routeRows, found, ih distinct.2]
          simp only [List.filterMap_cons, found, Option.map_some, List.filter_cons,
            Option.isNone_some, Bool.false_eq_true, if_false, Prod.mk.injEq, List.cons.injEq,
            true_and]
          constructor
          · apply List.filterMap_congr
            intro other member
            rw [erased other member]
          · congr 1
            apply List.filter_congr
            intro other member
            rw [erased other member]

/-- The matched rows of the source with what they match, in the order of the source and in the order
of the target. -/
theorem matches_perm (distinct : rows.Nodup)
    (found : ∀ found row, live.lookup found = some row ↔
      row ∈ rows ∧ sourceKey key source row.2 = some found) :
    (source.byKey.filterMap fun entry => (live.lookup entry.1).map fun row => (entry, row)).Perm
      (rows.filterMap fun row => (key.keyOf row.2).bind fun found =>
        (source.get found).map fun merged => ((found, merged), row)) := by
  apply (List.perm_ext_iff_of_nodup ?_ ?_).mpr
  · rintro ⟨⟨key', merged⟩, row⟩
    simp only [List.mem_filterMap, Option.map_eq_some_iff, Option.bind_eq_some_iff, Prod.mk.injEq,
      found, sourceKey_eq_some]
    constructor
    · rintro ⟨entry, member, _, ⟨row_member, keyed, -⟩, rfl, rfl⟩
      exact ⟨_, row_member, _, keyed, _, DedupedSource.get_eq_some.mpr member, ⟨rfl, rfl⟩, rfl⟩
    · rintro ⟨_, row_member, _, keyed, _, got, ⟨rfl, rfl⟩, rfl⟩
      refine ⟨_, DedupedSource.get_eq_some.mp got, _, ⟨row_member, keyed, ?_⟩, rfl, rfl⟩
      rw [got, Option.isSome_some]
  · apply source.distinct.of_map.filterMap
    intro left right both left_mem right_mem
    obtain ⟨_, -, rfl⟩ := Option.mem_map.mp left_mem
    obtain ⟨_, -, same⟩ := Option.mem_map.mp right_mem
    exact (congrArg Prod.fst same).symm
  · apply distinct.filterMap
    intro left right both left_mem right_mem
    obtain ⟨_, -, left_mem⟩ := Option.mem_bind_iff.mp left_mem
    obtain ⟨_, -, right_mem⟩ := Option.mem_bind_iff.mp right_mem
    obtain ⟨_, -, rfl⟩ := Option.mem_map.mp left_mem
    obtain ⟨_, -, same⟩ := Option.mem_map.mp right_mem
    exact (congrArg Prod.snd same).symm

theorem Snapshot.addressed_nodup (wellFormed : snapshot.WellFormed) : snapshot.addressed.Nodup :=
  (wellFormed.liveIds_nodup.of_map).of_map

theorem plans_merge (wellFormed : snapshot.WellFormed) {matched : List (Address × R)}
    {inserts : List R} (planned : planMerge snapshot key source = .ok (matched, inserts)) :
    (Statement.merge key source).Plans snapshot (matched.map Prod.fst)
      (matched.map fun row => (row.1.1, row.2)) inserts := by
  obtain ⟨live, probed, planned⟩ := Script.except_bind_eq_ok.mp planned
  have looked : ∀ found row, live.lookup found = some row ↔
      row ∈ snapshot.addressed ∧ sourceKey key source row.2 = some found :=
    fun _ _ => lookup_of_probe probed
  have routed := Except.ok.inj planned
  rw [routeRows_eq source.distinct live] at routed
  obtain ⟨rfl, rfl⟩ := Prod.mk.inj routed
  have perm := matches_perm (Snapshot.addressed_nodup wellFormed) looked
  constructor
  · intro address
    simp only [List.mem_map, List.mem_filterMap, Option.map_eq_some_iff, looked, sourceKey_eq_some,
      Statement.rewrite, Option.isSome_bind, Option.any_eq_true]
    constructor
    · rintro ⟨_, ⟨entry, -, row, ⟨member, keyed, got⟩, rfl⟩, rfl⟩
      exact ⟨row.2, member, entry.1, keyed, got⟩
    · rintro ⟨row, member, found, keyed, got⟩
      obtain ⟨merged, got_eq⟩ := Option.isSome_iff_exists.mp got
      exact ⟨_, ⟨(found, merged), DedupedSource.get_eq_some.mp got_eq, _, ⟨member, keyed, got⟩,
        rfl⟩, rfl⟩
  · have images := perm.map fun pair => (pair.2.1.1, pair.1.2.assign pair.2.2)
    rw [List.map_filterMap, List.map_filterMap] at images
    rw [List.map_filterMap, Rewrite.versions, Snapshot.liveRows, List.filterMap_map]
    convert images using 2
    · simp [Function.comp_def]
    · next row _ =>
      cases keyed : key.keyOf row.2 with
      | none => simp [Statement.rewrite, Rewrite.version, keyed]
      | some found =>
          cases got : source.get found with
          | none => simp [Statement.rewrite, Rewrite.version, keyed, got]
          | some merged => simp [Statement.rewrite, Rewrite.version, keyed, got]
  · rw [Statement.inserts]
    congr 1
    apply List.filter_congr
    intro entry member
    rw [Bool.eq_iff_iff, Bool.not_eq_true', Option.isNone_iff_eq_none, Bool.eq_false_iff, Ne,
      List.any_eq_true, Option.eq_none_iff_forall_ne_some]
    simp only [decide_eq_true_eq, ne_eq, looked, sourceKey_eq_some, Snapshot.liveRows,
      List.mem_map, not_and]
    constructor
    · rintro unmatched ⟨_, ⟨row, row_member, rfl⟩, keyed⟩
      apply unmatched row row_member keyed
      rw [DedupedSource.get_eq_some.mpr member, Option.isSome_some]
    · intro unmatched row row_member keyed
      exact absurd ⟨_, ⟨row, row_member, rfl⟩, keyed⟩ unmatched

end Merge

/-- What a client locates for its statement. -/
theorem plans_of_plan [DecidableEq K] {statement : Statement R K} (wellFormed : snapshot.WellFormed)
    {change : Option (Change R)} (planned : statement.plan snapshot = .ok change) :
    statement.Plans snapshot (change.elim [] Change.locs) (change.elim [] Change.patched)
      (change.elim [] Change.inserted) := by
  cases statement with
  | delete predicate =>
      obtain rfl := Except.ok.inj planned
      have located : ((if (locateMatches snapshot predicate).isEmpty then none
          else some (.deletes ((locateMatches snapshot predicate).map Prod.fst)) :
            Option (Change R)).elim [] Change.locs) =
          (locateMatches snapshot predicate).map Prod.fst := by
        cases locateMatches snapshot predicate <;> rfl
      constructor
      · intro address
        rw [located]
        exact mem_locs_locateMatches
      · have none_made : (Statement.delete predicate : Statement R K).rewrite.versions
            snapshot.liveRows = [] := by
          rw [Rewrite.versions, List.filterMap_eq_nil_iff]
          intro row _
          rw [Rewrite.version]
          split <;> rfl
        rw [none_made]
        split <;> exact .refl _
      · split <;> rfl
  | update predicate sets =>
      obtain rfl := Except.ok.inj planned
      have located : ∀ {α : Type} (part : Change R → List α), part (.update []) = [] →
          ((if (planUpdate snapshot predicate sets).isEmpty then none
            else some (.update (planUpdate snapshot predicate sets)) : Option (Change R)).elim []
              part) = part (.update (planUpdate snapshot predicate sets)) := by
        intro α part nothing
        cases rows_eq : planUpdate snapshot predicate sets with
        | nil => exact nothing.symm
        | cons row rows => rfl
      rw [located _ rfl, located _ rfl, located _ rfl]
      constructor
      · intro address
        rw [Change.locs, planUpdate, List.map_map]
        exact mem_locs_locateMatches
      · rw [Change.patched, planUpdate, locateMatches, List.map_map, Rewrite.versions,
          Snapshot.liveRows, List.filterMap_map]
        apply List.Perm.of_eq
        induction snapshot.addressed with
        | nil => rfl
        | cons row rows ih =>
            cases selected : predicate row.2 <;>
              simpa [Rewrite.version, Statement.rewrite, selected] using ih
      · rfl
  | merge key source =>
      obtain ⟨⟨matched, inserts⟩, merged, planned⟩ := Script.except_bind_eq_ok.mp planned
      obtain rfl := Except.ok.inj planned
      have plans := plans_merge wellFormed merged
      cases matched <;> cases inserts <;> exact plans

end IcefallDB
