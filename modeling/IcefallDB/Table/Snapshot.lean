import IcefallDB.RowIndex

/-!
# Snapshots

What a manifest means: fragments of rows that carry stable row ids, some of them deleted, and the
counters from which the next ids are allocated.  This is the level at which commits are simple: they
delete rows in place and add fragments at the end.
-/

namespace IcefallDB

/-- A fragment with its contents. -/
structure Fragment (R : Type) where
  id : Nat
  /-- Physical rows with their row ids. -/
  rows : List (Nat × R)
  /-- Offsets of the deleted rows. -/
  deleted : DeletionVector

/-- The contents of a table. -/
structure Snapshot (R : Type) where
  fragments : List (Fragment R)
  nextFragmentId : Nat
  nextRowId : Nat
  /-- The row index, if the snapshot has one. -/
  rowIndex : Option AddressMap

variable {R : Type}

namespace Fragment

/-- The live rows with their addresses, in physical order. -/
def addressed (fragment : Fragment R) : List (Address × R) :=
  (fragment.rows.zipIdx.filter fun row => row.2 ∉ fragment.deleted).map fun row =>
    ((row.1.1, fragment.id, row.2), row.1.2)

theorem mem_addressed {fragment : Fragment R} {address : Address} {row : R} :
    (address, row) ∈ fragment.addressed ↔
      address.2.1 = fragment.id ∧ address.2.2 ∉ fragment.deleted ∧
        fragment.rows[address.2.2]? = some (address.1, row) := by
  obtain ⟨rowId, fragmentId, offset⟩ := address
  simp only [addressed, List.mem_map, List.mem_filter, decide_eq_true_eq, Prod.mk.injEq]
  constructor
  · rintro ⟨⟨⟨id, contents⟩, position⟩, ⟨member, live⟩, ⟨rfl, rfl, rfl⟩, rfl⟩
    exact ⟨rfl, live, List.mk_mem_zipIdx_iff_getElem?.mp member⟩
  · rintro ⟨rfl, live, found⟩
    exact ⟨((rowId, row), offset), ⟨List.mk_mem_zipIdx_iff_getElem?.mpr found, live⟩,
      ⟨rfl, rfl, rfl⟩, rfl⟩

/-- The fragment with more rows deleted. -/
def delete (offsets : DeletionVector) (fragment : Fragment R) : Fragment R :=
  { fragment with deleted := fragment.deleted ∪ offsets }

theorem addressed_delete_sublist (offsets : DeletionVector) (fragment : Fragment R) :
    (fragment.delete offsets).addressed.Sublist fragment.addressed := by
  refine List.Sublist.map _ ?_
  have fewer : (fragment.rows.zipIdx.filter fun row => row.2 ∉ fragment.deleted ∪ offsets) =
      (fragment.rows.zipIdx.filter fun row => row.2 ∉ fragment.deleted).filter fun row =>
        row.2 ∉ offsets := by
    rw [List.filter_filter]
    refine List.filter_congr fun row _ => ?_
    simp [not_or, Bool.and_comm]
  rw [delete, fewer]
  exact List.filter_sublist

end Fragment

/-- New fragments with consecutive fragment ids and no deleted rows. -/
def newFragments : Nat → List (List (Nat × R)) → List (Fragment R)
  | _, [] => []
  | fragmentId, rows :: rest =>
      { id := fragmentId, rows, deleted := ∅ } :: newFragments (fragmentId + 1) rest

theorem newFragments_ids (fragmentId : Nat) (added : List (List (Nat × R))) :
    (newFragments fragmentId added).map Fragment.id = List.range' fragmentId added.length := by
  induction added generalizing fragmentId with
  | nil => rfl
  | cons rows added ih => simp [newFragments, ih, List.range'_succ]

theorem newFragments_rows (fragmentId : Nat) (added : List (List (Nat × R))) :
    (newFragments fragmentId added).map Fragment.rows = added := by
  induction added generalizing fragmentId with
  | nil => rfl
  | cons rows added ih => simp [newFragments, ih]

/-- Rows with consecutive new row ids. -/
def numberRows (rowId : Nat) (rows : List R) : List (Nat × R) :=
  (List.range' rowId rows.length).zip rows

variable (rowId : Nat)

@[simp]
theorem numberRows_ids (rows : List R) :
    (numberRows rowId rows).map Prod.fst = List.range' rowId rows.length := by
  rw [numberRows, List.map_fst_zip]
  simp

@[simp]
theorem numberRows_rows (rows : List R) : (numberRows rowId rows).map Prod.snd = rows := by
  rw [numberRows, List.map_snd_zip]
  simp

@[simp]
theorem length_numberRows (rows : List R) : (numberRows rowId rows).length = rows.length := by
  simp [numberRows]

/-- Row groups with consecutive new row ids. -/
def numberGroups : Nat → List (List R) → List (List (Nat × R))
  | _, [] => []
  | rowId, rows :: rest => numberRows rowId rows :: numberGroups (rowId + rows.length) rest

theorem numberGroups_ids (groups : List (List R)) :
    (numberGroups rowId groups).flatten.map Prod.fst = List.range' rowId groups.flatten.length := by
  induction groups generalizing rowId with
  | nil => rfl
  | cons rows groups ih =>
      simp [numberGroups, ih, List.range'_append_1]

@[simp]
theorem length_numberGroups (groups : List (List R)) :
    (numberGroups rowId groups).length = groups.length := by
  induction groups generalizing rowId with
  | nil => rfl
  | cons rows groups ih => simp [numberGroups, ih]

namespace Snapshot

/-- The live rows with their addresses. -/
def addressed (snapshot : Snapshot R) : List (Address × R) :=
  snapshot.fragments.flatMap Fragment.addressed

/-- The addresses of the live rows. -/
def addresses (snapshot : Snapshot R) : List Address :=
  snapshot.addressed.map Prod.fst

/-- The row ids of the live rows. -/
def liveIds (snapshot : Snapshot R) : List Nat :=
  snapshot.addresses.map Prod.fst

/-- The live rows with their row ids. -/
def liveRows (snapshot : Snapshot R) : List (Nat × R) :=
  snapshot.addressed.map fun row => (row.1.1, row.2)

theorem liveRows_ids (snapshot : Snapshot R) :
    snapshot.liveRows.map Prod.fst = snapshot.liveIds := by
  simp [liveRows, liveIds, addresses]

/-! ## The id invariant -/

/-- Fragment ids are distinct and below their counter, row ids are below theirs, and no row id is
live twice. -/
structure WellFormed (snapshot : Snapshot R) : Prop where
  fragmentIds_nodup : (snapshot.fragments.map Fragment.id).Nodup
  fragmentIds_lt : ∀ fragment ∈ snapshot.fragments, fragment.id < snapshot.nextFragmentId
  rowIds_lt : ∀ fragment ∈ snapshot.fragments, ∀ row ∈ fragment.rows, row.1 < snapshot.nextRowId
  liveIds_nodup : snapshot.liveIds.Nodup

/-- The contents of a table without rows. -/
def empty : Snapshot R :=
  { fragments := [], nextFragmentId := 0, nextRowId := 0, rowIndex := none }

theorem WellFormed.empty : (empty : Snapshot R).WellFormed where
  fragmentIds_nodup := List.nodup_nil
  fragmentIds_lt := by simp [Snapshot.empty]
  rowIds_lt := by simp [Snapshot.empty]
  liveIds_nodup := List.nodup_nil

variable {snapshot : Snapshot R}

theorem liveIds_lt (wellFormed : snapshot.WellFormed) {rowId : Nat}
    (live : rowId ∈ snapshot.liveIds) : rowId < snapshot.nextRowId := by
  simp only [liveIds, addresses, addressed, List.mem_map, List.mem_flatMap] at live
  obtain ⟨_, ⟨⟨address, row⟩, ⟨fragment, member, addressed⟩, rfl⟩, rfl⟩ := live
  have found := (Fragment.mem_addressed.mp addressed).2.2
  exact wellFormed.rowIds_lt fragment member _ (List.mem_of_getElem? found)

/-- A live row id determines its address. -/
theorem address_unique (wellFormed : snapshot.WellFormed) {left right : Address}
    (left_live : left ∈ snapshot.addresses) (right_live : right ∈ snapshot.addresses)
    (same : left.1 = right.1) : left = right :=
  List.inj_on_of_nodup_map wellFormed.liveIds_nodup left_live right_live same

/-! ## Deleting rows -/

/-- Delete rows by fragment. -/
def delete (snapshot : Snapshot R) (requested : Nat → DeletionVector) : Snapshot R :=
  { snapshot with
    fragments := snapshot.fragments.map fun fragment => fragment.delete (requested fragment.id) }

theorem addressed_delete_sublist (snapshot : Snapshot R) (requested : Nat → DeletionVector) :
    (snapshot.delete requested).addressed.Sublist snapshot.addressed := by
  rw [addressed, addressed, delete]
  induction snapshot.fragments with
  | nil => exact List.Sublist.slnil
  | cons fragment fragments ih =>
      exact (Fragment.addressed_delete_sublist (requested fragment.id) fragment).append ih

theorem mem_addressed_delete {requested : Nat → DeletionVector} {address : Address} {row : R} :
    (address, row) ∈ (snapshot.delete requested).addressed ↔
      (address, row) ∈ snapshot.addressed ∧ address.2.2 ∉ requested address.2.1 := by
  simp only [addressed, delete, List.mem_flatMap, List.mem_map, exists_exists_and_eq_and,
    Fragment.mem_addressed, Fragment.delete, Finset.mem_union, not_or]
  constructor
  · rintro ⟨fragment, member, same, ⟨live, kept⟩, found⟩
    exact ⟨⟨fragment, member, same, live, found⟩, same ▸ kept⟩
  · rintro ⟨⟨fragment, member, same, live, found⟩, kept⟩
    exact ⟨fragment, member, same, ⟨live, same ▸ kept⟩, found⟩

theorem WellFormed.delete {snapshot : Snapshot R} (wellFormed : snapshot.WellFormed)
    (requested : Nat → DeletionVector) : (snapshot.delete requested).WellFormed where
  fragmentIds_nodup := by
    have same : (snapshot.delete requested).fragments.map Fragment.id =
        snapshot.fragments.map Fragment.id := by
      simp [Snapshot.delete, Fragment.delete]
    rw [same]
    exact wellFormed.fragmentIds_nodup
  fragmentIds_lt := by
    intro fragment member
    obtain ⟨old, old_member, rfl⟩ := List.mem_map.mp member
    exact wellFormed.fragmentIds_lt old old_member
  rowIds_lt := by
    intro fragment member
    obtain ⟨old, old_member, rfl⟩ := List.mem_map.mp member
    exact wellFormed.rowIds_lt old old_member
  liveIds_nodup := by
    have fewer := addressed_delete_sublist snapshot requested
    exact wellFormed.liveIds_nodup.sublist ((fewer.map _).map _)

/-! ## Adding fragments -/

/-- Add fragments at the end. -/
def extend (snapshot : Snapshot R) (added : List (List (Nat × R))) (nextRowId : Nat)
    (rowIndex : Option AddressMap) : Snapshot R :=
  { fragments := snapshot.fragments ++ newFragments snapshot.nextFragmentId added
    nextFragmentId := snapshot.nextFragmentId + added.length
    nextRowId
    rowIndex }

theorem liveIds_newFragments (fragmentId : Nat) (added : List (List (Nat × R))) :
    (((newFragments fragmentId added).flatMap Fragment.addressed).map Prod.fst).map Prod.fst =
      added.flatten.map Prod.fst := by
  induction added generalizing fragmentId with
  | nil => rfl
  | cons rows added ih =>
      have head : (({ id := fragmentId, rows, deleted := ∅ } : Fragment R).addressed.map
          Prod.fst).map Prod.fst = rows.map Prod.fst := by
        have positions : rows.zipIdx.map (fun row => row.1.1) = rows.map Prod.fst := by
          calc rows.zipIdx.map (fun row => row.1.1)
              = (rows.zipIdx.map Prod.fst).map Prod.fst := by rw [List.map_map]; rfl
            _ = rows.map Prod.fst := by rw [List.zipIdx_map_fst]
        simpa [Fragment.addressed, Function.comp_def] using positions
      simp only [newFragments, List.flatMap_cons, List.map_append, List.flatten_cons, head, ih]

theorem liveIds_extend (snapshot : Snapshot R) (added : List (List (Nat × R))) (nextRowId : Nat)
    (rowIndex : Option AddressMap) :
    (snapshot.extend added nextRowId rowIndex).liveIds =
      snapshot.liveIds ++ added.flatten.map Prod.fst := by
  simp only [liveIds, addresses, addressed, extend, List.flatMap_append, List.map_append,
    liveIds_newFragments]

/-- Adding fragments whose row ids are neither live nor repeated keeps the invariant. -/
theorem WellFormed.extend {snapshot : Snapshot R} (wellFormed : snapshot.WellFormed)
    {added : List (List (Nat × R))} {nextRowId : Nat} (grows : snapshot.nextRowId ≤ nextRowId)
    (below : ∀ row ∈ added.flatten, row.1 < nextRowId) (distinct : (added.flatten.map Prod.fst).Nodup)
    (unused : ∀ row ∈ added.flatten, row.1 ∉ snapshot.liveIds) (rowIndex : Option AddressMap) :
    (snapshot.extend added nextRowId rowIndex).WellFormed where
  fragmentIds_nodup := by
    simp only [Snapshot.extend, List.map_append, newFragments_ids]
    refine List.Nodup.append wellFormed.fragmentIds_nodup (List.nodup_range' ..) ?_
    intro fragmentId old new
    obtain ⟨fragment, member, rfl⟩ := List.mem_map.mp old
    have := wellFormed.fragmentIds_lt fragment member
    have := List.mem_range'_1.mp new
    omega
  fragmentIds_lt := by
    intro fragment member
    simp only [Snapshot.extend] at member ⊢
    rcases List.mem_append.mp member with old | new
    · have := wellFormed.fragmentIds_lt fragment old
      omega
    · have new_id := List.mem_map_of_mem (f := Fragment.id) new
      rw [newFragments_ids] at new_id
      have := List.mem_range'_1.mp new_id
      omega
  rowIds_lt := by
    intro fragment member row row_member
    rcases List.mem_append.mp member with old | new
    · have := wellFormed.rowIds_lt fragment old row row_member
      exact lt_of_lt_of_le this grows
    · have new_rows := List.mem_map_of_mem (f := Fragment.rows) new
      rw [newFragments_rows] at new_rows
      exact below row (List.mem_flatten.mpr ⟨_, new_rows, row_member⟩)
  liveIds_nodup := by
    rw [liveIds_extend]
    refine List.Nodup.append wellFormed.liveIds_nodup distinct ?_
    intro rowId live new
    obtain ⟨row, member, rfl⟩ := List.mem_map.mp new
    exact unused row member live

/-! ## What commits do -/

/-- Append row groups under new row ids.  The row index is given up. -/
def append (snapshot : Snapshot R) (groups : List (List R)) : Snapshot R :=
  snapshot.extend (numberGroups snapshot.nextRowId groups)
    (snapshot.nextRowId + groups.flatten.length) none

/-- Replace all fragments by new row groups. -/
def replace (snapshot : Snapshot R) (groups : List (List R)) : Snapshot R :=
  ({ snapshot with fragments := [] } : Snapshot R).append groups

/-- Locations that a mutation deletes, by fragment. -/
def locatedOffsets (locs : List (Nat × Nat)) (fragmentId : Nat) : DeletionVector :=
  ((locs.filter fun loc => loc.1 = fragmentId).map Prod.snd).toFinset

theorem mem_locatedOffsets {locs : List (Nat × Nat)} {fragmentId offset : Nat} :
    offset ∈ locatedOffsets locs fragmentId ↔ (fragmentId, offset) ∈ locs := by
  simp [locatedOffsets]

/-- Move rows to a patch fragment under their old row ids, and insert rows under new ones. -/
def mutate (snapshot : Snapshot R) (patch : List (Address × R)) (inserts : List R)
    (rowIndex : Option AddressMap) : Snapshot R :=
  (snapshot.delete (locatedOffsets (patch.map fun row => row.1.2))).extend
    ((if patch.isEmpty then [] else [patch.map fun row => (row.1.1, row.2)]) ++
      if inserts.isEmpty then [] else [numberRows snapshot.nextRowId inserts])
    (snapshot.nextRowId + inserts.length) rowIndex

private theorem wellFormed_withoutFragments {snapshot : Snapshot R} :
    ({ snapshot with fragments := [] } : Snapshot R).WellFormed where
  fragmentIds_nodup := List.nodup_nil
  fragmentIds_lt := by simp
  rowIds_lt := by simp
  liveIds_nodup := List.nodup_nil

theorem WellFormed.append (wellFormed : snapshot.WellFormed) (groups : List (List R)) :
    (snapshot.append groups).WellFormed := by
  have new_ids := numberGroups_ids snapshot.nextRowId groups
  have bounds : ∀ row ∈ (numberGroups snapshot.nextRowId groups).flatten,
      snapshot.nextRowId ≤ row.1 ∧ row.1 < snapshot.nextRowId + groups.flatten.length := by
    intro row member
    have id_member := List.mem_map_of_mem (f := Prod.fst) member
    rw [new_ids] at id_member
    exact List.mem_range'_1.mp id_member
  refine wellFormed.extend (Nat.le_add_right _ _) (fun row member => (bounds row member).2) ?_ ?_ _
  · rw [new_ids]
    exact List.nodup_range' ..
  · intro row member live
    have := liveIds_lt wellFormed live
    have := (bounds row member).1
    omega

theorem WellFormed.replace (snapshot : Snapshot R) (groups : List (List R)) :
    (snapshot.replace groups).WellFormed :=
  wellFormed_withoutFragments.append groups

/-- The rows to move are live, each at its address, and no row is moved twice. -/
structure Moves (snapshot : Snapshot R) (moved : List Address) : Prop where
  live : ∀ address ∈ moved, address ∈ snapshot.addresses
  distinct : moved.Nodup

theorem Moves.ids_nodup (wellFormed : snapshot.WellFormed) {moved : List Address}
    (moves : snapshot.Moves moved) : (moved.map Prod.fst).Nodup := by
  refine List.Nodup.map_on ?_ moves.distinct
  intro left left_moved right right_moved same
  exact address_unique wellFormed (moves.live left left_moved) (moves.live right right_moved) same

theorem mem_addresses_delete {requested : Nat → DeletionVector} {address : Address} :
    address ∈ (snapshot.delete requested).addresses ↔
      address ∈ snapshot.addresses ∧ address.2.2 ∉ requested address.2.1 := by
  simp only [addresses, List.mem_map, Prod.exists, exists_and_right, exists_eq_right,
    mem_addressed_delete]

/-- A row that is moved away is not live where it was. -/
theorem moved_not_live (wellFormed : snapshot.WellFormed) {moved : List Address}
    (moves : snapshot.Moves moved) {address : Address} (member : address ∈ moved) :
    address.1 ∉ (snapshot.delete (locatedOffsets (moved.map Prod.snd))).liveIds := by
  intro live
  obtain ⟨other, other_live, same⟩ := List.mem_map.mp live
  obtain ⟨was_live, kept⟩ := mem_addresses_delete.mp other_live
  have same_address := address_unique wellFormed was_live (moves.live address member) same
  subst same_address
  exact kept (mem_locatedOffsets.mpr (List.mem_map_of_mem member))

theorem WellFormed.mutate (wellFormed : snapshot.WellFormed) {patch : List (Address × R)}
    (moves : snapshot.Moves (patch.map Prod.fst)) (inserts : List R) (rowIndex : Option AddressMap) :
    (snapshot.mutate patch inserts rowIndex).WellFormed := by
  let added := (if patch.isEmpty then [] else [patch.map fun row => (row.1.1, row.2)]) ++
    if inserts.isEmpty then [] else [numberRows snapshot.nextRowId inserts]
  have added_ids : added.flatten.map Prod.fst =
      (patch.map Prod.fst).map Prod.fst ++ List.range' snapshot.nextRowId inserts.length := by
    cases patch <;> cases inserts <;> simp [added, Function.comp_def]
  have moved_lt : ∀ rowId ∈ (patch.map Prod.fst).map Prod.fst, rowId < snapshot.nextRowId := by
    intro rowId member
    obtain ⟨address, moved, rfl⟩ := List.mem_map.mp member
    exact liveIds_lt wellFormed (List.mem_map_of_mem (moves.live address moved))
  have each_added : ∀ row ∈ added.flatten, row.1 ∈ (patch.map Prod.fst).map Prod.fst ∨
      snapshot.nextRowId ≤ row.1 ∧ row.1 < snapshot.nextRowId + inserts.length := by
    intro row member
    have id_member := List.mem_map_of_mem (f := Prod.fst) member
    rw [added_ids] at id_member
    rcases List.mem_append.mp id_member with moved | inserted
    · exact .inl moved
    · exact .inr (List.mem_range'_1.mp inserted)
  have remaining := wellFormed.delete (locatedOffsets (patch.map fun row => row.1.2))
  refine remaining.extend (Nat.le_add_right _ _) ?_ ?_ ?_ rowIndex
  · intro row member
    rcases each_added row member with moved | inserted
    · exact Nat.lt_add_right _ (moved_lt _ moved)
    · exact inserted.2
  · rw [added_ids]
    refine List.Nodup.append (moves.ids_nodup wellFormed) (List.nodup_range' ..) ?_
    intro rowId moved inserted
    have := moved_lt rowId moved
    have := List.mem_range'_1.mp inserted
    omega
  · intro row member live
    rcases each_added row member with moved | inserted
    · obtain ⟨address, address_moved, same⟩ := List.mem_map.mp moved
      have gone := moved_not_live wellFormed moves address_moved
      rw [List.map_map] at gone
      exact gone (same ▸ live)
    · have := liveIds_lt remaining live
      have counter : (snapshot.delete
        (locatedOffsets (patch.map fun row => row.1.2))).nextRowId = snapshot.nextRowId := rfl
      omega

end Snapshot

end IcefallDB
