import IcefallDB.Mutators
import IcefallDB.RowIndex.Segments

/-!
# Relocated rows

An update or a merge moves rows to a patch fragment and writes a delta of the row index.  Over a run
of changes, a lookup in the row index gives what the index gave at first, overridden by the
relocations of each change in turn.
-/

namespace IcefallDB

variable {R : Type}

/-! ## Relocations -/

/-- Where row ids live after rows are relocated. -/
def override (map : Nat → Option (Nat × Nat)) (relocated : List Address) :
    Nat → Option (Nat × Nat) :=
  relocated.foldl (fun map row => Function.update map row.1 (some row.2)) map

theorem override_eq (map : Nat → Option (Nat × Nat)) (relocated : List Address) (rowId : Nat) :
    override map relocated rowId = (lastAddress relocated rowId).or (map rowId) := by
  induction relocated using List.reverseRecOn with
  | nil => rfl
  | append_singleton relocated row ih =>
      rw [override, List.foldl_append, List.foldl_cons, List.foldl_nil, lastAddress_append,
        lastAddress_singleton]
      by_cases same : row.1 = rowId
      · subst same
        rw [Function.update_self, if_pos rfl]
        rfl
      · rw [Function.update_of_ne (Ne.symm same), if_neg same, Option.none_or]
        exact ih

/-- The row ids that a change relocates, in the order of the patch fragment. -/
def Change.relocatedIds : Change R → List Nat
  | .deletes _ => []
  | .update rows => (sortLocated rows).map fun row => row.1.1
  | .merge matched _ => (sortLocated matched).map fun row => row.1.1

/-- Where a change moves rows: to consecutive offsets of the next fragment. -/
def Change.relocated (snapshot : Snapshot R) (change : Change R) : List Address :=
  change.relocatedIds.zipIdx.map fun row => (row.1, snapshot.nextFragmentId, row.2)

/-- The relocations of changes that follow each other. -/
def relocations : Snapshot R → List (Change R) → List (List Address)
  | _, [] => []
  | snapshot, change :: changes =>
      change.relocated snapshot :: relocations (change.apply snapshot) changes

/-- The row index of a snapshot; it is empty if there is none. -/
def Snapshot.addressMap (snapshot : Snapshot R) : AddressMap :=
  snapshot.rowIndex.getD {}

/-! ## One delta -/

theorem pairwise_relocatedIds (change : Change R) :
    change.relocatedIds.Pairwise (· ≤ ·) := by
  have sorted : ∀ rows : List (Address × R),
      ((sortLocated rows).map fun row => row.1.1).Pairwise (· ≤ ·) := by
    intro rows
    apply List.pairwise_map.mpr
    exact List.pairwise_insertionSort (fun left right : Address × R => left.1.1 ≤ right.1.1) rows
  cases change with
  | deletes _ => exact List.Pairwise.nil
  | update rows => exact sorted rows
  | merge matched _ => exact sorted matched

/-- Offsets and row ids of the relocated rows are within their types, and no row has the largest row
id. -/
def Change.Relocatable (change : Change R) : Prop :=
  change.relocatedIds.length < 2 ^ 32 ∧ ∀ rowId ∈ change.relocatedIds, rowId < u64Max

theorem lookup_patchSegments {fragmentId : Nat} {rowIds : List Nat}
    (sorted : rowIds.Pairwise (· ≤ ·)) (few : rowIds.length < 2 ^ 32)
    (small : ∀ rowId ∈ rowIds, rowId < u64Max) (rowId : Nat) :
    lookupInBase (sortSegments (Writer.patchSegments fragmentId rowIds)) rowId =
      lastAddress (rowIds.zipIdx.map fun row => (row.1, fragmentId, row.2)) rowId := by
  have offsets : (rowIds.zipIdx.map fun row => (row.1, fragmentId, row.2 % 2 ^ 32)) =
      rowIds.zipIdx.map fun row => (row.1, fragmentId, row.2) := by
    apply List.map_congr_left
    intro row member
    have := List.snd_lt_of_mem_zipIdx member
    rw [Nat.mod_eq_of_lt (by omega)]
  have ascending : Ascending (Writer.patchSegments fragmentId rowIds) := by
    apply ascending_coalesce
    apply List.pairwise_map.mpr
    apply List.Pairwise.of_map (S := (· ≤ ·)) Prod.fst (fun _ _ => id)
    rwa [List.zipIdx_map_fst]
  rw [ascending.sortSegments_eq]
  by_cases large : rowId < u64Max
  · rw [lookupInBase_eq ascending large, Writer.patchSegments, listedRows_coalesce, offsets]
  · rw [lookupInBase_eq_none (by omega), lastAddress_eq_none]
    intro row member
    obtain ⟨source, listed, rfl⟩ := List.mem_map.mp member
    have := small source.1 (List.fst_mem_of_mem_zipIdx listed)
    dsimp only
    omega

theorem AddressMap.lookup_push (map : AddressMap) (delta : List AddrSegment) (rowId : Nat) :
    ({ map with deltas := map.deltas ++ [delta] } : AddressMap).lookup rowId =
      (lookupInBase delta rowId).or (map.lookup rowId) := by
  rw [lookup, lookup, List.reverse_concat, List.findSome?_cons]
  cases lookupInBase delta rowId <;> rfl

/-! ## Runs of changes -/

/-- A change overrides the row index by the rows that it relocates. -/
theorem lookup_apply (snapshot : Snapshot R) {change : Change R} (fits : change.Relocatable)
    (rowId : Nat) :
    (change.apply snapshot).addressMap.lookup rowId =
      override snapshot.addressMap.lookup (change.relocated snapshot) rowId := by
  have moved : ∀ patch : List (Address × R),
      change.relocatedIds = patch.map (fun row => row.1.1) →
        (relocate snapshot patch).lookup rowId =
          override snapshot.addressMap.lookup (change.relocated snapshot) rowId := by
    intro patch ids
    rw [override_eq, Change.relocated, ← lookup_patchSegments (pairwise_relocatedIds change) fits.1
      fits.2, ids]
    exact AddressMap.lookup_push _ _ _
  cases change with
  | deletes locs => rfl
  | update rows => exact moved (sortLocated rows) rfl
  | merge matched inserts =>
      have index : (Change.apply snapshot (.merge matched inserts)).addressMap =
          if (sortLocated matched).isEmpty then snapshot.addressMap
          else relocate snapshot (sortLocated matched) := by
        rw [Snapshot.addressMap, Change.apply]
        dsimp only [Snapshot.mutate, Snapshot.extend]
        split
        · rfl
        · rfl
      rw [index]
      split
      · next empty =>
          have none_moved : Change.relocated snapshot (.merge matched inserts) = [] := by
            rw [Change.relocated, Change.relocatedIds, List.isEmpty_iff.mp empty]
            rfl
          rw [none_moved]
          rfl
      · exact moved (sortLocated matched) rfl

/-- Over a run of changes, the row index is overridden by the relocations of each change in turn. -/
theorem lookup_foldl_apply (snapshot : Snapshot R) (changes : List (Change R))
    (fits : ∀ change ∈ changes, change.Relocatable) (rowId : Nat) :
    (changes.foldl Change.apply snapshot).addressMap.lookup rowId =
      (relocations snapshot changes).foldl override snapshot.addressMap.lookup rowId := by
  induction changes generalizing snapshot with
  | nil => rfl
  | cons change changes ih =>
      have first : (change.apply snapshot).addressMap.lookup =
          override snapshot.addressMap.lookup (change.relocated snapshot) :=
        funext (lookup_apply snapshot (fits change List.mem_cons_self))
      rw [List.foldl_cons, ih _ fun later member => fits later (List.mem_cons_of_mem _ member),
        relocations, List.foldl_cons, first]

/-! ## A row with the largest row id -/

namespace MovedRow

/-- A table of one row. -/
def table (rowId : Nat) : Snapshot Unit :=
  { fragments := [{ id := 1, rows := [(rowId, ())], deleted := ∅ }]
    nextFragmentId := 2
    nextRowId := u64Max
    rowIndex := some { base := [AddrSegment.single (rowId, 1, 0)] } }

/-- An update of the row. -/
def update (rowId : Nat) : Change Unit :=
  .update [((rowId, 1, 0), ())]

/-- The second update finds the row where the first one moved it. -/
theorem lookup_foldl_seven :
    let changes := [update 7, .update [((7, 2, 0), ())]]
    (changes.foldl Change.apply (table 7)).addressMap.lookup 7 =
        (relocations (table 7) changes).foldl override (table 7).addressMap.lookup 7 ∧
      (relocations (table 7) changes).foldl override (table 7).addressMap.lookup 7 =
        some (3, 0) := by
  refine ⟨lookup_foldl_apply _ _ ?_ 7, by decide⟩
  intro change member
  rcases List.mem_cons.mp member with rfl | later
  · exact ⟨by decide, by decide⟩
  · obtain rfl := List.mem_singleton.mp later
    exact ⟨by decide, by decide⟩

/-- The row with the largest row id is moved, but its row id is not found any more. -/
theorem lookup_foldl_largest :
    ([update u64Max].foldl Change.apply (table u64Max)).addressMap.lookup u64Max = none ∧
      (relocations (table u64Max) [update u64Max]).foldl override (table u64Max).addressMap.lookup
        u64Max = some (2, 0) := by
  constructor
  · decide
  · decide

end MovedRow

end IcefallDB
