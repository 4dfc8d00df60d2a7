import IcefallDB.RowIndex.Segments
import IcefallDB.Table.Represents
import Mathlib

/-!
# Deriving the row index

The base of a row index is derived from the row ids and deletion vectors of the fragments of a
manifest.  Where the walk over the fragments lists their live rows and the largest row id is not
live, the derived segments are exact, and so a rebuilt row index passes its check.
-/

namespace IcefallDB

/-! ## Rows of fragments -/

/-- What the files of a row group say about its rows. -/
structure FragmentRows where
  id : Nat
  rowIds : List RowIdSegment
  deleted : DeletionVector

/-- The live rows of a fragment with their addresses. -/
def FragmentRows.live (fragment : FragmentRows) : List Address :=
  ((expand fragment.rowIds).zipIdx.filter fun row => row.2 ∉ fragment.deleted).map
    fun row => (row.1, fragment.id, row.2)

/-- The live rows of fragments with their addresses. -/
def liveAddressesOf (fragments : List FragmentRows) : List Address :=
  fragments.flatMap FragmentRows.live

/-- The rows of a fragment that a walk lists as live. -/
def FragmentRows.walked (fragment : FragmentRows) : List Address :=
  liveAddresses fragment.id (expandWrapping fragment.rowIds) fragment.deleted

/-- The rows of fragments that a walk lists as live. -/
def walkedAddressesOf (fragments : List FragmentRows) : List Address :=
  fragments.flatMap FragmentRows.walked

variable {R : Type}

/-- A walk over the rows of a fragment does not overflow: neither the end of a range of row ids nor
the counter of offsets. -/
def Walkable (segments : List RowIdSegment) : Prop :=
  (∀ segment ∈ segments, segment.EndsWithin64) ∧ (expand segments).length < 2 ^ 32

theorem FragmentRows.walked_eq_live {fragment : FragmentRows} (fits : Walkable fragment.rowIds) :
    fragment.walked = fragment.live := by
  have offset_eq : ∀ row ∈ (expand fragment.rowIds).zipIdx, row.2 % 2 ^ 32 = row.2 := by
    intro row member
    have below := List.snd_lt_add_of_mem_zipIdx member
    exact Nat.mod_eq_of_lt (by have := fits.2; omega)
  rw [walked, liveAddresses, expandWrapping_eq fits.1, live]
  have kept : ((expand fragment.rowIds).zipIdx.filter
      fun row => row.2 % 2 ^ 32 ∉ fragment.deleted) =
        (expand fragment.rowIds).zipIdx.filter fun row => row.2 ∉ fragment.deleted := by
    apply List.filter_congr
    intro row member
    rw [offset_eq row member]
  rw [kept]
  apply List.map_congr_left
  intro row member
  rw [offset_eq row (List.mem_of_mem_filter member)]

variable {fragments : List FragmentRows}

/-- A walk that does not overflow lists the live rows. -/
theorem walkedAddressesOf_eq (fits : ∀ fragment ∈ fragments, Walkable fragment.rowIds) :
    walkedAddressesOf fragments = liveAddressesOf fragments :=
  List.flatMap_congr fun fragment member => FragmentRows.walked_eq_live (fits fragment member)

/-- The files of a row group have the names that commits give them, and hold the fragment's row ids
and deletions. -/
structure HoldsRowIds (storage : TableStorage R) (entry : RowGroupEntry)
    (fragment : FragmentRows) : Prop where
  named : entry.Named
  id : entry.fragmentId = fragment.id
  sidecar : ∃ sidecar, storage.files.lookup entry.metaFile = some (.sidecar sidecar) ∧
    sidecar.rowIds = fragment.rowIds
  deletions : deletionsOf storage entry = some fragment.deleted

/-! ## Checking -/

/-- Check that the row index has the address of a row. -/
def checkAddress (map : AddressMap) (row : Address) : TableProgram R Unit :=
  match map.lookup row.1 with
  | some place =>
      Script.ensure (place = row.2) (.other ("verify: row_id " ++ toString row.1
        ++ " mismatch — on-disk map says (fragment=" ++ toString place.1 ++ ", offset="
        ++ toString place.2 ++ ") but fresh derive says (fragment=" ++ toString row.2.1
        ++ ", offset=" ++ toString row.2.2 ++ ")"))
  | none =>
      Script.fail (.other ("verify: row_id " ++ toString row.1
        ++ " is present in the fresh derive (fragment=" ++ toString row.2.1 ++ ", offset="
        ++ toString row.2.2 ++ ") but the on-disk map cannot resolve it"))

/-- Check the row index of a manifest against a fresh derivation. -/
def verifyRowIndex (manifest : Manifest) : TableProgram R Unit := do
  let fresh ← deriveBase manifest
  match manifest.rowindexGeneration with
  | none =>
      Script.ensure fresh.isEmpty (.other ("verify: manifest has no rowindex_generation but the "
        ++ "table has live rows; run rebuild first"))
  | some generation => do
      let map ← AddressMap.load generation
      Script.each (checkAddress map) (listedRows fresh)

section

variable {storage : TableStorage R} {entry : RowGroupEntry} {fragment : FragmentRows}

/-! ## Reading the live rows -/

theorem readFile_eq {path : String} {contents : File R}
    (found : storage.files.lookup path = some contents) :
    (readFile path : TableProgram R _) storage = ([], .ok contents) := by
  simp [readFile, bind, Script.andThen, Script.read, found, pure]

theorem readEntryDeletions_eq (holds : HoldsRowIds storage entry fragment) :
    readEntryDeletions entry storage = ([], .ok fragment.deleted) := by
  rcases deletionsOf_eq_some.mp holds.deletions with ⟨absent, same⟩ | ⟨path, named, found⟩
  · rw [readEntryDeletions, absent, ← same]
    rfl
  · rw [readEntryDeletions, named]
    exact Script.bind_of_silent (readFile_eq found)

theorem readLiveAddresses_eq (holds : HoldsRowIds storage entry fragment) :
    readLiveAddresses entry storage = ([], .ok fragment.walked) := by
  obtain ⟨sidecar, found, rowIds⟩ := holds.sidecar
  have read : (readSidecar entry.metaFile : TableProgram R _) storage = ([], .ok sidecar) :=
    Script.bind_of_silent (readFile_eq found)
  rw [readLiveAddresses, Script.bind_of_silent read,
    Script.bind_of_silent (readEntryDeletions_eq holds), rowIds, holds.id]
  rfl

theorem collect_readLiveAddresses {entries : List RowGroupEntry}
    (holds : List.Forall₂ (HoldsRowIds storage) entries fragments) :
    Script.collect readLiveAddresses entries storage =
      ([], .ok (fragments.map FragmentRows.walked)) := by
  induction holds with
  | nil => rfl
  | cons first rest ih =>
      rw [Script.collect, Script.bind_of_silent (readLiveAddresses_eq first),
        Script.bind_of_silent ih]
      rfl

/-! ## Deriving -/

/-- The rows that a walk lists, by ascending row id. -/
def sortedWalk (fragments : List FragmentRows) : List Address :=
  (walkedAddressesOf fragments).insertionSort fun left right => left.1 ≤ right.1

theorem sortedWalk_perm (fragments : List FragmentRows) :
    (sortedWalk fragments).Perm (walkedAddressesOf fragments) :=
  List.perm_insertionSort _ _

theorem pairwise_sortedWalk (fragments : List FragmentRows) :
    (sortedWalk fragments).Pairwise fun left right => left.1 ≤ right.1 :=
  List.pairwise_insertionSort (fun left right : Address => left.1 ≤ right.1) _

/-- In a sorted list, equal row ids are next to each other. -/
theorem firstDuplicate_eq_none {rows : List Address}
    (sorted : rows.Pairwise fun left right => left.1 ≤ right.1) :
    firstDuplicate rows = none ↔ rows.Pairwise fun left right => left.1 < right.1 := by
  induction rows using firstDuplicate.induct with
  | case1 first second rest same =>
      rw [firstDuplicate, if_pos same]
      constructor
      · intro impossible
        cases impossible
      · intro strict
        have := (List.pairwise_cons.mp strict).1 second List.mem_cons_self
        omega
  | case2 first second rest different ih =>
      obtain ⟨below, sorted⟩ := List.pairwise_cons.mp sorted
      rw [firstDuplicate, if_neg different, ih sorted]
      constructor
      · intro strict
        refine List.pairwise_cons.mpr ⟨?_, strict⟩
        have next := below second List.mem_cons_self
        intro row member
        rcases List.mem_cons.mp member with rfl | later
        · omega
        · have := (List.pairwise_cons.mp strict).1 row later
          omega
      · exact fun strict => (List.pairwise_cons.mp strict).2
  | case3 rows short =>
      match rows, short with
      | [], _ => simp [firstDuplicate]
      | [row], _ => simp [firstDuplicate]
      | first :: second :: rest, short => exact absurd rfl (short first second rest)

theorem nodup_iff_strict (fragments : List FragmentRows) :
    ((walkedAddressesOf fragments).map Prod.fst).Nodup ↔
      (sortedWalk fragments).Pairwise fun left right => left.1 < right.1 := by
  rw [← ((sortedWalk_perm fragments).map Prod.fst).nodup_iff, List.Nodup, List.pairwise_map]
  constructor
  · intro distinct
    exact (pairwise_sortedWalk fragments).imp₂ (fun _ _ le ne => lt_of_le_of_ne le ne) distinct
  · exact fun strict => strict.imp Nat.ne_of_lt

/-- Deriving reads the files only, and it fails if the walk lists a row id twice. -/
theorem deriveBase_eq {manifest : Manifest}
    (holds : List.Forall₂ (HoldsRowIds storage) manifest.rowGroups fragments) :
    ∃ result, deriveBase manifest storage = ([], result) ∧
      (result = .ok (coalesce (sortedWalk fragments)) ∧
          ((walkedAddressesOf fragments).map Prod.fst).Nodup ∨
        (∃ failure, result = .error failure) ∧
          ¬((walkedAddressesOf fragments).map Prod.fst).Nodup) := by
  rw [deriveBase, Script.bind_of_silent (collect_readLiveAddresses holds)]
  have sorted_eq : ((fragments.map FragmentRows.walked).flatten.insertionSort
      fun left right => left.1 ≤ right.1) = sortedWalk fragments := rfl
  rw [sorted_eq]
  cases duplicate : firstDuplicate (sortedWalk fragments) with
  | none =>
      have strict := (firstDuplicate_eq_none (pairwise_sortedWalk fragments)).mp duplicate
      exact ⟨_, rfl, .inl ⟨rfl, (nodup_iff_strict fragments).mpr strict⟩⟩
  | some rowId =>
      refine ⟨_, rfl, .inr ⟨⟨_, rfl⟩, fun distinct => ?_⟩⟩
      have unique := (firstDuplicate_eq_none (pairwise_sortedWalk fragments)).mpr
        ((nodup_iff_strict fragments).mp distinct)
      rw [unique] at duplicate
      cases duplicate

/-! ## Exactness -/

/-- The row index that is derived from a manifest is exact: deriving fails just if a row id is live
twice, the segments are in order and apart from each other and find the live rows and no others, and
a rebuilt row index passes its check. -/
structure DerivesExactly (storage : TableStorage R) (manifest : Manifest)
    (fragments : List FragmentRows) : Prop where
  fails_iff : (∃ failure, (deriveBase manifest storage).2 = .error failure) ↔
    ¬((liveAddressesOf fragments).map Prod.fst).Nodup
  apart : ∀ segments, (deriveBase manifest storage).2 = .ok segments →
    segments.Pairwise fun left right => left.startRowId + left.len ≤ right.startRowId
  finds_iff : ∀ segments, (deriveBase manifest storage).2 = .ok segments →
    ∀ rowId place, lookupInBase segments rowId = some place ↔
      (rowId, place) ∈ liveAddressesOf fragments
  verifies : ∀ segments, (deriveBase manifest storage).2 = .ok segments →
    ∃ generation after, (rebuildRowIndex manifest).Ends storage generation after ∧
      (verifyRowIndex { manifest with rowindexGeneration := some generation }).Ends after () after

theorem pairwise_apart {segments : List AddrSegment}
    (positive : ∀ segment ∈ segments, 0 < segment.len)
    (strict : (listedRows segments).Pairwise fun left right => left.1 < right.1) :
    segments.Pairwise fun left right => left.startRowId + left.len ≤ right.startRowId := by
  rw [listedRows, List.pairwise_flatMap] at strict
  apply strict.2.imp_of_mem
  intro left right member member' before
  have last : (left.startRowId + (left.len - 1), left.fragmentId,
      left.startOffset + (left.len - 1)) ∈ left.rows :=
    AddrSegment.mem_rows.mpr ⟨left.len - 1, Nat.sub_lt (positive left member) Nat.one_pos, rfl⟩
  have first : (right.startRowId, right.fragmentId, right.startOffset) ∈ right.rows :=
    AddrSegment.mem_rows.mpr ⟨0, positive right member', rfl⟩
  have := before _ last _ first
  have := positive left member
  dsimp only at *
  omega

/-- A lookup finds what the walk lists, except the largest row id. -/
theorem lookup_coalesce_sortedWalk (distinct : ((walkedAddressesOf fragments).map Prod.fst).Nodup)
    {rowId : Nat} {place : Nat × Nat} :
    lookupInBase (coalesce (sortedWalk fragments)) rowId = some place ↔
      rowId < u64Max ∧ (rowId, place) ∈ walkedAddressesOf fragments := by
  have perm := sortedWalk_perm fragments
  by_cases found : rowId < u64Max
  · have ascending := ascending_coalesce (pairwise_sortedWalk fragments)
    rw [lookupInBase_eq ascending found, listedRows_coalesce,
      lastAddress_eq_some ((perm.map Prod.fst).nodup_iff.mpr distinct), perm.mem_iff]
    exact (and_iff_right found).symm
  · rw [lookupInBase_eq_none (Nat.le_of_not_lt found)]
    constructor
    · intro impossible
      cases impossible
    · exact fun both => absurd both.1 found

/-- Writing a base changes no file of a row group. -/
theorem HoldsRowIds.write_base (holds : HoldsRowIds storage entry fragment) (sequence : Nat)
    (contents : File R) :
    HoldsRowIds (Storage.perform (.write (rowIndexBasePath sequence) contents) storage) entry
      fragment := by
  have kept : ∀ {path}, kindOf path ≠ .rowIndex →
      (Storage.perform (.write (rowIndexBasePath sequence) contents) storage).files.lookup path =
        storage.files.lookup path := by
    intro path other
    apply AList.lookup_insert_ne
    rintro rfl
    exact other (kindOf_rowIndexBasePath sequence)
  refine ⟨holds.named, holds.id, ?_, ?_⟩
  · obtain ⟨sidecar, found, rowIds⟩ := holds.sidecar
    refine ⟨sidecar, ?_, rowIds⟩
    rwa [kept (by rw [holds.named.sidecar]; simp)]
  · apply deletionsOf_eq_some.mpr
    rcases deletionsOf_eq_some.mp holds.deletions with absent | ⟨path, named, found⟩
    · exact .inl absent
    · obtain ⟨version, rfl⟩ := holds.named.deletes path named
      refine .inr ⟨_, named, ?_⟩
      rwa [kept (by simp)]

@[simp]
theorem ends_checkAddress {map : AddressMap} {row : Address} {before after : TableStorage R} :
    (checkAddress map row).Ends before () after ↔
      map.lookup row.1 = some row.2 ∧ before = after := by
  rw [checkAddress]
  cases map.lookup row.1 <;> simp

theorem ends_each_checkAddress {map : AddressMap} {rows : List Address}
    {before after : TableStorage R} :
    (Script.each (checkAddress map) rows).Ends before () after ↔
      (∀ row ∈ rows, map.lookup row.1 = some row.2) ∧ before = after := by
  induction rows with
  | nil => simp
  | cons row rows ih =>
      rw [Script.ends_each_cons, List.forall_mem_cons]
      constructor
      · rintro ⟨middle, first, rest⟩
        obtain ⟨found, rfl⟩ := ends_checkAddress.mp first
        obtain ⟨others, rfl⟩ := ih.mp rest
        exact ⟨⟨found, others⟩, rfl⟩
      · rintro ⟨⟨found, others⟩, rfl⟩
        exact ⟨before, ends_checkAddress.mpr ⟨found, rfl⟩, ih.mpr ⟨others, rfl⟩⟩

theorem load_base {path : String} {segments : List AddrSegment}
    (found : storage.files.lookup path = some (.rowIndex segments)) :
    AddressMap.load { base := some path, deltas := [] } storage =
      ([], .ok { base := segments, deltas := [] }) := by
  have read : (readRowIndex path : TableProgram R _) storage = ([], .ok segments) :=
    Script.bind_of_silent (readFile_eq found)
  have base : (Script.collect readRowIndex [path] : TableProgram R _) storage =
      ([], .ok [segments]) := by
    rw [Script.collect, Script.bind_of_silent read]
    rfl
  have base_eq : [segments].flatten = segments := List.append_nil segments
  rw [AddressMap.load, Option.toList_some, Script.bind_of_silent base, base_eq]
  rfl

/-- Where deriving succeeds, a rebuilt row index passes its check just if the walk does not list the
largest row id. -/
theorem verifies_iff {manifest : Manifest}
    (holds : List.Forall₂ (HoldsRowIds storage) manifest.rowGroups fragments)
    (distinct : ((walkedAddressesOf fragments).map Prod.fst).Nodup) :
    (∃ generation after, (rebuildRowIndex manifest).Ends storage generation after ∧
      (verifyRowIndex { manifest with rowindexGeneration := some generation }).Ends after ()
        after) ↔ ∀ row ∈ walkedAddressesOf fragments, row.1 < u64Max := by
  have ascending := ascending_coalesce (pairwise_sortedWalk fragments)
  have derives : ∀ {before : TableStorage R} {current : Manifest},
      List.Forall₂ (HoldsRowIds before) current.rowGroups fragments →
        deriveBase current before = ([], .ok (coalesce (sortedWalk fragments))) := by
    intro before current held
    obtain ⟨result, derived, ⟨rfl, -⟩ | ⟨-, twice⟩⟩ := deriveBase_eq held
    · exact derived
    · exact absurd distinct twice
  let path := rowIndexBasePath manifest.sequence
  let rebuilt := Storage.perform
    (.write path (.rowIndex (sortSegments (coalesce (sortedWalk fragments))))) storage
  have rebuilds : ∀ {generation after}, (rebuildRowIndex manifest).Ends storage generation after ↔
      generation = { base := some path, deltas := [] } ∧ after = rebuilt := by
    intro generation after
    rw [rebuildRowIndex, Script.ends_bind_of_silent (derives holds)]
    constructor
    · intro ended
      obtain ⟨_, _, written, returned⟩ := Script.ends_bind.mp ended
      obtain rfl := Script.ends_emit.mp written
      obtain ⟨rfl, rfl⟩ := Script.ends_pure.mp returned
      exact ⟨rfl, rfl⟩
    · rintro ⟨rfl, rfl⟩
      exact Script.ends_bind.mpr ⟨(), rebuilt, Script.ends_emit.mpr rfl,
        Script.ends_pure.mpr ⟨rfl, rfl⟩⟩
  have verified : (verifyRowIndex { manifest with
        rowindexGeneration := some { base := some path, deltas := [] } }).Ends rebuilt () rebuilt ↔
      ∀ row ∈ sortedWalk fragments, row.1 < u64Max := by
    have held : List.Forall₂ (HoldsRowIds rebuilt) manifest.rowGroups fragments :=
      holds.imp fun _ _ held => held.write_base _ _
    have stored : rebuilt.files.lookup path =
        some (.rowIndex (coalesce (sortedWalk fragments))) := by
      rw [← ascending.sortSegments_eq]
      exact AList.lookup_insert _
    have derived : deriveBase { manifest with
          rowindexGeneration := some { base := some path, deltas := [] } } rebuilt =
        ([], .ok (coalesce (sortedWalk fragments))) := derives held
    rw [verifyRowIndex, Script.ends_bind_of_silent derived]
    dsimp only
    rw [Script.ends_bind_of_silent (load_base stored), ends_each_checkAddress, listedRows_coalesce]
    constructor
    · intro passed row member
      exact ((lookup_coalesce_sortedWalk distinct).mp (passed.1 row member)).1
    · intro small
      refine ⟨fun row member => ?_, rfl⟩
      apply (lookup_coalesce_sortedWalk distinct).mpr
      exact ⟨small row member, (sortedWalk_perm fragments).mem_iff.mp member⟩
  simp only [rebuilds, exists_and_left, exists_eq_left, and_assoc, verified,
    (sortedWalk_perm fragments).mem_iff]

/-- The row index that is derived is exact just if a row id is live twice and the walk lists one
twice, so that deriving fails as it has to, or no row id is live twice, the walk lists the live rows
and the largest row id is not live. -/
theorem derivesExactly_iff {manifest : Manifest} {fragments : List FragmentRows}
    (holds : List.Forall₂ (HoldsRowIds storage) manifest.rowGroups fragments) :
    DerivesExactly storage manifest fragments ↔
      ¬((liveAddressesOf fragments).map Prod.fst).Nodup ∧
          ¬((walkedAddressesOf fragments).map Prod.fst).Nodup ∨
        ((liveAddressesOf fragments).map Prod.fst).Nodup ∧
          (walkedAddressesOf fragments).Perm (liveAddressesOf fragments) ∧
          ∀ row ∈ liveAddressesOf fragments, row.1 < u64Max := by
  obtain ⟨result, derived, ⟨rfl, distinct⟩ | ⟨⟨failure, rfl⟩, twice⟩⟩ := deriveBase_eq holds
  · constructor
    · intro exactly
      have finds : ∀ row : Address, row.1 < u64Max ∧ row ∈ walkedAddressesOf fragments ↔
          row ∈ liveAddressesOf fragments := by
        intro row
        rw [← exactly.finds_iff _ (by rw [derived]) row.1 row.2,
          lookup_coalesce_sortedWalk distinct]
      have once : ((liveAddressesOf fragments).map Prod.fst).Nodup := by
        by_contra twice
        obtain ⟨failure, failed⟩ := exactly.fails_iff.mpr twice
        rw [derived] at failed
        cases failed
      have small := (verifies_iff holds distinct).mp (exactly.verifies _ (by rw [derived]))
      refine .inr ⟨once, ?_, fun row member => ((finds row).mpr member).1⟩
      apply (List.perm_ext_iff_of_nodup distinct.of_map once.of_map).mpr
      intro row
      rw [← finds row]
      exact ⟨fun member => ⟨small row member, member⟩, And.right⟩
    · rintro (⟨-, twice⟩ | ⟨once, same, small⟩)
      · exact absurd distinct twice
      · have ascending := ascending_coalesce (pairwise_sortedWalk fragments)
        constructor
        · rw [derived]
          simp [once]
        · intro segments ended
          rw [derived] at ended
          obtain rfl := Except.ok.inj ended
          apply pairwise_apart ascending.len_pos
          rw [listedRows_coalesce]
          exact (nodup_iff_strict fragments).mp distinct
        · intro segments ended rowId place
          rw [derived] at ended
          obtain rfl := Except.ok.inj ended
          rw [lookup_coalesce_sortedWalk distinct, same.mem_iff]
          exact and_iff_right_of_imp fun member => small _ member
        · intro segments _
          exact (verifies_iff holds distinct).mpr fun row member =>
            small row (same.mem_iff.mp member)
  · constructor
    · intro exactly
      left
      refine ⟨exactly.fails_iff.mp ⟨failure, by rw [derived]⟩, twice⟩
    · intro condition
      have repeated : ¬((liveAddressesOf fragments).map Prod.fst).Nodup := by
        rcases condition with ⟨repeated, -⟩ | ⟨once, same, -⟩
        · exact repeated
        · exact absurd ((same.map Prod.fst).nodup_iff.mpr once) twice
      constructor
      · rw [derived]
        simp [repeated]
      all_goals
        intro segments ended
        rw [derived] at ended
        cases ended

end

/-! ## Concrete fragments -/

namespace TwoFragments

/-- A fragment whose second row is deleted. -/
def updated : FragmentRows :=
  { id := 1, rowIds := [.range 5 3, .sorted [20, 2]], deleted := {1} }

/-- A fragment with the given row ids. -/
def added (rowIds : List RowIdSegment) : FragmentRows :=
  { id := 2, rowIds, deleted := ∅ }

/-- The manifest of both fragments. -/
def manifest : Manifest where
  sequence := 3
  rowGroups :=
    [{ data := "rg_1.parquet", metaFile := "rg_1.meta", fragmentId := 1
       deletes := some (deletionPath 1 2) },
      { data := "rg_2.parquet", metaFile := "rg_2.meta", fragmentId := 2 }]

/-- The sidecar of a fragment. -/
def sidecar (rowGroup : String) (rows : Nat) (rowIds : List RowIdSegment) : File Unit :=
  .sidecar
    { rowGroup
      schemaId := 1
      rows
      columns := ∅
      columnOffsets := none
      sort := none
      rowIds
      checksum := ""
      metaChecksum := "" }

/-- The directory of both fragments. -/
def storage (rowIds : List RowIdSegment) : TableStorage Unit where
  pointer := .latest 3
  manifests := AList.singleton 3 manifest
  log := []
  files := AList.singleton "rg_1.meta" (sidecar "rg_1" 5 updated.rowIds)
    |>.insert "rg_2.meta" (sidecar "rg_2" (expand rowIds).length rowIds)
    |>.insert (deletionPath 1 2) (.deletions {1})
  intents := ∅
  schemaPointer := some 1

theorem holds (rowIds : List RowIdSegment) :
    List.Forall₂ (HoldsRowIds (storage rowIds)) manifest.rowGroups [updated, added rowIds] := by
  apply List.Forall₂.cons
  · refine ⟨⟨by decide, by decide, ?_⟩, rfl, ⟨_, rfl, rfl⟩, rfl⟩
    intro path named
    exact ⟨2, (Option.some.inj named).symm⟩
  · apply List.Forall₂.cons _ .nil
    refine ⟨⟨by decide, by decide, ?_⟩, rfl, ⟨_, rfl, rfl⟩, rfl⟩
    intro path named
    cases named

/-- The row index of a range, a list of row ids with a deleted row before it and a second fragment
that goes on where the range stops is exact. -/
theorem derivesExactly_added :
    DerivesExactly (storage [.range 8 2]) manifest [updated, added [.range 8 2]] := by
  refine (derivesExactly_iff (holds [.range 8 2])).mpr (.inr ⟨by decide, ?_, by decide⟩)
  rw [walkedAddressesOf_eq]
  unfold Walkable
  decide

/-- The row index is not exact for the largest row id: the row is live, deriving succeeds, and the
row id is not found. -/
theorem not_derivesExactly_largest :
    List.Forall₂ (HoldsRowIds (storage [.sorted [u64Max]])) manifest.rowGroups
        [updated, added [.sorted [u64Max]]] ∧
      ¬DerivesExactly (storage [.sorted [u64Max]]) manifest
        [updated, added [.sorted [u64Max]]] := by
  refine ⟨holds _, fun exactly => ?_⟩
  have found := (exactly.finds_iff
    [⟨2, 1, 4, 1⟩, ⟨5, 1, 0, 1⟩, ⟨7, 1, 2, 1⟩, ⟨20, 1, 3, 1⟩, ⟨u64Max, 2, 0, 1⟩] rfl u64Max
    (2, 0)).mpr (by decide)
  rw [lookupInBase_eq_none le_rfl] at found
  cases found

end TwoFragments

end IcefallDB
