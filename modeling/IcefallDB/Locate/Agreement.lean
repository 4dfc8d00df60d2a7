import IcefallDB.Locate

/-!
# Agreement of both ways to locate rows

The index finds the live rows at the offsets of the row ids whose texts are looked up; a scan finds
those that satisfy the predicate, and packs their fragments and offsets into addresses.  With a
consistent index both find the same rows exactly if these conditions agree on all live rows.
-/

namespace IcefallDB

namespace LocateTable

/-! ## Offsets of row ids -/

/-- A segment lists a row id of 64 bits at a position. -/
theorem offsetFrom_eq_some {rowId base offset : Nat} {segments : List RowIdSegment}
    (sorted : ∀ ids, .sorted ids ∈ segments → ∀ id ∈ ids, id < 2 ^ 64)
    (found : offsetFrom rowId base segments = some offset) :
    rowId < 2 ^ 64 ∧ ∃ position, (expand segments)[position]? = some rowId ∧
      (base + position) % 2 ^ 32 = offset := by
  induction segments generalizing base with
  | nil => cases found
  | cons segment segments ih =>
      have later (length : Nat) (length_eq : (segmentIds segment).length = length)
          (found : offsetFrom rowId (base + length) segments = some offset) :
          rowId < 2 ^ 64 ∧ ∃ position, (expand (segment :: segments))[position]? = some rowId ∧
            (base + position) % 2 ^ 32 = offset := by
        obtain ⟨small, position, here, same⟩ :=
          ih (fun ids member => sorted ids (.tail _ member)) found
        refine ⟨small, length + position, ?_, by rw [← Nat.add_assoc]; exact same⟩
        rw [expand, List.flatMap_cons, ← length_eq, List.getElem?_append_right (Nat.le_add_right _ _),
          Nat.add_sub_cancel_left]
        exact here
      have here (position : Nat) (listed : (segmentIds segment)[position]? = some rowId) :
          (expand (segment :: segments))[position]? = some rowId := by
        obtain ⟨inside, -⟩ := List.getElem?_eq_some_iff.mp listed
        rw [expand, List.flatMap_cons, List.getElem?_append_left inside]
        exact listed
      cases segment with
      | range start count =>
          rw [offsetFrom] at found
          split at found
          · next inside =>
              have below : rowId - start < count := by
                have := Nat.mod_le (start + count) (2 ^ 64)
                omega
              refine ⟨inside.2.trans (Nat.mod_lt _ (by decide)), rowId - start, here _ ?_,
                Option.some.inj found⟩
              rw [segmentIds, List.getElem?_range' below, Nat.one_mul,
                Nat.add_sub_cancel' inside.1]
          · exact later count List.length_range' found
      | sorted ids =>
          rw [offsetFrom] at found
          cases at_position : ids.findIdx? fun id => id = rowId with
          | some position =>
              rw [at_position] at found
              obtain ⟨inside, same, -⟩ := List.findIdx?_eq_some_iff_getElem.mp at_position
              have listed : ids[position]? = some rowId :=
                (List.getElem?_eq_getElem inside).trans (congrArg some (of_decide_eq_true same))
              exact ⟨sorted ids List.mem_cons_self rowId (List.mem_of_getElem? listed), position,
                here _ listed, Option.some.inj found⟩
          | none =>
              rw [at_position] at found
              exact later ids.length rfl found

/-! ## Live locations of a row id -/

/-- The deletion vector of a fragment. -/
def deletions (vectors : String → DeletionVector) (frag : FragLocate) : DeletionVector :=
  (frag.deletes.map vectors).getD ∅

/-- The live location of a row id in a fragment. -/
def location (vectors : String → DeletionVector) (rowId : Nat) (frag : FragLocate) :
    Option MatchLoc :=
  (offsetOfRowId frag.rowIds rowId).bind fun offset =>
    if offset ∈ deletions vectors frag then none
    else some { fragmentId := frag.fragmentId, offset, rowId }

/-- Deletion vectors that have been read are those of their fragments. -/
def CacheOk (vectors : String → DeletionVector) (frags : List FragLocate)
    (cache : HashMap Nat DeletionVector) : Prop :=
  ∀ frag ∈ frags, ∀ read, cache.lookup frag.fragmentId = some read → read = deletions vectors frag

section

variable {vectors : String → DeletionVector} {frags : List FragLocate}
  (distinct : (frags.map FragLocate.fragmentId).Nodup)

variable {cache : HashMap Nat DeletionVector}

include distinct in
theorem cacheOk_cacheDeletions (ok : CacheOk vectors frags cache) {frag : FragLocate}
    (member : frag ∈ frags) : CacheOk vectors frags (cacheDeletions vectors frag cache) := by
  unfold cacheDeletions
  split
  · next path deletes_eq =>
      split
      · intro other other_mem read found
        by_cases same : other.fragmentId = frag.fragmentId
        · obtain rfl := List.inj_on_of_nodup_map distinct other_mem member same
          rw [AList.lookup_insert] at found
          rw [deletions, deletes_eq]
          exact (Option.some.inj found).symm
        · rw [AList.lookup_insert_ne same] at found
          exact ok other other_mem read found
      · exact ok
  · exact ok

variable (counted : ∀ frag ∈ frags, frag.deletedCount = 0 → deletions vectors frag = ∅)

include counted in
theorem isDeleted_eq (ok : CacheOk vectors frags cache) {frag : FragLocate} (member : frag ∈ frags)
    (offset : Nat) :
    isDeleted (cacheDeletions vectors frag cache) frag offset =
      decide (offset ∈ deletions vectors frag) := by
  have of_lookup : ∀ {read}, cache.lookup frag.fragmentId = some read →
      isDeleted cache frag offset = decide (offset ∈ deletions vectors frag) := by
    intro read found
    rw [isDeleted, found, ok frag member read found]
  have of_absent : cache.lookup frag.fragmentId = none → deletions vectors frag = ∅ →
      isDeleted cache frag offset = decide (offset ∈ deletions vectors frag) := by
    intro absent empty
    rw [isDeleted, absent, empty]
    simp
  cases deletes : frag.deletes with
  | none =>
      have kept : cacheDeletions vectors frag cache = cache := by rw [cacheDeletions, deletes]
      rw [kept]
      cases found : cache.lookup frag.fragmentId with
      | some read => exact of_lookup found
      | none =>
          apply of_absent found
          rw [deletions, deletes]
          rfl
  | some path =>
      by_cases reads : 0 < frag.deletedCount ∧ cache.lookup frag.fragmentId = none
      · have inserted : cacheDeletions vectors frag cache =
            cache.insert frag.fragmentId (vectors path) := by
          rw [cacheDeletions, deletes]
          exact if_pos reads
        rw [inserted, isDeleted, AList.lookup_insert, deletions, deletes]
        rfl
      · have kept : cacheDeletions vectors frag cache = cache := by
          rw [cacheDeletions, deletes]
          exact if_neg reads
        rw [kept]
        cases found : cache.lookup frag.fragmentId with
        | some read => exact of_lookup found
        | none =>
            apply of_absent found
            apply counted frag member
            by_contra positive
            exact reads ⟨Nat.pos_of_ne_zero positive, found⟩

include distinct counted

/-- Looking for a row id in one fragment. -/
theorem probeFragment_spec {rowId : Nat} {state : ProbeState}
    (ok : CacheOk vectors frags state.cache) {frag : FragLocate} (member : frag ∈ frags) :
    CacheOk vectors frags (probeFragment vectors rowId state frag).cache ∧
      (probeFragment vectors rowId state frag).live =
        (location vectors rowId frag).or state.live ∧
      (probeFragment vectors rowId state frag).liveCount =
        state.liveCount + (location vectors rowId frag).toList.length := by
  rw [probeFragment, location]
  cases offsetOfRowId frag.rowIds rowId with
  | none => exact ⟨ok, rfl, rfl⟩
  | some offset =>
      simp only [isDeleted_eq counted ok member, decide_eq_true_eq, Option.bind_some]
      split
      · exact ⟨cacheOk_cacheDeletions distinct ok member, rfl, rfl⟩
      · exact ⟨cacheOk_cacheDeletions distinct ok member, rfl, rfl⟩

/-- Looking for a row id in some fragments counts its live locations there, and keeps the last. -/
theorem foldl_probeFragment_spec {rowId : Nat} (rest : List FragLocate) (inside : rest ⊆ frags)
    {state : ProbeState} (ok : CacheOk vectors frags state.cache) :
    CacheOk vectors frags (rest.foldl (probeFragment vectors rowId) state).cache ∧
      (rest.foldl (probeFragment vectors rowId) state).live =
        (rest.filterMap (location vectors rowId)).getLast?.or state.live ∧
      (rest.foldl (probeFragment vectors rowId) state).liveCount =
        state.liveCount + (rest.filterMap (location vectors rowId)).length := by
  induction rest generalizing state with
  | nil => exact ⟨ok, rfl, rfl⟩
  | cons frag rest ih =>
      rw [List.cons_subset] at inside
      obtain ⟨here_ok, here_live, here_count⟩ :=
        @probeFragment_spec vectors frags distinct counted rowId state ok frag inside.1
      obtain ⟨rest_ok, rest_live, rest_count⟩ := ih inside.2 here_ok
      rw [List.foldl_cons]
      refine ⟨rest_ok, ?_, ?_⟩
      · rw [rest_live, here_live]
        cases found : location vectors rowId frag with
        | none => rw [List.filterMap_cons_none found, Option.none_or]
        | some own =>
            rw [List.filterMap_cons_some found, List.getLast?_cons]
            cases (rest.filterMap (location vectors rowId)).getLast? <;> rfl
      · rw [rest_count, here_count]
        cases found : location vectors rowId frag with
        | none => rw [List.filterMap_cons_none found]; rfl
        | some own =>
            rw [List.filterMap_cons_some found, List.length_cons, Option.toList_some,
              List.length_singleton]
            omega

/-- Row ids are found at their live locations. -/
theorem locateRowIds_spec (rowIds : List Nat) (ok : CacheOk vectors frags cache)
    {locs : List MatchLoc} (located : locateRowIds vectors frags cache rowIds = some locs) :
    locs = rowIds.flatMap fun rowId => frags.filterMap (location vectors rowId) := by
  induction rowIds generalizing cache locs with
  | nil => exact (Option.some.inj located).symm
  | cons rowId rowIds ih =>
      obtain ⟨next_ok, live, count⟩ := @foldl_probeFragment_spec vectors frags distinct counted
        rowId frags (List.Subset.refl frags) { cache, live := none, liveCount := 0 } ok
      rw [Option.or_none] at live
      rw [Nat.zero_add] at count
      rw [locateRowIds, locateRowId, count] at located
      rw [List.flatMap_cons]
      split at located
      · next empty =>
          rw [List.length_eq_zero_iff.mp empty, List.nil_append]
          exact ih next_ok located
      · next single =>
          obtain ⟨later, later_eq, same⟩ := Option.map_eq_some_iff.mp located
          obtain ⟨own, own_eq⟩ := List.length_eq_one_iff.mp single
          rw [live, own_eq] at same
          rw [own_eq, ← same, ih next_ok later_eq]
          rfl
      · cases located

end

/-! ## Live rows -/

variable (table : LocateTable)

/-- The live rows of a table. -/
def liveRows : List (LocatedRow IndexValue) :=
  table.rowGroups.flatMap ScanRowGroup.located

/-- The row id of a row.  Legacy fragments have none. -/
def rowIdOf (row : LocatedRow IndexValue) : Option Nat :=
  rowIdAtOffset row.1.rowIds row.2.2

/-- A row id is that of a live row. -/
def IsLiveId (rowId : Nat) : Prop :=
  ∃ row ∈ table.liveRows, rowIdOf row = some rowId

/-- The cell of the indexed column. -/
def indexedCell (index : SnapshotIndex) (row : LocatedRow IndexValue) : IndexValue :=
  table.operand (table.cells row.2.1) (.column index.column)

/-- The text by which an index has a row. -/
def indexText (index : SnapshotIndex) (row : LocatedRow IndexValue) : Option String :=
  (table.indexedCell index row).key

/-- An index is consistent with the live rows. -/
def IndexConsistent (index : SnapshotIndex) : Prop :=
  index.Consistent table.IsLiveId fun text rowId =>
    ∃ row ∈ table.liveRows, rowIdOf row = some rowId ∧ table.indexText index row = some text

/-- Fragments have ids of their own and no more row ids than rows, and the counts of deleted rows are
not zero where rows are deleted.  Listed row ids have 64 bits, and offsets have 32 bits. -/
structure WellFormed : Prop where
  fragments : (table.groups.map fun group => group.1.entry.fragmentId).Nodup
  sorted : ∀ group ∈ table.groups, ∀ ids, .sorted ids ∈ group.1.sidecar.rowIds →
    ∀ id ∈ ids, id < 2 ^ 64
  covered : ∀ group ∈ table.groups,
    (expand group.1.sidecar.rowIds).length ≤ group.2.length
  offsets : ∀ group ∈ table.groups, group.2.length ≤ 2 ^ 32
  counted : ∀ group ∈ table.groups, ∀ path, group.1.entry.deletes = some path →
    group.1.entry.deletedCount = 0 → table.vectors path = ∅

/-- A row has a row id, and the segments of its fragment have the row id at its offset. -/
def IsFound (row : LocatedRow IndexValue) (rowId : Nat) : Prop :=
  rowIdOf row = some rowId ∧ offsetOfRowId row.1.rowIds rowId = some row.2.2

/-- The location of a row with a row id. -/
def locationOf (row : LocatedRow IndexValue) (rowId : Nat) : MatchLoc :=
  { fragmentId := row.1.fragmentId, offset := row.2.2, rowId }

variable {table}

theorem isLive_iff {rowGroup : ScanRowGroup IndexValue} {row : DataRow IndexValue × Nat} :
    rowGroup.isLive row = true ↔ row.2 ∉ rowGroup.deletions.getD ∅ := by
  unfold ScanRowGroup.isLive
  cases rowGroup.deletions with
  | none => simp
  | some deletions => exact decide_eq_true_iff

variable {row : LocatedRow IndexValue}

/-- A live row is at an offset of a row group that is not deleted. -/
theorem mem_liveRows :
    row ∈ table.liveRows ↔
      ∃ group ∈ table.groups, row.1 = ScanSelection.contents table.vectors group.1 group.2 ∧
        group.2[row.2.2]? = some row.2.1 ∧
        row.2.2 ∉ (ScanSelection.deletionsOf table.vectors group.1).getD ∅ := by
  rw [liveRows, rowGroups, List.flatMap_map, List.mem_flatMap]
  apply exists_congr
  intro group
  rw [and_congr_right_iff]
  intro _
  rw [ScanRowGroup.located, ScanPartition.located, List.mem_map]
  constructor
  · rintro ⟨place, selected, rfl⟩
    obtain ⟨inside, alive⟩ := List.mem_filter.mp selected
    exact ⟨rfl, List.mem_zipIdx_iff_getElem?.mp inside, isLive_iff.mp alive⟩
  · rintro ⟨same, inside, alive⟩
    refine ⟨row.2, List.mem_filter.mpr ⟨?_, isLive_iff.mpr alive⟩, ?_⟩
    · exact List.mem_zipIdx_iff_getElem?.mpr inside
    · rw [← same]

/-- A live row is known by its fragment and its offset. -/
theorem WellFormed.row_unique (wf : table.WellFormed) {first second : LocatedRow IndexValue}
    (first_live : first ∈ table.liveRows) (second_live : second ∈ table.liveRows)
    (fragment : first.1.fragmentId = second.1.fragmentId) (offset : first.2.2 = second.2.2) :
    first = second := by
  obtain ⟨group, member, own, inside, -⟩ := mem_liveRows.mp first_live
  obtain ⟨other, other_mem, other_own, other_inside, -⟩ := mem_liveRows.mp second_live
  rw [own, other_own] at fragment
  obtain rfl := List.inj_on_of_nodup_map wf.fragments member other_mem fragment
  rw [offset, other_inside] at inside
  apply Prod.ext
  · rw [own, other_own]
  · exact Prod.ext (Option.some.inj inside).symm offset

/-- A row id is at its live locations. -/
theorem WellFormed.mem_filterMap_location (wf : table.WellFormed) {rowId : Nat} {loc : MatchLoc} :
    loc ∈ table.frags.filterMap (location table.vectors rowId) ↔
      ∃ row ∈ table.liveRows, IsFound row rowId ∧ loc = locationOf row rowId := by
  rw [frags, List.filterMap_map, List.mem_filterMap]
  constructor
  · rintro ⟨group, member, found⟩
    obtain ⟨offset, offset_eq, found⟩ := Option.bind_eq_some_iff.mp found
    obtain ⟨alive, same⟩ := Option.ite_none_left_eq_some.mp found
    obtain ⟨-, position, place, position_eq⟩ :=
      offsetFrom_eq_some (wf.sorted group member) offset_eq
    have inside := (List.getElem?_eq_some_iff.mp place).1.trans_le (wf.covered group member)
    rw [Nat.zero_add, Nat.mod_eq_of_lt (inside.trans_le (wf.offsets group member))] at position_eq
    subst position_eq
    refine ⟨(ScanSelection.contents table.vectors group.1 group.2, group.2[position], position),
      ?_, ⟨?_, offset_eq⟩, ?_⟩
    · exact mem_liveRows.mpr ⟨group, member, rfl, List.getElem?_eq_getElem inside, alive⟩
    · rw [rowIdOf, rowIdAtOffset_eq]
      exact place
    · exact (Option.some.inj same).symm
  · rintro ⟨row, alive, ⟨-, offset_eq⟩, rfl⟩
    obtain ⟨group, member, own, inside, kept⟩ := mem_liveRows.mp alive
    rw [own] at offset_eq
    refine ⟨group, member, ?_⟩
    have place : offsetOfRowId group.1.sidecar.rowIds rowId = some row.2.2 := offset_eq
    rw [Function.comp_apply, location, place, Option.bind_some, locationOf, own]
    exact if_neg kept

/-- A row id that is found has 64 bits. -/
theorem WellFormed.lt_of_isFound (wf : table.WellFormed) (alive : row ∈ table.liveRows)
    {rowId : Nat} (found : IsFound row rowId) : rowId < 2 ^ 64 := by
  obtain ⟨group, member, own, -⟩ := mem_liveRows.mp alive
  have place := found.2
  rw [own] at place
  exact (offsetFrom_eq_some (wf.sorted group member) place).1

/-! ## Rows found by an index -/

/-- The first index that answers a predicate. -/
def answering (indexes : List SnapshotIndex) (predicate : PredicateExpr) : Option SnapshotIndex :=
  indexes.find? fun index => (IndexSelector.indexEqualityLookup index predicate).isSome

variable (table) in
/-- The index that answers the predicate is looked up where the text of a live row with a row id
is. -/
def IsLookedUp (indexes : List SnapshotIndex) (predicate : PredicateExpr) (rowId : Nat) : Prop :=
  ∃ index ∈ answering indexes predicate, ∃ row ∈ table.liveRows, rowIdOf row = some rowId ∧
    ∃ text ∈ table.indexText index row, predicate.Reaches index text

variable (table) in
/-- A lookup finds a row: its row id is at its offset and is looked up. -/
def IsIndexed (indexes : List SnapshotIndex) (predicate : PredicateExpr)
    (row : LocatedRow IndexValue) : Prop :=
  ∃ rowId, IsFound row rowId ∧ table.IsLookedUp indexes predicate rowId

theorem exists_find?_of_findSome? {α β : Type} {f : α → Option β} {elements : List α} {value : β}
    (found : elements.findSome? f = some value) :
    ∃ element ∈ elements, f element = some value ∧
      elements.find? (fun element => (f element).isSome) = some element := by
  induction elements with
  | nil => cases found
  | cons first rest ih =>
      rw [List.findSome?_cons] at found
      rw [List.find?_cons]
      cases here : f first with
      | some own =>
          rw [here] at found
          exact ⟨first, List.mem_cons_self, here.trans found, rfl⟩
      | none =>
          rw [here] at found
          obtain ⟨element, member, value_eq, find_eq⟩ := ih found
          exact ⟨element, .tail _ member, value_eq, find_eq⟩

/-- The index path returns the locations of the rows that the lookup finds. -/
theorem WellFormed.mem_tryLocateByIndex (wf : table.WellFormed) {indexes : List SnapshotIndex}
    (consistent : ∀ index ∈ indexes, table.IndexConsistent index) {predicate : PredicateExpr}
    {locs : List MatchLoc} (located : table.tryLocateByIndex indexes predicate = some locs)
    {loc : MatchLoc} :
    loc ∈ locs ↔ ∃ row ∈ table.liveRows, ∃ rowId, IsFound row rowId ∧
      table.IsLookedUp indexes predicate rowId ∧ loc = locationOf row rowId := by
  obtain ⟨rowIds, looked_up, located⟩ := Option.bind_eq_some_iff.mp located
  obtain ⟨index, listed, found, used⟩ := exists_find?_of_findSome? looked_up
  have distinct : (table.frags.map FragLocate.fragmentId).Nodup := by
    rw [frags, List.map_map]
    exact wf.fragments
  have counted : ∀ frag ∈ table.frags, frag.deletedCount = 0 →
      deletions table.vectors frag = ∅ := by
    intro frag member none_deleted
    obtain ⟨group, group_mem, rfl⟩ := List.mem_map.mp member
    rw [deletions]
    cases deletes : group.1.entry.deletes with
    | none => rfl
    | some path => exact wf.counted group group_mem path deletes none_deleted
  have empty : CacheOk table.vectors table.frags ∅ := by
    intro frag _ read absent
    rw [AList.lookup_empty] at absent
    cases absent
  obtain rfl := locateRowIds_spec distinct counted _ empty located
  have ids : ∀ rowId, table.IsLiveId rowId →
      (rowId ∈ rowIds ↔ table.IsLookedUp indexes predicate rowId) := by
    intro rowId alive
    rw [IndexSelector.mem_indexEqualityLookup (consistent index listed) found alive]
    constructor
    · rintro ⟨text, ⟨row, row_alive, id_eq, text_eq⟩, reached⟩
      exact ⟨index, used, row, row_alive, id_eq, text, text_eq, reached⟩
    · rintro ⟨other, used_too, row, row_alive, id_eq, text, text_eq, reached⟩
      obtain rfl := Option.some.inj (used.symm.trans used_too)
      exact ⟨text, ⟨row, row_alive, id_eq, text_eq⟩, reached⟩
  rw [List.mem_flatMap]
  constructor
  · rintro ⟨rowId, candidate, at_location⟩
    obtain ⟨row, alive, own, rfl⟩ := wf.mem_filterMap_location.mp at_location
    refine ⟨row, alive, rowId, own, ?_, rfl⟩
    exact (ids rowId ⟨row, alive, own.1⟩).mp ((Finset.mem_sort _).mp candidate)
  · rintro ⟨row, alive, rowId, own, looked_up, rfl⟩
    refine ⟨rowId, (Finset.mem_sort _).mpr ?_, ?_⟩
    · exact (ids rowId ⟨row, alive, own.1⟩).mpr looked_up
    · exact wf.mem_filterMap_location.mpr ⟨row, alive, own, rfl⟩

/-! ## Rows found by a scan -/

variable (table) in
/-- A predicate is true of a row. -/
def Satisfies (engine : EqualityEngine) (predicate : PredicateExpr)
    (row : LocatedRow IndexValue) : Prop :=
  table.evaluate engine (table.cells row.2.1) predicate = some true

/-- The address of a row: its fragment id and its offset, packed into 64 bits. -/
def rowAddr (row : LocatedRow IndexValue) : Nat :=
  (row.1.fragmentId <<< 32 ||| row.2.2) % 2 ^ 64

/-- The location of a row that a scan returns. -/
def scannedLocation (row : LocatedRow IndexValue) : MatchLoc :=
  { fragmentId := rowAddr row >>> 32
    offset := rowAddr row &&& 0xFFFFFFFF
    rowId := (rowIdOf row).getD 0 % 2 ^ 64 }

section

variable {splits : Option (Nat → Nat)} {engine : EqualityEngine} {predicate : PredicateExpr}

theorem locateScan_ordered : (table.locateScan splits engine predicate).Ordered where
  ascending := by simp [locateScan]
  expanded _ _ := by
    have no_data : (table.locateScan splits engine predicate).dataColumns = [] := by
      simp [ScanExec.dataColumns, locateScan]
    rw [ScanExec.expandedColumns, no_data, List.nil_append]
    exact List.pairwise_lt_range.filter _

theorem decodeLine_output (row : LocatedRow IndexValue) :
    decodeLine ((table.locateScan splits engine predicate).output row) =
      some (scannedLocation row) := by
  simp [ScanExec.output, locateScan, columnValue, decodeLine, scannedLocation, rowAddr, rowIdOf]

/-- The scan returns the locations of the live rows that satisfy the predicate. -/
theorem locateByScan_eq :
    table.locateByScan splits engine predicate =
      some ((table.liveRows.filter (table.locateScan splits engine predicate).isMatch).map
        scannedLocation) := by
  have inside : ∀ column ∈ filterColumns (table.locateScan splits engine predicate).filters,
      column < (table.locateScan splits engine predicate).schema.width := by
    intro column member
    simpa [filterColumns, locateScan, predicateFilter] using member
  have pseudo : (table.locateScan splits engine predicate).hasPseudo = true := by
    simp [ScanExec.hasPseudo, locateScan]
  have rows : (table.locateScan splits engine predicate).partitions.flatMap
      (table.locateScan splits engine predicate).partitionRows =
        table.liveRows.filter (table.locateScan splits engine predicate).isMatch := by
    rw [liveRows, ← flatMap_splitRowGroups splits, List.filter_flatMap]
    apply List.flatMap_congr
    intro partition _
    rw [ScanExec.partitionRows, if_pos pseudo]
    rfl
  have decoded : decodeLine ∘ (table.locateScan splits engine predicate).output =
      fun row => pure (scannedLocation row) := funext decodeLine_output
  rw [locateByScan, ScanExec.execute_eq locateScan_ordered inside, rows, Option.bind_some,
    List.mapM_map, decoded, List.mapM_pure]
  rfl

theorem isMatch_iff :
    (table.locateScan splits engine predicate).isMatch row = true ↔
      table.Satisfies engine predicate row := by
  simp [ScanExec.isMatch, locateScan, passes, predicateFilter, Satisfies]

end

/-! ## Agreement -/

variable (table) in
/-- The halves of the addresses of live rows are their fragments and offsets. -/
def AddressesDecode : Prop :=
  ∀ row ∈ table.liveRows, rowAddr row >>> 32 = row.1.fragmentId ∧
    rowAddr row &&& 0xFFFFFFFF = row.2.2

variable (table) in
/-- A scan locates the same rows, and the addresses are right. -/
def LocatesAlike (splits : Option (Nat → Nat)) (engine : EqualityEngine)
    (predicate : PredicateExpr) (locs : List MatchLoc) : Prop :=
  (∃ found, table.locateByScan splits engine predicate = some found ∧
    ∀ loc, loc ∈ locs ↔ loc ∈ found) ∧ table.AddressesDecode

theorem rowAddr_halves (row : LocatedRow IndexValue) :
    rowAddr row >>> 32 = rowAddr row / 2 ^ 32 ∧ rowAddr row &&& 0xFFFFFFFF = rowAddr row % 2 ^ 32 :=
  ⟨Nat.shiftRight_eq_div_pow _ _, Nat.and_two_pow_sub_one_eq_mod _ 32⟩

theorem WellFormed.offset_lt (wf : table.WellFormed) (alive : row ∈ table.liveRows) :
    row.2.2 < 2 ^ 32 := by
  obtain ⟨group, member, -, inside, -⟩ := mem_liveRows.mp alive
  exact (List.getElem?_eq_some_iff.mp inside).1.trans_le (wf.offsets group member)

/-- Addresses have the right halves if fragment ids have 32 bits. -/
theorem WellFormed.addressesDecode_iff (wf : table.WellFormed) :
    table.AddressesDecode ↔ ∀ row ∈ table.liveRows, row.1.fragmentId < 2 ^ 32 := by
  constructor
  · intro decodes row alive
    rw [← (decodes row alive).1, (rowAddr_halves row).1, rowAddr]
    omega
  · intro small row alive
    rw [(rowAddr_halves row).1, (rowAddr_halves row).2]
    exact ScanExec.address_halves (small row alive) (wf.offset_lt alive)

/-- Both ways agree exactly if fragment ids have 32 bits and a lookup finds the rows that satisfy
the predicate. -/
theorem WellFormed.locatesAlike_iff (wf : table.WellFormed) {indexes : List SnapshotIndex}
    (consistent : ∀ index ∈ indexes, table.IndexConsistent index) {predicate : PredicateExpr}
    {locs : List MatchLoc} (located : table.tryLocateByIndex indexes predicate = some locs)
    {splits : Option (Nat → Nat)} {engine : EqualityEngine} :
    table.LocatesAlike splits engine predicate locs ↔
      (∀ row ∈ table.liveRows, row.1.fragmentId < 2 ^ 32) ∧
        ∀ row ∈ table.liveRows, table.Satisfies engine predicate row ↔
          table.IsIndexed indexes predicate row := by
  rw [LocatesAlike, wf.addressesDecode_iff, locateByScan_eq, and_comm, and_congr_right_iff]
  intro small
  have decodes := wf.addressesDecode_iff.mpr small
  have scanned : ∀ loc, (loc ∈ (table.liveRows.filter
      (table.locateScan splits engine predicate).isMatch).map scannedLocation ↔
        ∃ row ∈ table.liveRows, table.Satisfies engine predicate row ∧
          loc = locationOf row ((rowIdOf row).getD 0 % 2 ^ 64)) := by
    intro loc
    rw [List.mem_map]
    constructor
    · rintro ⟨row, member, rfl⟩
      obtain ⟨alive, is_match⟩ := List.mem_filter.mp member
      refine ⟨row, alive, isMatch_iff.mp is_match, ?_⟩
      rw [scannedLocation, (decodes row alive).1, (decodes row alive).2, locationOf]
    · rintro ⟨row, alive, satisfied, rfl⟩
      refine ⟨row, List.mem_filter.mpr ⟨alive, isMatch_iff.mpr satisfied⟩, ?_⟩
      rw [scannedLocation, (decodes row alive).1, (decodes row alive).2, locationOf]
  have same_row : ∀ {row other : LocatedRow IndexValue} {rowId otherId : Nat},
      row ∈ table.liveRows → other ∈ table.liveRows →
        locationOf row rowId = locationOf other otherId → row = other :=
    fun alive other_alive same => wf.row_unique alive other_alive
      (congrArg MatchLoc.fragmentId same) (congrArg MatchLoc.offset same)
  constructor
  · rintro ⟨found, found_eq, same⟩ row alive
    obtain rfl := Option.some.inj found_eq
    constructor
    · intro satisfied
      obtain ⟨other, other_alive, rowId, own, looked_up, loc_eq⟩ :=
        (wf.mem_tryLocateByIndex consistent located).mp
          ((same _).mpr ((scanned _).mpr ⟨row, alive, satisfied, rfl⟩))
      obtain rfl := same_row alive other_alive loc_eq
      exact ⟨rowId, own, looked_up⟩
    · rintro ⟨rowId, own, looked_up⟩
      have member := (wf.mem_tryLocateByIndex consistent located).mpr
        ⟨row, alive, rowId, own, looked_up, rfl⟩
      obtain ⟨other, other_alive, satisfied, loc_eq⟩ := (scanned _).mp ((same _).mp member)
      obtain rfl := same_row alive other_alive loc_eq
      exact satisfied
  · intro alike
    refine ⟨_, rfl, ?_⟩
    intro loc
    rw [wf.mem_tryLocateByIndex consistent located, scanned]
    apply exists_congr
    intro row
    rw [and_congr_right_iff]
    intro alive
    have same_id : ∀ {rowId}, IsFound row rowId → (rowIdOf row).getD 0 % 2 ^ 64 = rowId := by
      intro rowId own
      rw [own.1, Option.getD_some, Nat.mod_eq_of_lt (wf.lt_of_isFound alive own)]
    rw [alike row alive]
    constructor
    · rintro ⟨rowId, own, looked_up, rfl⟩
      exact ⟨⟨rowId, own, looked_up⟩, by rw [same_id own]⟩
    · rintro ⟨⟨rowId, own, looked_up⟩, rfl⟩
      exact ⟨rowId, own, looked_up, by rw [same_id own]⟩

end LocateTable

end IcefallDB
