import IcefallDB.ScanSelection

/-!
# Partitions cover the live rows

The slices of a row group follow each other without gaps, and each is intersected with a selection
of the whole row group.  Deleted rows are skipped as far as the bound of the loop that looks for
them goes, which has 32 bits.
-/

namespace IcefallDB

namespace ScanSelection

open RowSelector RowSelection

variable {lib : RowSelections} {vectors : String → DeletionVector}

/-! ## Deleted rows -/

/-- The row at an offset is skipped as deleted. -/
def isSkipped (deletions : DeletionVector) (total offset : Nat) : Bool :=
  offset ∈ deletions ∧ offset < total % 2 ^ 32

/-- After some offsets the runs end behind the last deleted one. -/
theorem flags_foldl_deletionStep (deletions : DeletionVector) (bound : Nat) :
    let state := (List.range bound).foldl (deletionStep deletions) ([], 0)
    state.2 ≤ bound ∧ (∀ offset, state.2 ≤ offset → offset < bound → offset ∉ deletions) ∧
      flags state.1 = (List.range state.2).map fun offset => decide (offset ∉ deletions) := by
  induction bound with
  | zero => exact ⟨le_rfl, fun _ _ below => absurd below (Nat.not_lt_zero _), rfl⟩
  | succ bound ih =>
      simp only [List.range_succ, List.foldl_append, List.foldl_cons, List.foldl_nil]
      generalize (List.range bound).foldl (deletionStep deletions) ([], 0) = state at ih ⊢
      obtain ⟨le, live, same⟩ := ih
      rw [deletionStep]
      split
      · next deleted =>
          have live_run : List.replicate (bound - state.2) true =
              (List.range' state.2 (bound - state.2)).map fun offset =>
                decide (offset ∉ deletions) := by
            symm
            rw [List.eq_replicate_iff]
            refine ⟨by simp, fun flag member => ?_⟩
            obtain ⟨offset, inside, rfl⟩ := List.mem_map.mp member
            rw [List.mem_range'_1] at inside
            exact decide_eq_true (live offset inside.1 (by omega))
          have run_flags : flags (if state.2 < bound then [select (bound - state.2)] else []) =
              List.replicate (bound - state.2) true := by
            split
            · simp
            · next empty =>
                rw [show bound - state.2 = 0 by omega]
                rfl
          refine ⟨le_rfl, fun offset above below => by omega, ?_⟩
          rw [flags_append, flags_append, same, run_flags, live_run, List.range_succ,
            List.map_append, ← List.map_append]
          rw [range_append_range' le]
          simp [deleted]
      · next kept =>
          refine ⟨by omega, fun offset above below => ?_, same⟩
          rcases Nat.lt_succ_iff_lt_or_eq.mp below with earlier | rfl
          · exact live offset above earlier
          · exact kept

/-- The selection skips the rows that are deleted below the bound. -/
theorem flags_deletionSelectors (deletions : DeletionVector) (total : Nat) :
    flags (deletionSelectors deletions total) =
      (List.range total).map fun offset => !isSkipped deletions total offset := by
  obtain ⟨le, live, same⟩ := flags_foldl_deletionStep deletions (total % 2 ^ 32)
  rw [deletionSelectors]
  generalize (List.range (total % 2 ^ 32)).foldl (deletionStep deletions) ([], 0) = state
    at le live same ⊢
  have bound_le : total % 2 ^ 32 ≤ total := Nat.mod_le _ _
  have head : (List.range state.2).map (fun offset => decide (offset ∉ deletions)) =
      (List.range state.2).map fun offset => !isSkipped deletions total offset := by
    apply List.map_congr_left
    intro offset member
    rw [List.mem_range] at member
    have below : offset < total % 2 ^ 32 := by omega
    simp only [isSkipped, below, and_true, decide_not]
  have tail : List.replicate (total - state.2) true =
      (List.range' state.2 (total - state.2)).map fun offset =>
        !isSkipped deletions total offset := by
    symm
    rw [List.eq_replicate_iff]
    refine ⟨by simp, fun flag member => ?_⟩
    obtain ⟨offset, inside, rfl⟩ := List.mem_map.mp member
    rw [List.mem_range'_1] at inside
    by_cases below : offset < total % 2 ^ 32
    · simp only [isSkipped, live offset inside.1 below, false_and, decide_false, Bool.not_false]
    · simp only [isSkipped, below, and_false, decide_false, Bool.not_false]
  rw [← range_append_range' (le.trans bound_le), List.map_append, ← head, ← tail]
  split
  · simp [same]
  · next empty =>
      rw [show total - state.2 = 0 by omega, same]
      simp

/-! ## Slices -/

theorem flags_sliceSelection {rows offset chunk : Nat} (inside : offset + chunk ≤ rows) :
    lib.flags (sliceSelection lib rows offset chunk) =
      (List.range rows).map fun row => decide (offset ≤ row ∧ row < offset + chunk) := by
  rw [RowSelections.flags, sliceSelection, lib.flags_ofSelectors, flags_append, flags_cons,
    flags_cons, flags_skipRows, flags_select, flags_nil, List.append_nil, ← interval_flags inside]
  congr 1
  split
  · simp
  · next empty =>
      rw [show rows - offset - chunk = 0 by omega]
      rfl

/-- The rows at some offsets that are not skipped as deleted. -/
def isRead (vectors : String → DeletionVector) (rowGroup : PlannedRowGroup) (offset : Nat) : Bool :=
  match deletionsOf vectors rowGroup with
  | some deletions => !isSkipped deletions rowGroup.sidecar.rows offset
  | none => true

/-- What a partition reads, if its selection has the flags of a predicate. -/
theorem livePhysicalOffsets_eq {partition : ScanPartition lib} {p : Nat → Bool}
    (selects : match partition.rowSelection with
      | some selection =>
          lib.flags selection = (List.range partition.rowGroup.sidecar.rows).map p
      | none => ∀ offset, p offset = true) :
    livePhysicalOffsets (effectiveRowSelection vectors partition)
        partition.rowGroup.sidecar.rows =
      (List.range partition.rowGroup.sidecar.rows).filter fun offset =>
        p offset && isRead vectors partition.rowGroup offset := by
  obtain ⟨rowGroup, rowSelection⟩ := partition
  simp only [effectiveRowSelection, isRead]
  cases deletionsOf vectors rowGroup with
  | none =>
      cases rowSelection with
      | none =>
          have all : ∀ offset, p offset = true := selects
          simp only [livePhysicalOffsets, all, Bool.and_true, List.filter_true]
      | some selection =>
          simp only [Bool.and_true]
          exact offsets_eq_filter selects
  | some deletions =>
      have live_flags : lib.flags (deletionToRowSelection lib deletions rowGroup.sidecar.rows) =
          (List.range rowGroup.sidecar.rows).map fun offset =>
            !isSkipped deletions rowGroup.sidecar.rows offset := by
        rw [RowSelections.flags, deletionToRowSelection, lib.flags_ofSelectors,
          flags_deletionSelectors]
      cases rowSelection with
      | none =>
          have all : ∀ offset, p offset = true := selects
          simp only [all, Bool.true_and]
          exact offsets_eq_filter live_flags
      | some selection =>
          exact offsets_eq_filter (RowSelections.flags_intersection_eq selects live_flags)

/-- The rows of a row group that are read. -/
def readRows (vectors : String → DeletionVector) (rowGroup : PlannedRowGroup) :
    List (PlannedRowGroup × Nat) :=
  ((List.range rowGroup.sidecar.rows).filter (isRead vectors rowGroup)).map
    fun offset => (rowGroup, offset)

theorem selectedRows_whole (rowGroup : PlannedRowGroup) :
    selectedRows vectors ({ rowGroup, rowSelection := none } : ScanPartition lib) =
      readRows vectors rowGroup := by
  rw [selectedRows, livePhysicalOffsets_eq (p := fun _ => true) fun _ => rfl, readRows]
  simp only [Bool.true_and]

theorem filter_range_interval {rows offset chunk : Nat} (inside : offset + chunk ≤ rows)
    (q : Nat → Bool) :
    ((List.range rows).filter fun row => decide (offset ≤ row ∧ row < offset + chunk) && q row) =
      (List.range' offset chunk).filter q := by
  have cut : List.range rows = List.range offset ++ List.range' offset chunk ++
      List.range' (offset + chunk) (rows - offset - chunk) := by
    rw [List.append_assoc, List.range'_append_1, show chunk + (rows - offset - chunk) =
      rows - offset by omega, range_append_range' (by omega)]
  have before : ((List.range offset).filter fun row =>
      decide (offset ≤ row ∧ row < offset + chunk) && q row) = [] := by
    rw [List.filter_eq_nil_iff]
    intro row member
    rw [List.mem_range] at member
    simp [member.not_ge]
  have after : ((List.range' (offset + chunk) (rows - offset - chunk)).filter fun row =>
      decide (offset ≤ row ∧ row < offset + chunk) && q row) = [] := by
    rw [List.filter_eq_nil_iff]
    intro row member
    rw [List.mem_range'_1] at member
    simp [member.1.not_gt]
  rw [cut, List.filter_append, List.filter_append, before, after, List.nil_append, List.append_nil]
  apply List.filter_congr
  intro row member
  rw [List.mem_range'_1] at member
  simp [member.1, member.2]

/-- Slices that follow each other read what lies between the first offset and the last. -/
theorem flatMap_sliceFrom (rowGroup : PlannedRowGroup) (chunks : List Nat) {offset : Nat}
    (inside : offset + chunks.sum ≤ rowGroup.sidecar.rows) :
    (sliceFrom lib rowGroup offset chunks).flatMap (selectedRows vectors) =
      ((List.range' offset chunks.sum).filter (isRead vectors rowGroup)).map
        fun offset => (rowGroup, offset) := by
  induction chunks generalizing offset with
  | nil => rfl
  | cons chunk chunks ih =>
      rw [List.sum_cons] at inside ⊢
      rw [sliceFrom]
      split
      · next empty =>
          subst empty
          rw [Nat.zero_add] at inside ⊢
          exact ih inside
      · have first : offset + chunk ≤ rowGroup.sidecar.rows := by omega
        rw [List.flatMap_cons, ih (by omega), selectedRows,
          livePhysicalOffsets_eq (flags_sliceSelection first), filter_range_interval first,
          ← List.map_append, ← List.filter_append, List.range'_append_1]

theorem flatMap_cut (rowGroup : PlannedRowGroup) {count : Nat} (positive : 0 < count) :
    (cut lib rowGroup count).flatMap (selectedRows vectors) = readRows vectors rowGroup := by
  rw [cut]
  split
  · rw [List.flatMap_singleton, selectedRows_whole]
  · have sum := sum_sliceLengths rowGroup.sidecar.rows positive
    rw [flatMap_sliceFrom rowGroup _ (by omega), sum, ← List.range_eq_range', readRows]

/-! ## Numbers of slices -/

/-- Changing some elements of a list keeps its length and what holds of all elements. -/
theorem foldl_modify {change : Nat → Nat} {holds : Nat → Prop}
    (keeps : ∀ count, holds count → holds (change count)) (indices : List Nat) {splits : List Nat}
    (all : ∀ count ∈ splits, holds count) :
    (indices.foldl (fun splits index => splits.modify index change) splits).length =
      splits.length ∧
    ∀ count ∈ indices.foldl (fun splits index => splits.modify index change) splits,
      holds count := by
  induction indices generalizing splits with
  | nil => exact ⟨rfl, all⟩
  | cons index indices ih =>
      have changed : ∀ count ∈ splits.modify index change, holds count := by
        intro count member
        obtain ⟨position, found⟩ := List.mem_iff_getElem?.mp member
        rw [List.getElem?_modify, Option.map_eq_map, Option.map_eq_some_iff] at found
        obtain ⟨before, at_position, rfl⟩ := found
        have held := all before (List.mem_of_getElem? at_position)
        split
        · exact keeps before held
        · exact held
      obtain ⟨length, rest⟩ := ih changed
      exact ⟨length.trans (List.length_modify ..), rest⟩

variable {share : Nat → Nat → Nat → Nat}

theorem splitCounts_spec (positive : ∀ rows total desired, 1 ≤ share rows total desired)
    (rowGroups : List PlannedRowGroup) (desired : Nat) :
    (splitCounts share rowGroups desired).length = rowGroups.length ∧
      ∀ count ∈ splitCounts share rowGroups desired, 0 < count := by
  have shares : ∀ count ∈ (rowGroups.map fun rowGroup => rowGroup.sidecar.rows).map fun rows =>
      share rows (totalRows rowGroups) desired, 0 < count := by
    intro count member
    obtain ⟨rows, -, rfl⟩ := List.mem_map.mp member
    exact positive ..
  have length : ((rowGroups.map fun rowGroup => rowGroup.sidecar.rows).map fun rows =>
      share rows (totalRows rowGroups) desired).length = rowGroups.length := by
    rw [List.length_map, List.length_map]
  rw [splitCounts, ← length]
  split
  · apply foldl_modify _ _ shares
    intro count held
    split <;> omega
  · split
    · exact foldl_modify (fun count held => Nat.succ_pos count) _ shares
    · exact ⟨rfl, shares⟩

/-! ## Coverage -/

variable {rowGroups : List PlannedRowGroup}

variable (lib) (vectors) in
theorem flatMap_zip_cut {counts : List Nat} (length : counts.length = rowGroups.length)
    (positive : ∀ count ∈ counts, 0 < count) :
    ((rowGroups.zip counts).flatMap fun group => cut lib group.1 group.2).flatMap
        (selectedRows vectors) = rowGroups.flatMap (readRows vectors) := by
  induction rowGroups generalizing counts with
  | nil => rfl
  | cons rowGroup rowGroups ih =>
      cases counts with
      | nil => cases length
      | cons count counts =>
          rw [List.zip_cons_cons, List.flatMap_cons, List.flatMap_append,
            flatMap_cut _ (positive count List.mem_cons_self), List.flatMap_cons,
            ih (Nat.succ.inj length) fun other member => positive other (.tail _ member)]

/-- All partitions together read each row group as if it was read whole. -/
theorem flatMap_selectedRows (positive : ∀ rows total desired, 1 ≤ share rows total desired)
    (rowGroups : List PlannedRowGroup) (targetPartitions : Nat) (allowIntraSplit : Bool) :
    (splitRowGroups lib share rowGroups targetPartitions allowIntraSplit).flatMap
      (selectedRows vectors) = rowGroups.flatMap (readRows vectors) := by
  have whole : (rowGroups.map fun rowGroup =>
      ({ rowGroup, rowSelection := none } : ScanPartition lib)).flatMap (selectedRows vectors) =
        rowGroups.flatMap (readRows vectors) := by
    rw [List.flatMap_map]
    apply List.flatMap_congr
    intro rowGroup _
    exact selectedRows_whole rowGroup
  rw [splitRowGroups]
  split
  · dsimp only
    split
    · exact whole
    · have spec := splitCounts_spec positive rowGroups (max targetPartitions 1)
      exact flatMap_zip_cut lib vectors spec.1 spec.2
  · exact whole

/-- Every deleted row lies below the bound of the loop that looks for it. -/
def DeletionsBelowBound (vectors : String → DeletionVector) (rowGroup : PlannedRowGroup) : Prop :=
  ∀ deletions ∈ deletionsOf vectors rowGroup, ∀ offset ∈ deletions,
    offset < rowGroup.sidecar.rows → offset < rowGroup.sidecar.rows % 2 ^ 32

theorem isRead_eq_isLive_iff {rowGroup : PlannedRowGroup} :
    (∀ offset < rowGroup.sidecar.rows, isRead vectors rowGroup offset =
      isLive vectors rowGroup offset) ↔ DeletionsBelowBound vectors rowGroup := by
  rw [DeletionsBelowBound]
  unfold isRead isLive
  cases deletionsOf vectors rowGroup with
  | none => simp
  | some deletions =>
      simp only [Option.mem_def, Option.some.injEq, forall_eq', isSkipped, ← decide_not,
        decide_eq_decide, not_and]
      constructor
      · intro same offset deleted below
        by_contra beyond
        exact (same offset below).mp (fun _ => beyond) deleted
      · intro bounded offset below
        constructor
        · intro skipped deleted
          exact skipped deleted (bounded offset deleted below)
        · intro live deleted
          exact (live deleted).elim

/-- The partitions read the live rows, each once, exactly if deleted rows lie below the bound. -/
theorem perm_selectedRows_iff (positive : ∀ rows total desired, 1 ≤ share rows total desired)
    (rowGroups : List PlannedRowGroup) (targetPartitions : Nat) (allowIntraSplit : Bool) :
    ((splitRowGroups lib share rowGroups targetPartitions allowIntraSplit).flatMap
        (selectedRows vectors)).Perm (rowGroups.flatMap (liveRowsOf vectors)) ↔
      ∀ rowGroup ∈ rowGroups, DeletionsBelowBound vectors rowGroup := by
  rw [flatMap_selectedRows positive]
  constructor
  · intro perm rowGroup member
    apply isRead_eq_isLive_iff.mp
    intro offset below
    have same : (rowGroup, offset) ∈ rowGroups.flatMap (readRows vectors) ↔
        (rowGroup, offset) ∈ rowGroups.flatMap (liveRowsOf vectors) := perm.mem_iff
    have read_iff : (rowGroup, offset) ∈ rowGroups.flatMap (readRows vectors) ↔
        isRead vectors rowGroup offset = true := by
      simp only [readRows, List.mem_flatMap, List.mem_map, List.mem_filter, List.mem_range,
        Prod.mk.injEq]
      constructor
      · rintro ⟨other, -, offset', ⟨-, read⟩, rfl, rfl⟩
        exact read
      · intro read
        exact ⟨rowGroup, member, offset, ⟨below, read⟩, rfl, rfl⟩
    have live_iff : (rowGroup, offset) ∈ rowGroups.flatMap (liveRowsOf vectors) ↔
        isLive vectors rowGroup offset = true := by
      simp only [liveRowsOf, List.mem_flatMap, List.mem_map, List.mem_filter, List.mem_range,
        Prod.mk.injEq]
      constructor
      · rintro ⟨other, -, offset', ⟨-, live⟩, rfl, rfl⟩
        exact live
      · intro live
        exact ⟨rowGroup, member, offset, ⟨below, live⟩, rfl, rfl⟩
    rw [read_iff, live_iff] at same
    exact Bool.eq_iff_iff.mpr same
  · intro bounded
    have same : rowGroups.flatMap (readRows vectors) =
        rowGroups.flatMap (liveRowsOf vectors) := by
      apply List.flatMap_congr
      intro rowGroup member
      rw [readRows, liveRowsOf]
      congr 1
      apply List.filter_congr
      intro offset inside
      exact isRead_eq_isLive_iff.mpr (bounded rowGroup member) offset (List.mem_range.mp inside)
    rw [same]

/-! ## Reports -/

theorem sameCoordinates_refl (rowGroup : PlannedRowGroup) :
    SameCoordinates rowGroup rowGroup :=
  ⟨rfl, rfl, rfl, rfl, rfl⟩

/-- Slices of a row group. -/
def AreSlices (rowGroup : PlannedRowGroup) (partitions : List (ScanPartition lib)) : Prop :=
  ∀ partition ∈ partitions, partition.rowGroup = rowGroup ∧ partition.rowSelection.isSome

theorem areSlices_sliceFrom (rowGroup : PlannedRowGroup) (offset : Nat) (chunks : List Nat) :
    AreSlices rowGroup (sliceFrom lib rowGroup offset chunks) := by
  induction chunks generalizing offset with
  | nil => nofun
  | cons chunk chunks ih =>
      rw [sliceFrom]
      split
      · exact ih offset
      · intro partition member
        rcases List.mem_cons.mp member with rfl | later
        · exact ⟨rfl, rfl⟩
        · exact ih (offset + chunk) partition later

theorem sliceFrom_eq_nil_iff (rowGroup : PlannedRowGroup) (offset : Nat) (chunks : List Nat) :
    sliceFrom lib rowGroup offset chunks = [] ↔ chunks.sum = 0 := by
  induction chunks generalizing offset with
  | nil => simp [sliceFrom]
  | cons chunk chunks ih =>
      rw [sliceFrom, List.sum_cons]
      split
      · next empty => rw [ih, empty, Nat.zero_add]
      · next nonempty =>
          constructor
          · nofun
          · omega

/-- A row group is reported for its first slice, unless it has the coordinates of the last one. -/
theorem foldl_reportPartition {rowGroup : PlannedRowGroup} {partitions : List (ScanPartition lib)}
    (slices : AreSlices rowGroup partitions) (reported : List PlannedRowGroup) :
    partitions.foldl reportPartition reported =
      if partitions = [] ∨ ∃ last ∈ reported.getLast?, SameCoordinates last rowGroup then reported
      else reported ++ [rowGroup] := by
  have repeated : ∀ (rest : List (ScanPartition lib)) (reported : List PlannedRowGroup),
      AreSlices rowGroup rest → (∃ last ∈ reported.getLast?, SameCoordinates last rowGroup) →
      rest.foldl reportPartition reported = reported := by
    intro rest reported slices ⟨last, found, same⟩
    induction rest with
    | nil => rfl
    | cons partition rest ih =>
        obtain ⟨rfl, isSlice⟩ := slices partition List.mem_cons_self
        obtain ⟨selection, selected⟩ := Option.isSome_iff_exists.mp isSlice
        have kept : reportPartition reported partition = reported := by
          simp only [reportPartition, selected, Option.mem_def.mp found, if_pos same]
        rw [List.foldl_cons, kept]
        exact ih fun other member => slices other (.tail _ member)
  cases partitions with
  | nil => simp
  | cons partition rest =>
      by_cases here : ∃ last ∈ reported.getLast?, SameCoordinates last rowGroup
      · rw [if_pos (.inr here), repeated _ _ slices here]
      · rw [if_neg (by simpa using here)]
        obtain ⟨rfl, isSlice⟩ := slices partition List.mem_cons_self
        obtain ⟨selection, selected⟩ := Option.isSome_iff_exists.mp isSlice
        have added : reportPartition reported partition = reported ++ [partition.rowGroup] := by
          cases last_eq : reported.getLast? with
          | none => simp only [reportPartition, selected, last_eq]
          | some last =>
              have different : ¬ SameCoordinates last partition.rowGroup := fun same =>
                here ⟨last, last_eq, same⟩
              simp only [reportPartition, selected, last_eq, if_neg different]
        rw [List.foldl_cons, added]
        apply repeated rest _ fun other member => slices other (.tail _ member)
        exact ⟨partition.rowGroup, by simp, sameCoordinates_refl _⟩

/-- A row group that is cut does not vanish: it has rows, and other coordinates than the one
before. -/
def KeepsGroups (groups : List (PlannedRowGroup × Nat)) : Prop :=
  (∀ group ∈ groups, group.2 ≠ 1 → group.1.sidecar.rows ≠ 0) ∧
    groups.IsChain fun left right => right.2 ≠ 1 → ¬ SameCoordinates left.1 right.1

/-- What is reported for a row group. -/
theorem foldl_cut (reported : List PlannedRowGroup) (rowGroup : PlannedRowGroup) {count : Nat}
    (positive : 0 < count) :
    (cut lib rowGroup count).foldl reportPartition reported =
      if count ≠ 1 ∧ (rowGroup.sidecar.rows = 0 ∨
        ∃ last ∈ reported.getLast?, SameCoordinates last rowGroup) then reported
      else reported ++ [rowGroup] := by
  rw [cut]
  by_cases whole : count = 1
  · rw [if_pos whole, if_neg fun cutting => cutting.1 whole]
    simp only [List.foldl_cons, List.foldl_nil, reportPartition]
  · rw [if_neg whole, foldl_reportPartition (areSlices_sliceFrom rowGroup 0 _)]
    simp only [sliceFrom_eq_nil_iff, sum_sliceLengths _ positive, ne_eq, whole, not_false_eq_true,
      true_and]

variable (lib) in
theorem length_foldl_cut {groups : List (PlannedRowGroup × Nat)}
    (positive : ∀ group ∈ groups, 0 < group.2) (reported : List PlannedRowGroup) :
    ((groups.flatMap fun group => cut lib group.1 group.2).foldl reportPartition reported).length ≤
      reported.length + groups.length := by
  induction groups generalizing reported with
  | nil => simp
  | cons group groups ih =>
      rw [List.flatMap_cons, List.foldl_append, foldl_cut _ _ (positive group List.mem_cons_self)]
      have rest := ih (fun other member => positive other (.tail _ member))
      split
      · exact (rest reported).trans (by simp)
      · exact (rest _).trans (by simp; omega)

variable (lib) in
/-- The report is complete exactly if no row group vanishes. -/
theorem foldl_cut_iff {groups : List (PlannedRowGroup × Nat)}
    (positive : ∀ group ∈ groups, 0 < group.2) (reported : List PlannedRowGroup) :
    ((∀ group ∈ groups, group.2 ≠ 1 → group.1.sidecar.rows ≠ 0) ∧
      (∀ last ∈ reported.getLast?, ∀ group ∈ groups.head?, group.2 ≠ 1 →
        ¬ SameCoordinates last group.1) ∧
      groups.IsChain fun left right => right.2 ≠ 1 → ¬ SameCoordinates left.1 right.1) ↔
    ((groups.flatMap fun group => cut lib group.1 group.2).foldl reportPartition reported).Perm
      (reported ++ groups.map Prod.fst) := by
  induction groups generalizing reported with
  | nil => simp
  | cons group groups ih =>
      have count_pos := positive group List.mem_cons_self
      have rest_pos : ∀ other ∈ groups, 0 < other.2 := fun other member =>
        positive other (.tail _ member)
      rw [List.flatMap_cons, List.foldl_append, foldl_cut _ _ count_pos]
      split
      · next lost =>
          constructor
          · rintro ⟨nonempty, differs, -⟩
            rcases lost.2 with empty | ⟨last, found, same⟩
            · exact (nonempty group List.mem_cons_self lost.1 empty).elim
            · exact (differs last found group rfl lost.1 same).elim
          · intro perm
            have short := length_foldl_cut lib rest_pos reported
            have long := perm.length_eq
            rw [List.length_append, List.length_map, List.length_cons] at long
            omega
      · next kept =>
          have append_eq : reported ++ (group :: groups).map Prod.fst =
              (reported ++ [group.1]) ++ groups.map Prod.fst := by simp
          rw [append_eq, ← ih rest_pos (reported ++ [group.1])]
          rw [not_and_or, not_or] at kept
          have fine : group.2 ≠ 1 → group.1.sidecar.rows ≠ 0 ∧
              ∀ last ∈ reported.getLast?, ¬ SameCoordinates last group.1 := by
            intro cutting
            rcases kept with whole | ⟨nonempty, different⟩
            · exact (whole cutting).elim
            · exact ⟨nonempty, fun last found same => different ⟨last, found, same⟩⟩
          simp only [List.isChain_cons, List.getLast?_concat, Option.mem_def, Option.some.injEq,
            forall_eq', List.head?_cons, List.forall_mem_cons]
          constructor
          · rintro ⟨⟨-, nonempty⟩, -, next, chain⟩
            exact ⟨nonempty, next, chain⟩
          · rintro ⟨nonempty, next, chain⟩
            exact ⟨⟨fun cutting => (fine cutting).1, nonempty⟩,
              fun last found cutting => (fine cutting).2 last found, next, chain⟩

variable (lib) in
/-- Row groups that are cut have rows among them, so there are partitions. -/
theorem flatMap_cut_ne_nil {counts : List Nat} (length : counts.length = rowGroups.length)
    (positive : ∀ count ∈ counts, 0 < count) (rows : 0 < totalRows rowGroups) :
    (rowGroups.zip counts).flatMap (fun group => cut lib group.1 group.2) ≠ [] := by
  intro empty
  have read := flatMap_zip_cut lib (fun _ => ∅) length positive
  rw [empty, List.flatMap_nil] at read
  have nothing : ∀ rowGroup ∈ rowGroups, rowGroup.sidecar.rows = 0 := by
    intro rowGroup member
    by_contra some_rows
    have first : (rowGroup, 0) ∈ rowGroups.flatMap (readRows fun _ => ∅) := by
      rw [List.mem_flatMap]
      refine ⟨rowGroup, member, List.mem_map.mpr ⟨0, List.mem_filter.mpr ⟨?_, ?_⟩, rfl⟩⟩
      · exact List.mem_range.mpr (Nat.pos_of_ne_zero some_rows)
      · unfold isRead deletionsOf
        cases rowGroup.entry.deletes <;> simp [isSkipped]
    rw [← read] at first
    cases first
  have none_total : totalRows rowGroups = 0 := by
    apply List.sum_eq_zero
    intro count member
    obtain ⟨rowGroup, found, rfl⟩ := List.mem_map.mp member
    exact nothing rowGroup found
  omega

theorem plannedRowGroups_whole (rowGroups : List PlannedRowGroup) :
    plannedRowGroups (rowGroups.map fun rowGroup =>
      ({ rowGroup, rowSelection := none } : ScanPartition lib)) = rowGroups := by
  have added : ∀ reported : List PlannedRowGroup, (rowGroups.map fun rowGroup =>
      ({ rowGroup, rowSelection := none } : ScanPartition lib)).foldl reportPartition reported =
        reported ++ rowGroups := by
    induction rowGroups with
    | nil => simp
    | cons rowGroup rowGroups ih =>
        intro reported
        rw [List.map_cons, List.foldl_cons, ih]
        simp [reportPartition]
  exact added []

/-- Where row groups are cut, there are rows. -/
theorem totalRows_pos {targetPartitions : Nat} {allowIntraSplit : Bool}
    (splits : isSplit rowGroups targetPartitions allowIntraSplit = true) :
    0 < totalRows rowGroups := by
  have enough : minRowsPerPartition * 2 ≤ totalRows rowGroups := by
    rw [isSplit, Bool.and_eq_true, decide_eq_true_eq] at splits
    exact splits.2
  exact lt_of_lt_of_le (by decide) enough

/-- Each row group is reported once exactly if those that are cut do not vanish. -/
theorem perm_plannedRowGroups_iff (positive : ∀ rows total desired, 1 ≤ share rows total desired)
    (rowGroups : List PlannedRowGroup) (targetPartitions : Nat) (allowIntraSplit : Bool) :
    (plannedRowGroups (splitRowGroups lib share rowGroups targetPartitions allowIntraSplit)).Perm
        rowGroups ↔
      (isSplit rowGroups targetPartitions allowIntraSplit = true →
        KeepsGroups (rowGroups.zip (splitCounts share rowGroups (max targetPartitions 1)))) := by
  rw [splitRowGroups]
  by_cases splits : isSplit rowGroups targetPartitions allowIntraSplit = true
  · have spec := splitCounts_spec positive rowGroups (max targetPartitions 1)
    have nonempty := flatMap_cut_ne_nil lib spec.1 spec.2 (totalRows_pos splits)
    have counts_pos : ∀ group ∈ rowGroups.zip (splitCounts share rowGroups
        (max targetPartitions 1)), 0 < group.2 := fun group member =>
      spec.2 group.2 (List.of_mem_zip member).2
    have fst_eq : (rowGroups.zip (splitCounts share rowGroups (max targetPartitions 1))).map
        Prod.fst = rowGroups := List.map_fst_zip spec.1.ge
    have complete := foldl_cut_iff lib counts_pos []
    rw [List.nil_append, fst_eq] at complete
    simp only [splits, if_true, List.isEmpty_iff, nonempty, if_false, forall_const]
    rw [plannedRowGroups, ← complete, KeepsGroups]
    simp
  · simp only [splits, Bool.false_eq_true, if_false, plannedRowGroups_whole, false_implies,
      List.Perm.refl]

/-! ## Partitioning -/

/-- The partitions of a scan read every live row once and no deleted one, and each row group is
reported once, exactly if deleted rows lie below the number of rows in 32 bits and every row group
that is cut has rows and differs from the one before it. -/
theorem partitioning_iff (lib : RowSelections) {share : Nat → Nat → Nat → Nat}
    (positive : ∀ rows total desired, 1 ≤ share rows total desired)
    (vectors : String → DeletionVector) (rowGroups : List PlannedRowGroup)
    (targetPartitions : Nat) (allowIntraSplit : Bool) :
    (((splitRowGroups lib share rowGroups targetPartitions allowIntraSplit).flatMap
          (selectedRows vectors)).Perm (rowGroups.flatMap (liveRowsOf vectors)) ∧
        (plannedRowGroups
          (splitRowGroups lib share rowGroups targetPartitions allowIntraSplit)).Perm rowGroups) ↔
      (∀ rowGroup ∈ rowGroups, DeletionsBelowBound vectors rowGroup) ∧
        (isSplit rowGroups targetPartitions allowIntraSplit = true →
          KeepsGroups
            (rowGroups.zip (splitCounts share rowGroups (max targetPartitions 1)))) := by
  rw [perm_selectedRows_iff positive, perm_plannedRowGroups_iff positive]

end ScanSelection

/-! ## Concrete scans -/

namespace Integers

open ScanSelection

/-- A row group of a scan plan with some row ids. -/
def scannedGroup (fragmentId rows : Nat) (deletes : Option String) (rowIds : List RowIdSegment) :
    PlannedRowGroup where
  snapshot := 1
  entry := { data := "data/" ++ toString fragmentId, metaFile := "meta/" ++ toString fragmentId,
             fragmentId, deletes }
  sidecar := { rowGroup := "rg", schemaId := 1, rows, columns := ∅, columnOffsets := none,
               sort := none, rowIds, checksum := "", metaChecksum := "" }
  partitionValues := none

/-- The proportional share of a row group, rounded. -/
def roundedShare (rows total desired : Nat) : Nat :=
  max 1 ((2 * rows * desired + total) / (2 * total))

theorem one_le_roundedShare (rows total desired : Nat) : 1 ≤ roundedShare rows total desired :=
  Nat.le_max_left 1 _

/-- The first row of a row group of 2^32 rows is deleted, and it is read. -/
theorem not_partitioning_huge :
    ¬ (((ScanSelection.splitRowGroups RowSelections.shortest roundedShare
          [scannedGroup 1 (2 ^ 32) (some "deletes") []] 1 true).flatMap
            (selectedRows fun _ => {0})).Perm
          ([scannedGroup 1 (2 ^ 32) (some "deletes") []].flatMap (liveRowsOf fun _ => {0})) ∧
        (plannedRowGroups (ScanSelection.splitRowGroups RowSelections.shortest roundedShare
          [scannedGroup 1 (2 ^ 32) (some "deletes") []] 1 true)).Perm
          [scannedGroup 1 (2 ^ 32) (some "deletes") []]) := by
  rintro ⟨covered, -⟩
  have bounded := (perm_selectedRows_iff one_le_roundedShare _ _ _).mp covered _
    List.mem_cons_self
  have zero_below : 0 < 2 ^ 32 % 2 ^ 32 :=
    bounded {0} rfl 0 (Finset.mem_singleton_self 0) (by decide)
  simp at zero_below

/-- Two row groups of 15000 rows are read in four slices. -/
theorem partitioning_slices :
    ((ScanSelection.splitRowGroups RowSelections.shortest roundedShare
        [scannedGroup 1 15000 (some "deletes") [], scannedGroup 2 15000 none []] 4 true).flatMap
          (selectedRows fun _ => {0, 7499, 7500})).Perm
        ([scannedGroup 1 15000 (some "deletes") [], scannedGroup 2 15000 none []].flatMap
          (liveRowsOf fun _ => {0, 7499, 7500})) ∧
      (plannedRowGroups (ScanSelection.splitRowGroups RowSelections.shortest roundedShare
        [scannedGroup 1 15000 (some "deletes") [], scannedGroup 2 15000 none []] 4 true)).Perm
        [scannedGroup 1 15000 (some "deletes") [], scannedGroup 2 15000 none []] := by
  apply (partitioning_iff RowSelections.shortest one_le_roundedShare _ _ _ _).mpr
  constructor
  · intro rowGroup member deletions set offset _ below
    have rows : rowGroup.sidecar.rows = 15000 := by
      simp only [List.mem_cons, List.not_mem_nil, or_false] at member
      rcases member with rfl | rfl <;> rfl
    rw [rows] at below ⊢
    omega
  · intro _
    have counts : splitCounts roundedShare
        [scannedGroup 1 15000 (some "deletes") [], scannedGroup 2 15000 none []] 4 = [2, 2] := by
      decide
    rw [show max 4 1 = 4 from rfl, counts]
    constructor
    · intro group member _
      simp only [List.zip_cons_cons, List.zip_nil_right, List.mem_cons, List.not_mem_nil,
        or_false] at member
      rcases member with rfl | rfl <;> decide
    · refine List.isChain_pair.mpr fun _ same => ?_
      exact absurd same.1 (by decide)

end Integers

end IcefallDB
