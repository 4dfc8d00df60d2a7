import IcefallDB.ScanStatistics

/-!
# Exact statistics

Sidecars describe the physical rows, and a scan leaves out the deleted ones and what lies beyond its
limit.  Row counts of whole plans make up for deletions; null counts and bounds do not.
-/

namespace IcefallDB

namespace ScanStatistics

open ScanSelection

variable {T V : Type} {lib : RowSelections}

/-! ## Meaning -/

/-- Values of a column of some rows that are not null. -/
def valuesOf (value : PlannedRowGroup × Nat → Option V) (rows : List (PlannedRowGroup × Nat)) :
    Set V :=
  {bound | ∃ row ∈ rows, value row = some bound}

theorem valuesOf_append (value : PlannedRowGroup × Nat → Option V)
    (first second : List (PlannedRowGroup × Nat)) :
    valuesOf value (first ++ second) = valuesOf value first ∪ valuesOf value second := by
  ext bound
  simp only [valuesOf, Set.mem_ofPred_eq, List.mem_append, Set.mem_union, or_and_right, exists_or]

/-- Physical rows of a row group. -/
def physicalRows (rowGroup : PlannedRowGroup) : List (PlannedRowGroup × Nat) :=
  (List.range rowGroup.sidecar.rows).map fun offset => (rowGroup, offset)

/-- Number of rows with a null. -/
def nullsOf (value : PlannedRowGroup × Nat → Option V) (rows : List (PlannedRowGroup × Nat)) :
    Nat :=
  rows.countP fun row => (value row).isNone

theorem nullsOf_append (value : PlannedRowGroup × Nat → Option V)
    (first second : List (PlannedRowGroup × Nat)) :
    nullsOf value (first ++ second) = nullsOf value first + nullsOf value second :=
  List.countP_append

/-- Number of deleted rows with a null. -/
def deletedNulls (vectors : String → DeletionVector) (value : PlannedRowGroup × Nat → Option V)
    (rowGroup : PlannedRowGroup) : Nat :=
  ((List.range rowGroup.sidecar.rows).filter fun offset => !isLive vectors rowGroup offset).countP
    fun offset => (value (rowGroup, offset)).isNone

variable {vectors : String → DeletionVector}

variable (vectors) in
theorem nullsOf_physicalRows (value : PlannedRowGroup × Nat → Option V)
    (rowGroup : PlannedRowGroup) :
    nullsOf value (physicalRows rowGroup) =
      nullsOf value (liveRowsOf vectors rowGroup) + deletedNulls vectors value rowGroup := by
  rw [nullsOf, nullsOf, physicalRows, liveRowsOf, List.countP_map, List.countP_map, deletedNulls]
  exact List.countP_eq_countP_filter_add _ _ _

variable (vectors) in
theorem valuesOf_liveRowsOf_subset (value : PlannedRowGroup × Nat → Option V)
    (rowGroups : List PlannedRowGroup) :
    valuesOf value (rowGroups.flatMap (liveRowsOf vectors)) ⊆
      valuesOf value (rowGroups.flatMap physicalRows) := by
  intro bound ⟨row, member, found⟩
  obtain ⟨rowGroup, in_groups, live⟩ := List.mem_flatMap.mp member
  obtain ⟨offset, kept, rfl⟩ := List.mem_map.mp live
  have physical : (rowGroup, offset) ∈ physicalRows rowGroup :=
    List.mem_map_of_mem (List.mem_filter.mp kept).1
  exact ⟨_, List.mem_flatMap.mpr ⟨rowGroup, in_groups, physical⟩, found⟩

variable [LinearOrder V]

/-- What is exact among the statistics of a column is the value over some rows. -/
structure ColumnStatistics.IsTrue (stats : ColumnStatistics V)
    (value : PlannedRowGroup × Nat → Option V) (rows : List (PlannedRowGroup × Nat)) : Prop where
  nullCount : ∀ count, stats.nullCount = .exact count → nullsOf value rows = count
  minValue : ∀ bound, stats.minValue = .exact bound → IsLeast (valuesOf value rows) bound
  maxValue : ∀ bound, stats.maxValue = .exact bound → IsGreatest (valuesOf value rows) bound

/-- What is exact is the value over some rows. -/
structure Statistics.IsTrue (stats : Statistics V) (fields : List (Field T))
    (values : String → PlannedRowGroup × Nat → Option V) (rows : List (PlannedRowGroup × Nat)) :
    Prop where
  numRows : ∀ count, stats.numRows = .exact count → rows.length = count
  columns : ∀ (index : Nat) (field : Field T) (column : ColumnStatistics V),
    fields[index]? = some field → stats.columnStatistics[index]? = some column →
      column.IsTrue (values field.name) rows

/-- The metadata of a row group count its deleted rows. -/
structure CountsDeletes (vectors : String → DeletionVector) (rowGroup : PlannedRowGroup) :
    Prop where
  deletedCount : rowGroup.entry.deletedCount =
    ((ScanSelection.deletionsOf vectors rowGroup).getD ∅).card
  inside : ∀ deletions ∈ ScanSelection.deletionsOf vectors rowGroup, ∀ offset ∈ deletions,
    offset < rowGroup.sidecar.rows

/-- The metadata of a row group is correct for its physical rows. -/
structure Describes (jsonToScalarValue : Scalar → T → Option V) (vectors : String → DeletionVector)
    (values : String → PlannedRowGroup × Nat → Option V) (rowGroup : PlannedRowGroup) : Prop where
  counts : CountsDeletes vectors rowGroup
  nulls : ∀ name stats, rowGroup.sidecar.columns.lookup name = some stats →
    stats.nulls = nullsOf (values name) (physicalRows rowGroup)
  bounds : ∀ (field : Field T) stats bounds,
    rowGroup.sidecar.columns.lookup field.name = some stats →
      decodedBounds jsonToScalarValue field stats = some bounds →
        IsLeast (valuesOf (values field.name) (physicalRows rowGroup)) bounds.1 ∧
          IsGreatest (valuesOf (values field.name) (physicalRows rowGroup)) bounds.2

/-! ## Columns -/

theorem pickMin_eq_min (current next : V) : pickMin current next = min current next := by
  rw [pickMin]
  split
  · next greater => exact (min_eq_right (compare_gt_iff_gt.mp greater).le).symm
  · next other =>
      rcases le_or_gt current next with le | less
      · exact (min_eq_left le).symm
      · exact absurd (compare_gt_iff_gt.mpr less) other

theorem pickMax_eq_max (current next : V) : pickMax current next = max current next := by
  rw [pickMax]
  split
  · next less => exact (max_eq_right (compare_lt_iff_lt.mp less).le).symm
  · next other =>
      rcases le_or_gt next current with le | less
      · exact (max_eq_left le).symm
      · exact absurd (compare_lt_iff_lt.mpr less) other

section

variable {jsonToScalarValue : Scalar → T → Option V}
  {values : String → PlannedRowGroup × Nat → Option V} {field : Field T}

variable (jsonToScalarValue) in
/-- A row group has bounds of a column that can be decoded. -/
def hasBounds (field : Field T) (rowGroup : PlannedRowGroup) : Bool :=
  ((rowGroup.sidecar.columns.lookup field.name).bind
    (decodedBounds jsonToScalarValue field)).isSome

/-- A row group has statistics of a column. -/
def hasColumn (name : String) (rowGroup : PlannedRowGroup) : Bool :=
  (rowGroup.sidecar.columns.lookup name).isSome

/-- Number of nulls that a row group adds. -/
def columnNulls (name : String) (rowGroup : PlannedRowGroup) : Nat :=
  ((rowGroup.sidecar.columns.lookup name).map ColumnStats.nulls).getD 0

/-- A state describes the physical rows of the row groups gone through. -/
structure Summarizes (jsonToScalarValue : Scalar → T → Option V)
    (values : String → PlannedRowGroup × Nat → Option V) (field : Field T)
    (rowGroups : List PlannedRowGroup) (state : ColumnState V) : Prop where
  nullCount : state.nullCount = (rowGroups.map (columnNulls field.name)).sum
  statsComplete : state.statsComplete = rowGroups.all (hasBounds jsonToScalarValue field)
  nothing : rowGroups = [] → state.minValue = none ∧ state.maxValue = none
  bounds : state.statsComplete = true → rowGroups ≠ [] → ∃ least greatest,
    state.minValue = some least ∧ state.maxValue = some greatest ∧
      IsLeast (valuesOf (values field.name) (rowGroups.flatMap physicalRows)) least ∧
        IsGreatest (valuesOf (values field.name) (rowGroups.flatMap physicalRows)) greatest

variable {rowGroups : List PlannedRowGroup}

theorem Summarizes.columnStep {state : ColumnState V}
    (summarizes : Summarizes jsonToScalarValue values field rowGroups state)
    {rowGroup : PlannedRowGroup} (describes : Describes jsonToScalarValue vectors values rowGroup) :
    Summarizes jsonToScalarValue values field (rowGroups ++ [rowGroup])
      (columnStep jsonToScalarValue field state rowGroup) := by
  have nonempty : rowGroups ++ [rowGroup] ≠ [] := by simp
  have sum_eq : ((rowGroups ++ [rowGroup]).map (columnNulls field.name)).sum =
      state.nullCount + columnNulls field.name rowGroup := by
    rw [List.map_append, List.sum_append, summarizes.nullCount, List.map_singleton,
      List.sum_singleton]
  have all_eq : (rowGroups ++ [rowGroup]).all (hasBounds jsonToScalarValue field) =
      (state.statsComplete && hasBounds jsonToScalarValue field rowGroup) := by
    rw [List.all_append, summarizes.statsComplete, List.all_cons, List.all_nil, Bool.and_true]
  rw [ScanStatistics.columnStep]
  cases found : rowGroup.sidecar.columns.lookup field.name with
  | none =>
      constructor
      · rw [sum_eq, columnNulls, found]
        rfl
      · rw [all_eq, hasBounds, found]
        simp
      · exact fun empty => absurd empty nonempty
      · nofun
  | some stats =>
      have counted : state.nullCount + stats.nulls =
          ((rowGroups ++ [rowGroup]).map (columnNulls field.name)).sum := by
        rw [sum_eq, columnNulls, found]
        rfl
      dsimp only
      split
      · next complete =>
          cases decoded : decodedBounds jsonToScalarValue field stats with
          | none =>
              constructor
              · exact counted
              · rw [all_eq, hasBounds, found, Option.bind_some, decoded]
                simp
              · exact fun empty => absurd empty nonempty
              · nofun
          | some bounds =>
              obtain ⟨least, greatest⟩ := describes.bounds field stats bounds found decoded
              constructor
              · exact counted
              · rw [all_eq, hasBounds, found, Option.bind_some, decoded]
                simp [ColumnState.addBounds]
              · exact fun empty => absurd empty nonempty
              · intro _ _
                simp only [ColumnState.addBounds, List.flatMap_append, List.flatMap_singleton,
                  valuesOf_append, Option.some.injEq, ↓existsAndEq, true_and]
                by_cases first : rowGroups = []
                · obtain ⟨min_eq, max_eq⟩ := summarizes.nothing first
                  subst first
                  have no_values : valuesOf (values field.name) [] = ∅ := by
                    simp [valuesOf]
                  simpa only [min_eq, max_eq, List.flatMap_nil, no_values, Set.empty_union]
                    using ⟨least, greatest⟩
                · obtain ⟨low, high, min_eq, max_eq, low_least, high_greatest⟩ :=
                    summarizes.bounds complete first
                  simp only [min_eq, max_eq, pickMin_eq_min, pickMax_eq_max]
                  exact ⟨low_least.union least, high_greatest.union greatest⟩
      · next incomplete =>
          constructor
          · exact counted
          · simp [all_eq, incomplete]
          · exact fun empty => absurd empty nonempty
          · exact fun complete => absurd complete incomplete

variable (field) in
theorem summarizes_foldl
    (describes : ∀ rowGroup ∈ rowGroups, Describes jsonToScalarValue vectors values rowGroup) :
    Summarizes jsonToScalarValue values field rowGroups
      (rowGroups.foldl (columnStep jsonToScalarValue field)
        { nullCount := 0, minValue := none, maxValue := none, statsComplete := true }) := by
  induction rowGroups using List.reverseRecOn with
  | nil => exact ⟨rfl, rfl, fun _ => ⟨rfl, rfl⟩, fun _ empty => absurd rfl empty⟩
  | append_singleton rowGroups rowGroup ih =>
      rw [List.foldl_append, List.foldl_cons, List.foldl_nil]
      have before := ih fun other member => describes other (List.mem_append_left _ member)
      exact before.columnStep (describes rowGroup (by simp))

/-! ## Live rows -/

/-- The null count of the statistics and that of the live rows. -/
theorem sum_columnNulls (name : String)
    (describes : ∀ rowGroup ∈ rowGroups, Describes jsonToScalarValue vectors values rowGroup) :
    (rowGroups.map (columnNulls name)).sum +
        ((rowGroups.filter fun rowGroup => !hasColumn name rowGroup).map fun rowGroup =>
          nullsOf (values name) (liveRowsOf vectors rowGroup)).sum =
      nullsOf (values name) (rowGroups.flatMap (liveRowsOf vectors)) +
        ((rowGroups.filter (hasColumn name)).map (deletedNulls vectors (values name))).sum := by
  induction rowGroups with
  | nil => rfl
  | cons rowGroup rowGroups ih =>
      have rest := ih fun other member => describes other (List.mem_cons_of_mem _ member)
      rw [List.map_cons, List.sum_cons, List.flatMap_cons, nullsOf_append]
      cases found : rowGroup.sidecar.columns.lookup name with
      | none =>
          have missing : hasColumn name rowGroup = false := by rw [hasColumn, found]; rfl
          have nothing : columnNulls name rowGroup = 0 := by rw [columnNulls, found]; rfl
          rw [List.filter_cons_of_pos (by simp [missing]),
            List.filter_cons_of_neg (by simp [missing]), List.map_cons, List.sum_cons, nothing]
          omega
      | some stats =>
          have present : hasColumn name rowGroup = true := by rw [hasColumn, found]; rfl
          have nulls : columnNulls name rowGroup = stats.nulls := by rw [columnNulls, found]; rfl
          have counted := (describes rowGroup List.mem_cons_self).nulls name stats found
          rw [nullsOf_physicalRows vectors] at counted
          rw [List.filter_cons_of_neg (by simp [present]),
            List.filter_cons_of_pos present, List.map_cons, List.sum_cons, nulls, counted]
          omega

/-- The statistics of a column are those of the live rows. -/
structure ColumnExactWhen (jsonToScalarValue : Scalar → T → Option V)
    (vectors : String → DeletionVector) (values : String → PlannedRowGroup × Nat → Option V)
    (rowGroups : List PlannedRowGroup) (field : Field T) : Prop where
  /-- As many deleted rows have a null as live ones in row groups without statistics. -/
  nulls : ((rowGroups.filter (hasColumn field.name)).map
      (deletedNulls vectors (values field.name))).sum =
    ((rowGroups.filter fun rowGroup => !hasColumn field.name rowGroup).map fun rowGroup =>
      nullsOf (values field.name) (liveRowsOf vectors rowGroup)).sum
  /-- Where every row group has bounds, live rows attain the physical bounds. -/
  bounds : rowGroups ≠ [] → rowGroups.all (hasBounds jsonToScalarValue field) = true →
    (∃ least ∈ valuesOf (values field.name) (rowGroups.flatMap (liveRowsOf vectors)),
      least ∈ lowerBounds (valuesOf (values field.name) (rowGroups.flatMap physicalRows))) ∧
    ∃ greatest ∈ valuesOf (values field.name) (rowGroups.flatMap (liveRowsOf vectors)),
      greatest ∈ upperBounds (valuesOf (values field.name) (rowGroups.flatMap physicalRows))

/-- A bound of the physical values is one of the live values if one of these attains it. -/
theorem isLeast_iff_exists {live physical : Set V} (subset : live ⊆ physical) {bound : V}
    (least : IsLeast physical bound) :
    IsLeast live bound ↔ ∃ value ∈ live, value ∈ lowerBounds physical := by
  constructor
  · intro live_least
    exact ⟨bound, live_least.1, least.2⟩
  · intro ⟨value, member, lower⟩
    obtain rfl : value = bound := le_antisymm (lower least.1) (least.2 (subset member))
    exact ⟨member, fun other other_mem => lower (subset other_mem)⟩

theorem isGreatest_iff_exists {live physical : Set V} (subset : live ⊆ physical) {bound : V}
    (greatest : IsGreatest physical bound) :
    IsGreatest live bound ↔ ∃ value ∈ live, value ∈ upperBounds physical := by
  constructor
  · intro live_greatest
    exact ⟨bound, live_greatest.1, greatest.2⟩
  · intro ⟨value, member, upper⟩
    obtain rfl : value = bound := le_antisymm (greatest.2 (subset member)) (upper greatest.1)
    exact ⟨member, fun other other_mem => upper (subset other_mem)⟩

theorem columnStats_isTrue_iff
    (describes : ∀ rowGroup ∈ rowGroups, Describes jsonToScalarValue vectors values rowGroup)
    (field : Field T) :
    (columnStats jsonToScalarValue rowGroups field).IsTrue (values field.name)
        (rowGroups.flatMap (liveRowsOf vectors)) ↔
      ColumnExactWhen jsonToScalarValue vectors values rowGroups field := by
  have summarizes := summarizes_foldl field describes
  have nulls_eq := sum_columnNulls field.name describes
  have subset := valuesOf_liveRowsOf_subset vectors (values field.name) rowGroups
  rw [columnStats]
  generalize rowGroups.foldl (ScanStatistics.columnStep jsonToScalarValue field)
    { nullCount := 0, minValue := none, maxValue := none, statsComplete := true } = state
    at summarizes
  rw [← summarizes.nullCount] at nulls_eq
  constructor
  · intro isTrue
    constructor
    · have counted := isTrue.nullCount _ rfl
      omega
    · intro nonempty bounded
      rw [← summarizes.statsComplete] at bounded
      obtain ⟨low, high, min_eq, max_eq, least, greatest⟩ := summarizes.bounds bounded nonempty
      have low_live := isTrue.minValue low (by rw [min_eq, exactIfComplete, if_pos bounded])
      have high_live := isTrue.maxValue high (by rw [max_eq, exactIfComplete, if_pos bounded])
      exact ⟨(isLeast_iff_exists subset least).mp low_live,
        (isGreatest_iff_exists subset greatest).mp high_live⟩
  · intro exactWhen
    have exact_spec : ∀ {found : Option V} {bound : V},
        exactIfComplete state.statsComplete found = .exact bound →
          state.statsComplete = true ∧ found = some bound := by
      intro found bound exact_eq
      cases found with
      | none => cases exact_eq
      | some value =>
          rw [exactIfComplete] at exact_eq
          split at exact_eq
          · next complete =>
              cases exact_eq
              exact ⟨complete, rfl⟩
          · cases exact_eq
    have nonempty : ∀ {found : Option V} {bound : V},
        (rowGroups = [] → found = none) → found = some bound → rowGroups ≠ [] := by
      intro found bound nothing found_eq empty
      rw [nothing empty] at found_eq
      cases found_eq
    constructor
    · intro count count_eq
      cases count_eq
      have balanced := exactWhen.nulls
      omega
    · intro bound bound_eq
      obtain ⟨complete, found⟩ := exact_spec bound_eq
      have some_group := nonempty (fun empty => (summarizes.nothing empty).1) found
      obtain ⟨low, -, min_eq, -, least, -⟩ := summarizes.bounds complete some_group
      obtain rfl : low = bound := Option.some.inj (min_eq.symm.trans found)
      rw [summarizes.statsComplete] at complete
      exact (isLeast_iff_exists subset least).mpr (exactWhen.bounds some_group complete).1
    · intro bound bound_eq
      obtain ⟨complete, found⟩ := exact_spec bound_eq
      have some_group := nonempty (fun empty => (summarizes.nothing empty).2) found
      obtain ⟨-, high, -, max_eq, -, greatest⟩ := summarizes.bounds complete some_group
      obtain rfl : high = bound := Option.some.inj (max_eq.symm.trans found)
      rw [summarizes.statsComplete] at complete
      exact (isGreatest_iff_exists subset greatest).mpr (exactWhen.bounds some_group complete).2

end

/-! ## Partitions -/

/-- Number of deleted rows that lie beyond the bound of the loop that looks for them. -/
def beyondBound (vectors : String → DeletionVector) (rowGroup : PlannedRowGroup) : Nat :=
  (((ScanSelection.deletionsOf vectors rowGroup).getD ∅).filter fun offset =>
    rowGroup.sidecar.rows % 2 ^ 32 ≤ offset).card

/-- Number of rows that a limit cuts off. -/
def cutOff (limit : Option Nat) (rows : Nat) : Nat :=
  limit.elim 0 (rows - ·)

/-- Number of deleted rows that a partition reads. -/
def overread (vectors : String → DeletionVector) (partition : ScanSelection.ScanPartition lib) :
    Nat :=
  if partition.rowSelection.isSome then 0 else beyondBound vectors partition.rowGroup

theorem length_offsetsFrom (position : Nat) (selectors : List RowSelector) :
    (RowSelection.offsetsFrom position selectors).length =
      ((selectors.filter fun selector => !selector.skip).map RowSelector.rowCount).sum := by
  induction selectors generalizing position with
  | nil => rfl
  | cons selector selectors ih =>
      rw [RowSelection.offsetsFrom]
      cases skip : selector.skip with
      | true => simp [skip, ih]
      | false => simp [skip, ih]

theorem length_filter_notMem {skipped : Finset Nat} {total : Nat}
    (inside : ∀ offset ∈ skipped, offset < total) :
    ((List.range total).filter fun offset => decide (offset ∉ skipped)).length =
      total - skipped.card := by
  have nodup : ((List.range total).filter fun offset => decide (offset ∉ skipped)).Nodup :=
    List.nodup_range.filter _
  have rest : ((List.range total).filter fun offset => decide (offset ∉ skipped)).toFinset =
      Finset.range total \ skipped := by
    ext offset
    simp only [List.mem_toFinset, List.mem_filter, List.mem_range, Finset.mem_sdiff,
      Finset.mem_range, decide_eq_true_eq]
  have subset : skipped ⊆ Finset.range total := fun offset member =>
    Finset.mem_range.mpr (inside offset member)
  rw [← List.toFinset_card_of_nodup nodup, rest, Finset.card_sdiff_of_subset subset,
    Finset.card_range]

theorem CountsDeletes.length_liveRowsOf {rowGroup : PlannedRowGroup}
    (counts : CountsDeletes vectors rowGroup) :
    (liveRowsOf vectors rowGroup).length = liveCount rowGroup := by
  rw [liveRowsOf, List.length_map, liveCount, counts.deletedCount]
  unfold isLive
  cases found : ScanSelection.deletionsOf vectors rowGroup with
  | none => simp
  | some deletions => exact length_filter_notMem (counts.inside deletions found)

/-- The live rows are read, and the deleted ones beyond the bound. -/
theorem CountsDeletes.length_readRows {rowGroup : PlannedRowGroup}
    (counts : CountsDeletes vectors rowGroup) :
    (ScanSelection.readRows vectors rowGroup).length =
      liveCount rowGroup + beyondBound vectors rowGroup := by
  rw [ScanSelection.readRows, List.length_map, liveCount, beyondBound, counts.deletedCount]
  unfold isRead
  cases found : ScanSelection.deletionsOf vectors rowGroup with
  | none => simp
  | some deletions =>
      have inside := counts.inside deletions found
      have skipped_eq : ∀ offset, (!isSkipped deletions rowGroup.sidecar.rows offset) =
          decide (offset ∉ deletions.filter (· < rowGroup.sidecar.rows % 2 ^ 32)) := by
        intro offset
        simp only [isSkipped, Finset.mem_filter, decide_not]
      have pieces := Finset.card_filter_add_card_filter_not (s := deletions)
        (· < rowGroup.sidecar.rows % 2 ^ 32)
      have all_inside : deletions ⊆ Finset.range rowGroup.sidecar.rows := fun offset member =>
        Finset.mem_range.mpr (inside offset member)
      have bounded := Finset.card_le_card all_inside
      simp only [not_lt] at pieces
      rw [Finset.card_range] at bounded
      simp only [skipped_eq, Option.getD_some]
      rw [length_filter_notMem fun offset member => inside offset (Finset.mem_filter.mp member).1]
      omega

variable {partition : ScanSelection.ScanPartition lib}

/-- Rows that a partition reads without a limit. -/
theorem length_selectedRows (counts : CountsDeletes vectors partition.rowGroup)
    (whole : isSliceWithDeletes partition = false) :
    (selectedRows vectors partition).length = rowCount partition + overread vectors partition := by
  obtain ⟨rowGroup, rowSelection⟩ := partition
  cases rowSelection with
  | none =>
      rw [selectedRows_whole]
      exact counts.length_readRows
  | some selection =>
      have no_deletes : rowGroup.entry.deletes = none := by
        simpa [isSliceWithDeletes] using whole
      rw [selectedRows, List.length_map, effectiveRowSelection, ScanSelection.deletionsOf,
        no_deletes]
      exact length_offsetsFrom 0 _

theorem length_upTo {α : Type} (limit : Option Nat) (rows : List α) :
    (Limits.upTo limit rows).length + cutOff limit rows.length = rows.length := by
  cases limit with
  | none => rfl
  | some bound =>
      rw [Limits.upTo_some, List.length_take, cutOff, Option.elim_some]
      omega

/-- Rows of a partition, or of all. -/
def ScanNode.rowsOf (node : ScanNode T lib) (vectors : String → DeletionVector) :
    Option Nat → List (PlannedRowGroup × Nat)
  | none => node.rows vectors
  | some index => (node.partitions[index]?.map (node.partitionRows vectors)).getD []

/-- The statistics of a node are those of its rows: without filters, and if no selection is made of
a row group with deleted rows, the limit cuts off as many rows as deleted ones are read. -/
structure NodeExactWhen (vectors : String → DeletionVector) (node : ScanNode T lib) : Prop where
  all : node.filters = [] → (∀ partition ∈ node.partitions, isSliceWithDeletes partition = false) →
    (node.partitions.map fun partition =>
        cutOff node.limit (rowCount partition + overread vectors partition)).sum =
      (node.partitions.map (overread vectors)).sum
  /-- A single partition does not count the rows of its selection, which then selects all. -/
  each : node.filters = [] → ∀ partition ∈ node.partitions,
    isSliceWithDeletes partition = false →
      cutOff node.limit (rowCount partition + overread vectors partition) =
          overread vectors partition ∧
        ∀ selection ∈ partition.rowSelection,
          selectedCount selection = partition.rowGroup.sidecar.rows

/-- A partition of a node reads a row group whose metadata are correct, and its selection spans the
row group. -/
structure Spans (vectors : String → DeletionVector)
    (partition : ScanSelection.ScanPartition lib) : Prop where
  counts : CountsDeletes vectors partition.rowGroup
  spans : ∀ selection ∈ partition.rowSelection,
    (lib.flags selection).length = partition.rowGroup.sidecar.rows

theorem selectedCount_le (spans : Spans vectors partition) :
    ∀ selection ∈ partition.rowSelection,
      selectedCount selection ≤ partition.rowGroup.sidecar.rows := by
  intro selection selected
  rw [← spans.spans selection selected, selectedCount, RowSelections.flags]
  induction lib.iter selection with
  | nil => exact le_rfl
  | cons selector selectors ih =>
      rw [RowSelection.flags_cons, List.length_append, RowSelector.flags, List.length_replicate]
      cases skip : selector.skip with
      | true =>
          rw [List.filter_cons_of_neg (by simp [skip])]
          omega
      | false =>
          rw [List.filter_cons_of_pos (by simp [skip]), List.map_cons, List.sum_cons]
          omega

theorem columnStatistics_newUnknown_isTrue {fields : List (Field T)}
    {values : String → PlannedRowGroup × Nat → Option V} {rows : List (PlannedRowGroup × Nat)}
    {stats : Statistics V}
    (unknown : stats.columnStatistics = (Statistics.newUnknown fields).columnStatistics)
    (index : Nat) (field : Field T) (column : ColumnStatistics V)
    (found : stats.columnStatistics[index]? = some column) :
    column.IsTrue (values field.name) rows := by
  rw [unknown, Statistics.newUnknown, List.getElem?_map, Option.map_eq_some_iff] at found
  obtain ⟨_, -, rfl⟩ := found
  exact ⟨nofun, nofun, nofun⟩

variable {node : ScanNode T lib}

theorem partitionRows_of_unfiltered (unfiltered : node.filters = [])
    (partition : ScanSelection.ScanPartition lib) :
    node.partitionRows vectors partition =
      Limits.upTo node.limit (selectedRows vectors partition) := by
  simp only [ScanNode.partitionRows, unfiltered, List.all_nil, List.filter_true, ite_self]

/-- The row count of a partition is exact if the limit cuts off the deleted rows that are read, and
a selection is of all rows. -/
theorem length_partitionRows_iff (unfiltered : node.filters = []) (spans : Spans vectors partition)
    (whole : isSliceWithDeletes partition = false) :
    (node.partitionRows vectors partition).length = liveCount partition.rowGroup ↔
      cutOff node.limit (rowCount partition + overread vectors partition) =
          overread vectors partition ∧
        ∀ selection ∈ partition.rowSelection,
          selectedCount selection = partition.rowGroup.sidecar.rows := by
  have read := length_selectedRows spans.counts whole
  have limited := length_upTo node.limit (selectedRows vectors partition)
  have fits := selectedCount_le spans
  have deletedCount := spans.counts.deletedCount
  rw [read] at limited
  rw [partitionRows_of_unfiltered unfiltered]
  cases selected : partition.rowSelection with
  | none =>
      have count_eq : rowCount partition = liveCount partition.rowGroup := by
        rw [rowCount, selected]
      simp only [Option.mem_def, reduceCtorEq, false_implies, implies_true, and_true]
      omega
  | some selection =>
      have no_deletes : partition.rowGroup.entry.deletes = none := by
        simpa [isSliceWithDeletes, selected] using whole
      have count_eq : rowCount partition = selectedCount selection := by rw [rowCount, selected]
      have none_over : overread vectors partition = 0 := by
        rw [overread, selected, Option.isSome_some, if_pos rfl]
      have live_eq : liveCount partition.rowGroup = partition.rowGroup.sidecar.rows := by
        rw [ScanSelection.deletionsOf, no_deletes, Option.map_none, Option.getD_none,
          Finset.card_empty] at deletedCount
        rw [liveCount, deletedCount, Nat.sub_zero]
      have le := fits selection selected
      simp only [Option.mem_def, Option.some.injEq, forall_eq']
      omega

/-- The statistics of a node and of its partitions are exact under the condition. -/
theorem partitionStatistics_isTrue_iff (values : String → PlannedRowGroup × Nat → Option V)
    (spans : ∀ partition ∈ node.partitions, Spans vectors partition) :
    (∀ partition (stats : Statistics V), node.partitionStatistics partition = some stats →
        stats.IsTrue node.fields values (node.rowsOf vectors partition)) ↔
      NodeExactWhen vectors node := by
  have total : node.filters = [] →
      (∀ partition ∈ node.partitions, isSliceWithDeletes partition = false) →
        (node.rows vectors).length + (node.partitions.map fun partition =>
            cutOff node.limit (rowCount partition + overread vectors partition)).sum =
          (node.partitions.map rowCount).sum + (node.partitions.map (overread vectors)).sum := by
    intro unfiltered whole
    rw [ScanNode.rows, List.length_flatMap, ← List.sum_map_add, ← List.sum_map_add]
    congr 1
    apply List.map_congr_left
    intro partition member
    have read := length_selectedRows (spans partition member).counts (whole partition member)
    rw [partitionRows_of_unfiltered unfiltered, ← read]
    exact length_upTo node.limit _
  constructor
  · intro isTrue
    constructor
    · intro unfiltered whole
      have none_sliced : node.partitions.any isSliceWithDeletes = false := by
        simpa using whole
      have counted := (isTrue none { Statistics.newUnknown node.fields with
        numRows := .exact (node.partitions.map rowCount).sum }
        (by simp [ScanNode.partitionStatistics, unfiltered, none_sliced])).numRows _ rfl
      have balance := total unfiltered whole
      rw [ScanNode.rowsOf] at counted
      omega
    · intro unfiltered partition member whole
      obtain ⟨index, found⟩ := List.mem_iff_getElem?.mp member
      have counted := (isTrue (some index) (rowGroupStatistics partition.rowGroup node.fields)
        (by simp [ScanNode.partitionStatistics, unfiltered, found, whole])).numRows _ rfl
      rw [ScanNode.rowsOf, found, Option.map_some, Option.getD_some] at counted
      exact (length_partitionRows_iff unfiltered (spans partition member) whole).mp counted
  · intro exactWhen partition stats reported
    have unknown_isTrue : (Statistics.newUnknown node.fields : Statistics V).IsTrue node.fields
        values (node.rowsOf vectors partition) :=
      ⟨nofun, fun index field column _ found =>
        columnStatistics_newUnknown_isTrue rfl index field column found⟩
    unfold ScanNode.partitionStatistics at reported
    split at reported
    · cases reported
      exact unknown_isTrue
    · next filters =>
        have unfiltered : node.filters = [] := by simpa using filters
        cases partition with
        | some index =>
            simp only [Option.bind_eq_bind, Option.bind_eq_some_iff] at reported
            obtain ⟨part, found, chosen⟩ := reported
            split at chosen
            · cases chosen
              exact unknown_isTrue
            · next whole =>
                cases chosen
                have member := List.mem_of_getElem? found
                have not_sliced : isSliceWithDeletes part = false := by simpa using whole
                constructor
                · intro count count_eq
                  cases count_eq
                  rw [ScanNode.rowsOf, found, Option.map_some, Option.getD_some]
                  exact (length_partitionRows_iff unfiltered (spans part member) not_sliced).mpr
                    (exactWhen.each unfiltered part member not_sliced)
                · intro index field column _ column_eq
                  exact columnStatistics_newUnknown_isTrue rfl index field column column_eq
        | none =>
            dsimp only at reported
            split at reported
            · cases reported
              exact unknown_isTrue
            · next whole =>
                cases reported
                have not_sliced : ∀ part ∈ node.partitions, isSliceWithDeletes part = false := by
                  simpa using whole
                constructor
                · intro count count_eq
                  cases count_eq
                  have balance := total unfiltered not_sliced
                  have cut := exactWhen.all unfiltered not_sliced
                  rw [ScanNode.rowsOf]
                  omega
                · intro index field column _ column_eq
                  exact columnStatistics_newUnknown_isTrue rfl index field column column_eq

/-- Statistics that are marked exact are those of the rows of the scan exactly if, for the plan, null
counts of deleted rows and of row groups without statistics balance and live rows attain the
bounds, and, for the node, neither the limit nor a selection changes a row count. -/
theorem statistics_isTrue_iff {jsonToScalarValue : Scalar → T → Option V}
    {vectors : String → DeletionVector} {values : String → PlannedRowGroup × Nat → Option V}
    {rowGroups : List PlannedRowGroup}
    (describes : ∀ rowGroup ∈ rowGroups, Describes jsonToScalarValue vectors values rowGroup)
    (fields : List (Field T)) {node : ScanNode T lib}
    (spans : ∀ partition ∈ node.partitions, Spans vectors partition) :
    ((scanPlanStatistics jsonToScalarValue rowGroups fields).IsTrue fields values
          (rowGroups.flatMap (liveRowsOf vectors)) ∧
        ∀ partition (stats : Statistics V), node.partitionStatistics partition = some stats →
          stats.IsTrue node.fields values (node.rowsOf vectors partition)) ↔
      (∀ field ∈ fields, ColumnExactWhen jsonToScalarValue vectors values rowGroups field) ∧
        NodeExactWhen vectors node := by
  rw [partitionStatistics_isTrue_iff values spans]
  apply and_congr_left'
  constructor
  · intro isTrue field member
    obtain ⟨index, found⟩ := List.mem_iff_getElem?.mp member
    apply (columnStats_isTrue_iff describes field).mp
    apply isTrue.columns index field _ found
    rw [scanPlanStatistics, List.getElem?_map, found, Option.map_some]
  · intro exactWhen
    constructor
    · intro count count_eq
      cases count_eq
      rw [List.length_flatMap]
      congr 1
      apply List.map_congr_left
      intro rowGroup member
      exact (describes rowGroup member).counts.length_liveRowsOf
    · intro index field column found column_eq
      rw [scanPlanStatistics, List.getElem?_map, found, Option.map_some] at column_eq
      cases column_eq
      exact (columnStats_isTrue_iff describes field).mpr
        (exactWhen field (List.mem_of_getElem? found))

end ScanStatistics

/-! ## Concrete statistics -/

namespace Integers

open ScanStatistics ScanSelection

/-- Values of the column "id": one more than the offset. -/
def idValues (name : String) (row : PlannedRowGroup × Nat) : Option Int :=
  if name = "id" then some (row.2 + 1) else none

/-- Integers in metadata. -/
def jsonToInteger : Scalar → Unit → Option Int
  | .int value, _ => some value
  | _, _ => none

/-- A row group of the values 1, 2 and 3, one of which is deleted. -/
def countedGroup : PlannedRowGroup :=
  let group := scannedGroup 1 3 (some "deletes") []
  { group with
    entry := { group.entry with deletedCount := 1 }
    sidecar := { group.sidecar with
      columns := AList.singleton "id" { min := some (.int 1), max := some (.int 3), nulls := 0 } } }

/-- A scan of the row group. -/
def countedNode : ScanNode Unit RowSelections.shortest where
  fields := [{ name := "id", dataType := () }]
  partitions := [{ rowGroup := countedGroup, rowSelection := none }]
  filters := []
  limit := none
  hasPseudo := false

theorem valuesOf_physicalRows :
    valuesOf (idValues "id") (physicalRows countedGroup) =
      {bound | ∃ offset : Nat, offset < 3 ∧ (offset : Int) + 1 = bound} := by
  ext bound
  constructor
  · intro ⟨row, member, found⟩
    obtain ⟨offset, inside, rfl⟩ := List.mem_map.mp member
    exact ⟨offset, List.mem_range.mp inside, Option.some.inj found⟩
  · intro ⟨offset, inside, value⟩
    exact ⟨(countedGroup, offset), List.mem_map_of_mem (List.mem_range.mpr inside),
      congrArg some value⟩

theorem isLeast_physicalRows :
    IsLeast (valuesOf (idValues "id") (physicalRows countedGroup)) 1 := by
  rw [valuesOf_physicalRows]
  constructor
  · exact ⟨0, by decide, rfl⟩
  · intro bound ⟨offset, _, value⟩
    omega

theorem isGreatest_physicalRows :
    IsGreatest (valuesOf (idValues "id") (physicalRows countedGroup)) 3 := by
  rw [valuesOf_physicalRows]
  constructor
  · exact ⟨2, by decide, rfl⟩
  · intro bound ⟨offset, _, value⟩
    omega

/-- The smallest value is deleted, and still the exact minimum. -/
theorem not_isTrue_deletedMinimum :
    ¬ ((scanPlanStatistics jsonToInteger [countedGroup] [{ name := "id", dataType := () }]).IsTrue
          [{ name := "id", dataType := () }] idValues
          ([countedGroup].flatMap (liveRowsOf fun _ => {0})) ∧
        ∀ partition (stats : Statistics Int), countedNode.partitionStatistics partition =
          some stats → stats.IsTrue countedNode.fields idValues
            (countedNode.rowsOf (fun _ => {0}) partition)) := by
  intro ⟨truthful, _⟩
  have least := (truthful.columns 0 _ _ rfl rfl).minValue 1 rfl
  obtain ⟨row, member, found⟩ := least.1
  rw [List.flatMap_singleton] at member
  obtain ⟨offset, kept, rfl⟩ := List.mem_map.mp member
  have live := (List.mem_filter.mp kept).2
  have first : offset = 0 := by
    have value : ((offset : Int) + 1) = 1 := Option.some.inj found
    omega
  subst first
  exact absurd live (by decide)

/-- The middle value is deleted. -/
theorem isTrue_deletedMiddle :
    (scanPlanStatistics jsonToInteger [countedGroup] [{ name := "id", dataType := () }]).IsTrue
        [{ name := "id", dataType := () }] idValues
        ([countedGroup].flatMap (liveRowsOf fun _ => {1})) ∧
      ∀ partition (stats : Statistics Int), countedNode.partitionStatistics partition =
        some stats → stats.IsTrue countedNode.fields idValues
          (countedNode.rowsOf (fun _ => {1}) partition) := by
  have counts : CountsDeletes (fun _ => {1}) countedGroup := by
    constructor
    · rfl
    · intro deletions found offset member
      cases found
      rw [Finset.mem_singleton.mp member]
      decide
  have describes : ∀ rowGroup ∈ [countedGroup],
      Describes jsonToInteger (fun _ => {1}) idValues rowGroup := by
    intro rowGroup member
    obtain rfl := List.mem_singleton.mp member
    have only : ∀ name stats, countedGroup.sidecar.columns.lookup name = some stats →
        name = "id" ∧ stats = { min := some (.int 1), max := some (.int 3), nulls := 0 } := by
      intro name stats found
      have present : name ∈ countedGroup.sidecar.columns := by
        rw [← AList.lookup_isSome, found]
        rfl
      obtain rfl : name = "id" := List.mem_singleton.mp present
      cases found
      exact ⟨rfl, rfl⟩
    constructor
    · exact counts
    · intro name stats found
      obtain ⟨rfl, rfl⟩ := only name stats found
      rfl
    · intro field stats bounds found decoded
      obtain ⟨name_eq, rfl⟩ := only field.name stats found
      cases decoded
      rw [name_eq]
      exact ⟨isLeast_physicalRows, isGreatest_physicalRows⟩
  have live : ∀ offset : Nat, offset = 0 ∨ offset = 2 →
      ((offset : Int) + 1) ∈ valuesOf (idValues "id")
        ([countedGroup].flatMap (liveRowsOf fun _ => {1})) := by
    intro offset choice
    rw [List.flatMap_singleton]
    have kept : offset ∈ (List.range 3).filter (isLive (fun _ => {1}) countedGroup) := by
      rcases choice with rfl | rfl <;> decide
    exact ⟨(countedGroup, offset), List.mem_map_of_mem kept, rfl⟩
  have spans : ∀ partition ∈ countedNode.partitions, Spans (fun _ => {1}) partition := by
    intro partition member
    obtain rfl := List.mem_singleton.mp member
    exact ⟨counts, nofun⟩
  apply (statistics_isTrue_iff describes _ spans).mpr
  constructor
  · intro field member
    obtain rfl := List.mem_singleton.mp member
    constructor
    · decide
    · intro _ _
      constructor
      · exact ⟨_, live 0 (.inl rfl), isLeast_physicalRows.2⟩
      · exact ⟨_, live 2 (.inr rfl), isGreatest_physicalRows.2⟩
  · constructor
    · intro _ _
      decide
    · intro _ partition member _
      obtain rfl := List.mem_singleton.mp member
      exact ⟨by decide, nofun⟩

end Integers

end IcefallDB
