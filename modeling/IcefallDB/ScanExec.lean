import IcefallDB.Lib.Limits
import IcefallDB.RowIndex

/-!
# The custom scan

The custom scan reads row groups in partitions, one row group or a slice of one in each.  A
partition reads the live rows of its slice, filters them, stops at the limit and synthesizes the
pseudo-columns.  Columns are numbered as in the table; the two pseudo-columns come after them.
-/

namespace IcefallDB

/-- Columns of a table with values of type `V` and data types of type `T`. -/
structure ScanSchema (V T : Type) where
  /-- Number of data columns. -/
  width : Nat
  dataType : Nat → T
  /-- The value of a 64-bit number. -/
  number : Nat → V
  /-- What a batch gives for a column that it does not have. -/
  absent : V

/-- Values of the data columns of a row. -/
abbrev DataRow (V : Type) : Type :=
  Nat → V

/-- A filter: it reads some columns and its result may be null. -/
structure ScanFilter (V : Type) where
  columns : List Nat
  test : DataRow V → Option Bool
  reads : ∀ first second : DataRow V, (∀ column ∈ columns, first column = second column) →
    test first = test second

/-- A row group with its contents. -/
structure ScanRowGroup (V : Type) where
  fragmentId : Nat
  rowIds : List RowIdSegment
  rows : List (DataRow V)
  deletions : Option DeletionVector

variable {V T : Type}

/-- All filters are true of a row. -/
def passes (filters : List (ScanFilter V)) (row : DataRow V) : Bool :=
  filters.all fun filter => filter.test row == some true

/-- Columns that the filters read. -/
def filterColumns (filters : List (ScanFilter V)) : List Nat :=
  filters.flatMap ScanFilter.columns

theorem passes_congr {filters : List (ScanFilter V)} {first second : DataRow V}
    (same : ∀ column ∈ filterColumns filters, first column = second column) :
    passes filters first = passes filters second := by
  rw [passes, passes, Bool.eq_iff_iff, List.all_eq_true, List.all_eq_true]
  apply forall₂_congr
  intro filter member
  rw [filter.reads first second]
  intro column read
  exact same column (List.mem_flatMap.mpr ⟨filter, member, read⟩)

theorem passes_nil (row : DataRow V) : passes [] row = true := rfl

/-! ## Partitions -/

/-- A row group, or a slice of one given by its offset and length. -/
structure ScanPartition (V : Type) where
  rowGroup : ScanRowGroup V
  slice : Option (Nat × Nat)

/-- The deletion vector does not have the row. -/
def ScanRowGroup.isLive (rowGroup : ScanRowGroup V) (row : DataRow V × Nat) : Bool :=
  match rowGroup.deletions with
  | none => true
  | some deletions => row.2 ∉ deletions

/-- Rows of a partition with their offsets in the fragment, without the deleted ones. -/
def ScanPartition.selected (partition : ScanPartition V) : List (DataRow V × Nat) :=
  let located := partition.rowGroup.rows.zipIdx
  let sliced :=
    match partition.slice with
    | none => located
    | some (offset, chunk) => (located.drop offset).take chunk
  sliced.filter partition.rowGroup.isLive

/-- A row with its row group and its offset there. -/
abbrev LocatedRow (V : Type) : Type :=
  ScanRowGroup V × DataRow V × Nat

/-- Rows of a partition with the row group they come from. -/
def ScanPartition.located (partition : ScanPartition V) : List (LocatedRow V) :=
  partition.selected.map fun row => (partition.rowGroup, row)

/-- Live rows of a row group. -/
def ScanRowGroup.located (rowGroup : ScanRowGroup V) : List (LocatedRow V) :=
  ScanPartition.located { rowGroup, slice := none }

/-- Lengths of the slices of `rows` rows in `count` parts. -/
def sliceLengths (rows count : Nat) : List Nat :=
  (List.range count).map fun index => rows / count + if index < rows % count then 1 else 0

/-- Partitions of slices that follow each other; empty slices get none. -/
def slicesFrom (rowGroup : ScanRowGroup V) : Nat → List Nat → List (ScanPartition V)
  | _, [] => []
  | offset, chunk :: chunks =>
      if chunk = 0 then slicesFrom rowGroup offset chunks
      else { rowGroup, slice := some (offset, chunk) } ::
        slicesFrom rowGroup (offset + chunk) chunks

/-- Split row groups into partitions; `splits` counts the slices of a row group beyond the first, if
row groups are split. -/
def splitRowGroups (splits : Option (Nat → Nat)) (rowGroups : List (ScanRowGroup V)) :
    List (ScanPartition V) :=
  let whole := rowGroups.map fun rowGroup => { rowGroup, slice := none }
  match splits with
  | none => whole
  | some splits =>
      let partitions := (rowGroups.mapIdx fun index rowGroup =>
        if splits index = 0 then [{ rowGroup, slice := none }]
        else slicesFrom rowGroup 0 (sliceLengths rowGroup.rows.length (splits index + 1))).flatten
      if partitions.isEmpty then whole else partitions

theorem flatMap_slicesFrom (rowGroup : ScanRowGroup V) (chunks : List Nat) (offset : Nat) :
    (slicesFrom rowGroup offset chunks).flatMap ScanPartition.located =
      (((rowGroup.rows.zipIdx.drop offset).take chunks.sum).filter rowGroup.isLive).map
        fun row => (rowGroup, row) := by
  induction chunks generalizing offset with
  | nil => simp [slicesFrom]
  | cons chunk chunks ih =>
      rw [slicesFrom, List.sum_cons]
      split
      · rename_i empty
        rw [ih, empty, Nat.zero_add]
      · rw [List.flatMap_cons, ih, ScanPartition.located, ScanPartition.selected,
          ← List.map_append, ← List.filter_append, List.take_add, List.drop_drop]

theorem sum_sliceLengths (rows : Nat) {count : Nat} (positive : 0 < count) :
    (sliceLengths rows count).sum = rows := by
  have extra : ∀ bound, ((List.range bound).map fun index =>
      rows / count + if index < rows % count then 1 else 0).sum =
        bound * (rows / count) + min bound (rows % count) := by
    intro bound
    induction bound with
    | zero => simp
    | succ bound ih =>
        rw [List.range_succ, List.map_append, List.sum_append, ih, List.map_singleton,
          List.sum_singleton, Nat.succ_mul]
        split <;> omega
  rw [sliceLengths, extra]
  have remainder := Nat.mod_lt rows positive
  have whole := Nat.div_add_mod rows count
  omega

theorem flatMap_flatten_mapIdx {α β γ : Type} {split : Nat → α → List β} {read : β → List γ}
    {whole : α → List γ} (reads : ∀ index element, (split index element).flatMap read =
      whole element) (elements : List α) :
    (elements.mapIdx split).flatten.flatMap read = elements.flatMap whole := by
  induction elements generalizing split with
  | nil => rfl
  | cons element elements ih =>
      rw [List.mapIdx_cons, List.flatten_cons, List.flatMap_append, reads, List.flatMap_cons,
        ih fun index => reads (index + 1)]

/-- The partitions hold every live row once, in order. -/
theorem flatMap_splitRowGroups (splits : Option (Nat → Nat)) (rowGroups : List (ScanRowGroup V)) :
    (splitRowGroups splits rowGroups).flatMap ScanPartition.located =
      rowGroups.flatMap ScanRowGroup.located := by
  have whole : (rowGroups.map fun rowGroup =>
      ({ rowGroup, slice := none } : ScanPartition V)).flatMap ScanPartition.located =
        rowGroups.flatMap ScanRowGroup.located := by
    rw [List.flatMap_map]
    rfl
  cases splits with
  | none => exact whole
  | some splits =>
      simp only [splitRowGroups]
      split
      · exact whole
      · apply flatMap_flatten_mapIdx
        intro index rowGroup
        split
        · rw [List.flatMap_singleton]
          rfl
        · rw [flatMap_slicesFrom, sum_sliceLengths _ (Nat.succ_pos _), List.drop_zero,
            List.take_of_length_le List.length_zipIdx.le]
          rfl

/-! ## Columns of a batch -/

/-- The order in which the reader returns columns, each of them once. -/
def fileOrder (width : Nat) (columns : List Nat) : List Nat :=
  (List.range width).filter (· ∈ columns)

theorem fileOrder_eq {width : Nat} {columns : List Nat} (ascending : columns.Pairwise (· < ·))
    (inside : ∀ column ∈ columns, column < width) : fileOrder width columns = columns := by
  have ordered : (fileOrder width columns).Pairwise (· < ·) := List.pairwise_lt_range.filter _
  have nodup : ∀ {list : List Nat}, list.Pairwise (· < ·) → list.Nodup :=
    fun pairwise => pairwise.imp ne_of_lt
  apply List.Perm.eq_of_pairwise _ ordered ascending
  · apply (List.perm_ext_iff_of_nodup (nodup ordered) (nodup ascending)).mpr
    intro column
    rw [fileOrder, List.mem_filter, List.mem_range, decide_eq_true_eq]
    exact ⟨And.right, fun member => ⟨inside column member, member⟩⟩
  · intro first second _ _ less more
    omega

/-- Row id at an offset of a fragment. -/
def rowIdAtOffset : List RowIdSegment → Nat → Option Nat
  | [], _ => none
  | .range start count :: segments, remaining =>
      if remaining < count then some (start + remaining)
      else rowIdAtOffset segments (remaining - count)
  | .sorted ids :: segments, remaining =>
      match ids[remaining]? with
      | some id => some id
      | none => rowIdAtOffset segments (remaining - ids.length)

/-- Value of a column of a located row; `_rowid` and `_rowaddr` come after the data columns. -/
def columnValue (schema : ScanSchema V T) (rowGroup : ScanRowGroup V) (row : DataRow V × Nat)
    (column : Nat) : V :=
  if column < schema.width then row.1 column
  else if column = schema.width then
    schema.number ((rowIdAtOffset rowGroup.rowIds row.2).getD 0)
  else schema.number ((rowGroup.fragmentId <<< 32 ||| row.2) % 2 ^ 64)

/-- Columns behind the output columns when the columns of the batch are used up in order. -/
def stitch (width : Nat) : List Nat → List Nat → Option (List Nat)
  | [], _ => some []
  | column :: columns, batch =>
      if column < width then
        match batch with
        | [] => none
        | source :: batch => (stitch width columns batch).map (source :: ·)
      else (stitch width columns batch).map (column :: ·)

theorem stitch_filter (width : Nat) (columns : List Nat) :
    stitch width columns (columns.filter (· < width)) = some columns := by
  induction columns with
  | nil => rfl
  | cons column columns ih =>
      by_cases data : column < width <;> simp [stitch, data, ih]

/-! ## Execution -/

/-- A custom scan with its output columns. -/
structure ScanExec (V T : Type) where
  schema : ScanSchema V T
  partitions : List (ScanPartition V)
  columns : List Nat
  filters : List (ScanFilter V)
  limit : Option Nat

namespace ScanExec

/-- Some output column is a pseudo-column. -/
def hasPseudo (exec : ScanExec V T) : Bool :=
  exec.columns.any (exec.schema.width ≤ ·)

/-- Data columns of the output. -/
def dataColumns (exec : ScanExec V T) : List Nat :=
  exec.columns.filter (· < exec.schema.width)

/-- Data columns of the output, and then the other columns that the filters read. -/
def expandedColumns (exec : ScanExec V T) : List Nat :=
  exec.dataColumns ++ (List.range exec.schema.width).filter fun column =>
    column ∈ filterColumns exec.filters ∧ column ∉ exec.dataColumns

/-- A column of the batch that is wide enough for the filters, found by its name. -/
def wideRow (exec : ScanExec V T) (batch : List Nat) (row : DataRow V) : DataRow V :=
  fun column =>
    match (exec.expandedColumns.zip batch).lookup column with
    | some source => row source
    | none => exec.schema.absent

/-- The rows of a partition, unless building a batch fails. -/
def executePartition [DecidableEq T] (exec : ScanExec V T) (partition : ScanPartition V) :
    Option (List (List V)) :=
  let value := columnValue exec.schema partition.rowGroup
  if !exec.hasPseudo then
    -- the reader filters, then stops at the limit; its batches are passed on as they are
    some ((Limits.upTo exec.limit (partition.selected.filter fun row =>
      passes exec.filters row.1)).map fun row =>
        (fileOrder exec.schema.width exec.dataColumns).map row.1)
  else
    -- a filter in the reader would shift the offsets, so the reader only stops at the limit
    let rows := Limits.upTo exec.limit partition.selected
    if rows.isEmpty then some []
    else if exec.filters.isEmpty then
      match stitch exec.schema.width exec.columns
          (fileOrder exec.schema.width exec.dataColumns) with
      | some sources =>
          if sources.map exec.schema.dataType = exec.columns.map exec.schema.dataType then
            some (rows.map fun row => sources.map (value row))
          else none
      | none => none
    else
      let batch := fileOrder exec.schema.width exec.expandedColumns
      if batch.map exec.schema.dataType = exec.expandedColumns.map exec.schema.dataType then
        some ((rows.filter fun row => passes exec.filters (exec.wideRow batch row.1)).map fun row =>
          exec.columns.map (value (exec.wideRow batch row.1, row.2)))
      else none

/-- The rows of all partitions. -/
def execute [DecidableEq T] (exec : ScanExec V T) : Option (List (List V)) :=
  (exec.partitions.mapM exec.executePartition).map List.flatten

/-- The output columns are in table order, and so are the columns read for the filters if these are
evaluated on batches with pseudo-columns. -/
structure Ordered (exec : ScanExec V T) : Prop where
  ascending : exec.columns.Pairwise (· < ·)
  expanded : exec.hasPseudo = true → exec.filters ≠ [] → exec.expandedColumns.Pairwise (· < ·)

/-- The filters are true of a located row. -/
def isMatch (exec : ScanExec V T) (row : LocatedRow V) : Bool :=
  passes exec.filters row.2.1

/-- Values of the output columns. -/
def output (exec : ScanExec V T) (row : LocatedRow V) : List V :=
  exec.columns.map (columnValue exec.schema row.1 row.2)

/-- Rows that a partition lets through: where there are pseudo-columns, the limit is below the
filters. -/
def partitionRows (exec : ScanExec V T) (partition : ScanPartition V) : List (LocatedRow V) :=
  if exec.hasPseudo then (Limits.upTo exec.limit partition.located).filter exec.isMatch
  else Limits.upTo exec.limit (partition.located.filter exec.isMatch)

section

variable {exec : ScanExec V T}

theorem lt_of_mem_dataColumns {column : Nat} (member : column ∈ exec.dataColumns) :
    column < exec.schema.width :=
  of_decide_eq_true (List.mem_filter.mp member).2

theorem lt_of_mem_expandedColumns {column : Nat} (member : column ∈ exec.expandedColumns) :
    column < exec.schema.width := by
  rcases List.mem_append.mp member with projected | added
  · exact lt_of_mem_dataColumns projected
  · exact List.mem_range.mp (List.mem_of_mem_filter added)

theorem mem_expandedColumns {column : Nat} (inside : column < exec.schema.width)
    (used : column ∈ exec.columns ∨ column ∈ filterColumns exec.filters) :
    column ∈ exec.expandedColumns := by
  rw [expandedColumns, List.mem_append]
  by_cases projected : column ∈ exec.dataColumns
  · exact .inl projected
  · right
    rw [List.mem_filter, List.mem_range, decide_eq_true_eq]
    rcases used with output | read
    · exact absurd (List.mem_filter.mpr ⟨output, decide_eq_true inside⟩) projected
    · exact ⟨inside, read, projected⟩

theorem wideRow_expandedColumns {row : DataRow V} {column : Nat}
    (member : column ∈ exec.expandedColumns) :
    exec.wideRow exec.expandedColumns row column = row column := by
  have found : ∀ columns : List Nat, column ∈ columns →
      (columns.zip columns).lookup column = some column := by
    intro columns
    induction columns with
    | nil => intro absurd_member; cases absurd_member
    | cons head columns ih =>
        intro inside
        rw [List.zip_cons_cons, List.lookup_cons]
        by_cases same : column = head
        · simp [same]
        · rw [beq_eq_false_iff_ne.mpr same]
          exact ih (List.mem_of_ne_of_mem same inside)
  rw [wideRow, found _ member]

/-- Rows that a partition lets through, before their row group is told. -/
theorem partitionRows_eq (partition : ScanPartition V) :
    exec.partitionRows partition =
      (if exec.hasPseudo then
        (Limits.upTo exec.limit partition.selected).filter fun row => passes exec.filters row.1
      else
        Limits.upTo exec.limit (partition.selected.filter fun row => passes exec.filters row.1)).map
        fun row => (partition.rowGroup, row) := by
  rw [partitionRows, ScanPartition.located, List.filter_map, Limits.upTo_map, Limits.upTo_map]
  split
  · rw [List.filter_map]
    rfl
  · rfl

/-- What a partition returns when the columns are in order. -/
theorem executePartition_eq [DecidableEq T] (ordered : exec.Ordered)
    (inside : ∀ column ∈ filterColumns exec.filters, column < exec.schema.width)
    (partition : ScanPartition V) :
    exec.executePartition partition = some ((exec.partitionRows partition).map exec.output) := by
  have data_ascending : exec.dataColumns.Pairwise (· < ·) := ordered.ascending.filter _
  have data_order := fileOrder_eq data_ascending fun column => lt_of_mem_dataColumns
  rw [executePartition, partitionRows_eq, List.map_map]
  by_cases pseudo : exec.hasPseudo = true
  · simp only [pseudo, Bool.not_true, Bool.false_eq_true, if_false, if_true]
    split
    · rename_i empty
      rw [List.isEmpty_iff.mp empty]
      rfl
    · by_cases unfiltered : exec.filters = []
      · rw [data_order, dataColumns, stitch_filter]
        simp only [unfiltered, List.isEmpty_nil, if_true, passes_nil, List.filter_true]
        rfl
      · have expanded_order := fileOrder_eq (ordered.expanded pseudo unfiltered)
          fun column => lt_of_mem_expandedColumns
        have same_passes (row : DataRow V) :
            passes exec.filters (exec.wideRow exec.expandedColumns row) =
              passes exec.filters row := by
          apply passes_congr
          intro column read
          exact wideRow_expandedColumns (mem_expandedColumns (inside column read) (.inr read))
        rw [expanded_order]
        simp only [List.isEmpty_iff, unfiltered, if_false, if_true, same_passes]
        congr 1
        apply List.map_congr_left
        intro row _
        apply List.map_congr_left
        intro column output
        rw [columnValue, columnValue]
        split
        · rename_i data
          exact wideRow_expandedColumns (mem_expandedColumns data (.inl output))
        · rfl
  · have all_data : exec.dataColumns = exec.columns := by
      rw [dataColumns, List.filter_eq_self]
      intro column member
      rw [hasPseudo, List.any_eq_true] at pseudo
      apply decide_eq_true
      by_contra wide
      exact pseudo ⟨column, member, decide_eq_true (Nat.le_of_not_lt wide)⟩
    rw [Bool.not_eq_true] at pseudo
    simp only [pseudo, Bool.not_false, if_true, Bool.false_eq_true, if_false]
    congr 1
    apply List.map_congr_left
    intro row _
    rw [data_order, all_data]
    apply List.map_congr_left
    intro column output
    rw [← all_data] at output
    exact (if_pos (lt_of_mem_dataColumns output)).symm

/-- The rows that a scan returns when its columns are in order. -/
theorem execute_eq [DecidableEq T] (ordered : exec.Ordered)
    (inside : ∀ column ∈ filterColumns exec.filters, column < exec.schema.width) :
    exec.execute = some ((exec.partitions.flatMap exec.partitionRows).map exec.output) := by
  have each : exec.executePartition = fun partition =>
      pure ((exec.partitionRows partition).map exec.output) := by
    funext partition
    exact executePartition_eq ordered inside partition
  rw [execute, each, List.mapM_pure, List.map_flatMap]
  rfl

end

end ScanExec

end IcefallDB
