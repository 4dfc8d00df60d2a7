import IcefallDB.Compactor
import IcefallDB.Lib.RowSelection
import IcefallDB.ScanExec
import Mathlib.Data.List.Sort

/-!
# Row selections of the custom scan

The custom scan cuts row groups into slices, and skips deleted rows, with row selections of the
Parquet reader.  The slice of a partition and the selection of the live rows are intersected.
-/

namespace IcefallDB

namespace ScanSelection

open RowSelector

/-- A row group, or a selection of its rows. -/
structure ScanPartition (lib : RowSelections) where
  rowGroup : PlannedRowGroup
  rowSelection : Option lib.Selection

/-! ## Splitting row groups -/

/-- Minimum rows per intra-row-group partition. -/
def minRowsPerPartition : Nat := 10000

/-- Number of rows of some row groups. -/
def totalRows (rowGroups : List PlannedRowGroup) : Nat :=
  (rowGroups.map fun rowGroup => rowGroup.sidecar.rows).sum

/-- Indices by descending values. -/
def largestFirst (values : List Nat) : List Nat :=
  (values.zipIdx.insertionSort fun left right => right.1 ≤ left.1).map Prod.snd

/-- Take one slice away from the row groups with the most slices. -/
def trimSplits (splits : List Nat) (excess : Nat) : List Nat :=
  ((largestFirst splits).take excess).foldl
    (fun splits index => splits.modify index fun count => if 1 < count then count - 1 else count)
    splits

/-- Give one more slice to the largest row groups. -/
def growSplits (rows splits : List Nat) (deficit : Nat) : List Nat :=
  ((largestFirst rows).take deficit).foldl
    (fun splits index => splits.modify index (· + 1)) splits

/-- Number of slices of each row group.  `share` is the rounded proportional share of a row group of
some rows among all, out of the desired number of slices, and at least one. -/
def splitCounts (share : Nat → Nat → Nat → Nat) (rowGroups : List PlannedRowGroup)
    (desired : Nat) : List Nat :=
  let rows := rowGroups.map fun rowGroup => rowGroup.sidecar.rows
  let splits := rows.map fun count => share count (totalRows rowGroups) desired
  if desired < splits.sum then trimSplits splits (splits.sum - desired)
  else if splits.sum < desired then growSplits rows splits (desired - splits.sum)
  else splits

/-- Row groups are cut. -/
def isSplit (rowGroups : List PlannedRowGroup) (targetPartitions : Nat) (allowIntraSplit : Bool) :
    Bool :=
  allowIntraSplit && !rowGroups.isEmpty && rowGroups.length < max targetPartitions 1 &&
    minRowsPerPartition * 2 ≤ totalRows rowGroups

section

variable (lib : RowSelections)

/-- The selection of a slice spans all rows of its row group. -/
def sliceSelection (rows offset chunk : Nat) : lib.Selection :=
  lib.ofSelectors ([skipRows offset, select chunk] ++
    if 0 < rows - offset - chunk then [skipRows (rows - offset - chunk)] else [])

/-- Partitions of slices that follow each other; empty slices get none. -/
def sliceFrom (rowGroup : PlannedRowGroup) : Nat → List Nat → List (ScanPartition lib)
  | _, [] => []
  | offset, chunk :: chunks =>
      if chunk = 0 then sliceFrom rowGroup offset chunks
      else
        { rowGroup, rowSelection := some (sliceSelection lib rowGroup.sidecar.rows offset chunk) } ::
          sliceFrom rowGroup (offset + chunk) chunks

/-- The partitions of a row group that is cut into a number of slices. -/
def cut (rowGroup : PlannedRowGroup) (count : Nat) : List (ScanPartition lib) :=
  if count = 1 then [{ rowGroup, rowSelection := none }]
  else sliceFrom lib rowGroup 0 (sliceLengths rowGroup.sidecar.rows count)

/-- Split row groups into partitions. -/
def splitRowGroups (share : Nat → Nat → Nat → Nat) (rowGroups : List PlannedRowGroup)
    (targetPartitions : Nat) (allowIntraSplit : Bool) : List (ScanPartition lib) :=
  let whole := rowGroups.map fun rowGroup => { rowGroup, rowSelection := none }
  if isSplit rowGroups targetPartitions allowIntraSplit then
    let partitions := (rowGroups.zip (splitCounts share rowGroups (max targetPartitions 1))).flatMap
      fun group => cut lib group.1 group.2
    if partitions.isEmpty then whole else partitions
  else whole

/-! ## Reporting row groups -/

/-- Two row groups have the same coordinates and deletion state. -/
def SameCoordinates (left right : PlannedRowGroup) : Prop :=
  left.entry.data = right.entry.data ∧ left.entry.metaFile = right.entry.metaFile ∧
    left.entry.fragmentId = right.entry.fragmentId ∧ left.sidecar.rows = right.sidecar.rows ∧
    left.entry.deletes = right.entry.deletes

instance (left right : PlannedRowGroup) : Decidable (SameCoordinates left right) :=
  inferInstanceAs (Decidable (_ ∧ _ ∧ _ ∧ _ ∧ _))

variable {lib}

/-- Report the row group of a partition, unless it is a slice of the one reported last. -/
def reportPartition (reported : List PlannedRowGroup) (partition : ScanPartition lib) :
    List PlannedRowGroup :=
  match partition.rowSelection, reported.getLast? with
  | some _, some last =>
      if SameCoordinates last partition.rowGroup then reported
      else reported ++ [partition.rowGroup]
  | _, _ => reported ++ [partition.rowGroup]

/-- The row groups of some partitions, with slices collapsed. -/
def plannedRowGroups (partitions : List (ScanPartition lib)) : List PlannedRowGroup :=
  partitions.foldl reportPartition []

/-! ## Selecting live rows -/

/-- Take in one offset: the runs so far and the position after the last deleted row. -/
def deletionStep (deletions : DeletionVector) (state : List RowSelector × Nat) (offset : Nat) :
    List RowSelector × Nat :=
  if offset ∈ deletions then
    (state.1 ++ (if state.2 < offset then [select (offset - state.2)] else []) ++ [skipRows 1],
      offset + 1)
  else state

/-- The runs of live and deleted rows.  The loop bound is a number of 32 bits. -/
def deletionSelectors (deletions : DeletionVector) (total : Nat) : List RowSelector :=
  let state := (List.range (total % 2 ^ 32)).foldl (deletionStep deletions) ([], 0)
  if state.2 < total then state.1 ++ [select (total - state.2)] else state.1

variable (lib) in
/-- A selection of the rows that are not deleted. -/
def deletionToRowSelection (deletions : DeletionVector) (total : Nat) : lib.Selection :=
  lib.ofSelectors (deletionSelectors deletions total)

/-- Offsets of the selected rows; without a selection all rows are selected. -/
def livePhysicalOffsets (selection : Option lib.Selection) (total : Nat) : List Nat :=
  match selection with
  | none => List.range total
  | some selection => RowSelection.offsetsFrom 0 (lib.iter selection)

/-- The deletion vector of a row group, from the vectors in the table. -/
def deletionsOf (vectors : String → DeletionVector) (rowGroup : PlannedRowGroup) :
    Option DeletionVector :=
  rowGroup.entry.deletes.map vectors

/-- The selection with which a partition is read. -/
def effectiveRowSelection (vectors : String → DeletionVector) (partition : ScanPartition lib) :
    Option lib.Selection :=
  match deletionsOf vectors partition.rowGroup with
  | some deletions =>
      let live := deletionToRowSelection lib deletions partition.rowGroup.sidecar.rows
      some (match partition.rowSelection with
        | some existing => lib.intersection existing live
        | none => live)
  | none => partition.rowSelection

/-- Rows that a partition reads: their row group and offset. -/
def selectedRows (vectors : String → DeletionVector) (partition : ScanPartition lib) :
    List (PlannedRowGroup × Nat) :=
  (livePhysicalOffsets (effectiveRowSelection vectors partition)
    partition.rowGroup.sidecar.rows).map fun offset => (partition.rowGroup, offset)

end

/-- The row at an offset is not deleted. -/
def isLive (vectors : String → DeletionVector) (rowGroup : PlannedRowGroup) (offset : Nat) : Bool :=
  match deletionsOf vectors rowGroup with
  | some deletions => offset ∉ deletions
  | none => true

/-- Live rows of a row group. -/
def liveRowsOf (vectors : String → DeletionVector) (rowGroup : PlannedRowGroup) :
    List (PlannedRowGroup × Nat) :=
  ((List.range rowGroup.sidecar.rows).filter (isLive vectors rowGroup)).map
    fun offset => (rowGroup, offset)

end ScanSelection

end IcefallDB
