import IcefallDB.Lib.Limits
import IcefallDB.ScanSelection.Cover
import Mathlib.Order.Bounds.Basic

/-!
# Statistics of scans

The statistics of a scan plan come from the sidecars, and those of a scan node from its partitions.
The optimizer answers queries from statistics that are marked exact.
-/

namespace IcefallDB

namespace ScanStatistics

open ScanSelection

/-- A statistic. -/
inductive Precision (α : Type)
  | exact (value : α)
  | absent
  deriving DecidableEq

/-- A column of a schema with its data type. -/
structure Field (T : Type) where
  name : String
  dataType : T

/-- Statistics of a column. -/
structure ColumnStatistics (V : Type) where
  nullCount : Precision Nat
  minValue : Precision V
  maxValue : Precision V

/-- Statistics of a plan. -/
structure Statistics (V : Type) where
  numRows : Precision Nat
  columnStatistics : List (ColumnStatistics V)

variable {T V : Type} [LinearOrder V]

/-- Nothing is known. -/
def Statistics.newUnknown (fields : List (Field T)) : Statistics V where
  numRows := .absent
  columnStatistics := fields.map fun _ =>
    { nullCount := .absent, minValue := .absent, maxValue := .absent }

/-! ## Scan plans -/

/-- The smaller value. -/
def pickMin (current next : V) : V :=
  match compare current next with
  | .gt => next
  | _ => current

/-- The larger value. -/
def pickMax (current next : V) : V :=
  match compare current next with
  | .lt => next
  | _ => current

/-- What is known of a column after some row groups. -/
structure ColumnState (V : Type) where
  nullCount : Nat
  minValue : Option V
  maxValue : Option V
  statsComplete : Bool

/-- Take in the bounds of a row group. -/
def ColumnState.addBounds (state : ColumnState V) (min max : V) : ColumnState V :=
  { state with
    minValue := some (match state.minValue with
      | some current => pickMin current min
      | none => min)
    maxValue := some (match state.maxValue with
      | some current => pickMax current max
      | none => max) }

section

variable (jsonToScalarValue : Scalar → T → Option V)

/-- The bounds of a column of a row group, if there are any and they can be decoded. -/
def decodedBounds (field : Field T) (stats : ColumnStats) : Option (V × V) := do
  let min ← stats.min
  let max ← stats.max
  let rgMin ← jsonToScalarValue min field.dataType
  let rgMax ← jsonToScalarValue max field.dataType
  some (rgMin, rgMax)

/-- Take in the statistics of a row group. -/
def columnStep (field : Field T) (state : ColumnState V) (rowGroup : PlannedRowGroup) :
    ColumnState V :=
  match rowGroup.sidecar.columns.lookup field.name with
  -- bounds cannot be proved; the null count is taken as zero
  | none => { state with statsComplete := false }
  | some stats =>
      let counted := { state with nullCount := state.nullCount + stats.nulls }
      if state.statsComplete then
        match decodedBounds jsonToScalarValue field stats with
        | some bounds => counted.addBounds bounds.1 bounds.2
        | none => { counted with statsComplete := false }
      else counted

/-- A bound is exact if the statistics are complete. -/
def exactIfComplete (complete : Bool) : Option V → Precision V
  | some value => if complete then .exact value else .absent
  | none => .absent

/-- Statistics of a column over all row groups. -/
def columnStats (rowGroups : List PlannedRowGroup) (field : Field T) : ColumnStatistics V :=
  let state := rowGroups.foldl (columnStep jsonToScalarValue field)
    { nullCount := 0, minValue := none, maxValue := none, statsComplete := true }
  { nullCount := .exact state.nullCount
    minValue := exactIfComplete state.statsComplete state.minValue
    maxValue := exactIfComplete state.statsComplete state.maxValue }

/-- Number of live rows of a row group, from its metadata. -/
def liveCount (rowGroup : PlannedRowGroup) : Nat :=
  rowGroup.sidecar.rows - rowGroup.entry.deletedCount

/-- Statistics of a scan plan. -/
def scanPlanStatistics (rowGroups : List PlannedRowGroup) (fields : List (Field T)) :
    Statistics V where
  numRows := .exact (rowGroups.map liveCount).sum
  columnStatistics := fields.map (columnStats jsonToScalarValue rowGroups)

end

/-! ## Scan nodes -/

variable {lib : RowSelections}

variable (lib T) in
/-- A scan node. -/
structure ScanNode where
  fields : List (Field T)
  partitions : List (ScanSelection.ScanPartition lib)
  /-- Pushed filters. -/
  filters : List (PlannedRowGroup × Nat → Bool)
  limit : Option Nat
  /-- There are pseudo-columns in the output. -/
  hasPseudo : Bool

/-- Number of rows that a selection selects. -/
def selectedCount (selection : lib.Selection) : Nat :=
  (((lib.iter selection).filter fun selector => !selector.skip).map RowSelector.rowCount).sum

/-- Number of rows of a partition. -/
def rowCount (partition : ScanSelection.ScanPartition lib) : Nat :=
  match partition.rowSelection with
  | some selection => selectedCount selection
  | none => liveCount partition.rowGroup

/-- Statistics of a row group. -/
def rowGroupStatistics (rowGroup : PlannedRowGroup) (fields : List (Field T)) : Statistics V :=
  { Statistics.newUnknown fields with numRows := .exact (liveCount rowGroup) }

/-- A partition is a selection of the rows of a row group with deleted rows. -/
def isSliceWithDeletes (partition : ScanSelection.ScanPartition lib) : Bool :=
  partition.rowSelection.isSome && partition.rowGroup.entry.deletes.isSome

/-- Statistics of a scan node or of one of its partitions, if there is one of this index. -/
def ScanNode.partitionStatistics (node : ScanNode T lib) (partition : Option Nat) :
    Option (Statistics V) :=
  if !node.filters.isEmpty then some (.newUnknown node.fields)
  else
    match partition with
    | some index => do
        let part ← node.partitions[index]?
        if isSliceWithDeletes part then some (.newUnknown node.fields)
        else some (rowGroupStatistics part.rowGroup node.fields)
    | none =>
        if node.partitions.any isSliceWithDeletes then some (.newUnknown node.fields)
        else
          some { Statistics.newUnknown node.fields with
            numRows := .exact (node.partitions.map rowCount).sum }

/-- Rows of a partition: where there are pseudo-columns, the limit is below the filters. -/
def ScanNode.partitionRows (node : ScanNode T lib) (vectors : String → DeletionVector)
    (partition : ScanSelection.ScanPartition lib) : List (PlannedRowGroup × Nat) :=
  let keep := fun row => node.filters.all fun filter => filter row
  if node.hasPseudo then (Limits.upTo node.limit (selectedRows vectors partition)).filter keep
  else Limits.upTo node.limit ((selectedRows vectors partition).filter keep)

/-- Rows of a scan node. -/
def ScanNode.rows (node : ScanNode T lib) (vectors : String → DeletionVector) :
    List (PlannedRowGroup × Nat) :=
  node.partitions.flatMap (node.partitionRows vectors)

end ScanStatistics

end IcefallDB
