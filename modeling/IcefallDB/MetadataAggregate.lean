import IcefallDB.AggCache
import IcefallDB.Compactor

/-!
# Aggregates from metadata

A query that counts or sums a whole table is answered from the metadata of the fragments and from
their partial aggregates, without reading any data file, where these are there and can be trusted.
-/

namespace IcefallDB

/-- A row group of a scan plan, with the partial aggregates of its live rows. -/
structure AggregatedRowGroup (F : Type) extends PlannedRowGroup where
  /-- The metadata could not be read, and `sidecar` is a placeholder. -/
  fallback : Bool
  aggState : Option (FragmentAggState F)

variable {R F : Type} [Double F]

/-! ## Planning -/

namespace Reader

/-- Metadata of a row group, from the checkpoint of the manifest or from the sidecar. -/
def findMeta (storage : TableStorage R) (manifest : Manifest) (schemaId index : Nat)
    (entry : RowGroupEntry) : Option RowGroupMeta :=
  match (loadCheckpoint storage manifest).bind fun checkpoint => checkpoint.fragments[index]? with
  | some summary => some (summarizedMeta schemaId entry summary)
  | none =>
      match storage.files.lookup entry.metaFile with
      | some (.sidecar sidecar) =>
          if sidecar.verifyMetaChecksum && sidecar.schemaId = schemaId then some sidecar else none
      | _ => none

/-- The row count that a manifest keeps for a row group. -/
def rowCount (manifest : Manifest) (index : Nat) : Option Nat :=
  manifest.rowCounts.bind fun counts => counts[index]?

/-- Metadata of a row group whose own metadata cannot be read. -/
def placeholderMeta (manifest : Manifest) (schemaId index : Nat) (entry : RowGroupEntry) :
    RowGroupMeta :=
  { rowGroup :=
      if ".parquet".toList.isSuffixOf entry.data.toList then
        String.ofList (entry.data.toList.take (entry.data.toList.length - 8))
      else entry.data
    schemaId
    rows := (rowCount manifest index).getD 0
    columns := ∅
    columnOffsets := none
    sort := none
    rowIds := []
    checksum := ""
    metaChecksum := "" }

/-- The partial aggregates in the sidecar of a row group, if it can be read. -/
def loadAggState (kernel : NumericKernel R F) (storage : TableStorage R) (entry : RowGroupEntry) :
    Option (FragmentAggState F) := do
  let path ← entry.agg
  match storage.files.lookup path with
  | some (.aggregate fragmentId contentHash rows) =>
      some (AggCache.computeAggState kernel fragmentId contentHash rows)
  | _ => none

/-- The partial aggregates of the live rows of a row group. -/
def liveAggState (kernel : NumericKernel R F) (storage : TableStorage R) (entry : RowGroupEntry) :
    Option (FragmentAggState F) :=
  if entry.deletedCount > 0 then do
    let full ← loadAggState kernel storage entry
    let path ← entry.deletes
    match storage.files.lookup path with
    | some (.deletions deletions) => do
        let deleted ← AggCache.deletedContribution kernel storage entry deletions full.cols.keys
        some (AggCache.retract full deleted)
    | _ => none
  else loadAggState kernel storage entry

/-- Plan a row group, with a placeholder for metadata that cannot be read. -/
def planAllowMissingMeta (kernel : NumericKernel R F) (storage : TableStorage R)
    (manifest : Manifest) (schemaId index : Nat) (entry : RowGroupEntry) : AggregatedRowGroup F :=
  let found := findMeta storage manifest schemaId index entry
  { snapshot := manifest.sequence
    entry
    sidecar := found.getD (placeholderMeta manifest schemaId index entry)
    partitionValues := manifest.partitionValues.bind fun values => values.lookup entry.data
    fallback := found.isNone
    aggState := liveAggState kernel storage entry }

theorem placeholderMeta_rows (manifest : Manifest) (schemaId index : Nat) (entry : RowGroupEntry) :
    (placeholderMeta manifest schemaId index entry).rows = (rowCount manifest index).getD 0 := rfl

section

variable (kernel : NumericKernel R F) (storage : TableStorage R) (manifest : Manifest)
  (schemaId index : Nat) (entry : RowGroupEntry)

@[simp]
theorem planAllowMissingMeta_entry :
    (planAllowMissingMeta kernel storage manifest schemaId index entry).entry = entry := rfl

@[simp]
theorem planAllowMissingMeta_sidecar :
    (planAllowMissingMeta kernel storage manifest schemaId index entry).sidecar =
      (findMeta storage manifest schemaId index entry).getD
        (placeholderMeta manifest schemaId index entry) := rfl

end

/-- Plan a scan of a manifest. -/
def scanAllowMissingMeta (kernel : NumericKernel R F) (storage : TableStorage R)
    (manifest : Manifest) (schemaId : Nat) : List (AggregatedRowGroup F) :=
  manifest.rowGroups.mapIdx (planAllowMissingMeta kernel storage manifest schemaId)

end Reader

/-! ## Composing answers -/

/-- Types of the answers. -/
inductive SqlType
  | int32 | int64 | uint64 | float32 | float64
  deriving DecidableEq

/-- A nullable value of an answer. -/
inductive ScalarValue (F : Type)
  | int32 (value : Option Int)
  | int64 (value : Option Int)
  | uint64 (value : Option Nat)
  | float32 (value : Option F)
  | float64 (value : Option F)
  deriving DecidableEq

/-- Null of a type. -/
def SqlType.null : SqlType → ScalarValue F
  | .int32 => .int32 none
  | .int64 => .int64 none
  | .uint64 => .uint64 none
  | .float32 => .float32 none
  | .float64 => .float64 none

/-- Arguments of aggregate functions. -/
inductive AggregateArg
  | column (name : String)
  /-- The argument of `COUNT(*)`. -/
  | literal
  | other
  deriving DecidableEq

namespace MetadataAggregate

/-- Rows of a row group that are not deleted. -/
def liveCount (group : AggregatedRowGroup F) : Nat :=
  group.sidecar.rows - group.entry.deletedCount

/-- Values of a column of a row group that are neither deleted nor null. -/
def columnCount (name : String) (group : AggregatedRowGroup F) : Option Nat :=
  if group.fallback then none
  else if group.entry.deletedCount > 0 then
    (group.aggState.bind fun state => state.cols.lookup name).map ColAgg.countNonNull
  else
    (group.sidecar.columns.lookup name).map fun stats => group.sidecar.rows - stats.nulls

/-- `COUNT`. -/
def computeCount (groups : List (AggregatedRowGroup F)) : AggregateArg → Option (ScalarValue F)
  | .column name => (groups.mapM (columnCount name)).map fun counts => .int64 (some counts.sum)
  | .literal => some (.int64 (some ((groups.map liveCount).sum : Nat)))
  | .other => none

/-- The partial aggregates of a column of a row group can be used. -/
def usablePartial (name : String) (group : AggregatedRowGroup F) : Option (ColAgg F) :=
  if group.fallback then none
  else do
    let state ← group.aggState
    if group.entry.deletedCount = 0 ∧ state.contentHash ≠ group.sidecar.checksum then none
    else state.cols.lookup name

/-- Accumulated count, sum and sum of squares. -/
abbrev Totals (V : Type) : Type :=
  Nat × V × V

/-- Add the partial aggregates of an integer column. -/
def addInts (totals : Totals Int) (agg : ColAgg F) : Option (Totals Int) :=
  match agg.sum, agg.sumsq with
  | .int sum, .int sumsq => do
      let sum ← Moments.checked AggCache.bound128 (totals.2.1 + sum)
      let sumsq ← Moments.checked AggCache.bound128 (totals.2.2 + sumsq)
      some (totals.1 + agg.countNonNull, sum, sumsq)
  | .null, .null => some (totals.1 + agg.countNonNull, totals.2)
  | _, _ => none

/-- Add the partial aggregates of a float column. -/
def addFloats (totals : Totals F) (agg : ColAgg F) : Option (Totals F) :=
  match agg.sum, agg.sumsq with
  | .float sum, .float sumsq =>
      some (totals.1 + agg.countNonNull, totals.2.1 + sum, totals.2.2 + sumsq)
  | .null, .null => some (totals.1 + agg.countNonNull, totals.2)
  | _, _ => none

/-- Count, sum and sum of squares of a column over all row groups.  The first row group decides
whether these are integers. -/
def collectColPartials (name : String) (groups : List (AggregatedRowGroup F)) :
    Option (Totals (AggScalar F)) := do
  match ← groups.mapM (usablePartial name) with
  | [] => some (0, .null, .null)
  | first :: rest =>
      match first.sum with
      | .int _ => do
          let totals ← (first :: rest).foldlM addInts (0, 0, 0)
          some (totals.1, .int totals.2.1, .int totals.2.2)
      | _ => do
          let totals ← (first :: rest).foldlM addFloats (0, 0, 0)
          some (totals.1, .float totals.2.1, .float totals.2.2)

/-- `SUM`. -/
def composeSum (groups : List (AggregatedRowGroup F)) (outType : SqlType) :
    AggregateArg → Option (ScalarValue F)
  | .column name => do
      let totals ← collectColPartials name groups
      match totals.2.1, outType with
      | .int sum, .int64 => (Moments.checked (2 ^ 63) sum).map fun value => .int64 (some value)
      | .int sum, .int32 => (Moments.checked (2 ^ 31) sum).map fun value => .int32 (some value)
      | .float sum, .float64 => some (.float64 (some sum))
      | .float sum, .float32 => some (.float32 (some (Double.toSingle sum)))
      | .null, type => some type.null
      | _, _ => none
  | _ => none

/-! ## Queries -/

/-- A query without a filter and without groups. -/
inductive Query
  | countStar
  | count (name : String)
  | sum (name : String)
  deriving DecidableEq

/-- The type of a sum of a column. -/
def sumType : NumericKind → SqlType
  | .signed => .int64
  | .unsigned => .uint64
  | .float => .float64

/-- The answer to a query from metadata, if there is one. -/
def answer (kernel : NumericKernel R F) (groups : List (AggregatedRowGroup F)) :
    Query → Option (ScalarValue F)
  | .countStar => computeCount groups .literal
  | .count name => computeCount groups (.column name)
  | .sum name => do
      let kind ← kernel.columns.lookup name
      composeSum groups (sumType kind) (.column name)

end MetadataAggregate

end IcefallDB
