import IcefallDB.AggCache.Grouped
import IcefallDB.MetadataAggregate
import Mathlib.Algebra.Field.Rat

/-!
# Grouped aggregates from metadata

A query that groups by the declared column is answered from the partial aggregates of the groups of
all fragments, without reading any data file.
-/

namespace IcefallDB

/-- A row group of a scan plan, with the partial aggregates of the groups of its live rows. -/
structure GroupedRowGroup (F : Type) extends AggregatedRowGroup F where
  grouped : Option (GroupedPartials F)

/-- What a query may group by. -/
structure Grouping (R : Type) where
  /-- The columns of the table. -/
  columns : HashMap String (KeyColumn R)
  /-- The columns declared in the current schema. -/
  aggGroupKeys : List String
  /-- The column declared when an aggregate sidecar was written. -/
  declaredIn : String → Option String

variable {R F : Type} [Double F]

/-! ## Planning -/

namespace Reader

/-- The partial aggregates of the groups in the sidecar of a row group. -/
def loadGrouped (kernel : NumericKernel R F) (grouping : Grouping R) (storage : TableStorage R)
    (entry : RowGroupEntry) : Option (GroupedPartials F) := do
  let path ← entry.agg
  match storage.files.lookup path with
  | some (.aggregate fragmentId contentHash rows) => do
      let keyCol ← grouping.declaredIn path
      let state := AggCache.computeAggState kernel fragmentId contentHash rows
      AggCache.computeGrouped kernel grouping.columns keyCol state.cols rows
  | _ => none

/-- The partial aggregates of the groups of the live rows of a row group with deleted rows. -/
def resolveLiveGrouped (kernel : NumericKernel R F) (grouping : Grouping R)
    (storage : TableStorage R) (entry : RowGroupEntry) (deletions : DeletionVector)
    (fullGrouped : Option (GroupedPartials F)) : Option (GroupedPartials F) := do
  let keyCol ← grouping.aggGroupKeys.head?
  let partials ← fullGrouped
  if partials.keyCol ≠ keyCol then none
  else
    let measureCols := (partials.groups.entries.flatMap fun group => group.2.keys).dedup
    let groups ← AggCache.retractGrouped kernel grouping.columns storage entry partials deletions
      measureCols
    some { keyCol := partials.keyCol, groups }

/-- The partial aggregates of the groups of the live rows of a row group. -/
def liveGrouped (kernel : NumericKernel R F) (grouping : Grouping R) (storage : TableStorage R)
    (entry : RowGroupEntry) : Option (GroupedPartials F) :=
  let full := loadGrouped kernel grouping storage entry
  if entry.deletedCount > 0 then do
    let path ← entry.deletes
    match storage.files.lookup path with
    | some (.deletions deletions) =>
        resolveLiveGrouped kernel grouping storage entry deletions full
    | _ => none
  else full

/-- Plan a scan of a manifest, with the partial aggregates of groups. -/
def scanGrouped (kernel : NumericKernel R F) (grouping : Grouping R) (storage : TableStorage R)
    (manifest : Manifest) (schemaId : Nat) : List (GroupedRowGroup F) :=
  manifest.rowGroups.mapIdx fun index entry =>
    { planAllowMissingMeta kernel storage manifest schemaId index entry with
      grouped := liveGrouped kernel grouping storage entry }

end Reader

/-! ## Composing answers -/

/-- Aggregate functions of a column. -/
inductive AggregateFunction
  | count | sum | avg
  deriving DecidableEq

/-- An aggregate of a column. -/
structure GroupAggregate where
  function : AggregateFunction
  column : String
  deriving DecidableEq

/-- A value of an answer.  An average of integers is kept exact. -/
inductive GroupValue (F : Type)
  | scalar (value : ScalarValue F)
  | rational (value : ℚ)

namespace MetadataAggregate

/-- The partial aggregates of the groups of a row group can be used. -/
def usableGrouped (keyName : String) (group : GroupedRowGroup F) : Option (GroupedPartials F) :=
  if group.fallback then none
  else do
    let state ← group.aggState
    if group.entry.deletedCount = 0 ∧ state.contentHash ≠ group.sidecar.checksum then none
    else
      let partials ← group.grouped
      if partials.keyCol ≠ keyName then none else some partials

variable [Div F] [NatCast F]

/-- The value of an aggregate of a group, and how many values it is over. -/
def composeAggregateForGroup (kernel : NumericKernel R F) (cols : HashMap String (ColAgg F))
    (aggregate : GroupAggregate) : Option (GroupValue F × Nat) := do
  let agg ← cols.lookup aggregate.column
  let count := agg.countNonNull
  match aggregate.function with
  | .count => some (.scalar (.int64 (some count)), count)
  | .sum => do
      let kind ← kernel.columns.lookup aggregate.column
      match agg.sum, sumType kind with
      | .int sum, .int64 =>
          (Moments.checked (2 ^ 63) sum).map fun value => (.scalar (.int64 (some value)), count)
      | .int sum, .int32 =>
          (Moments.checked (2 ^ 31) sum).map fun value => (.scalar (.int32 (some value)), count)
      | .float sum, .float64 => some (.scalar (.float64 (some sum)), count)
      | .float sum, .float32 => some (.scalar (.float32 (some (Double.toSingle sum))), count)
      | .null, type => some (.scalar type.null, count)
      | _, _ => none
  | .avg =>
      if count = 0 then some (.scalar (.float64 none), count)
      else
        match agg.sum with
        | .int sum => some (.rational (sum / count), count)
        | .float sum => some (.scalar (.float64 (some (sum / count))), count)
        | .null => some (.scalar (.float64 none), count)

/-- The key and the values of a group.  A group without values may have no live rows. -/
def composeGroup (kernel : NumericKernel R F) (type : KeyType) (aggregates : List GroupAggregate)
    (group : String × HashMap String (ColAgg F)) : Option (KeyValue × List (GroupValue F)) := do
  let key ← AggCache.decodeGroupKey type group.1
  let values ← aggregates.mapM (composeAggregateForGroup kernel group.2)
  if (values.map Prod.snd).foldl max 0 = 0 then none
  else some (key, values.map Prod.fst)

/-- `GROUP BY` a declared column. -/
def composeGrouped (kernel : NumericKernel R F) (grouping : Grouping R) (keyName : String)
    (aggregates : List GroupAggregate) (groups : List (GroupedRowGroup F)) :
    Option (List (KeyValue × List (GroupValue F))) :=
  if keyName ∉ grouping.aggGroupKeys then none
  else do
    let column ← grouping.columns.lookup keyName
    let parts ← groups.mapM (usableGrouped keyName)
    (AggCache.mergeGrouped (· + ·) parts).entries.mapM (composeGroup kernel column.type aggregates)

end MetadataAggregate

end IcefallDB
