import IcefallDB.AggCache.Grouped
import IcefallDB.Lib.Limits
import IcefallDB.MetadataAggregate.Filtered

/-!
# Aggregates over projections and limits

An aggregate need not stand on a scan directly: nodes that pass rows on and a projection may be in
between, and the scan may have a limit.  The rule looks through these for the scan, and answers from
the metadata of its row groups.
-/

namespace IcefallDB

variable {R F : Type}

/-! ## Plans -/

/-- A column of the input of a node, by name and by position. -/
structure PhysicalColumn where
  name : String
  index : Nat
  deriving DecidableEq

/-- Types that expressions are cast to. -/
inductive CastType
  | float32 | float64 | other
  deriving DecidableEq

/-- Expressions over the rows of the input of a node. -/
inductive StackExpr
  | column (column : PhysicalColumn)
  | cast (inner : StackExpr) (type : CastType)
  | literal (value : KeyValue)
  | other (value : List KeyValue → KeyValue)

/-- The value of an expression on a row.  Of a cast only matters whether it is null. -/
def StackExpr.evaluate (row : List KeyValue) : StackExpr → KeyValue
  | .column reference => row[reference.index]?.getD .null
  | .cast inner _ => if inner.evaluate row = .null then .null else .other
  | .literal value => value
  | .other value => value row

/-- A field of the schema of a node: the type of its statistics, and of its numbers. -/
structure StackField where
  name : String
  type : KeyType
  kind : Option NumericKind

/-- A row group of a scan plan, with the extrema of its live rows if some are deleted. -/
structure ExtremaRowGroup (F : Type) extends AggregatedRowGroup F where
  liveMin : HashMap String Scalar
  liveMax : HashMap String Scalar

/-- The integer in a cell. -/
def KeyValue.integer : KeyValue → Option Int
  | .int value => some value
  | _ => none

/-- The columns of a table, and how its numbers are read off them. -/
structure TableColumns (R F : Type) where
  kernel : NumericKernel R F
  columns : HashMap String (KeyColumn R)
  agrees : ∀ name kind, kernel.columns.lookup name = some kind → kind ≠ .float →
    ∃ column, columns.lookup name = some column ∧
      ∀ row, kernel.intValue name row = (column.value row).integer

/-- A scan, with the live rows that each of the partitions of a row group reads. -/
structure StackScan (R F : Type) where
  columns : List String
  groups : List (ExtremaRowGroup F)
  slices : List (List (List R))
  filters : List (FilterExpr R)
  limit : Option Nat

/-- Plans below an aggregate. -/
inductive StackPlan (R F : Type)
  | scan (scan : StackScan R F)
  | cooperative (input : StackPlan R F)
  | repartition (input : StackPlan R F)
  | projection (exprs : List (StackExpr × String)) (input : StackPlan R F)
  | other (rows : List (List KeyValue))

namespace TableColumns

variable (table : TableColumns R F)

/-- A cell of a row. -/
def cell (row : R) (name : String) : KeyValue :=
  ((table.columns.lookup name).map fun column => column.value row).getD .null

/-- The field of a column. -/
def field (name : String) : StackField :=
  { name
    type := ((table.columns.lookup name).map KeyColumn.type).getD .other
    kind := table.kernel.columns.lookup name }

/-- The rows that a scan reads: each partition stops at the limit. -/
def scanRows (engine : FilterEngine R) (scan : StackScan R F) : List R :=
  scan.slices.flatten.flatMap fun slice =>
    Limits.upTo scan.limit (slice.filter (engine.passes table.kernel scan.filters))

/-- The columns of a scan on a row. -/
def scanCells (scan : StackScan R F) (row : R) : List KeyValue :=
  scan.columns.map (table.cell row)

/-- The field of an expression over a schema. -/
def exprField (schema : List StackField) (name : String) : StackExpr → StackField
  | .column column =>
      match schema[column.index]? with
      | some field => { field with name }
      | none => { name, type := .other, kind := none }
  | .cast _ type =>
      { name, type := .other, kind := if type = .other then none else some .float }
  | .literal _ | .other _ => { name, type := .other, kind := none }

/-- The schema of a plan. -/
def schema : StackPlan R F → List StackField
  | .scan scan => scan.columns.map table.field
  | .cooperative input | .repartition input => schema input
  | .projection exprs input => exprs.map fun expr => exprField (schema input) expr.2 expr.1
  | .other _ => []

/-- The columns of an expression list on a row. -/
def project (exprs : List (StackExpr × String)) (row : List KeyValue) : List KeyValue :=
  exprs.map fun expr => expr.1.evaluate row

/-- The rows that a plan gives, in any order. -/
inductive Produces (engine : FilterEngine R) : StackPlan R F → List (List KeyValue) → Prop
  | scan {scan : StackScan R F} {rows : List (List KeyValue)}
      (perm : ((table.scanRows engine scan).map (table.scanCells scan)).Perm rows) : Produces engine (.scan scan) rows
  | cooperative {input : StackPlan R F} {rows : List (List KeyValue)}
      (below : Produces engine input rows) : Produces engine (.cooperative input) rows
  | repartition {input : StackPlan R F} {rows rows' : List (List KeyValue)}
      (below : Produces engine input rows) (perm : rows.Perm rows') :
      Produces engine (.repartition input) rows'
  | projection {exprs : List (StackExpr × String)} {input : StackPlan R F}
      {rows : List (List KeyValue)} (below : Produces engine input rows) :
      Produces engine (.projection exprs input) (rows.map (project exprs))
  | other (rows : List (List KeyValue)) : Produces engine (.other rows) rows

end TableColumns

namespace MetadataAggregate

/-! ## Looking for the scan -/

/-- Look through nodes that pass rows on. -/
def peelWrappers : StackPlan R F → StackPlan R F
  | .cooperative input | .repartition input => peelWrappers input
  | plan => plan

/-- The column of an expression of a projection, if this is a column or a cast of one to a float. -/
def projectedColumn : StackExpr → Option String
  | .column column => some column.name
  | .cast (.column column) .float32 | .cast (.column column) .float64 => some column.name
  | _ => none

/-- Look through wrappers and at most one projection, and map its names to the columns below. -/
def peelToScan (input : StackPlan R F) : Option (StackPlan R F × HashMap String String) :=
  match peelWrappers input with
  | .projection exprs inner => do
      let names ← exprs.mapM fun expr => (projectedColumn expr.1).map fun column => (expr.2, column)
      some (peelWrappers inner, names.foldl (fun map name => map.insert name.1 name.2) ∅)
  | plan => some (plan, ∅)

/-! ## Composing answers -/

/-- Aggregate functions. -/
inductive StackFunction
  | count | sum | min | max
  deriving DecidableEq

/-- An aggregate expression. -/
structure StackAggregate where
  function : StackFunction
  arg : StackExpr
  distinct : Bool

/-- An answer. -/
inductive StackValue (F : Type)
  | scalar (value : ScalarValue F)
  | key (value : KeyValue)
  deriving DecidableEq

/-- What the rule makes of an argument. -/
def aggregateArg : StackExpr → AggregateArg
  | .column column => .column column.name
  | .literal _ => .literal
  | .cast _ _ | .other _ => .other

/-- A statistic as JSON. -/
def scalarJson : Scalar → Json
  | .bool value => .bool value
  | .int value => .num value
  | .string value => .str value

/-- The least value of a column of a row group. -/
def minJson (name : String) (group : ExtremaRowGroup F) : Option Scalar :=
  if group.entry.deletedCount > 0 then do
    let state ← group.aggState
    let _ ← state.cols.lookup name
    group.liveMin.lookup name
  else (group.sidecar.columns.lookup name).bind ColumnStats.min

/-- The greatest value of a column of a row group. -/
def maxJson (name : String) (group : ExtremaRowGroup F) : Option Scalar :=
  if group.entry.deletedCount > 0 then do
    let state ← group.aggState
    let _ ← state.cols.lookup name
    group.liveMax.lookup name
  else (group.sidecar.columns.lookup name).bind ColumnStats.max

/-- Compare two values of one type. -/
def compareKeys : KeyValue → KeyValue → Option Ordering
  | .int left, .int right => some (compare left right)
  | .text left, .text right => some (compare left right)
  | .bool left, .bool right => some (compare left right)
  | _, _ => none

/-- One of two values, unless its order to the other is beyond. -/
def pick (beyond : Ordering) (left right : KeyValue) : KeyValue :=
  if compareKeys left right = some beyond then right else left

/-- The lesser of two values. -/
def pickMin (left right : KeyValue) : KeyValue :=
  pick .gt left right

/-- The greater of two values. -/
def pickMax (left right : KeyValue) : KeyValue :=
  pick .lt left right

/-- Compose an extremum: each row group has one, read at the type of the argument. -/
def computeExtremum (extremum : String → ExtremaRowGroup F → Option Scalar)
    (pick : KeyValue → KeyValue → KeyValue) (schema : List StackField)
    (groups : List (ExtremaRowGroup F)) : AggregateArg → Option KeyValue
  | .column name => do
      let field ← schema.find? fun field => field.name = name
      match ← groups.mapM fun group =>
          if group.fallback then none
          else (extremum name group).bind fun scalar =>
            AggCache.jsonToScalarValue field.type (scalarJson scalar) with
      | [] => none
      | first :: rest => some (rest.foldl pick first)
  | _ => none

/-- `MIN`. -/
def computeMin (schema : List StackField) (groups : List (ExtremaRowGroup F))
    (arg : AggregateArg) : Option KeyValue :=
  computeExtremum minJson pickMin schema groups arg

/-- `MAX`. -/
def computeMax (schema : List StackField) (groups : List (ExtremaRowGroup F))
    (arg : AggregateArg) : Option KeyValue :=
  computeExtremum maxJson pickMax schema groups arg

/-- The field that an argument names first has the type of the argument, which the output schema
has. -/
def namesOwnType (schema : List StackField) : StackExpr → Bool
  | .column column =>
      (schema.find? fun field => field.name = column.name).map StackField.type =
        schema[column.index]?.map StackField.type
  | _ => false

/-- The numbers of an argument. -/
def argKind (schema : List StackField) : StackExpr → Option NumericKind
  | .column column => schema[column.index]?.bind StackField.kind
  | _ => none

section

variable [Double F] [IntCast F]

/-- Answer an aggregate from the row groups of a scan without filters. -/
def composeAggregate (schema : List StackField) (groups : List (ExtremaRowGroup F))
    (aggregate : StackAggregate) : Option (StackValue F) :=
  match aggregate.function with
  | .count =>
      (computeCount (groups.map ExtremaRowGroup.toAggregatedRowGroup)
        (aggregateArg aggregate.arg)).map .scalar
  | .sum => do
      let kind ← argKind schema aggregate.arg
      (composeSum (groups.map ExtremaRowGroup.toAggregatedRowGroup) (sumType kind)
        (aggregateArg aggregate.arg)).map .scalar
  | .min =>
      if namesOwnType schema aggregate.arg then
        (computeMin schema groups (aggregateArg aggregate.arg)).map .key
      else none
  | .max =>
      if namesOwnType schema aggregate.arg then
        (computeMax schema groups (aggregateArg aggregate.arg)).map .key
      else none

/-- Answer aggregates from the row groups of a scan without filters. -/
def composeFromScan (schema : List StackField) (groups : List (ExtremaRowGroup F))
    (aggregates : List StackAggregate) : Option (List (StackValue F)) :=
  if aggregates.any StackAggregate.distinct then none
  else aggregates.mapM (composeAggregate schema groups)

/-- The query of an aggregate over a scan with filters. -/
def filteredQuery (aggregate : StackAggregate) : Option Query :=
  match aggregate.function, aggregate.arg with
  | .count, .column column => some (.count column.name)
  | .count, .literal _ => some .countStar
  | .sum, .column column => some (.sum column.name)
  | _, _ => none

/-- Answer an aggregate over a scan with filters, if nothing is left to be scanned. -/
def composeFilteredFromScan (kernel : NumericKernel R F) (scan : StackScan R F) :
    List StackAggregate → Option (List (StackValue F))
  | [aggregate] =>
      if aggregate.distinct then none
      else do
        let query ← filteredQuery aggregate
        let rewrite ← composeFiltered kernel scan.filters query
          (scan.groups.map ExtremaRowGroup.toAggregatedRowGroup)
        if rewrite.boundary.isEmpty then some [.scalar rewrite.const] else none
  | _ => none

/-- Answer aggregates over a plan without scanning. -/
def transformAggregate (table : TableColumns R F) (aggregates : List StackAggregate)
    (input : StackPlan R F) : Option (List (StackValue F)) := do
  match ← peelToScan input with
  | (.scan scan, colMap) =>
      if scan.filters.isEmpty then composeFromScan (table.schema input) scan.groups aggregates
      else if colMap.keys.isEmpty then composeFilteredFromScan table.kernel scan aggregates
      else none
  | _ => none

end

end MetadataAggregate

end IcefallDB
