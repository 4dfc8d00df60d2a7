import IcefallDB.MetadataAggregate.Comparison

/-!
# Pruning row groups

Filters that compare a column with literals, or test it for nulls, become predicates.  A scan drops
the row groups that the statistics or the partition values of a column exclude.
-/

namespace IcefallDB

/-! ## Filters -/

/-- Filter expressions of logical plans.  What pruning does not look into is a function of the row. -/
inductive LogicalExpr (R : Type)
  | column (name : String)
  | literal (value : FilterLiteral)
  | binary (left : LogicalExpr R) (op : FilterOperator) (right : LogicalExpr R)
  | isNull (expr : LogicalExpr R)
  | isNotNull (expr : LogicalExpr R)
  | inList (expr : LogicalExpr R) (list : List (LogicalExpr R)) (negated : Bool)
  | other (value : R → FilterValue)

/-- The value is null. -/
def FilterValue.isNull : FilterValue → Bool
  | .null => true
  | _ => false

namespace LogicalExpr

variable {R : Type}

/-- Membership in a list by the comparisons with its items; unknown if one of them is. -/
def member (results : List (Option Ordering)) (negated : Bool) : FilterValue :=
  if results.any fun result => result = some .eq then .bool !negated
  else if results.any Option.isNone then .null
  else .bool negated

mutual

/-- The value of an expression on a row. -/
def evaluate (engine : FilterEngine R) (row : R) : LogicalExpr R → FilterValue
  | column name => engine.cell name row
  | literal value => value.value
  | binary left op right =>
      engine.apply (evaluate engine row left) op (evaluate engine row right)
  | isNull expr => .bool (evaluate engine row expr).isNull
  | isNotNull expr => .bool !(evaluate engine row expr).isNull
  | inList expr list negated =>
      member ((evaluateItems engine row list).map
        (engine.compareValues (evaluate engine row expr))) negated
  | other value => value row

/-- The values of the items of a list. -/
def evaluateItems (engine : FilterEngine R) (row : R) : List (LogicalExpr R) → List FilterValue
  | [] => []
  | item :: items => evaluate engine row item :: evaluateItems engine row items

end

end LogicalExpr

namespace Pruning

open MetadataAggregate

variable {R : Type}

/-! ## Predicates -/

/-- Predicates on a column. -/
inductive ColumnPredicate
  | comparison (column : String) (predicate : Predicate)
  | inList (column : String) (values : List Literal)
  | isNull (column : String)
  | isNotNull (column : String)

/-- The column that an expression is, if the schema has it. -/
def exprAsColumn (schema : List String) : LogicalExpr R → Option String
  | .column name => if name ∈ schema then some name else none
  | _ => none

/-- A literal for comparison with statistics.  Unsigned integers are taken as signed ones. -/
def scalarToLiteral (value : FilterLiteral) : Option Literal :=
  physScalarToLiteral value

/-- The literal that an expression is. -/
def exprAsLiteral : LogicalExpr R → Option Literal
  | .literal value => scalarToLiteral value
  | _ => none

/-- A column and the literal that it is compared with. -/
def extractColumnLiteral (maybeColumn maybeLiteral : LogicalExpr R) (schema : List String) :
    Option (String × Literal) := do
  let column ← exprAsColumn schema maybeColumn
  let literal ← exprAsLiteral maybeLiteral
  some (column, literal)

/-- The predicate of a comparison.  It is mirrored if the literal is on the left. -/
def buildComparison (column : String) (op : FilterOperator) (value : Literal) (swapped : Bool) :
    Option (String × ColumnPredicate) := do
  let comparison ← if swapped then swappedComparisonOf op else comparisonOf op
  some (column, .comparison column { comparison, value })

/-- The column and the predicate of a filter. -/
def exprToPredicate (schema : List String) : LogicalExpr R → Option (String × ColumnPredicate)
  | .binary left op right =>
      match extractColumnLiteral left right schema with
      | some (column, literal) => buildComparison column op literal false
      | none =>
          match extractColumnLiteral right left schema with
          | some (column, literal) => buildComparison column op literal true
          | none => none
  | .isNull expr => do
      let column ← exprAsColumn schema expr
      some (column, .isNull column)
  | .isNotNull expr => do
      let column ← exprAsColumn schema expr
      some (column, .isNotNull column)
  | .inList expr list false => do
      let column ← exprAsColumn schema expr
      let values ← list.mapM exprAsLiteral
      if values.isEmpty then none else some (column, .inList column values)
  | _ => none

/-! ## Row groups that may satisfy a predicate -/

/-- A partition value is the JSON value of a literal. -/
def isValue : Scalar → Literal → Bool
  | .int value, .int64 literal => value = literal
  | .string value, .string literal => value = literal
  | .bool value, .bool literal => value = literal
  | _, _ => false

/-- The partition value of a column. -/
def partitionValue (group : PlannedRowGroup) (column : String) : Option Scalar := do
  let values ← group.partitionValues
  values.lookup column

/-- The literal lies outside of the range; an error if its kind differs. -/
def outsideRange (min max : Scalar) (value : Literal) : Option Bool := do
  let low ← compareJson min value
  if low = .gt then some true
  else do
    let high ← compareJson max value
    some (high = .lt)

/-- No value of the range satisfies an inequality; an error if the kind of its literal differs. -/
def outsideInequality (min max : Scalar) (predicate : Predicate) : Option Bool :=
  match predicate.comparison with
  | .eq => outsideRange min max predicate.value
  | .lt => (compareJson min predicate.value).map fun ordering => ordering.isGE
  | .lte => (compareJson min predicate.value).map fun ordering => ordering.isGT
  | .gt => (compareJson max predicate.value).map fun ordering => ordering.isLE
  | .gte => (compareJson max predicate.value).map fun ordering => ordering.isLT

/-- Apply a check to statistics that are both present. -/
def statsOutsideRange (group : PlannedRowGroup) (column : String)
    (check : Scalar → Scalar → Option Bool) : Option Bool :=
  match group.sidecar.columns.lookup column with
  | none => some false
  | some stats =>
      match stats.min, stats.max with
      | some min, some max => check min max
      | _, _ => some false

/-- All literals lie outside of the range; an error if the kind of one differs. -/
def allOutside (min max : Scalar) : List Literal → Option Bool
  | [] => some true
  | value :: values => do
      let outside ← outsideRange min max value
      if outside then allOutside min max values else some false

/-- The row group may have rows that satisfy the predicate; an error if the kind of a literal differs
from that of the statistics. -/
def rowGroupSatisfies (partitionBy : List String) (group : PlannedRowGroup) :
    ColumnPredicate → Option Bool
  | .comparison column predicate =>
      if predicate.comparison = .eq ∧ column ∈ partitionBy then
        match partitionValue group column with
        | some value => some (isValue value predicate.value)
        | none => some true
      else
        (statsOutsideRange group column fun min max => outsideInequality min max predicate).map (!·)
  | .isNull column =>
      match group.sidecar.columns.lookup column with
      | some stats => some (stats.nulls ≠ 0)
      | none => some true
  | .isNotNull column =>
      match group.sidecar.columns.lookup column with
      | some stats => some (stats.nulls ≠ group.sidecar.rows)
      | none => some true
  | .inList column values =>
      if column ∈ partitionBy then
        match partitionValue group column with
        | some value => some (values.any (isValue value))
        | none => some true
      else
        (statsOutsideRange group column fun min max => allOutside min max values).map (!·)

/-- Row groups of a table that a scan reads. -/
structure ScanPlan where
  table : String
  schema : Schema
  rowGroups : List PlannedRowGroup

/-- The row group may satisfy all predicates. -/
def keepsRowGroup (partitionBy : List String) (predicates : List ColumnPredicate)
    (group : PlannedRowGroup) : Option Bool :=
  match predicates with
  | [] => some true
  | predicate :: predicates => do
      if ← rowGroupSatisfies partitionBy group predicate then
        keepsRowGroup partitionBy predicates group
      else some false

/-- The row groups that may satisfy all predicates. -/
def pruneRowGroups (partitionBy : List String) (predicates : List ColumnPredicate) :
    List PlannedRowGroup → Option (List PlannedRowGroup)
  | [] => some []
  | group :: groups => do
      let keep ← keepsRowGroup partitionBy predicates group
      let rest ← pruneRowGroups partitionBy predicates groups
      some (if keep then group :: rest else rest)

/-- Drop the row groups that the predicates exclude. -/
def ScanPlan.prune (plan : ScanPlan) (predicates : List ColumnPredicate) : Option ScanPlan := do
  let partitionBy := plan.schema.partitionBy.getD []
  let rowGroups ← pruneRowGroups partitionBy predicates plan.rowGroups
  some { plan with rowGroups }

/-- The predicates of the filters that have one. -/
def filterPredicates (schema : List String) (filters : List (LogicalExpr R)) :
    List ColumnPredicate :=
  filters.filterMap fun filter => (exprToPredicate schema filter).map Prod.snd

end Pruning

end IcefallDB
