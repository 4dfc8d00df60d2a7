import IcefallDB.MetadataAggregate
import IcefallDB.SimplifyCastPredicates

/-!
# Filtered aggregates from metadata

A count or a sum over a scan with a filter on one column is split by row group.  Where the statistics
of the column show that all rows pass, the partial aggregates are taken as they are; where they show
that none does, the row group is left out; the others are scanned.
-/

namespace IcefallDB

/-! ## Filters -/

/-- Values of filter expressions. -/
inductive FilterValue
  | null
  | int (value : Int)
  | float (value : Extended)
  | text (value : String)
  | bool (value : Bool)

/-- The value is true. -/
def FilterValue.isTrue : FilterValue → Bool
  | .bool true => true
  | _ => false

/-- Literals in a filter that are not null; integers by the 64 bits of their values. -/
inductive FilterLiteral
  | signed (value : BitVec 64)
  | unsigned (value : BitVec 64)
  | float (value : Extended)
  | utf8 (value : String)
  | boolean (value : Bool)
  | other (value : FilterValue)

/-- The value of a literal. -/
def FilterLiteral.value : FilterLiteral → FilterValue
  | .signed value => .int value.toInt
  | .unsigned value => .int value.toNat
  | .float value => .float value
  | .utf8 value => .text value
  | .boolean value => .bool value
  | .other value => value

/-- Binary operators in filters. -/
inductive FilterOperator
  | eq | lt | ltEq | gt | gtEq | and
  | other (apply : FilterValue → FilterValue → FilterValue)

/-- Filter expressions.  What the rule does not look into is a function of the row. -/
inductive FilterExpr (R : Type)
  | column (name : String)
  | literal (value : FilterLiteral)
  | binary (left : FilterExpr R) (op : FilterOperator) (right : FilterExpr R)
  | other (value : R → FilterValue)

/-- How the engine evaluates filters. -/
structure FilterEngine (R : Type) where
  /-- The value of a column; filters of physical plans read only those here that hold no integers. -/
  cell : String → R → FilterValue
  /-- Comparison of values that are not both integers, if there is a result. -/
  compare : FilterValue → FilterValue → Option Ordering

variable {R F : Type}

namespace FilterEngine

/-- Compare two values. -/
def compareValues (engine : FilterEngine R) : FilterValue → FilterValue → Option Ordering
  | .int left, .int right => some (Ord.compare left right)
  | .null, _ | _, .null => none
  | left, right => engine.compare left right

/-- The truth of a comparison by its result. -/
def truth (holds : Ordering → Bool) : Option Ordering → FilterValue
  | some ordering => .bool (holds ordering)
  | none => .null

/-- SQL conjunction. -/
def conjunction : FilterValue → FilterValue → FilterValue
  | .bool false, _ | _, .bool false => .bool false
  | .bool true, .bool true => .bool true
  | _, _ => .null

/-- The value of a binary operator. -/
def apply (engine : FilterEngine R) (left : FilterValue) (op : FilterOperator)
    (right : FilterValue) : FilterValue :=
  match op with
  | .eq => truth Ordering.isEq (engine.compareValues left right)
  | .lt => truth Ordering.isLT (engine.compareValues left right)
  | .ltEq => truth Ordering.isLE (engine.compareValues left right)
  | .gt => truth Ordering.isGT (engine.compareValues left right)
  | .gtEq => truth Ordering.isGE (engine.compareValues left right)
  | .and => conjunction left right
  | .other apply => apply left right

/-- The value of an expression on a row. -/
def evaluate (engine : FilterEngine R) (kernel : NumericKernel R F) (row : R) :
    FilterExpr R → FilterValue
  | .column name =>
      match kernel.columns.lookup name with
      | some .signed | some .unsigned => (kernel.intValue name row).elim .null .int
      | _ => engine.cell name row
  | .literal value => value.value
  | .binary left op right =>
      engine.apply (engine.evaluate kernel row left) op (engine.evaluate kernel row right)
  | .other value => value row

/-- All filters are true of a row. -/
def passes (engine : FilterEngine R) (kernel : NumericKernel R F) (filters : List (FilterExpr R))
    (row : R) : Bool :=
  filters.all fun filter => (engine.evaluate kernel row filter).isTrue

end FilterEngine

/-! ## Comparing statistics with literals -/

/-- Literals that statistics are compared with. -/
inductive Literal
  | int64 (value : Int)
  /-- A float that is not finite is no JSON number. -/
  | float64 (value : Option ℚ)
  | string (value : String)
  | bool (value : Bool)

/-- A number as a float of 64 bits. -/
def asF64 (value : Int) : Extended :=
  SimplifyCastPredicates.binary64.round (.finite value)

/-- The number fits into a signed integer of 64 bits. -/
def IsI64 (value : Int) : Prop :=
  -2 ^ 63 ≤ value ∧ value < 2 ^ 63

instance (value : Int) : Decidable (IsI64 value) :=
  inferInstanceAs (Decidable (_ ∧ _))

/-- Compare a statistic with a literal, if they are of one kind.  Two integers are compared as floats
unless both are signed integers of 64 bits. -/
def compareJson : Scalar → Literal → Option Ordering
  | .int left, .int64 right =>
      if IsI64 left ∧ IsI64 right then some (compare left right)
      else some (compare (asF64 left) (asF64 right))
  | .int left, .float64 (some right) => some (compare (asF64 left) (.finite right))
  | .string left, .string right => some (compare left right)
  | .bool left, .bool right => some (compare left right)
  | _, _ => none

/-- Comparisons of a column with a literal. -/
inductive Comparison
  | eq | lt | lte | gt | gte
  deriving DecidableEq

/-- A comparison of the filter column with a literal. -/
structure Predicate where
  comparison : Comparison
  value : Literal

namespace MetadataAggregate

/-- The statistics show that all values satisfy the predicate. -/
def predicateCovers (predicate : Predicate) (stats : ColumnStats) : Bool :=
  match stats.min, stats.max with
  | some min, some max =>
      let low := compareJson min predicate.value
      let high := compareJson max predicate.value
      match predicate.comparison with
      | .eq => low = some .eq && high = some .eq
      | .lt => high = some .lt
      | .lte => high = some .lt || high = some .eq
      | .gt => low = some .gt
      | .gte => low = some .gt || low = some .eq
  | _, _ => false

/-- The statistics show that no value satisfies the predicate. -/
def predicateDisjoint (predicate : Predicate) (stats : ColumnStats) : Bool :=
  match stats.min, stats.max with
  | some min, some max =>
      let low := compareJson min predicate.value
      let high := compareJson max predicate.value
      match predicate.comparison with
      | .eq => low = some .gt || high = some .lt
      | .lt => low = some .gt || low = some .eq
      | .lte => low = some .gt
      | .gt => high = some .lt || high = some .eq
      | .gte => high = some .lt
  | _, _ => false

/-! ## Decoding filters -/

/-- A literal for comparison with statistics.  Unsigned integers are taken as signed ones. -/
def physScalarToLiteral : FilterLiteral → Option Literal
  | .signed value => some (.int64 value.toInt)
  | .unsigned value => some (.int64 value.toInt)
  | .float (some (some value)) => some (.float64 (some value))
  | .float _ => some (.float64 none)
  | .utf8 value => some (.string value)
  | .boolean value => some (.bool value)
  | .other _ => none

/-- A comparison with the column on the left. -/
def comparisonOf : FilterOperator → Option Comparison
  | .eq => some .eq
  | .lt => some .lt
  | .ltEq => some .lte
  | .gt => some .gt
  | .gtEq => some .gte
  | _ => none

/-- A comparison with the column on the right. -/
def swappedComparisonOf : FilterOperator → Option Comparison
  | .eq => some .eq
  | .gt => some .lt
  | .gtEq => some .lte
  | .lt => some .gt
  | .ltEq => some .gte
  | _ => none

/-- The column and the predicate of a comparison of a column with a literal. -/
def physComparisonToPredicate : FilterExpr R → Option (String × Predicate)
  | .binary (.column name) op (.literal literal) => do
      let value ← physScalarToLiteral literal
      let comparison ← comparisonOf op
      some (name, { comparison, value })
  | .binary (.literal literal) op (.column name) => do
      let value ← physScalarToLiteral literal
      let comparison ← swappedComparisonOf op
      some (name, { comparison, value })
  | _ => none

/-- The conjuncts of a filter. -/
def collectConjuncts : FilterExpr R → List (FilterExpr R)
  | .binary left .and right => collectConjuncts left ++ collectConjuncts right
  | expr => [expr]

/-- A filter on one column. -/
structure DecodedFilter where
  column : String
  predicates : List Predicate

/-- The filters of a scan as predicates on one column. -/
def decodeScanFilter (filters : List (FilterExpr R)) : Option DecodedFilter := do
  match ← (filters.flatMap collectConjuncts).mapM physComparisonToPredicate with
  | [] => none
  | first :: rest =>
      if rest.all fun other => other.1 = first.1 then
        some { column := first.1, predicates := first.2 :: rest.map Prod.snd }
      else none

/-! ## Classifying row groups -/

/-- What the statistics of a row group show about a filter. -/
inductive Coverage
  /-- All rows pass. -/
  | covered
  /-- Some rows may pass. -/
  | boundary
  /-- No row passes. -/
  | disjoint
  deriving DecidableEq

/-- Classify a row group by the statistics of the filter column.  A null never passes. -/
def classifyFragment (filter : DecodedFilter) (group : AggregatedRowGroup F) : Coverage :=
  match group.sidecar.columns.lookup filter.column with
  | none => .boundary
  | some stats =>
      if filter.predicates.any fun predicate => predicateDisjoint predicate stats then .disjoint
      else if stats.nulls = 0 ∧ filter.predicates ≠ [] ∧
          filter.predicates.all fun predicate => predicateCovers predicate stats then .covered
      else .boundary

/-! ## Composing answers -/

/-- The partial aggregates of a row group without deleted rows can be trusted. -/
def trusted (group : AggregatedRowGroup F) : Bool :=
  group.entry.deletedCount = 0 &&
    group.aggState.any fun state => state.contentHash = group.sidecar.checksum

/-- Add a partial sum, and remember whether there is any. -/
def addCoveredInts (totals : Int × Bool) (agg : ColAgg F) : Option (Int × Bool) :=
  match agg.sum with
  | .int sum => (Moments.checked AggCache.bound128 (totals.1 + sum)).map fun total => (total, true)
  | .null => some totals
  | .float _ => none

section

variable [Double F] [IntCast F]

/-- Add a partial sum of floats. -/
def addCoveredFloats (total : F) (agg : ColAgg F) : F :=
  match agg.sum with
  | .float sum => total + sum
  | .int sum => total + (sum : F)
  | .null => total

/-- A partial aggregate of a column of a row group. -/
def coveredPartial (name : String) (group : AggregatedRowGroup F) : Option (ColAgg F) :=
  group.aggState.bind fun state => state.cols.lookup name

/-- The sum of a column over covered row groups. -/
def coveredSumConst (name : String) (outType : SqlType) (covered : List (AggregatedRowGroup F)) :
    Option (ScalarValue F) := do
  let first ← covered.head?
  let firstAgg ← coveredPartial name first
  match firstAgg.sum, outType with
  | .int _, .int64 | .null, .int64 => do
      let aggs ← covered.mapM (coveredPartial name)
      let totals ← aggs.foldlM addCoveredInts (0, false)
      if totals.2 then
        (Moments.checked (2 ^ 63) totals.1).map fun total => .int64 (some total)
      else some (.int64 none)
  | .int _, .int32 | .null, .int32 => do
      let aggs ← covered.mapM (coveredPartial name)
      let totals ← aggs.foldlM addCoveredInts (0, false)
      if totals.2 then
        (Moments.checked (2 ^ 31) totals.1).map fun total => .int32 (some total)
      else some (.int32 none)
  | _, .float64 => do
      let aggs ← covered.mapM (coveredPartial name)
      some (.float64 (some (aggs.foldl addCoveredFloats 0)))
  | _, .float32 => do
      let aggs ← covered.mapM (coveredPartial name)
      some (.float32 (some (Double.toSingle (aggs.foldl addCoveredFloats 0))))
  | _, _ => none

/-- The contribution of covered row groups. -/
def coveredConst (kernel : NumericKernel R F) (covered : List (AggregatedRowGroup F)) :
    Query → Option (ScalarValue F)
  | .countStar =>
      (Moments.checked (2 ^ 63) ((covered.map fun group => group.sidecar.rows).sum : Nat)).map
        fun total => .int64 (some total)
  | .count name => do
      let aggs ← covered.mapM (coveredPartial name)
      (Moments.checked (2 ^ 63) (aggs.map ColAgg.countNonNull).sum).map
        fun total => .int64 (some total)
  | .sum name => do
      let kind ← kernel.columns.lookup name
      coveredSumConst name (sumType kind) covered

/-- A plan with the contribution of the covered row groups, and a scan of others. -/
structure FilteredRewrite (F : Type) where
  const : ScalarValue F
  boundary : List (AggregatedRowGroup F)

/-- Answer an aggregate over filtered row groups, if some of them are covered. -/
def composeFiltered (kernel : NumericKernel R F) (filters : List (FilterExpr R))
    (query : Query) (groups : List (AggregatedRowGroup F)) :
    Option (FilteredRewrite F) := do
  let filter ← decodeScanFilter filters
  if groups.any AggregatedRowGroup.fallback then none
  else
    let covered := groups.filter fun group => classifyFragment filter group = .covered
    let boundary := groups.filter fun group => classifyFragment filter group = .boundary
    if covered.isEmpty || !covered.all trusted then none
    else (coveredConst kernel covered query).map fun const => { const, boundary }

end

/-! ## Executing the plan -/

/-- The live rows that a scan of a row group reads. -/
def scanRows (storage : TableStorage R) (entry : RowGroupEntry) : Option (List R) := do
  let deletions ← deletionsOf storage entry
  match storage.files.lookup entry.data with
  | some (.data rows) => some (liveRows deletions rows)
  | _ => none

/-- An integer in 64 bits, wrapping around. -/
def wrapping (value : Int) : Int :=
  value.bmod (2 ^ 64)

/-- Add two values of one type; null if one of them is. -/
def plus [Double F] : ScalarValue F → ScalarValue F → ScalarValue F
  | .int64 (some left), .int64 (some right) => .int64 (some (wrapping (left + right)))
  | .int32 (some left), .int32 (some right) => .int32 (some ((left + right).bmod (2 ^ 32)))
  | .uint64 (some left), .uint64 (some right) => .uint64 (some ((left + right) % 2 ^ 64))
  | .float64 (some left), .float64 (some right) => .float64 (some (left + right))
  | .float32 (some left), .float32 (some right) => .float32 (some (left + right))
  | .int32 _, _ => .int32 none
  | .uint64 _, _ => .uint64 none
  | .float64 _, _ => .float64 none
  | .float32 _, _ => .float32 none
  | .int64 _, _ => .int64 none

/-- The value is null. -/
def isNull : ScalarValue F → Bool
  | .int32 value | .int64 value => value.isNone
  | .uint64 value => value.isNone
  | .float32 value | .float64 value => value.isNone

/-- Add the contribution of the covered row groups to the aggregate of the others. -/
def combine [Double F] (const boundary : ScalarValue F) : Query → ScalarValue F
  | .sum _ =>
      if isNull const then boundary else if isNull boundary then const else plus boundary const
  | .countStar | .count _ => plus boundary const

/-- The values of a float column that are not null. -/
def floats (kernel : NumericKernel R F) (name : String) (rows : List R) : List F :=
  (rows.map (kernel.floatValue name)).reduceOption

/-- What a query means on some rows.  Counts and sums of integers wrap around. -/
def rowsAnswer [Double F] (kernel : NumericKernel R F) (rows : List R) : Query → ScalarValue F
  | .countStar => .int64 (some (wrapping rows.length))
  | .count name =>
      match kernel.columns.lookup name with
      | some .float => .int64 (some (wrapping (floats kernel name rows).length))
      | _ => .int64 (some (wrapping (AggCache.ints kernel name rows).length))
  | .sum name =>
      let values := AggCache.ints kernel name rows
      match kernel.columns.lookup name with
      | some .unsigned =>
          .uint64 (if values = [] then none else some (values.sum.toNat % 2 ^ 64))
      | some .float =>
          .float64 (if (floats kernel name rows).isEmpty then none
            else some ((floats kernel name rows).foldl (· + ·) 0))
      | _ => .int64 (if values = [] then none else some (wrapping values.sum))

/-- Execute a plan: scan the row groups that are left with the filters, and add up. -/
def FilteredRewrite.execute [Double F] (rewrite : FilteredRewrite F) (kernel : NumericKernel R F)
    (engine : FilterEngine R) (storage : TableStorage R) (filters : List (FilterExpr R))
    (query : Query) : Option (ScalarValue F) :=
  if rewrite.boundary.isEmpty then some rewrite.const
  else do
    let rows ← rewrite.boundary.mapM fun group => scanRows storage group.entry
    let passing := rows.flatten.filter (engine.passes kernel filters)
    some (combine rewrite.const (rowsAnswer kernel passing query) query)

end MetadataAggregate

end IcefallDB
