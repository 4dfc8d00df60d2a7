import IcefallDB.MetadataAggregate.FilteredAnswers
import IcefallDB.MetadataAggregate.Stack

/-!
# Answers over projections and limits against SQL

The rule takes the argument of an aggregate for the scan column of its name, over all live rows.  Its
answer is right when this column and the argument over the rows of the plan have the same aggregate,
and in particular when the plan passes the column on and the limit cuts off nothing.
-/

namespace IcefallDB

variable {R F : Type}

namespace MetadataAggregate

open AggCache

/-! ## Meaning -/

/-- The integers in some cells. -/
def integersOf (cells : List KeyValue) : List Int :=
  cells.filterMap KeyValue.integer

/-- The number of cells that are not null. -/
def nonNull (cells : List KeyValue) : Nat :=
  cells.countP fun cell => cell ≠ .null

/-- A cell is an extremum of those that are not null: its order to none of them is beyond. -/
def IsExtremum (beyond : Ordering) (cells : List KeyValue) (extremum : KeyValue) : Prop :=
  extremum ≠ .null ∧ extremum ∈ cells ∧ ∀ cell ∈ cells, cell ≠ .null →
    ∃ ordering ∈ compareKeys extremum cell, ordering ≠ beyond

/-- What an extremum of cells means: null if all of them are. -/
def IsExtremumOrNull (beyond : Ordering) (cells : List KeyValue) (value : KeyValue) : Prop :=
  IsExtremum beyond cells value ∨ nonNull cells = 0 ∧ value = .null

/-- The cells of an argument over some rows. -/
def argCells (arg : StackExpr) (rows : List (List KeyValue)) : List KeyValue :=
  rows.map fun row => arg.evaluate row

/-- What an aggregate means on the rows of its input.  The sum of floats depends on the order of its
rounding, and is what the engine gives. -/
def IsAnswer (floatSum : StackAggregate → Option F) (schema : List StackField)
    (rows : List (List KeyValue)) (aggregate : StackAggregate) (value : StackValue F) : Prop :=
  let cells := argCells aggregate.arg rows
  match aggregate.function with
  | .count => value = .scalar (.int64 (some (nonNull cells)))
  | .sum =>
      match argKind schema aggregate.arg with
      | some .unsigned =>
          value = .scalar (.uint64 (if integersOf cells = [] then none
            else some ((integersOf cells).sum.toNat % 2 ^ 64)))
      | some .float => value = .scalar (.float64 (floatSum aggregate))
      | _ =>
          value = .scalar (.int64 (if integersOf cells = [] then none
            else some (wrapping (integersOf cells).sum)))
  | .min => ∃ least, value = .key least ∧ IsExtremumOrNull .gt cells least
  | .max => ∃ greatest, value = .key greatest ∧ IsExtremumOrNull .lt cells greatest

/-- The rows that the rule answers for. -/
def claimedRows (scan : StackScan R F) (fragments : List (PhysicalFragment R)) : List R :=
  match decodeScanFilter scan.filters with
  | some filter =>
      liveOf (fragmentsOf filter .covered (scan.groups.map ExtremaRowGroup.toAggregatedRowGroup)
        fragments)
  | none => liveOf fragments

/-- The row count of a row group is not known. -/
def uncounted (group : ExtremaRowGroup F) : Bool :=
  group.fallback && group.sidecar.rows = 0

/-- The number of rows that the rule counts. -/
def countedRows (scan : StackScan R F) (fragments : List (PhysicalFragment R)) : Nat :=
  match decodeScanFilter scan.filters with
  | some _ => (claimedRows scan fragments).length
  | none =>
      (((scan.groups.zip fragments).filter fun pair => !uncounted pair.1).map fun pair =>
        pair.2.live.length).sum

/-- The row that a plan makes of one of the scan. -/
def through : StackPlan R F → List KeyValue → List KeyValue
  | .cooperative input, row | .repartition input, row => through input row
  | .projection exprs input, row => TableColumns.project exprs (through input row)
  | .scan _, row | .other _, row => row

/-- The value of an argument on a row that a scan reads. -/
def argValue (table : TableColumns R F) (scan : StackScan R F) (input : StackPlan R F)
    (arg : StackExpr) (row : R) : KeyValue :=
  arg.evaluate (through input (table.scanCells scan row))

/-- The rule answers a sum with null: without filters only if there is no row group. -/
def AnswersNull (scan : StackScan R F) (claimed : List Int) : Prop :=
  if scan.filters.isEmpty then scan.groups = [] else claimed = []

/-- The row groups that the rule answers for. -/
def claimedGroups (scan : StackScan R F) : List (AggregatedRowGroup F) :=
  match decodeScanFilter scan.filters with
  | some filter => groupsOf filter .covered (scan.groups.map ExtremaRowGroup.toAggregatedRowGroup)
  | none => scan.groups.map ExtremaRowGroup.toAggregatedRowGroup

/-- The sum of a column of floats that is recorded in the row groups that the rule answers for. -/
def recordedSum [Double F] [IntCast F] (scan : StackScan R F) (name : String) : Option F :=
  if scan.groups = [] then none
  else some (((claimedGroups scan).filterMap (coveredPartial name)).foldl addCoveredFloats 0)

/-- When the answer over a plan is right: the scan column that has the name of the argument has the
same aggregate over the rows that the rule answers for as the argument has over those that the scan
reads.  The sum of floats is the recorded one. -/
def StackRightWhen [Double F] [IntCast F] (floatSum : StackAggregate → Option F)
    (table : TableColumns R F) (engine : FilterEngine R) (scan : StackScan R F)
    (fragments : List (PhysicalFragment R)) (input : StackPlan R F) (aggregate : StackAggregate) :
    Prop :=
  let cells := (table.scanRows engine scan).map (argValue table scan input aggregate.arg)
  match aggregate.function, aggregate.arg with
  | .count, .column column =>
      nonNull ((claimedRows scan fragments).map fun row => table.cell row column.name) =
        nonNull cells
  | .count, _ => countedRows scan fragments = nonNull cells
  | .sum, .column column =>
      let claimed := ints table.kernel column.name (claimedRows scan fragments)
      if argKind (table.schema input) aggregate.arg = some .float then
        recordedSum scan column.name = floatSum aggregate
      else
        wrapping claimed.sum = wrapping (integersOf cells).sum ∧
          (integersOf cells = [] ↔ AnswersNull scan claimed)
  | .min, .column column =>
      ∃ least, IsExtremum .gt
        ((claimedRows scan fragments).map fun row => table.cell row column.name) least ∧
          IsExtremum .gt cells least
  | .max, .column column =>
      ∃ greatest, IsExtremum .lt
        ((claimedRows scan fragments).map fun row => table.cell row column.name) greatest ∧
          IsExtremum .lt cells greatest
  | _, _ => True

/-- The plan passes the scan column of its name on to the argument. -/
def PassesOn (table : TableColumns R F) (scan : StackScan R F) (input : StackPlan R F)
    (aggregate : StackAggregate) (column : PhysicalColumn) : Prop :=
  ∀ row, argValue table scan input aggregate.arg row = table.cell row column.name

/-- Nothing between the scan and the aggregate makes a difference to the answer, and a sum is of
integers and has values. -/
def Transparent (table : TableColumns R F) (scan : StackScan R F)
    (fragments : List (PhysicalFragment R)) (input : StackPlan R F) (aggregate : StackAggregate) :
    Prop :=
  match aggregate.function, aggregate.arg with
  | .count, .literal literal => literal ≠ .null ∧ ∀ group ∈ scan.groups, uncounted group = false
  | .sum, .column column =>
      PassesOn table scan input aggregate column ∧ table.kernel.IsInteger column.name ∧
        argKind (table.schema input) aggregate.arg ≠ some .float ∧
        ints table.kernel column.name (liveOf fragments) ≠ []
  | _, .column column => PassesOn table scan input aggregate column
  | _, _ => False

/-- A statistic as a cell. -/
def scalarKey : Scalar → KeyValue
  | .bool value => .bool value
  | .int value => .int value
  | .string value => .text value

/-- What the metadata of a row group say about all columns of the live rows of its fragment. -/
structure DescribesColumns (table : TableColumns R F) (group : ExtremaRowGroup F)
    (fragment : PhysicalFragment R) : Prop where
  rows : uncounted group = false →
    liveCount group.toAggregatedRowGroup = fragment.live.length
  counts : ∀ name count, columnCount name group.toAggregatedRowGroup = some count →
    count = nonNull (fragment.live.map fun row => table.cell row name)
  partialCounts : ∀ name agg, usablePartial name group.toAggregatedRowGroup = some agg →
    agg.countNonNull = nonNull (fragment.live.map fun row => table.cell row name)
  integers : ∀ name agg sum, usablePartial name group.toAggregatedRowGroup = some agg →
    agg.sum = .int sum → table.kernel.IsInteger name
  least : ∀ name scalar, minJson name group = some scalar →
    IsExtremum .gt (fragment.live.map fun row => table.cell row name) (scalarKey scalar)
  greatest : ∀ name scalar, maxJson name group = some scalar →
    IsExtremum .lt (fragment.live.map fun row => table.cell row name) (scalarKey scalar)

/-! ## Extrema -/

theorem ne_beyond_trans {α : Type} [Ord α] [Std.TransOrd α] {beyond : Ordering}
    (strict : beyond ≠ .eq) {first second third : α} (left : compare first second ≠ beyond)
    (right : compare second third ≠ beyond) : compare first third ≠ beyond := by
  cases beyond with
  | lt =>
      rw [ne_eq, ← Ordering.isGE_iff_ne_lt] at left right ⊢
      exact Std.TransCmp.isGE_trans left right
  | eq => exact absurd rfl strict
  | gt =>
      rw [ne_eq, ← Ordering.isLE_iff_ne_gt] at left right ⊢
      exact Std.TransCmp.isLE_trans left right

theorem eq_of_ne_beyond {α : Type} [Ord α] [Std.OrientedOrd α] [Std.LawfulEqOrd α]
    {beyond : Ordering} (strict : beyond ≠ .eq) {first second : α}
    (left : compare first second ≠ beyond) (right : compare second first ≠ beyond) :
    first = second := by
  rw [Std.OrientedOrd.eq_swap] at right
  cases order : compare first second with
  | lt =>
      rw [order] at left right
      cases beyond with
      | lt => exact absurd rfl left
      | eq => exact absurd rfl strict
      | gt => exact absurd rfl right
  | eq => exact Std.LawfulEqOrd.eq_of_compare order
  | gt =>
      rw [order] at left right
      cases beyond with
      | lt => exact absurd rfl right
      | eq => exact absurd rfl strict
      | gt => exact absurd rfl left

/-- One cell can be chosen before another. -/
def Within (beyond : Ordering) (first second : KeyValue) : Prop :=
  ∃ ordering ∈ compareKeys first second, ordering ≠ beyond

section

variable {beyond : Ordering} {first second third : KeyValue} {cells cells' : List KeyValue}

theorem Within.trans (strict : beyond ≠ .eq) (left : Within beyond first second)
    (right : Within beyond second third) : Within beyond first third := by
  obtain ⟨ordering, ordering_eq, before⟩ := left
  obtain ⟨ordering', ordering'_eq, before'⟩ := right
  cases first <;> cases second <;> cases ordering_eq <;> cases third <;> cases ordering'_eq <;>
    exact ⟨_, rfl, ne_beyond_trans strict before before'⟩

/-- What is not chosen comes after what is. -/
theorem within_of_beyond (strict : beyond ≠ .eq)
    (order : compareKeys first second = some beyond) : Within beyond second first := by
  have swapped : compareKeys second first = some beyond.swap := by
    cases first <;> cases second <;> cases order <;>
      exact congrArg some Std.OrientedOrd.eq_swap
  refine ⟨beyond.swap, swapped, ?_⟩
  cases beyond with
  | lt => decide
  | eq => exact absurd rfl strict
  | gt => decide

theorem IsExtremum.pick (strict : beyond ≠ .eq) (left : IsExtremum beyond cells first)
    (right : IsExtremum beyond cells' second)
    (comparable : (compareKeys first second).isSome) :
    IsExtremum beyond (cells ++ cells') (pick beyond first second) := by
  obtain ⟨ordering, ordering_eq⟩ := Option.isSome_iff_exists.mp comparable
  rw [MetadataAggregate.pick]
  by_cases order : compareKeys first second = some beyond
  · rw [if_pos order]
    refine ⟨right.1, List.mem_append_right _ right.2.1, ?_⟩
    intro cell member present
    rcases List.mem_append.mp member with member | member
    · exact Within.trans strict (within_of_beyond strict order) (left.2.2 cell member present)
    · exact right.2.2 cell member present
  · rw [if_neg order]
    refine ⟨left.1, List.mem_append_left _ left.2.1, ?_⟩
    intro cell member present
    rcases List.mem_append.mp member with member | member
    · exact left.2.2 cell member present
    · have before : Within beyond first second :=
        ⟨ordering, ordering_eq, fun same => order (by rw [ordering_eq, same])⟩
      exact before.trans strict (right.2.2 cell member present)

/-- Choosing among the extrema of parts gives the extremum of the whole. -/
theorem isExtremum_foldl (strict : beyond ≠ .eq) {values : List KeyValue}
    {parts : List (List KeyValue)}
    (extrema : List.Forall₂ (fun value cells => IsExtremum beyond cells value) values parts)
    (start : IsExtremum beyond cells first)
    (comparable : ∀ left ∈ first :: values, ∀ right ∈ first :: values,
      (compareKeys left right).isSome) :
    IsExtremum beyond (cells ++ parts.flatten) (values.foldl (MetadataAggregate.pick beyond) first) := by
  induction extrema generalizing cells first with
  | nil => simpa using start
  | @cons value part values parts extremum _ ih =>
      have picked_mem : MetadataAggregate.pick beyond first value = first ∨
          MetadataAggregate.pick beyond first value = value := by
        rw [MetadataAggregate.pick]
        split
        · exact .inr rfl
        · exact .inl rfl
      rw [List.foldl_cons, List.flatten_cons, ← List.append_assoc]
      apply ih
      · exact start.pick strict extremum (comparable first (by simp) value (by simp))
      · have inside : ∀ key ∈ MetadataAggregate.pick beyond first value :: values,
            key ∈ first :: value :: values := by
          intro key member
          rcases List.mem_cons.mp member with rfl | member
          · rcases picked_mem with same | same <;> rw [same] <;> simp
          · exact List.mem_cons_of_mem _ (List.mem_cons_of_mem _ member)
        intro left left_mem right right_mem
        exact comparable left (inside left left_mem) right (inside right right_mem)

/-- There is only one extremum of a kind. -/
theorem IsExtremum.unique (strict : beyond ≠ .eq) (left : IsExtremum beyond cells first)
    (right : IsExtremum beyond cells second) : first = second := by
  obtain ⟨ordering, ordering_eq, before⟩ := left.2.2 second right.2.1 right.1
  obtain ⟨ordering', ordering'_eq, before'⟩ := right.2.2 first left.2.1 left.1
  cases first <;> cases second <;> cases ordering_eq <;> cases ordering'_eq <;>
    exact congrArg _ (eq_of_ne_beyond strict before before')

end

/-! ## Answers from row groups -/

theorem scalarKey_of_jsonToScalarValue {type : KeyType} {scalar : Scalar} {value : KeyValue}
    (found : jsonToScalarValue type (scalarJson scalar) = some value) :
    value = scalarKey scalar := by
  cases scalar with
  | bool =>
      rw [scalarJson, jsonToScalarValue] at found
      split at found
      · exact (Option.some.inj found).symm
      · cases found
  | int =>
      obtain ⟨range, -, inside⟩ := Option.bind_eq_some_iff.mp found
      split at inside
      · exact (Option.some.inj inside).symm
      · cases inside
  | string =>
      rw [scalarJson, jsonToScalarValue] at found
      split at found
      · exact (Option.some.inj found).symm
      · cases found

/-- The type reads statistics of a kind. -/
def readsKind (type : KeyType) : Scalar → Prop
  | .bool _ => type = .boolean
  | .int _ => type.range.isSome
  | .string _ => type.IsText

theorem readsKind_of_jsonToScalarValue {type : KeyType} {scalar : Scalar} {value : KeyValue}
    (found : jsonToScalarValue type (scalarJson scalar) = some value) : readsKind type scalar := by
  cases scalar with
  | bool =>
      rw [scalarJson, jsonToScalarValue] at found
      split at found
      · next boolean => exact boolean
      · cases found
  | int =>
      obtain ⟨range, range_eq, -⟩ := Option.bind_eq_some_iff.mp found
      exact Option.isSome_iff_exists.mpr ⟨range, range_eq⟩
  | string =>
      rw [scalarJson, jsonToScalarValue] at found
      split at found
      · next text => exact text
      · cases found

/-- Statistics that are read at one type can be compared. -/
theorem comparable_of_jsonToScalarValue {type : KeyType} {scalar scalar' : Scalar}
    {value value' : KeyValue} (found : jsonToScalarValue type (scalarJson scalar) = some value)
    (found' : jsonToScalarValue type (scalarJson scalar') = some value') :
    (compareKeys value value').isSome := by
  rw [scalarKey_of_jsonToScalarValue found, scalarKey_of_jsonToScalarValue found']
  have reads := readsKind_of_jsonToScalarValue found
  have reads' := readsKind_of_jsonToScalarValue found'
  cases scalar with
  | bool =>
      obtain rfl : type = .boolean := reads
      cases scalar' with
      | bool => rfl
      | int => cases reads'
      | string => rcases reads' with same | same <;> cases same
  | int =>
      cases scalar' with
      | bool =>
          obtain rfl : type = .boolean := reads'
          cases reads
      | int => rfl
      | string => rcases reads' with rfl | rfl <;> cases reads
  | string =>
      cases scalar' with
      | bool =>
          obtain rfl : type = .boolean := reads'
          rcases reads with same | same <;> cases same
      | int => rcases reads with rfl | rfl <;> cases reads'
      | string => rfl

section

variable {table : TableColumns R F} {groups : List (ExtremaRowGroup F)}
  {fragments : List (PhysicalFragment R)} {schema : List StackField} {name : String}

/-- A composed extremum is the one of the scan column over all live rows. -/
theorem isExtremum_of_computeExtremum {beyond : Ordering} (strict : beyond ≠ .eq)
    {extremum : String → ExtremaRowGroup F → Option Scalar}
    (extrema : List.Forall₂ (fun group fragment => ∀ scalar, extremum name group = some scalar →
      IsExtremum beyond (fragment.live.map fun row => table.cell row name) (scalarKey scalar))
        groups fragments)
    {value : KeyValue}
    (found : computeExtremum extremum (pick beyond) schema groups (.column name) = some value) :
    IsExtremum beyond ((liveOf fragments).map fun row => table.cell row name) value := by
  obtain ⟨field, -, rest⟩ := Option.bind_eq_some_iff.mp found
  obtain ⟨values, values_eq, picked⟩ := Option.bind_eq_some_iff.mp rest
  have read := List.forall₂_of_mapM_eq_some values_eq
  have decoded : ∀ group value, (if group.fallback = true then none
      else (extremum name group).bind fun scalar =>
        jsonToScalarValue field.type (scalarJson scalar)) = some value →
          ∃ scalar, extremum name group = some scalar ∧
            jsonToScalarValue field.type (scalarJson scalar) = some value := by
    intro group value given
    split at given
    · cases given
    · exact Option.bind_eq_some_iff.mp given
  have parts : List.Forall₂ (fun value cells => IsExtremum beyond cells value) values
      (fragments.map fun fragment => fragment.live.map fun row => table.cell row name) := by
    rw [List.forall₂_map_right_iff]
    apply read.through extrema
    intro group value fragment given extremal
    obtain ⟨scalar, scalar_eq, value_eq⟩ := decoded group value given
    rw [scalarKey_of_jsonToScalarValue value_eq]
    exact extremal scalar scalar_eq
  have comparable : ∀ left ∈ values, ∀ right ∈ values, (compareKeys left right).isSome := by
    intro left left_mem right right_mem
    obtain ⟨group, -, given⟩ := read.exists_of_mem_right left_mem
    obtain ⟨group', -, given'⟩ := read.exists_of_mem_right right_mem
    obtain ⟨scalar, -, value_eq⟩ := decoded group left given
    obtain ⟨scalar', -, value'_eq⟩ := decoded group' right given'
    exact comparable_of_jsonToScalarValue value_eq value'_eq
  have cells_eq : (liveOf fragments).map (fun row => table.cell row name) =
      (fragments.map fun fragment => fragment.live.map fun row => table.cell row name).flatten := by
    rw [liveOf, List.flatMap_def, List.map_flatten, List.map_map]
    rfl
  rw [cells_eq]
  generalize fragments.map (fun fragment => fragment.live.map fun row => table.cell row name) =
    cells at parts
  cases parts with
  | nil => cases picked
  | cons start others =>
      obtain rfl := Option.some.inj picked
      exact isExtremum_foldl strict others start comparable

/-- What is known about the row groups of a scan. -/
def DescribesScan (table : TableColumns R F) (groups : List (ExtremaRowGroup F))
    (fragments : List (PhysicalFragment R)) : Prop :=
  List.Forall₂ (fun group fragment => Describes table.kernel group.toAggregatedRowGroup fragment ∧
    DescribesColumns table group fragment) groups fragments

theorem DescribesScan.describes (describes : DescribesScan table groups fragments) :
    List.Forall₂ (Describes table.kernel) (groups.map ExtremaRowGroup.toAggregatedRowGroup)
      fragments := by
  rw [List.forall₂_map_left_iff]
  exact describes.imp fun _ _ => And.left

theorem nonNull_append (cells cells' : List KeyValue) :
    nonNull (cells ++ cells') = nonNull cells + nonNull cells' :=
  List.countP_append

/-- Counts of the row groups add up to the count of the scan column. -/
theorem sum_eq_nonNull {counts : List Nat}
    (each : List.Forall₂ (fun count fragment =>
      count = nonNull (fragment.live.map fun row => table.cell row name)) counts fragments) :
    counts.sum = nonNull ((liveOf fragments).map fun row => table.cell row name) := by
  induction each with
  | nil => rfl
  | cons count _ ih =>
      rw [List.sum_cons, ih, count, liveOf_cons, List.map_append, nonNull_append]

theorem computeCount_column (describes : DescribesScan table groups fragments)
    {value : ScalarValue F}
    (found : computeCount (groups.map ExtremaRowGroup.toAggregatedRowGroup) (.column name) =
      some value) :
    value = .int64 (some (nonNull ((liveOf fragments).map fun row => table.cell row name))) := by
  obtain ⟨counts, counts_eq, rfl⟩ := Option.map_eq_some_iff.mp found
  rw [List.mapM_map] at counts_eq
  have read := List.forall₂_of_mapM_eq_some counts_eq
  have each := read.through describes fun group count fragment given known =>
    known.2.counts name count given
  rw [sum_eq_nonNull each]

theorem sum_liveCount (describes : DescribesScan table groups fragments) :
    ((groups.map ExtremaRowGroup.toAggregatedRowGroup).map liveCount).sum =
      (((groups.zip fragments).filter fun pair => !uncounted pair.1).map fun pair =>
        pair.2.live.length).sum := by
  induction describes with
  | nil => rfl
  | @cons group fragment _ _ known _ ih =>
      rw [List.map_cons, List.map_cons, List.sum_cons, ih, List.zip_cons_cons, List.filter_cons]
      cases missing : uncounted group with
      | false =>
          rw [Bool.not_false, if_pos rfl, List.map_cons, List.sum_cons, known.2.rows missing]
      | true =>
          have no_rows : group.sidecar.rows = 0 := by
            rw [uncounted, Bool.and_eq_true, decide_eq_true_eq] at missing
            exact missing.2
          rw [Bool.not_true, if_neg Bool.false_ne_true, liveCount, no_rows, Nat.zero_sub, Nat.zero_add]

/-- A composed sum of integers is the one of the scan column over all live rows. -/
theorem of_composeSum [Double F] (describes : DescribesScan table groups fragments)
    {type : SqlType} (integral : type = .int64 ∨ type = .uint64) {value : ScalarValue F}
    (found : composeSum (groups.map ExtremaRowGroup.toAggregatedRowGroup) type (.column name) =
      some value) :
    groups = [] ∧ value = type.null ∨
      groups ≠ [] ∧ type = .int64 ∧ value =
        .int64 (some (wrapping (ints table.kernel name (liveOf fragments)).sum)) := by
  obtain ⟨totals, collected, answered⟩ := Option.bind_eq_some_iff.mp found
  obtain ⟨aggs, aggs_eq, totals_eq⟩ := Option.bind_eq_some_iff.mp collected
  cases aggs with
  | nil =>
      left
      have empty : groups = [] := by
        have lengths := (List.forall₂_of_mapM_eq_some aggs_eq).length_eq
        rw [List.length_map, List.length_nil] at lengths
        exact List.length_eq_zero_iff.mp lengths
      obtain rfl := Option.some.inj totals_eq
      exact ⟨empty, by rcases integral with rfl | rfl <;> exact (Option.some.inj answered).symm⟩
  | cons first rest =>
      right
      have read := List.forall₂_of_mapM_eq_some aggs_eq
      have nonempty : groups ≠ [] := by
        rintro rfl
        cases read
      cases sum_eq : first.sum with
      | int sum =>
          simp only [sum_eq] at totals_eq
          obtain ⟨result, added, same⟩ := Option.bind_eq_some_iff.mp totals_eq
          obtain rfl := Option.some.inj same
          have integer : table.kernel.IsInteger name := by
            rw [List.forall₂_map_left_iff] at read
            obtain ⟨group, member, given⟩ := read.exists_of_mem_right List.mem_cons_self
            obtain ⟨fragment, -, known⟩ := describes.exists_of_mem_left member
            exact known.2.integers name first sum given sum_eq
          rw [usablePartials_eq describes.describes integer aggs_eq] at added
          have total_eq := sum_addInts added
          rw [Int.zero_add, ← ints_liveOf] at total_eq
          rcases integral with rfl | rfl
          · obtain ⟨total, checked, rfl⟩ := Option.map_eq_some_iff.mp answered
            rw [total_eq] at checked
            exact ⟨nonempty, rfl, by rw [wrapping_eq_of_checked checked]⟩
          · cases answered
      | null =>
          simp only [sum_eq] at totals_eq
          obtain ⟨result, -, same⟩ := Option.bind_eq_some_iff.mp totals_eq
          obtain rfl := Option.some.inj same
          rcases integral with rfl | rfl <;> cases answered
      | float sum =>
          simp only [sum_eq] at totals_eq
          obtain ⟨result, -, same⟩ := Option.bind_eq_some_iff.mp totals_eq
          obtain rfl := Option.some.inj same
          rcases integral with rfl | rfl <;> cases answered

/-- Partial aggregates that can be used are there. -/
theorem coveredPartial_of_usablePartial {group : AggregatedRowGroup F} {agg : ColAgg F}
    (found : usablePartial name group = some agg) : coveredPartial name group = some agg := by
  rw [usablePartial] at found
  split at found
  · cases found
  · obtain ⟨state, state_eq, given⟩ := Option.bind_eq_some_iff.mp found
    rw [coveredPartial, state_eq]
    exact (Option.ite_none_left_eq_some.mp given).2

theorem filterMap_eq_of_forall₂ {α β : Type} {f : α → Option β} {list : List α} {results : List β}
    (read : List.Forall₂ (fun element result => f element = some result) list results) :
    list.filterMap f = results := by
  induction read with
  | nil => rfl
  | cons first _ ih => rw [List.filterMap_cons_some first, ih]

/-- Sums of floats are added as partial sums of covered row groups are. -/
theorem sum_addFloats [Double F] [IntCast F] {aggs : List (ColAgg F)} {totals result : Totals F}
    (added : aggs.foldlM addFloats totals = some result) :
    result.2.1 = aggs.foldl addCoveredFloats totals.2.1 := by
  induction aggs generalizing totals with
  | nil => exact congrArg (fun totals => totals.2.1) (Option.some.inj added).symm
  | cons agg aggs ih =>
      rw [List.foldlM_cons] at added
      obtain ⟨next, step, rest⟩ := Option.bind_eq_some_iff.mp added
      rw [List.foldl_cons, ih rest]
      unfold addFloats at step
      split at step
      · next sum_eq _ =>
          obtain rfl := Option.some.inj step
          rw [addCoveredFloats, sum_eq]
      · next sum_eq _ =>
          obtain rfl := Option.some.inj step
          rw [addCoveredFloats, sum_eq]
      · cases step

/-- A composed sum of floats is the recorded one. -/
theorem of_composeSum_float [Double F] [IntCast F] {scan : StackScan R F}
    (unfiltered : scan.filters = []) {value : ScalarValue F}
    (found : composeSum (scan.groups.map ExtremaRowGroup.toAggregatedRowGroup) .float64
      (.column name) = some value) : value = .float64 (recordedSum scan name) := by
  obtain ⟨totals, collected, answered⟩ := Option.bind_eq_some_iff.mp found
  obtain ⟨aggs, aggs_eq, totals_eq⟩ := Option.bind_eq_some_iff.mp collected
  have read := List.forall₂_of_mapM_eq_some aggs_eq
  have claimed : (claimedGroups scan).filterMap (coveredPartial name) = aggs := by
    have all : claimedGroups scan = scan.groups.map ExtremaRowGroup.toAggregatedRowGroup := by
      rw [claimedGroups, unfiltered]
      rfl
    rw [all]
    exact filterMap_eq_of_forall₂ (read.imp fun _ _ => coveredPartial_of_usablePartial)
  rw [recordedSum, claimed]
  cases aggs with
  | nil =>
      have empty : scan.groups = [] := List.map_eq_nil_iff.mp (List.forall₂_nil_right_iff.mp read)
      obtain rfl := Option.some.inj totals_eq
      rw [if_pos empty]
      exact (Option.some.inj answered).symm
  | cons first rest =>
      have nonempty : scan.groups ≠ [] := by
        intro empty
        rw [empty] at read
        cases read
      rw [if_neg nonempty]
      cases sum_eq : first.sum with
      | int sum =>
          simp only [sum_eq] at totals_eq
          obtain ⟨result, -, same⟩ := Option.bind_eq_some_iff.mp totals_eq
          obtain rfl := Option.some.inj same
          cases answered
      | null | float sum =>
          simp only [sum_eq] at totals_eq
          obtain ⟨result, added, same⟩ := Option.bind_eq_some_iff.mp totals_eq
          obtain rfl := Option.some.inj same
          rw [← Option.some.inj answered, sum_addFloats added]

theorem coveredPartial_eq_usablePartial {group : AggregatedRowGroup F}
    (known : group.fallback = false) (trust : trusted group) :
    coveredPartial name group = usablePartial name group := by
  rw [trusted, Bool.and_eq_true, decide_eq_true_eq] at trust
  rw [coveredPartial, usablePartial, known, if_neg Bool.false_ne_true]
  cases state_eq : group.aggState with
  | none => rfl
  | some state =>
      rw [state_eq, Option.any_some, decide_eq_true_eq] at trust
      rw [Option.bind_some, Option.bind_eq_bind, Option.bind_some, if_neg fun stale => stale.2 trust.2]

section Covered

variable [Double F] [IntCast F] {kernel : NumericKernel R F} {scan : StackScan R F}
  {filter : DecodedFilter} {query : Query} {rewrite : FilteredRewrite F}
  (decoded : decodeScanFilter scan.filters = some filter)
  (describes : DescribesScan table scan.groups fragments)
  (found : composeFiltered table.kernel scan.filters query
    (scan.groups.map ExtremaRowGroup.toAggregatedRowGroup) = some rewrite)
include decoded describes found

theorem coveredConst_claimed (integer : query.IsInteger table.kernel) :
    rewrite.const = rowsAnswer table.kernel (claimedRows scan fragments) query ∧
      ∀ name, query = .sum name → table.kernel.columns.lookup name = some .signed := by
  obtain ⟨known, all_trusted, const_eq, -⟩ := of_composeFiltered decoded found
  have covers := covers_of_describes describes.describes known all_trusted
  rw [claimedRows, decoded]
  exact coveredConst_eq covers integer const_eq

theorem coveredConst_countStar (count : query = .countStar) :
    rewrite.const = .int64 (some (claimedRows scan fragments).length) := by
  subst count
  obtain ⟨known, all_trusted, const_eq, -⟩ := of_composeFiltered decoded found
  have covers := covers_of_describes describes.describes known all_trusted
  rw [coveredConst, sum_rows covers] at const_eq
  obtain ⟨total, checked, same⟩ := Option.map_eq_some_iff.mp const_eq
  rw [claimedRows, decoded, ← same, Moments.eq_of_checked checked]

theorem coveredConst_count (count : query = .count name) :
    rewrite.const = .int64 (some
      (nonNull ((claimedRows scan fragments).map fun row => table.cell row name))) := by
  subst count
  obtain ⟨known, all_trusted, const_eq, -⟩ := of_composeFiltered decoded found
  obtain ⟨aggs, aggs_eq, answered⟩ := Option.bind_eq_some_iff.mp const_eq
  obtain ⟨total, checked, same⟩ := Option.map_eq_some_iff.mp answered
  have counts : List.Forall₂ (fun group fragment =>
      ∀ agg, usablePartial name group = some agg →
        agg.countNonNull = nonNull (fragment.live.map fun row => table.cell row name))
      (scan.groups.map ExtremaRowGroup.toAggregatedRowGroup) fragments := by
    rw [List.forall₂_map_left_iff]
    exact describes.imp fun _ _ both => both.2.partialCounts name
  have members := (List.forall₂_and_left _ _).mpr ⟨fun group member => member,
    counts.filter_left fun group => decide (classifyFragment filter group = .covered)⟩
  have each := (List.forall₂_of_mapM_eq_some aggs_eq).through members
    fun group agg fragment given both => both.2 agg (by
      rw [← coveredPartial_eq_usablePartial
        (known group (List.mem_of_mem_filter both.1)) (all_trusted group both.1)]
      exact given)
  rw [claimedRows, decoded, ← same, Moments.eq_of_checked checked,
    sum_eq_nonNull (List.forall₂_map_left_iff.mpr each)]
  rfl

omit describes in
theorem coveredConst_float (sum : query = .sum name)
    (float : table.kernel.columns.lookup name = some .float) :
    rewrite.const = .float64 (recordedSum scan name) := by
  subst sum
  obtain ⟨-, -, const_eq, -⟩ := of_composeFiltered decoded found
  obtain ⟨kind, kind_eq, answered⟩ := Option.bind_eq_some_iff.mp const_eq
  obtain rfl := Option.some.inj (float.symm.trans kind_eq)
  obtain ⟨first, first_eq, rest⟩ := Option.bind_eq_some_iff.mp answered
  obtain ⟨firstAgg, -, given⟩ := Option.bind_eq_some_iff.mp rest
  have nonempty : scan.groups ≠ [] := by
    intro empty
    rw [empty] at first_eq
    cases first_eq
  have summed : ∃ aggs, (groupsOf filter .covered
      (scan.groups.map ExtremaRowGroup.toAggregatedRowGroup)).mapM (coveredPartial name) =
        some aggs ∧ rewrite.const = .float64 (some (aggs.foldl addCoveredFloats 0)) := by
    cases sum_eq : firstAgg.sum <;> rw [sum_eq] at given <;>
      (obtain ⟨aggs, aggs_eq, same⟩ := Option.bind_eq_some_iff.mp given
       exact ⟨aggs, aggs_eq, (Option.some.inj same).symm⟩)
  obtain ⟨aggs, aggs_eq, const_eq⟩ := summed
  rw [const_eq, recordedSum, if_neg nonempty, claimedGroups, decoded,
    filterMap_eq_of_forall₂ (List.forall₂_of_mapM_eq_some aggs_eq)]

end Covered

/-! ## Rows of plans -/

theorem schema_peelWrappers (plan : StackPlan R F) :
    table.schema (peelWrappers plan) = table.schema plan := by
  induction plan with
  | cooperative input ih | repartition input ih =>
      rw [peelWrappers, TableColumns.schema]
      exact ih
  | scan | projection | other => rfl

theorem through_peelWrappers (plan : StackPlan R F) :
    through (peelWrappers plan) = through plan := by
  induction plan with
  | cooperative input ih | repartition input ih =>
      rw [peelWrappers, ih]
      funext row
      rw [through]
  | scan | projection | other => rfl

variable {engine : FilterEngine R}

variable {rows : List (List KeyValue)}

/-- Nodes that pass rows on give the rows of the node below in some order. -/
theorem produces_peelWrappers {plan : StackPlan R F} (produces : table.Produces engine plan rows) :
    ∃ rows', table.Produces engine (peelWrappers plan) rows' ∧ rows'.Perm rows := by
  induction produces with
  | cooperative _ ih => exact ih
  | repartition _ perm ih =>
      obtain ⟨rows', below, same⟩ := ih
      exact ⟨rows', below, same.trans perm⟩
  | scan perm => exact ⟨_, .scan perm, .refl _⟩
  | projection below => exact ⟨_, .projection below, .refl _⟩
  | other rows => exact ⟨rows, .other rows, .refl _⟩

variable {colMap : HashMap String String}

/-- A plan over a scan gives the rows that the scan reads, as it passes them on. -/
theorem perm_of_peelToScan {input : StackPlan R F} {scan : StackScan R F}
    (peeled : peelToScan input = some (.scan scan, colMap))
    (produces : table.Produces engine input rows) :
    ((table.scanRows engine scan).map fun row => through input (table.scanCells scan row)).Perm
      rows := by
  obtain ⟨rows', produced, perm⟩ := produces_peelWrappers produces
  rw [← through_peelWrappers input]
  apply List.Perm.trans _ perm
  unfold peelToScan at peeled
  generalize peelWrappers input = plan at peeled produced ⊢
  cases produced with
  | @projection exprs inner rows below =>
      obtain ⟨names, -, same⟩ := Option.bind_eq_some_iff.mp peeled
      obtain ⟨inner_eq, -⟩ := Prod.mk.inj (Option.some.inj same)
      obtain ⟨rows'', scanned, inner_perm⟩ := produces_peelWrappers below
      rw [inner_eq] at scanned
      cases scanned with
      | scan scan_perm =>
          have inner_through := through_peelWrappers inner
          rw [inner_eq] at inner_through
          have moved := (scan_perm.trans inner_perm).map (TableColumns.project exprs)
          rw [List.map_map] at moved
          simp only [through, ← inner_through]
          exact moved
  | scan scan_perm =>
      obtain ⟨same, -⟩ := Prod.mk.inj (Option.some.inj peeled)
      obtain rfl := StackPlan.scan.inj same
      exact scan_perm
  | cooperative | repartition | other =>
      obtain ⟨same, -⟩ := Prod.mk.inj (Option.some.inj peeled)
      cases same

/-! ## Meaning of answers -/

/-- What the rule answers: the aggregate of the scan column of the name of the argument over the rows
that it answers for. -/
def IsClaim [Double F] [IntCast F] (table : TableColumns R F) (scan : StackScan R F)
    (fragments : List (PhysicalFragment R)) (schema : List StackField)
    (aggregate : StackAggregate) (value : StackValue F) : Prop :=
  match aggregate.function, aggregate.arg with
  | .count, .column column =>
      value = .scalar (.int64 (some (nonNull
        ((claimedRows scan fragments).map fun row => table.cell row column.name))))
  | .count, _ => value = .scalar (.int64 (some (countedRows scan fragments)))
  | .sum, .column column =>
      let claimed := ints table.kernel column.name (claimedRows scan fragments)
      ∃ kind, argKind schema aggregate.arg = some kind ∧
        if kind = .float then value = .scalar (.float64 (recordedSum scan column.name))
        else
          (AnswersNull scan claimed ∧ claimed = [] ∧ value = .scalar (sumType kind).null) ∨
            (¬AnswersNull scan claimed ∧ kind = .signed ∧
              value = .scalar (.int64 (some (wrapping claimed.sum))))
  | .min, .column column =>
      ∃ least, value = .key least ∧ IsExtremum .gt
        ((claimedRows scan fragments).map fun row => table.cell row column.name) least
  | .max, .column column =>
      ∃ greatest, value = .key greatest ∧ IsExtremum .lt
        ((claimedRows scan fragments).map fun row => table.cell row column.name) greatest
  | _, _ => False

variable {cells cells' : List KeyValue} {extremum : KeyValue}

theorem IsExtremum.perm {beyond : Ordering} (perm : cells.Perm cells')
    (extremal : IsExtremum beyond cells extremum) : IsExtremum beyond cells' extremum :=
  ⟨extremal.1, perm.mem_iff.mp extremal.2.1,
    fun cell member => extremal.2.2 cell (perm.mem_iff.mpr member)⟩

theorem isExtremum_perm_iff {beyond : Ordering} (perm : cells.Perm cells') :
    IsExtremum beyond cells extremum ↔ IsExtremum beyond cells' extremum :=
  ⟨IsExtremum.perm perm, IsExtremum.perm perm.symm⟩

/-- An extremum of some cells is right for others exactly if both have the same. -/
theorem isExtremumOrNull_iff {beyond : Ordering} (strict : beyond ≠ .eq)
    (extremal : IsExtremum beyond cells extremum) :
    (∃ value, (StackValue.key extremum : StackValue F) = .key value ∧
        IsExtremumOrNull beyond cells' value) ↔
      ∃ common, IsExtremum beyond cells common ∧ IsExtremum beyond cells' common := by
  constructor
  · rintro ⟨value, same, right⟩
    obtain rfl := StackValue.key.inj same
    rcases right with right | ⟨-, null⟩
    · exact ⟨extremum, extremal, right⟩
    · exact absurd null extremal.1
  · rintro ⟨common, left, right⟩
    obtain rfl := left.unique strict extremal
    exact ⟨common, rfl, .inl right⟩

/-- An answer is right exactly if the claimed column and the argument have the same aggregate. -/
theorem isAnswer_iff_of_isClaim [Double F] [IntCast F] (floatSum : StackAggregate → Option F)
    {scan : StackScan R F} {input : StackPlan R F} {aggregate : StackAggregate}
    {value : StackValue F}
    (perm : ((table.scanRows engine scan).map fun row =>
      through input (table.scanCells scan row)).Perm rows)
    (claim : IsClaim table scan fragments (table.schema input) aggregate value) :
    IsAnswer floatSum (table.schema input) rows aggregate value ↔
      StackRightWhen floatSum table engine scan fragments input aggregate := by
  have cells_perm : ((table.scanRows engine scan).map
      (argValue table scan input aggregate.arg)).Perm (argCells aggregate.arg rows) := by
    have moved := perm.map fun row => aggregate.arg.evaluate row
    rw [List.map_map] at moved
    exact moved
  rw [IsAnswer, StackRightWhen]
  simp only
  generalize argCells aggregate.arg rows = cells at cells_perm
  generalize (table.scanRows engine scan).map (argValue table scan input aggregate.arg) =
    read at cells_perm
  have counts : nonNull read = nonNull cells := cells_perm.countP_eq _
  have integers : (integersOf read).Perm (integersOf cells) := cells_perm.filterMap _
  have empty : integersOf read = [] ↔ integersOf cells = [] := by
    rw [← List.length_eq_zero_iff, integers.length_eq, List.length_eq_zero_iff]
  obtain ⟨function, arg, distinct⟩ := aggregate
  cases function with
  | count =>
      cases arg with
      | column column =>
          rw [show value = _ from claim]
          simp [counts]
      | literal | cast | other =>
          rw [show value = _ from claim]
          simp [counts]
  | sum =>
      cases arg with
      | column column =>
          simp only [empty, integers.sum_eq]
          obtain ⟨kind, kind_eq, claim⟩ := claim
          simp only [kind_eq]
          generalize ints table.kernel column.name (claimedRows scan fragments) = claimed at claim ⊢
          generalize AnswersNull scan claimed = null at claim ⊢
          cases kind with
          | float =>
              rw [if_pos rfl] at claim
              simp [claim]
          | signed =>
              rw [if_neg (by decide)] at claim
              rcases claim with ⟨answers_null, rfl, rfl⟩ | ⟨answers_value, -, rfl⟩ <;>
                by_cases no_value : integersOf cells = [] <;>
                simp [*, sumType, SqlType.null]
          | unsigned =>
              rw [if_neg (by decide)] at claim
              rcases claim with ⟨answers_null, rfl, rfl⟩ | ⟨-, signed, -⟩
              · by_cases no_value : integersOf cells = [] <;>
                  simp [answers_null, no_value, sumType, SqlType.null]
              · cases signed
      | literal | cast | other => exact claim.elim
  | min =>
      cases arg with
      | column column =>
          obtain ⟨least, rfl, extremal⟩ := claim
          simp only [isExtremum_perm_iff cells_perm]
          exact isExtremumOrNull_iff (by decide) extremal
      | literal | cast | other => exact claim.elim
  | max =>
      cases arg with
      | column column =>
          obtain ⟨greatest, rfl, extremal⟩ := claim
          simp only [isExtremum_perm_iff cells_perm]
          exact isExtremumOrNull_iff (by decide) extremal
      | literal | cast | other => exact claim.elim

/-! ## Claims of the rule -/

section Claims

variable {scan : StackScan R F} {aggregate : StackAggregate} {value : StackValue F}

variable (fragments) in
theorem claimedRows_of_noFilters (unfiltered : scan.filters = []) :
    claimedRows scan fragments = liveOf fragments := by
  rw [claimedRows, unfiltered]
  rfl

/-- A projection that maps no names has no columns. -/
theorem nil_of_keys_isEmpty {names : List (String × String)} {start : HashMap String String}
    (empty : (names.foldl (fun map name => map.insert name.1 name.2) start).keys.isEmpty) :
    names = [] := by
  induction names using List.reverseRecOn with
  | nil => rfl
  | append_singleton names name _ =>
      rw [List.foldl_concat, AList.keys_insert] at empty
      cases empty

/-- Without projected names, an argument has the numbers of the scan column of its name. -/
theorem argKind_of_peelToScan {input : StackPlan R F}
    (peeled : peelToScan input = some (.scan scan, colMap)) (empty : colMap.keys.isEmpty)
    {column : PhysicalColumn} {field : StackField}
    (at_index : (table.schema input)[column.index]? = some field) (named : field.name = column.name) :
    argKind (table.schema input) (.column column) = table.kernel.columns.lookup column.name := by
  rw [argKind, at_index, Option.bind_some]
  rw [← schema_peelWrappers] at at_index
  unfold peelToScan at peeled
  split at peeled
  · next exprs inner plan_eq =>
      obtain ⟨names, names_eq, same⟩ := Option.bind_eq_some_iff.mp peeled
      obtain ⟨-, rfl⟩ := Prod.mk.inj (Option.some.inj same)
      have lengths := (List.forall₂_of_mapM_eq_some names_eq).length_eq
      rw [nil_of_keys_isEmpty empty, List.length_nil] at lengths
      rw [plan_eq, List.length_eq_zero_iff.mp lengths] at at_index
      cases at_index
  · obtain ⟨plan_eq, -⟩ := Prod.mk.inj (Option.some.inj peeled)
    rw [plan_eq, TableColumns.schema, List.getElem?_map] at at_index
    obtain ⟨name, -, rfl⟩ := Option.map_eq_some_iff.mp at_index
    exact congrArg (fun name => table.kernel.columns.lookup name) named

variable [Double F] [IntCast F]

theorem isClaim_of_composeAggregate (describes : DescribesScan table scan.groups fragments)
    (unfiltered : scan.filters = [])
    (found : composeAggregate schema scan.groups aggregate = some value) :
    IsClaim table scan fragments schema aggregate value := by
  obtain ⟨function, arg, distinct⟩ := aggregate
  have claimed_eq := claimedRows_of_noFilters fragments unfiltered
  cases function with
  | count =>
      obtain ⟨answer, answer_eq, rfl⟩ := Option.map_eq_some_iff.mp found
      cases arg with
      | column column =>
          rw [computeCount_column describes answer_eq, ← claimed_eq]
          rfl
      | literal literal =>
          rw [← Option.some.inj answer_eq, IsClaim, sum_liveCount describes, countedRows, unfiltered]
          rfl
      | cast | other => cases answer_eq
  | sum =>
      obtain ⟨kind, kind_eq, rest⟩ := Option.bind_eq_some_iff.mp found
      obtain ⟨answer, answer_eq, rfl⟩ := Option.map_eq_some_iff.mp rest
      cases arg with
      | column column =>
          refine ⟨kind, kind_eq, ?_⟩
          split
          · next float =>
              subst float
              rw [of_composeSum_float unfiltered answer_eq]
          · next integral =>
              have types : sumType kind = .int64 ∨ sumType kind = .uint64 := by
                cases kind with
                | signed => exact .inl rfl
                | unsigned => exact .inr rfl
                | float => exact absurd rfl integral
              have null_eq : AnswersNull scan
                  (ints table.kernel column.name (claimedRows scan fragments)) =
                    (scan.groups = []) := by
                rw [AnswersNull, unfiltered]
                rfl
              rcases of_composeSum describes types answer_eq with
                ⟨no_groups, rfl⟩ | ⟨some_group, int64, rfl⟩
              · left
                refine ⟨null_eq ▸ no_groups, ?_, rfl⟩
                rw [DescribesScan, no_groups] at describes
                rw [claimed_eq, List.forall₂_nil_left_iff.mp describes]
                rfl
              · right
                refine ⟨fun null => some_group (null_eq ▸ null), ?_, by rw [claimed_eq]⟩
                cases kind with
                | signed => rfl
                | unsigned => cases int64
                | float => cases int64
      | literal | cast | other => cases answer_eq
  | min =>
      rw [composeAggregate] at found
      simp only at found
      split at found
      · obtain ⟨least, least_eq, rfl⟩ := Option.map_eq_some_iff.mp found
        cases arg with
        | column column =>
            have extremal := isExtremum_of_computeExtremum (by decide)
              (describes.imp fun _ _ known => known.2.least column.name) least_eq
            rw [← claimed_eq] at extremal
            exact ⟨least, rfl, extremal⟩
        | literal | cast | other => cases least_eq
      · cases found
  | max =>
      rw [composeAggregate] at found
      simp only at found
      split at found
      · obtain ⟨greatest, greatest_eq, rfl⟩ := Option.map_eq_some_iff.mp found
        cases arg with
        | column column =>
            have extremal := isExtremum_of_computeExtremum (by decide)
              (describes.imp fun _ _ known => known.2.greatest column.name) greatest_eq
            rw [← claimed_eq] at extremal
            exact ⟨greatest, rfl, extremal⟩
        | literal | cast | other => cases greatest_eq
      · cases found

/-- The answer to an aggregate over a scan with filters. -/
theorem isClaim_of_composeFiltered (describes : DescribesScan table scan.groups fragments)
    (kinds : ∀ column, aggregate.arg = .column column →
      argKind schema aggregate.arg = table.kernel.columns.lookup column.name)
    (filtered : scan.filters.isEmpty = false) {values : List (StackValue F)}
    (found : composeFilteredFromScan table.kernel scan [aggregate] = some values) :
    ∃ value, values = [value] ∧ IsClaim table scan fragments schema aggregate value := by
  rw [composeFilteredFromScan] at found
  split at found
  · cases found
  · obtain ⟨query, query_eq, rest⟩ := Option.bind_eq_some_iff.mp found
    obtain ⟨rewrite, composed, answered⟩ := Option.bind_eq_some_iff.mp rest
    split at answered
    · obtain rfl := Option.some.inj answered
      refine ⟨_, rfl, ?_⟩
      obtain ⟨filter, decoded, -⟩ := Option.bind_eq_some_iff.mp composed
      obtain ⟨function, arg, distinct⟩ := aggregate
      cases function with
      | count =>
          cases arg with
          | column column =>
              rw [coveredConst_count decoded describes composed (Option.some.inj query_eq).symm]
              rfl
          | literal literal =>
              rw [coveredConst_countStar decoded describes composed (Option.some.inj query_eq).symm,
                IsClaim, countedRows, decoded]
          | cast | other => cases query_eq
      | sum =>
          cases arg with
          | column column =>
              obtain rfl := Option.some.inj query_eq
              have kind := kinds column rfl
              obtain ⟨-, -, const_eq, -⟩ := of_composeFiltered decoded composed
              obtain ⟨own, own_eq, -⟩ := Option.bind_eq_some_iff.mp const_eq
              refine ⟨own, kind.trans own_eq, ?_⟩
              split
              · next float =>
                  rw [coveredConst_float decoded composed rfl (float ▸ own_eq)]
              · next integral =>
                  obtain ⟨const_eq, signed⟩ :=
                    coveredConst_claimed decoded describes composed ⟨own, own_eq, integral⟩
                  have signed := signed column.name rfl
                  have null_eq : AnswersNull scan
                      (ints table.kernel column.name (claimedRows scan fragments)) =
                        (ints table.kernel column.name (claimedRows scan fragments) = []) := by
                    rw [AnswersNull, filtered]
                    rfl
                  obtain rfl := Option.some.inj (own_eq.symm.trans signed)
                  rw [const_eq, rowsAnswer_sum signed]
                  by_cases empty : ints table.kernel column.name (claimedRows scan fragments) = []
                  · left
                    refine ⟨null_eq ▸ empty, empty, ?_⟩
                    rw [if_pos empty]
                    rfl
                  · right
                    refine ⟨fun null => empty (null_eq ▸ null), rfl, ?_⟩
                    rw [if_neg empty]
          | literal | cast | other => cases query_eq
      | min | max => cases query_eq
    · cases answered

/-- The columns of the arguments are there by their names. -/
def Named (schema : List StackField) (aggregate : StackAggregate) : Prop :=
  ∀ column, aggregate.arg = .column column →
    ∃ field, schema[column.index]? = some field ∧ field.name = column.name

theorem claims_of_transformAggregate {aggregates : List StackAggregate} {input : StackPlan R F}
    {values : List (StackValue F)} (peeled : peelToScan input = some (.scan scan, colMap))
    (describes : DescribesScan table scan.groups fragments)
    (named : ∀ aggregate ∈ aggregates, Named (table.schema input) aggregate)
    (answered : transformAggregate table aggregates input = some values) :
    List.Forall₂ (IsClaim table scan fragments (table.schema input)) aggregates values := by
  rw [transformAggregate, peeled, Option.bind_eq_bind, Option.bind_some] at answered
  simp only at answered
  split at answered
  · next unfiltered =>
      rw [composeFromScan] at answered
      split at answered
      · cases answered
      · exact (List.forall₂_of_mapM_eq_some answered).imp fun _ _ found =>
          isClaim_of_composeAggregate describes (List.isEmpty_iff.mp unfiltered) found
  · next filtered =>
      split at answered
      · next empty =>
          match aggregates, named, answered with
          | [aggregate], named, answered =>
              have single := List.mem_singleton_self aggregate
              obtain ⟨value, rfl, claim⟩ := isClaim_of_composeFiltered describes
                (fun column arg_eq => by
                  obtain ⟨field, at_index, name_eq⟩ := named aggregate single column arg_eq
                  rw [arg_eq]
                  exact argKind_of_peelToScan peeled empty at_index name_eq)
                (Bool.eq_false_iff.mpr filtered) answered
              exact .cons claim .nil
      · cases answered

end Claims

/-! ## Transparent plans -/

section Transparent

variable {scan : StackScan R F} {input : StackPlan R F} {aggregate : StackAggregate}
  {value : StackValue F}

/-- A limit that cuts nothing off leaves the live rows. -/
theorem scanRows_eq (unfiltered : scan.filters = [])
    (reads : List.Forall₂ (fun slices fragment => slices.flatten = fragment.live) scan.slices
      fragments)
    (whole : ∀ slice ∈ scan.slices.flatten, Limits.upTo scan.limit slice = slice) :
    table.scanRows engine scan = liveOf fragments := by
  have sliced : table.scanRows engine scan = scan.slices.flatten.flatten := by
    have pieces : scan.slices.flatten.map (fun slice =>
        Limits.upTo scan.limit (slice.filter (engine.passes table.kernel []))) =
          scan.slices.flatten.map id := by
      apply List.map_congr_left
      intro slice member
      have all_pass : slice.filter (engine.passes table.kernel []) = slice :=
        List.filter_eq_self.mpr fun row _ => rfl
      rw [all_pass]
      exact whole slice member
    rw [TableColumns.scanRows, unfiltered, List.flatMap_def, pieces, List.map_id]
  rw [sliced, liveOf, List.flatMap_def]
  generalize scan.slices = slices at reads
  induction reads with
  | nil => rfl
  | cons read _ ih => rw [List.flatten_cons, List.flatten_append, read, ih, List.map_cons,
      List.flatten_cons]

theorem integersOf_cells {name : String} (integer : table.kernel.IsInteger name) (rows : List R) :
    integersOf (rows.map fun row => table.cell row name) = ints table.kernel name rows := by
  obtain ⟨kind, kind_eq, not_float⟩ := integer
  obtain ⟨column, column_eq, agrees⟩ := table.agrees name kind kind_eq not_float
  rw [integersOf, ints, List.reduceOption, List.filterMap_map, List.filterMap_map]
  apply List.filterMap_congr
  intro row _
  rw [Function.comp, Function.comp, id, agrees row, TableColumns.cell, column_eq]
  rfl

/-- Where nothing in between makes a difference, the answer is right. -/
theorem stackRightWhen_of_transparent [Double F] [IntCast F]
    (floatSum : StackAggregate → Option F) (unfiltered : scan.filters = [])
    (scanned : table.scanRows engine scan = liveOf fragments)
    (lengths : scan.groups.length = fragments.length)
    (claim : IsClaim table scan fragments (table.schema input) aggregate value)
    (transparent : Transparent table scan fragments input aggregate) :
    StackRightWhen floatSum table engine scan fragments input aggregate := by
  have claimed_eq := claimedRows_of_noFilters fragments unfiltered
  obtain ⟨function, arg, distinct⟩ := aggregate
  rw [StackRightWhen]
  simp only
  rw [scanned, claimed_eq]
  cases function with
  | count =>
      cases arg with
      | column column =>
          have same : argValue table scan input (.column column) = fun row =>
            table.cell row column.name := funext transparent
          rw [same]
      | literal literal =>
          obtain ⟨not_null, counted⟩ := transparent
          have all_counted : (scan.groups.zip fragments).filter
              (fun pair => !uncounted pair.1) = scan.groups.zip fragments := by
            rw [List.filter_eq_self]
            intro pair member
            rw [counted _ (List.of_mem_zip member).1]
            rfl
          have cells : nonNull ((liveOf fragments).map
              (argValue table scan input (.literal literal))) = (liveOf fragments).length := by
            rw [nonNull, ← List.length_map (argValue table scan input (.literal literal)),
              List.countP_eq_length, List.forall_mem_map]
            intro row _
            exact decide_eq_true not_null
          have counted_eq : countedRows scan fragments =
              (((scan.groups.zip fragments).filter fun pair => !uncounted pair.1).map fun pair =>
                pair.2.live.length).sum := by
            rw [countedRows, unfiltered]
            rfl
          have lengths_eq : (scan.groups.zip fragments).map (fun pair => pair.2.live.length) =
              fragments.map fun fragment => fragment.live.length := by
            have moved := List.map_map (f := Prod.snd) (g := fun fragment : PhysicalFragment R =>
              fragment.live.length) (l := scan.groups.zip fragments)
            rw [List.map_snd_zip lengths.ge] at moved
            exact moved.symm
          rw [cells, counted_eq, all_counted, lengths_eq, liveOf, List.length_flatMap]
      | cast | other => exact transparent.elim
  | sum =>
      cases arg with
      | column column =>
          obtain ⟨passes, integer, integral, some_value⟩ := transparent
          have same : argValue table scan input (.column column) = fun row =>
            table.cell row column.name := funext passes
          have some_group : scan.groups ≠ [] := by
            intro no_group
            rw [no_group, List.length_nil] at lengths
            rw [List.length_eq_zero_iff.mp lengths.symm] at some_value
            exact some_value rfl
          have answers_value : ¬AnswersNull scan
              (ints table.kernel column.name (liveOf fragments)) := by
            rw [AnswersNull, unfiltered]
            exact some_group
          dsimp only at integral ⊢
          rw [if_neg integral, same, integersOf_cells integer]
          exact ⟨rfl, iff_of_false some_value answers_value⟩
      | literal | cast | other => exact transparent.elim
  | min =>
      cases arg with
      | column column =>
          have same : argValue table scan input (.column column) = fun row =>
            table.cell row column.name := funext transparent
          obtain ⟨least, -, extremal⟩ := claim
          rw [claimed_eq] at extremal
          rw [same]
          exact ⟨least, extremal, extremal⟩
      | literal | cast | other => exact transparent.elim
  | max =>
      cases arg with
      | column column =>
          have same : argValue table scan input (.column column) = fun row =>
            table.cell row column.name := funext transparent
          obtain ⟨greatest, -, extremal⟩ := claim
          rw [claimed_eq] at extremal
          rw [same]
          exact ⟨greatest, extremal, extremal⟩
      | literal | cast | other => exact transparent.elim

end Transparent

/-- Answers over a plan are right exactly if the scan columns that have the names of the arguments have
the same aggregates over the rows that the rule answers for as the arguments have over those that the
scan reads; they have where the plan passes these columns on and the limit cuts nothing off. -/
theorem transformAggregate_right_iff [Double F] [IntCast F] {scan : StackScan R F}
    {input : StackPlan R F} {aggregates : List StackAggregate} {colMap : HashMap String String}
    {values : List (StackValue F)} {rows : List (List KeyValue)}
    (peeled : peelToScan input = some (.scan scan, colMap))
    (describes : DescribesScan table scan.groups fragments)
    (named : ∀ aggregate ∈ aggregates, Named (table.schema input) aggregate)
    (answered : transformAggregate table aggregates input = some values)
    (produces : table.Produces engine input rows) (floatSum : StackAggregate → Option F) :
    (List.Forall₂ (IsAnswer floatSum (table.schema input) rows) aggregates values ↔
      ∀ aggregate ∈ aggregates,
        StackRightWhen floatSum table engine scan fragments input aggregate) ∧
    (scan.filters = [] →
      List.Forall₂ (fun slices fragment => slices.flatten = fragment.live) scan.slices fragments →
      (∀ slice ∈ scan.slices.flatten, Limits.upTo scan.limit slice = slice) →
      (∀ aggregate ∈ aggregates, Transparent table scan fragments input aggregate) →
        List.Forall₂ (IsAnswer floatSum (table.schema input) rows) aggregates values) := by
  have claims := claims_of_transformAggregate peeled describes named answered
  have perm := perm_of_peelToScan peeled produces
  have right_iff : List.Forall₂ (IsAnswer floatSum (table.schema input) rows) aggregates values ↔
      ∀ aggregate ∈ aggregates,
        StackRightWhen floatSum table engine scan fragments input aggregate := by
    apply claims.iff_forall
    intro aggregate value claim
    exact isAnswer_iff_of_isClaim floatSum perm claim
  constructor
  · exact right_iff
  · intro unfiltered reads whole transparent
    rw [right_iff]
    intro aggregate member
    obtain ⟨value, -, claim⟩ := claims.exists_of_mem_left member
    exact stackRightWhen_of_transparent floatSum unfiltered (scanRows_eq unfiltered reads whole)
      describes.length_eq claim (transparent aggregate member)

end

/-! ## Two rows with a column of nulls -/

namespace RenamedColumn

/-- The column of values. -/
def valueColumn : KeyColumn Bool :=
  { type := .int64
    value := fun row => .int (if row then 2 else 1)
    fits := by
      intro row
      cases row <;> exact ⟨-2 ^ 63, 2 ^ 63, rfl, by decide, by decide⟩ }

/-- The column of nulls. -/
def nullColumn : KeyColumn Bool :=
  { type := .int64, value := fun _ => .null, fits := fun _ => trivial }

def table : TableColumns Bool Int :=
  { kernel := { columns := ∅, intValue := fun _ _ => none, floatValue := fun _ _ => none }
    columns := ((∅ : HashMap String (KeyColumn Bool)).insert "b" nullColumn).insert "a" valueColumn
    agrees := fun _ _ found => by cases found }

def group : ExtremaRowGroup Int :=
  { snapshot := 1
    entry :=
      { data := "rg_1.parquet", metaFile := "rg_1.meta", deletes := none, deletedCount := 0,
        agg := none }
    sidecar :=
      { rowGroup := "rg_1"
        schemaId := 1
        rows := 2
        columns := ((∅ : HashMap String ColumnStats).insert "b"
          { min := none, max := none, nulls := 2 }).insert "a"
            { min := some (.int 1), max := some (.int 2), nulls := 0 }
        columnOffsets := none
        sort := none
        rowIds := [.range 0 2]
        checksum := "c"
        metaChecksum := "" }
    partitionValues := none
    fallback := false
    aggState := none
    liveMin := ∅
    liveMax := ∅ }

def fragment : PhysicalFragment Bool :=
  { rows := [false, true], deleted := ∅, inside := by decide }

/-- A scan of both columns. -/
def scan (limit : Option Nat) : StackScan Bool Int :=
  { columns := ["a", "b"], groups := [group], slices := [[[false, true]]], filters := [],
    limit }

/-- `COUNT` of a column. -/
def countOf (arg : StackExpr) : StackAggregate :=
  { function := .count, arg, distinct := false }

def engine : FilterEngine Bool :=
  { cell := fun _ _ => .null
    compare := fun _ _ => none }

/-- There are no floats to add up. -/
def noFloats : StackAggregate → Option Int :=
  fun _ => none

theorem stats_eq {name : String} {stats : ColumnStats}
    (found : group.sidecar.columns.lookup name = some stats) :
    (name = "a" ∧ stats = { min := some (.int 1), max := some (.int 2), nulls := 0 }) ∨
      (name = "b" ∧ stats = { min := none, max := none, nulls := 2 }) := by
  have inserted : (((∅ : HashMap String ColumnStats).insert "b"
      { min := none, max := none, nulls := 2 }).insert "a"
        { min := some (.int 1), max := some (.int 2), nulls := 0 }).lookup name = some stats := found
  by_cases first : name = "a"
  · rw [first, AList.lookup_insert] at inserted
    exact .inl ⟨first, (Option.some.inj inserted).symm⟩
  · rw [AList.lookup_insert_ne first] at inserted
    by_cases second : name = "b"
    · rw [second, AList.lookup_insert] at inserted
      exact .inr ⟨second, (Option.some.inj inserted).symm⟩
    · rw [AList.lookup_insert_ne second] at inserted
      cases inserted

theorem cells_eq : (fragment.live.map fun row => table.cell row "a") = [.int 1, .int 2] := by
  decide +kernel

theorem describesColumns : DescribesColumns table group fragment := by
  constructor
  · intro
    rfl
  · intro name count found
    obtain ⟨stats, stats_found, rfl⟩ := Option.map_eq_some_iff.mp found
    rcases stats_eq stats_found with ⟨rfl, rfl⟩ | ⟨rfl, rfl⟩ <;> decide +kernel
  · intro name agg found
    cases found
  · intro name agg sum found
    cases found
  · intro name scalar found
    obtain ⟨stats, stats_found, least⟩ := Option.bind_eq_some_iff.mp found
    rcases stats_eq stats_found with ⟨rfl, rfl⟩ | ⟨rfl, rfl⟩
    · obtain rfl := Option.some.inj least
      rw [cells_eq]
      refine ⟨by decide, by decide, ?_⟩
      intro cell member _
      rcases List.mem_pair.mp member with rfl | rfl <;> exact ⟨_, rfl, by decide⟩
    · cases least
  · intro name scalar found
    obtain ⟨stats, stats_found, greatest⟩ := Option.bind_eq_some_iff.mp found
    rcases stats_eq stats_found with ⟨rfl, rfl⟩ | ⟨rfl, rfl⟩
    · obtain rfl := Option.some.inj greatest
      rw [cells_eq]
      refine ⟨by decide, by decide, ?_⟩
      intro cell member _
      rcases List.mem_pair.mp member with rfl | rfl <;> exact ⟨_, rfl, by decide⟩
    · cases greatest

theorem describesScan : DescribesScan table [group] [fragment] := by
  apply List.Forall₂.cons _ .nil
  constructor
  · constructor
    · rfl
    · intro
      rfl
    · intro known name stats integer
      obtain ⟨kind, found, -⟩ := integer
      cases found
    · intro name state agg integer found
      cases found
  · exact describesColumns

/-- A projection gives the column of nulls the name of the other. -/
def renamed : StackPlan Bool Int :=
  .projection [(.column { name := "b", index := 1 }, "a")] (.scan (scan none))

/-- Counting a column of nulls gives two under the name of the other column, and counting the one row
that a limit leaves gives two as well. -/
theorem stack_wrong : DescribesScan table [group] [fragment] ∧
    transformAggregate table [countOf (.column { name := "a", index := 0 })] renamed =
      some [.scalar (.int64 (some 2))] ∧
    (∀ rows, table.Produces engine renamed rows → ¬List.Forall₂
      (IsAnswer noFloats (table.schema renamed) rows)
        [countOf (.column { name := "a", index := 0 })] [.scalar (.int64 (some 2))]) ∧
    transformAggregate table [countOf (.literal (.int 1))] (.scan (scan (some 1))) =
      some [.scalar (.int64 (some 2))] ∧
    ∀ rows, table.Produces engine (.scan (scan (some 1))) rows → ¬List.Forall₂
      (IsAnswer noFloats (table.schema (.scan (scan (some 1)))) rows)
        [countOf (.literal (.int 1))] [.scalar (.int64 (some 2))] := by
  have not_two : ∀ (arg : StackExpr) (schema : List StackField) (rows read : List (List KeyValue)),
      read.Perm rows → nonNull (argCells arg read) ≠ 2 → ¬List.Forall₂
        (IsAnswer noFloats schema rows) [countOf arg] [.scalar (.int64 (some 2))] := by
    intro arg schema rows read perm other right
    cases right with
    | cons answer _ =>
        have counted : nonNull (argCells arg read) = nonNull (argCells arg rows) :=
          (perm.map _).countP_eq _
        rw [counted] at other
        have two : (StackValue.scalar (.int64 (some 2)) : StackValue Int) =
          .scalar (.int64 (some (nonNull (argCells arg rows)))) := answer
        simp only [StackValue.scalar.injEq, ScalarValue.int64.injEq, Option.some.injEq] at two
        omega
  constructor
  · exact describesScan
  · constructor
    · decide +kernel
    · constructor
      · intro rows produces
        have peeled : peelToScan renamed =
            some (.scan (scan none), (∅ : HashMap String String).insert "a" "b") := rfl
        exact not_two _ _ rows _ (perm_of_peelToScan peeled produces) (by decide +kernel)
      · constructor
        · decide +kernel
        · intro rows produces
          have peeled : peelToScan (.scan (scan (some 1))) = some (.scan (scan (some 1)), ∅) := rfl
          exact not_two _ _ rows _ (perm_of_peelToScan peeled produces) (by decide +kernel)

/-- Counting the values is right where they keep their name. -/
theorem stack_right :
    table.Produces engine (.scan (scan none)) [[.int 1, .null], [.int 2, .null]] ∧
    List.Forall₂ (IsAnswer noFloats (table.schema (.scan (scan none)))
      [[.int 1, .null], [.int 2, .null]])
        [countOf (.column { name := "a", index := 0 })] [.scalar (.int64 (some 2))] ∧
    StackRightWhen noFloats table engine (scan none) [fragment] (.scan (scan none))
      (countOf (.column { name := "a", index := 0 })) := by
  have produces : table.Produces engine (.scan (scan none)) [[.int 1, .null], [.int 2, .null]] := by
    apply TableColumns.Produces.scan
    have rows_eq : (table.scanRows engine (scan none)).map (table.scanCells (scan none)) =
        [[.int 1, .null], [.int 2, .null]] := by
      decide +kernel
    rw [rows_eq]
  have peeled : peelToScan (.scan (scan none)) = some (.scan (scan none), ∅) := rfl
  have answered : transformAggregate table [countOf (.column { name := "a", index := 0 })]
      (.scan (scan none)) = some [.scalar (.int64 (some 2))] := by
    decide +kernel
  obtain ⟨right_iff, transparent_right⟩ := transformAggregate_right_iff peeled describesScan
    (by
      intro aggregate member column same
      rw [List.mem_singleton.mp member] at same
      obtain rfl := StackExpr.column.inj same
      exact ⟨_, rfl, rfl⟩)
    answered produces noFloats
  have right := transparent_right rfl (.cons (by decide) .nil) (by decide) (by
    intro aggregate member
    rw [List.mem_singleton.mp member]
    intro row
    rfl)
  exact ⟨produces, right, right_iff.mp right _ (List.mem_singleton_self _)⟩

end RenamedColumn

end MetadataAggregate

end IcefallDB
