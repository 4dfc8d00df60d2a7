import IcefallDB.Pruning
import Mathlib

/-!
# Pruning keeps the rows that pass

A row group with a row that passes all filters is kept, unless a filter misleads: an unsigned literal
beyond the signed integers of 64 bits is taken as a negative one, and a literal just below them may
be blurred with a greatest value just beyond them.
-/

namespace IcefallDB

/-! ## Kinds of values -/

/-- Kinds of values in columns. -/
inductive ScalarKind
  | int | text | bool
  deriving DecidableEq

/-- The kind of a value. -/
def Scalar.kind : Scalar → ScalarKind
  | .int _ => .int
  | .string _ => .text
  | .bool _ => .bool

/-- The kind of the values that a literal is compared with; floats are compared with columns of
floats. -/
def Literal.kind : Literal → Option ScalarKind
  | .int64 _ => some .int
  | .string _ => some .text
  | .bool _ => some .bool
  | .float64 _ => none

/-- A JSON value: integers have 64 bits, with or without a sign. -/
def Scalar.IsJson : Scalar → Prop
  | .int value => -2 ^ 63 ≤ value ∧ value < 2 ^ 64
  | _ => True

/-- The value of a column. -/
def FilterValue.ofScalar : Scalar → FilterValue
  | .int value => .int value
  | .string value => .text value
  | .bool value => .bool value

/-- The literal without loss of its sign. -/
def FilterLiteral.exact : FilterLiteral → Literal
  | .signed value => .int64 value.toInt
  | .unsigned value => .int64 value.toNat
  | .float (some (some value)) => .float64 (some value)
  | .float _ | .other _ => .float64 none
  | .utf8 value => .string value
  | .boolean value => .bool value

/-- The literal is an unsigned integer that becomes a negative one. -/
def FilterLiteral.Wraps : FilterLiteral → Prop
  | .unsigned value => 2 ^ 63 ≤ value.toNat
  | _ => False

theorem Scalar.Le.kind_eq {left right : Scalar} (le : left.Le right) : left.kind = right.kind := by
  cases left <;> cases right <;> first | rfl | exact absurd le id

namespace Pruning

open MetadataAggregate

variable {R : Type}

/-! ## Row groups and their rows -/

/-- The engine compares texts and truth values in their order. -/
structure Standard (engine : FilterEngine R) : Prop where
  text : ∀ left right, engine.compare (.text left) (.text right) = some (compare left right)
  bool : ∀ left right, engine.compare (.bool left) (.bool right) = some (compare left right)

/-- Statistics and partition values of a row group are of the kinds of the columns. -/
structure TypedStatistics (kinds : String → ScalarKind) (group : PlannedRowGroup) : Prop where
  min : ∀ name stats min, group.sidecar.columns.lookup name = some stats → stats.min = some min →
    min.kind = kinds name ∧ min.IsJson
  max : ∀ name stats max, group.sidecar.columns.lookup name = some stats → stats.max = some max →
    max.kind = kinds name ∧ max.IsJson
  partition : ∀ name value, partitionValue group name = some value → value.kind = kinds name

/-- Literals of a predicate are of the kind of its column. -/
def ColumnPredicate.Typed (kinds : String → ScalarKind) : ColumnPredicate → Prop
  | .comparison column predicate => predicate.value.kind = some (kinds column)
  | .inList column values => ∀ value ∈ values, value.kind = some (kinds column)
  | .isNull _ | .isNotNull _ => True

/-- Statistics and partition values are correct for the rows. -/
structure Correct (engine : FilterEngine R) (group : PlannedRowGroup) (rows : List R) : Prop where
  count : group.sidecar.rows = rows.length
  nulls : ∀ name stats, group.sidecar.columns.lookup name = some stats →
    stats.nulls = rows.countP fun row => (engine.cell name row).isNull
  bounds : ∀ name stats min max, group.sidecar.columns.lookup name = some stats →
    stats.min = some min → stats.max = some max →
      ∀ row ∈ rows, (engine.cell name row).isNull = false →
        ∃ value, engine.cell name row = .ofScalar value ∧ Between min max value
  partition : ∀ name value, partitionValue group name = some value →
    ∀ row ∈ rows, (engine.cell name row).isNull = false → engine.cell name row = .ofScalar value

/-! ## Filters that mislead -/

/-- The comparison of a column with a literal that a filter is. -/
def comparisonIn : LogicalExpr R → Option (String × Comparison × FilterLiteral)
  | .binary (.column name) op (.literal value) => do
      let comparison ← comparisonOf op
      some (name, comparison, value)
  | .binary (.literal value) op (.column name) => do
      let comparison ← swappedComparisonOf op
      some (name, comparison, value)
  | _ => none

/-- A range seems to have no value that satisfies a comparison with a literal that is taken as
another. -/
def MisleadsRange (min max : Scalar) (value : FilterLiteral) (read : Literal) : Comparison → Prop
  | .eq | .lte => value.Wraps ∧ compareExact min read = some .gt
  | .lt => value.Wraps ∧ compareExact min read ≠ some .lt
  | .gt => Blurred max read
  | .gte => False

/-- A row group has statistics of a column with both ends of the range. -/
def HasRange (group : PlannedRowGroup) (name : String) (min max : Scalar) : Prop :=
  ∃ stats, group.sidecar.columns.lookup name = some stats ∧ stats.min = some min ∧
    stats.max = some max

/-- A comparison misleads about a row group. -/
def MisleadsComparison (partitionBy : List String) (group : PlannedRowGroup) (name : String)
    (comparison : Comparison) (value : FilterLiteral) : Prop :=
  if comparison = .eq ∧ name ∈ partitionBy then
    (partitionValue group name).isSome ∧ value.Wraps
  else
    ∃ min max read, HasRange group name min max ∧ scalarToLiteral value = some read ∧
      MisleadsRange min max value read comparison

/-- A list of literals misleads about a row group. -/
def MisleadsList (partitionBy : List String) (group : PlannedRowGroup) (name : String)
    (values : List Literal) : Prop :=
  if name ∈ partitionBy then
    ∃ number : Int, partitionValue group name = some (.int number) ∧ 2 ^ 63 ≤ number
  else
    ∃ min max, HasRange group name min max ∧
      ∀ value ∈ values, compareExact min value = some .gt ∧ ¬Blurred min value

/-- A filter misleads about a row group. -/
def Misleads (schema partitionBy : List String) (group : PlannedRowGroup) (filter : LogicalExpr R) :
    Prop :=
  (∃ name comparison value, comparisonIn filter = some (name, comparison, value) ∧ name ∈ schema ∧
    MisleadsComparison partitionBy group name comparison value) ∨
  ∃ name list values, filter = .inList (.column name) list false ∧ name ∈ schema ∧
    list.mapM exprAsLiteral = some values ∧ values ≠ [] ∧
    MisleadsList partitionBy group name values

/-! ## Literals -/

section

variable {value : FilterLiteral} {read : Literal} {kind : ScalarKind}

theorem exact_of_not_wraps (found : scalarToLiteral value = some read) (keeps : ¬value.Wraps) :
    value.exact = read := by
  cases value with
  | unsigned bits =>
      obtain rfl := Option.some.inj found
      have small : bits.toNat < 2 ^ 63 := not_le.mp keeps
      rw [FilterLiteral.exact, BitVec.toInt_eq_toNat_of_lt (by omega)]
  | float value =>
      rcases Extended.cases value with rfl | rfl | ⟨value, rfl⟩
      all_goals exact Option.some.inj found
  | signed | utf8 | boolean => exact Option.some.inj found
  | other => cases found

/-- An unsigned literal that wraps becomes a negative number. -/
theorem exact_of_wraps (found : scalarToLiteral value = some read) (wraps : value.Wraps) :
    ∃ number : Int, 2 ^ 63 ≤ number ∧ number < 2 ^ 64 ∧ value.exact = .int64 number ∧
      read = .int64 (number - 2 ^ 64) := by
  cases value with
  | unsigned bits =>
      obtain rfl := Option.some.inj found
      have large : 2 ^ 63 ≤ bits.toNat := wraps
      have bounded : bits.toNat < 2 ^ 64 := bits.isLt
      refine ⟨bits.toNat, by omega, by omega, rfl, ?_⟩
      rw [BitVec.toInt_eq_toNat_cond, if_neg (by omega)]
      rfl
  | signed | float | utf8 | boolean | other => exact absurd wraps id

theorem isI64_of_scalarToLiteral {number : Int}
    (found : scalarToLiteral value = some (.int64 number)) : IsI64 number := by
  cases value with
  | signed bits | unsigned bits =>
      obtain rfl := Literal.int64.inj (Option.some.inj found)
      exact ⟨bits.le_toInt, bits.toInt_lt⟩
  | float value =>
      rcases Extended.cases value with rfl | rfl | ⟨value, rfl⟩
      all_goals cases found
  | utf8 | boolean | other => cases found

theorem valid_of_kind (typed : read.kind = some kind) : read.IsValid := by
  cases read with
  | float64 => cases typed
  | int64 | string | bool => trivial

/-- A number below a literal is not blurred with it. -/
theorem not_blurred_of_lt {min : Scalar} (json : min.IsJson)
    (found : scalarToLiteral value = some read) (typed : read.kind = some kind)
    (less : compareExact min read = some .lt) : ¬Blurred min read := by
  cases min with
  | int min =>
      cases read with
      | int64 number =>
          have fits := isI64_of_scalarToLiteral found
          have below : min < number := compare_lt_iff_lt.mp (Option.some.inj less)
          have signed : IsI64 min := ⟨json.1, below.trans fits.2⟩
          exact fun blurred => blurred.2.1 ⟨signed, fits⟩
      | float64 => cases typed
      | string | bool => exact id
  | string | bool => cases read <;> exact id

end

/-! ## Ranges -/

section

variable {min max value : Scalar} {literal : FilterLiteral} {read : Literal} {kind : ScalarKind}
  {comparison : Comparison}

theorem outsideRange_eq {first last : Ordering} (low : compareJson min read = some first)
    (high : compareJson max read = some last) :
    outsideRange min max read = some (first = .gt || last = .lt) := by
  rw [outsideRange, low, high]
  cases first <;> rfl

variable {ordering : Ordering}

/-- A literal that keeps its value excludes a range with a value that satisfies the comparison only
if it is blurred with the greatest value. -/
theorem outsideInequality_of_not_wraps (between : Between min max value) (json : min.IsJson)
    (found : scalarToLiteral literal = some read) (typed : read.kind = some kind)
    (keeps : ¬literal.Wraps) (compared : compareExact value literal.exact = some ordering)
    (holds : comparison.holds ordering) :
    ∃ outside, outsideInequality min max { comparison, value := read } = some outside ∧
      (outside ↔ MisleadsRange min max literal read comparison) := by
  rw [exact_of_not_wraps found keeps] at compared
  have valid := valid_of_kind typed
  rcases between.ascending read with ⟨-, value_none, -⟩ |
    ⟨first, middle, last, low_eq, value_eq, high_eq, lower, upper⟩
  · rw [value_none] at compared
    cases compared
  · rw [compared] at value_eq
    obtain rfl := Option.some.inj value_eq
    obtain ⟨low, low_read, low_cases⟩ := compareJson_cases valid low_eq
    obtain ⟨high, high_read, high_cases⟩ := compareJson_cases valid high_eq
    cases comparison with
    | eq =>
        obtain rfl := Ordering.isEq_iff_eq_eq.mp holds
        have low_ne : low ≠ .gt := by
          rcases low_cases with ⟨-, rfl⟩ | ⟨-, rfl⟩
          · exact nofun
          · exact fun same => nomatch lower.gt same
        have high_ne : high ≠ .lt := by
          rcases high_cases with ⟨-, rfl⟩ | ⟨-, rfl⟩
          · exact nofun
          · exact fun same => nomatch upper.lt same
        refine ⟨false, ?_, iff_of_false nofun fun wrong => keeps wrong.1⟩
        rw [outsideInequality, outsideRange_eq low_read high_read, decide_eq_false low_ne,
          decide_eq_false high_ne]
        rfl
    | lt =>
        obtain rfl := Ordering.isLT_iff_eq_lt.mp holds
        obtain rfl := lower.lt rfl
        have clear := not_blurred_of_lt json found typed low_eq
        obtain rfl : low = .lt := (low_cases.resolve_left fun both => clear both.1).2
        refine ⟨false, ?_, iff_of_false nofun fun wrong => keeps wrong.1⟩
        rw [outsideInequality, low_read]
        rfl
    | lte =>
        have low_ne : low ≠ .gt := by
          rcases low_cases with ⟨-, rfl⟩ | ⟨-, rfl⟩
          · exact nofun
          · exact lower.ne_gt (Ordering.isLE_iff_ne_gt.mp holds)
        refine ⟨false, ?_, iff_of_false nofun fun wrong => keeps wrong.1⟩
        rw [outsideInequality, low_read]
        cases low <;> first | rfl | exact absurd rfl low_ne
    | gt =>
        obtain rfl := Ordering.isGT_iff_eq_gt.mp holds
        obtain rfl := upper.gt rfl
        rw [outsideInequality, high_read]
        refine ⟨high.isLE, rfl, ?_⟩
        rcases high_cases with ⟨blurred, rfl⟩ | ⟨clear, rfl⟩
        · exact iff_of_true rfl blurred
        · exact iff_of_false nofun clear
    | gte =>
        have high_ne : high ≠ .lt := by
          rcases high_cases with ⟨-, rfl⟩ | ⟨-, rfl⟩
          · exact nofun
          · exact upper.ne_lt (Ordering.isGE_iff_ne_lt.mp holds)
        refine ⟨false, ?_, iff_of_false nofun id⟩
        rw [outsideInequality, high_read]
        cases high <;> first | rfl | exact absurd rfl high_ne

/-- A negative number is not blurred with another one. -/
theorem not_blurred_of_neg {min number : Int} (json : -2 ^ 63 ≤ min) (neg : number < 0)
    (fits : IsI64 number) : ¬Blurred (.int min) (.int64 number) := by
  rintro ⟨-, not_signed, same⟩
  have large : 2 ^ 63 ≤ min := by
    by_contra small
    exact not_signed ⟨⟨json, not_le.mp small⟩, fits⟩
  have less : asF64 number < asF64 min := calc
    asF64 number ≤ .finite (2 ^ 63 - 1024) := asF64_le (by omega)
    _ < .finite (2 ^ 63) := Extended.finite_lt.mpr (by norm_num)
    _ ≤ asF64 min := le_asF64 large
  exact less.ne' same

/-- A literal that becomes a negative number excludes a range with a value that satisfies the
comparison if the range begins beyond that number. -/
theorem outsideInequality_of_wraps (between : Between min max value) (json : min.IsJson)
    (found : scalarToLiteral literal = some read) (wraps : literal.Wraps)
    (compared : compareExact value literal.exact = some ordering)
    (holds : comparison.holds ordering) :
    ∃ outside, outsideInequality min max { comparison, value := read } = some outside ∧
      (outside ↔ MisleadsRange min max literal read comparison) := by
  obtain ⟨number, large, bounded, exact_eq, rfl⟩ := exact_of_wraps found wraps
  rw [exact_eq] at compared
  obtain ⟨current, rfl⟩ : ∃ current, value = .int current := by
    cases value with
    | int current => exact ⟨current, rfl⟩
    | string | bool => cases compared
  obtain ⟨least, rfl, low_le⟩ := between.low_le.exists_of_int_right
  obtain ⟨greatest, rfl, le_high⟩ := between.le_high.exists_of_int_left
  obtain rfl := Option.some.inj compared
  have relates := (comparison.holds_compare current number).mp holds
  have fits : IsI64 (number - 2 ^ 64) := isI64_of_scalarToLiteral found
  have valid : (Literal.int64 (number - 2 ^ 64)).IsValid := trivial
  have clear : ¬Blurred (.int least) (.int64 (number - 2 ^ 64)) :=
    not_blurred_of_neg json.1 (by omega) fits
  have low_read : compareJson (.int least) (.int64 (number - 2 ^ 64)) =
      some (compare least (number - 2 ^ 64)) := compareJson_of_not_blurred valid clear
  have high_exact : compareExact (.int greatest) (.int64 (number - 2 ^ 64)) =
      some (compare greatest (number - 2 ^ 64)) := rfl
  obtain ⟨high, high_read, high_cases⟩ := compareJson_cases valid high_exact
  have high_of_le : number ≤ current → high ≠ .lt := by
    intro le
    rcases high_cases with ⟨-, rfl⟩ | ⟨-, rfl⟩
    · rintro ⟨⟩
    · rw [compare_ge_iff_ge]
      omega
  cases comparison with
  | eq =>
      have high_ne := high_of_le (ge_of_eq relates)
      refine ⟨_, outsideRange_eq low_read high_read, ?_⟩
      rw [MisleadsRange, decide_eq_false high_ne, Bool.or_false, decide_eq_true_eq, compareExact,
        Option.some_inj, and_iff_right wraps]
  | lt =>
      rw [outsideInequality, low_read]
      refine ⟨_, rfl, ?_⟩
      rw [MisleadsRange, and_iff_right wraps, compareExact, Ne, Option.some_inj]
      exact Ordering.isGE_iff_ne_lt
  | lte =>
      rw [outsideInequality, low_read]
      refine ⟨_, rfl, ?_⟩
      rw [MisleadsRange, and_iff_right wraps, compareExact, Option.some_inj]
      exact Ordering.isGT_iff_eq_gt
  | gt =>
      have beyond : number < current := relates
      have greater : compare greatest (number - 2 ^ 64) = .gt := by
        rw [compare_gt_iff_gt]
        omega
      rw [outsideInequality, high_read]
      refine ⟨high.isLE, rfl, ?_⟩
      rcases high_cases with ⟨blurred, rfl⟩ | ⟨sharp, rfl⟩
      · exact iff_of_true rfl blurred
      · rw [greater]
        exact iff_of_false (by rintro ⟨⟩) sharp
  | gte =>
      have high_ne := high_of_le relates
      refine ⟨false, ?_, iff_of_false (by rintro ⟨⟩) id⟩
      rw [outsideInequality, high_read]
      cases high <;> first | rfl | exact absurd rfl high_ne

/-- A comparison that a value of the range satisfies excludes the range exactly if it misleads. -/
theorem outsideInequality_iff (between : Between min max value) (json : min.IsJson)
    (found : scalarToLiteral literal = some read) (typed : read.kind = some kind)
    (compared : compareExact value literal.exact = some ordering)
    (holds : comparison.holds ordering) :
    ∃ outside, outsideInequality min max { comparison, value := read } = some outside ∧
      (outside ↔ MisleadsRange min max literal read comparison) := by
  by_cases wraps : literal.Wraps
  · exact outsideInequality_of_wraps between json found wraps compared holds
  · exact outsideInequality_of_not_wraps between json found typed wraps compared holds

/-- Statistics of the kind of a literal are compared with it. -/
theorem exists_compareJson (typed : read.kind = some value.kind) :
    ∃ ordering, compareJson value read = some ordering := by
  cases value <;> cases read <;> cases typed
  case int.int64 =>
    rw [compareJson]
    split <;> exact ⟨_, rfl⟩
  case string.string | bool.bool => exact ⟨_, rfl⟩

theorem exists_outsideRange (low : read.kind = some min.kind) (high : read.kind = some max.kind) :
    ∃ outside, outsideRange min max read = some outside := by
  obtain ⟨first, low_read⟩ := exists_compareJson low
  obtain ⟨last, high_read⟩ := exists_compareJson high
  exact ⟨_, outsideRange_eq low_read high_read⟩

theorem exists_outsideInequality (low : read.kind = some min.kind)
    (high : read.kind = some max.kind) (comparison : Comparison) :
    ∃ outside, outsideInequality min max { comparison, value := read } = some outside := by
  obtain ⟨first, low_read⟩ := exists_compareJson low
  obtain ⟨last, high_read⟩ := exists_compareJson high
  cases comparison with
  | eq => exact exists_outsideRange low high
  | lt | lte => exact ⟨_, congrArg (Option.map _) low_read⟩
  | gt | gte => exact ⟨_, congrArg (Option.map _) high_read⟩

variable (min max) in
theorem allOutside_iff {values : List Literal} (low : ∀ value ∈ values, value.kind = some min.kind)
    (high : ∀ value ∈ values, value.kind = some max.kind) :
    ∃ outside, allOutside min max values = some outside ∧
      (outside ↔ ∀ value ∈ values, outsideRange min max value = some true) := by
  induction values with
  | nil => exact ⟨true, rfl, by simp⟩
  | cons value values induction =>
      rw [List.forall_mem_cons] at low high
      obtain ⟨rest, rest_eq, rest_iff⟩ := induction low.2 high.2
      obtain ⟨outside, outside_eq⟩ := exists_outsideRange low.1 high.1
      rw [allOutside, outside_eq, List.forall_mem_cons, ← rest_iff, outside_eq]
      cases outside with
      | true => exact ⟨rest, rest_eq, by simp⟩
      | false => exact ⟨false, rfl, by simp⟩

/-- A list with a value of the range excludes the range exactly if all its literals seem to lie below
it. -/
theorem allOutside_iff_below (between : Between min max value) (json : min.IsJson)
    {values : List Literal} (typed : ∀ other ∈ values, other.kind = some value.kind)
    (source : ∀ other ∈ values, ∃ literal, scalarToLiteral literal = some other)
    (found : scalarToLiteral literal = some read) (member : read ∈ values)
    (equal : compareExact value literal.exact = some .eq) :
    ∃ outside, allOutside min max values = some outside ∧
      (outside ↔ ∀ other ∈ values, compareExact min other = some .gt ∧ ¬Blurred min other) := by
  have low_kind := between.low_le.kind_eq
  have high_kind := between.le_high.kind_eq
  obtain ⟨outside, outside_eq, outside_iff⟩ := allOutside_iff min max
    (fun other inside => low_kind ▸ typed other inside)
    (fun other inside => high_kind ▸ typed other inside)
  refine ⟨outside, outside_eq, outside_iff.trans ?_⟩
  constructor
  · intro all other inside
    -- the literal that equals the value lies in the range, unless it wraps
    have wraps : literal.Wraps := by
      have holds : Comparison.eq.holds .eq := rfl
      obtain ⟨excluded, excluded_eq, excluded_iff⟩ :=
        outsideInequality_iff between json found (typed read member) equal holds
      have same : some excluded = some true := excluded_eq.symm.trans (all read member)
      exact (excluded_iff.mp (Option.some.inj same)).1
    obtain ⟨number, large, -, exact_eq, -⟩ := exact_of_wraps found wraps
    rw [exact_eq] at equal
    obtain ⟨current, rfl⟩ : ∃ current, value = .int current := by
      cases value with
      | int current => exact ⟨current, rfl⟩
      | string | bool => cases equal
    obtain rfl : current = number := compare_eq_iff_eq.mp (Option.some.inj equal)
    obtain ⟨greatest, rfl, le_high⟩ := between.le_high.exists_of_int_left
    have other_kind := typed other inside
    obtain ⟨signed, rfl⟩ : ∃ signed, other = .int64 signed := by
      cases other with
      | int64 signed => exact ⟨signed, rfl⟩
      | float64 | string | bool => cases other_kind
    obtain ⟨origin, origin_eq⟩ := source _ inside
    have fits : IsI64 signed := isI64_of_scalarToLiteral origin_eq
    have valid : (Literal.int64 signed).IsValid := trivial
    obtain ⟨first, low_read⟩ : ∃ first, compareJson min (.int64 signed) = some first :=
      exists_compareJson (low_kind ▸ other_kind)
    obtain ⟨last, high_read⟩ : ∃ last, compareJson (.int greatest) (.int64 signed) = some last :=
      exists_compareJson other_kind
    have shown := (outsideRange_eq low_read high_read).symm.trans (all _ inside)
    simp only [Option.some_inj, Bool.or_eq_true, decide_eq_true_eq] at shown
    rcases shown with rfl | rfl
    · exact (compareJson_gt_iff valid).mp low_read
    · have below := ((compareJson_lt_iff valid).mp high_read).1
      have less : greatest < signed := compare_lt_iff_lt.mp (Option.some.inj below)
      have bounded := fits.2
      omega
  · intro all other inside
    have valid := valid_of_kind (typed other inside)
    have low_read := (compareJson_gt_iff valid).mpr (all other inside)
    rw [outsideRange, low_read]
    rfl

end

/-! ## Predicates of filters -/

section

variable {schema partitionBy : List String} {filter : LogicalExpr R} {column : String}
  {predicate : ColumnPredicate} {engine : FilterEngine R} {row : R}

variable {expr : LogicalExpr R}

theorem exprAsColumn_eq_some (found : exprAsColumn schema expr = some column) :
    column ∈ schema ∧ expr = .column column := by
  cases expr with
  | column name =>
      rw [exprAsColumn] at found
      split at found
      · next member =>
          obtain rfl := Option.some.inj found
          exact ⟨member, rfl⟩
      · cases found
  | literal | binary | isNull | isNotNull | inList | other => cases found

theorem exprAsColumn_of_mem (member : column ∈ schema) :
    exprAsColumn schema (.column column : LogicalExpr R) = some column :=
  if_pos member

variable {read : Literal}

theorem exprAsLiteral_eq_some (found : exprAsLiteral expr = some read) :
    ∃ literal, expr = .literal literal ∧ scalarToLiteral literal = some read := by
  cases expr with
  | literal literal => exact ⟨literal, rfl, found⟩
  | column | binary | isNull | isNotNull | inList | other => cases found

theorem extractColumnLiteral_eq_some {maybeColumn maybeLiteral : LogicalExpr R}
    (found : extractColumnLiteral maybeColumn maybeLiteral schema = some (column, read)) :
    column ∈ schema ∧ maybeColumn = .column column ∧
      ∃ literal, maybeLiteral = .literal literal ∧ scalarToLiteral literal = some read := by
  obtain ⟨name, name_eq, rest⟩ := Option.bind_eq_some_iff.mp found
  obtain ⟨value, value_eq, same⟩ := Option.bind_eq_some_iff.mp rest
  obtain ⟨rfl, rfl⟩ := Prod.mk.inj (Option.some.inj same)
  obtain ⟨member, column_eq⟩ := exprAsColumn_eq_some name_eq
  exact ⟨member, column_eq, exprAsLiteral_eq_some value_eq⟩

variable {literal : FilterLiteral}

theorem extractColumnLiteral_of_mem (member : column ∈ schema)
    (found : scalarToLiteral literal = some read) :
    extractColumnLiteral (.column column : LogicalExpr R) (.literal literal) schema =
      some (column, read) := by
  rw [extractColumnLiteral, exprAsColumn_of_mem member, exprAsLiteral, found]
  rfl

/-- What the predicate of a filter comes from. -/
theorem exprToPredicate_cases (found : exprToPredicate schema filter = some (column, predicate)) :
    column ∈ schema ∧
      ((∃ comparison literal read, comparisonIn filter = some (column, comparison, literal) ∧
        scalarToLiteral literal = some read ∧
        predicate = .comparison column { comparison, value := read }) ∨
      (filter = .isNull (.column column) ∧ predicate = .isNull column) ∨
      (filter = .isNotNull (.column column) ∧ predicate = .isNotNull column) ∨
      ∃ list values, filter = .inList (.column column) list false ∧
        list.mapM exprAsLiteral = some values ∧ values ≠ [] ∧ predicate = .inList column values) := by
  cases filter with
  | binary left op right =>
      rw [exprToPredicate] at found
      split at found
      · next name read extracted =>
          obtain ⟨member, rfl, literal, rfl, read_eq⟩ := extractColumnLiteral_eq_some extracted
          obtain ⟨comparison, comparison_eq, same⟩ := Option.bind_eq_some_iff.mp found
          obtain ⟨rfl, rfl⟩ := Prod.mk.inj (Option.some.inj same)
          refine ⟨member, .inl ⟨comparison, literal, read, ?_, read_eq, rfl⟩⟩
          rw [comparisonIn, show comparisonOf op = some comparison from comparison_eq]
          rfl
      · split at found
        · next name read extracted =>
            obtain ⟨member, rfl, literal, rfl, read_eq⟩ := extractColumnLiteral_eq_some extracted
            obtain ⟨comparison, comparison_eq, same⟩ := Option.bind_eq_some_iff.mp found
            obtain ⟨rfl, rfl⟩ := Prod.mk.inj (Option.some.inj same)
            refine ⟨member, .inl ⟨comparison, literal, read, ?_, read_eq, rfl⟩⟩
            rw [comparisonIn, show swappedComparisonOf op = some comparison from comparison_eq]
            rfl
        · cases found
  | isNull expr =>
      obtain ⟨name, name_eq, same⟩ := Option.bind_eq_some_iff.mp found
      obtain ⟨rfl, rfl⟩ := Prod.mk.inj (Option.some.inj same)
      obtain ⟨member, rfl⟩ := exprAsColumn_eq_some name_eq
      exact ⟨member, .inr (.inl ⟨rfl, rfl⟩)⟩
  | isNotNull expr =>
      obtain ⟨name, name_eq, same⟩ := Option.bind_eq_some_iff.mp found
      obtain ⟨rfl, rfl⟩ := Prod.mk.inj (Option.some.inj same)
      obtain ⟨member, rfl⟩ := exprAsColumn_eq_some name_eq
      exact ⟨member, .inr (.inr (.inl ⟨rfl, rfl⟩))⟩
  | inList expr list negated =>
      cases negated with
      | true => cases found
      | false =>
          obtain ⟨name, name_eq, rest⟩ := Option.bind_eq_some_iff.mp found
          obtain ⟨values, values_eq, same⟩ := Option.bind_eq_some_iff.mp rest
          obtain ⟨member, rfl⟩ := exprAsColumn_eq_some name_eq
          split at same
          · cases same
          · next nonempty =>
              obtain ⟨rfl, rfl⟩ := Prod.mk.inj (Option.some.inj same)
              rw [List.isEmpty_iff] at nonempty
              exact ⟨member, .inr (.inr (.inr ⟨list, values, rfl, values_eq, nonempty, rfl⟩))⟩
  | column | literal | other => cases found

theorem exists_read_of_wraps (wraps : literal.Wraps) :
    ∃ read, scalarToLiteral literal = some read := by
  cases literal with
  | unsigned bits => exact ⟨_, rfl⟩
  | signed | float | utf8 | boolean | other => exact absurd wraps id

variable {comparison : Comparison}

theorem exists_predicate_of_comparisonIn
    (compares : comparisonIn filter = some (column, comparison, literal)) (member : column ∈ schema)
    (found : scalarToLiteral literal = some read) :
    ∃ predicate, exprToPredicate schema filter = some (column, predicate) := by
  unfold comparisonIn at compares
  split at compares
  · next name op value =>
      obtain ⟨other, other_eq, same⟩ := Option.bind_eq_some_iff.mp compares
      obtain ⟨rfl, rest⟩ := Prod.mk.inj (Option.some.inj same)
      obtain ⟨rfl, rfl⟩ := Prod.mk.inj rest
      rw [exprToPredicate, extractColumnLiteral_of_mem member found]
      simp only [buildComparison, Bool.false_eq_true, if_false, other_eq]
      exact ⟨_, rfl⟩
  · next value op name =>
      obtain ⟨other, other_eq, same⟩ := Option.bind_eq_some_iff.mp compares
      obtain ⟨rfl, rest⟩ := Prod.mk.inj (Option.some.inj same)
      obtain ⟨rfl, rfl⟩ := Prod.mk.inj rest
      have first : extractColumnLiteral (.literal value) (.column name : LogicalExpr R) schema =
          none := rfl
      rw [exprToPredicate, first, extractColumnLiteral_of_mem member found]
      simp only [buildComparison, if_true, other_eq]
      exact ⟨_, rfl⟩
  · cases compares

variable {group : PlannedRowGroup}

/-- A filter that misleads has a predicate. -/
theorem exists_predicate_of_misleads (misleads : Misleads schema partitionBy group filter) :
    ∃ column predicate, exprToPredicate schema filter = some (column, predicate) := by
  rcases misleads with ⟨name, comparison, literal, compares, member, wrong⟩ |
    ⟨name, list, values, rfl, member, values_eq, nonempty, -⟩
  · obtain ⟨read, found⟩ : ∃ read, scalarToLiteral literal = some read := by
      rw [MisleadsComparison] at wrong
      split at wrong
      · exact exists_read_of_wraps wrong.2
      · obtain ⟨_, _, read, -, found, -⟩ := wrong
        exact ⟨read, found⟩
    exact ⟨name, exists_predicate_of_comparisonIn compares member found⟩
  · rw [exprToPredicate, exprAsColumn_of_mem member, values_eq]
    refine ⟨name, .inList name values, ?_⟩
    exact if_neg (mt List.isEmpty_iff.mp nonempty)

theorem misleads_iff_of_comparisonIn
    (compares : comparisonIn filter = some (column, comparison, literal)) (member : column ∈ schema) :
    Misleads schema partitionBy group filter ↔
      MisleadsComparison partitionBy group column comparison literal := by
  constructor
  · rintro (⟨name, other, value, same, -, wrong⟩ | ⟨name, list, values, rfl, -⟩)
    · obtain ⟨rfl, rest⟩ := Prod.mk.inj (Option.some.inj (compares.symm.trans same))
      obtain ⟨rfl, rfl⟩ := Prod.mk.inj rest
      exact wrong
    · cases compares
  · intro wrong
    exact .inl ⟨column, comparison, literal, compares, member, wrong⟩

theorem misleads_inList_iff {list : List (LogicalExpr R)} {values : List Literal}
    (member : column ∈ schema) (values_eq : list.mapM exprAsLiteral = some values)
    (nonempty : values ≠ []) :
    Misleads schema partitionBy group (.inList (.column column) list false) ↔
      MisleadsList partitionBy group column values := by
  constructor
  · rintro (⟨name, other, value, same, -⟩ | ⟨name, others, found, same, -, found_eq, -, wrong⟩)
    · cases same
    · obtain ⟨column_eq, rfl, -⟩ := LogicalExpr.inList.inj same
      obtain rfl := LogicalExpr.column.inj column_eq
      obtain rfl := Option.some.inj (values_eq.symm.trans found_eq)
      exact wrong
  · intro wrong
    exact .inr ⟨column, list, values, rfl, member, values_eq, nonempty, wrong⟩

theorem not_misleads_isNull : ¬Misleads schema partitionBy group (.isNull expr) := by
  rintro (⟨_, _, _, same, -⟩ | ⟨_, _, _, same, -⟩) <;> cases same

theorem not_misleads_isNotNull : ¬Misleads schema partitionBy group (.isNotNull expr) := by
  rintro (⟨_, _, _, same, -⟩ | ⟨_, _, _, same, -⟩) <;> cases same

/-! ## Rows that pass -/

theorem compareValues_ofScalar (standard : Standard engine) {value : Scalar}
    (found : scalarToLiteral literal = some read) (typed : read.kind = some value.kind) :
    engine.compareValues (.ofScalar value) literal.value = compareExact value literal.exact ∧
      engine.compareValues literal.value (.ofScalar value) =
        (compareExact value literal.exact).map Ordering.swap := by
  cases literal with
  | signed bits | unsigned bits =>
      obtain rfl := Option.some.inj found
      cases value with
      | int number => exact ⟨rfl, congrArg some Std.OrientedOrd.eq_swap⟩
      | string | bool => cases typed
  | utf8 text =>
      obtain rfl := Option.some.inj found
      cases value with
      | string other =>
          exact ⟨standard.text other text,
            (standard.text text other).trans (congrArg some Std.OrientedOrd.eq_swap)⟩
      | int | bool => cases typed
  | boolean truth =>
      obtain rfl := Option.some.inj found
      cases value with
      | bool other =>
          exact ⟨standard.bool other truth,
            (standard.bool truth other).trans (congrArg some Std.OrientedOrd.eq_swap)⟩
      | int | string => cases typed
  | float number =>
      rcases Extended.cases number with rfl | rfl | ⟨number, rfl⟩
      all_goals
        obtain rfl := Option.some.inj found
        cases typed
  | other => cases found

/-- A row that passes a comparison has a value that is compared with the literal so. -/
theorem compareExact_of_isTrue (standard : Standard engine) {value : Scalar}
    (compares : comparisonIn filter = some (column, comparison, literal))
    (found : scalarToLiteral literal = some read) (typed : read.kind = some value.kind)
    (cell : engine.cell column row = .ofScalar value) (passes : (filter.evaluate engine row).isTrue) :
    ∃ ordering, compareExact value literal.exact = some ordering ∧ comparison.holds ordering := by
  obtain ⟨forward, backward⟩ := compareValues_ofScalar standard found typed
  unfold comparisonIn at compares
  split at compares
  · next name op literal =>
      obtain ⟨other, other_eq, same⟩ := Option.bind_eq_some_iff.mp compares
      obtain ⟨rfl, rest⟩ := Prod.mk.inj (Option.some.inj same)
      obtain ⟨rfl, rfl⟩ := Prod.mk.inj rest
      rw [LogicalExpr.evaluate, LogicalExpr.evaluate, LogicalExpr.evaluate, cell,
        apply_of_comparisonOf other_eq, forward, isTrue_truth] at passes
      exact passes
  · next literal op name =>
      obtain ⟨other, other_eq, same⟩ := Option.bind_eq_some_iff.mp compares
      obtain ⟨rfl, rest⟩ := Prod.mk.inj (Option.some.inj same)
      obtain ⟨rfl, rfl⟩ := Prod.mk.inj rest
      rw [LogicalExpr.evaluate, LogicalExpr.evaluate, LogicalExpr.evaluate, cell,
        apply_of_swappedComparisonOf other_eq, backward, isTrue_truth] at passes
      obtain ⟨swapped, swapped_mem, holds⟩ := passes
      obtain ⟨ordering, ordering_eq, rfl⟩ := Option.map_eq_some_iff.mp swapped_mem
      rw [Ordering.swap_swap] at holds
      exact ⟨ordering, ordering_eq, holds⟩
  · cases compares

theorem compareValues_null_left (value : FilterValue) : engine.compareValues .null value = none := by
  cases value <;> rfl

theorem compareValues_null_right (value : FilterValue) : engine.compareValues value .null = none := by
  cases value <;> rfl

theorem isTrue_bool {truth : Bool} : (FilterValue.bool truth).isTrue ↔ truth := by
  cases truth <;> exact Iff.rfl

theorem eq_null_of_isNull {value : FilterValue} (null : value.isNull) : value = .null := by
  cases value <;> first | rfl | cases null

/-- A row that passes a comparison has a value in the column. -/
theorem isNull_of_isTrue (compares : comparisonIn filter = some (column, comparison, literal))
    (passes : (filter.evaluate engine row).isTrue) : (engine.cell column row).isNull = false := by
  by_contra null
  have cell := eq_null_of_isNull (Bool.eq_true_of_not_eq_false null)
  unfold comparisonIn at compares
  split at compares
  · next name op literal =>
      obtain ⟨other, other_eq, same⟩ := Option.bind_eq_some_iff.mp compares
      obtain ⟨rfl, rest⟩ := Prod.mk.inj (Option.some.inj same)
      rw [LogicalExpr.evaluate, LogicalExpr.evaluate, LogicalExpr.evaluate, cell,
        apply_of_comparisonOf other_eq, compareValues_null_left] at passes
      cases passes
  · next literal op name =>
      obtain ⟨other, other_eq, same⟩ := Option.bind_eq_some_iff.mp compares
      obtain ⟨rfl, rest⟩ := Prod.mk.inj (Option.some.inj same)
      rw [LogicalExpr.evaluate, LogicalExpr.evaluate, LogicalExpr.evaluate, cell,
        apply_of_swappedComparisonOf other_eq, compareValues_null_right] at passes
      cases passes
  · cases compares

theorem evaluateItems_eq (items : List (LogicalExpr R)) :
    LogicalExpr.evaluateItems engine row items = items.map (LogicalExpr.evaluate engine row) := by
  induction items with
  | nil => rfl
  | cons item items induction => rw [LogicalExpr.evaluateItems, induction, List.map_cons]

/-- A row that passes a list equals one of its literals. -/
theorem exists_literal_of_isTrue {list : List (LogicalExpr R)} {values : List Literal}
    (values_eq : list.mapM exprAsLiteral = some values)
    (passes : (LogicalExpr.evaluate engine row (.inList (.column column) list false)).isTrue) :
    ∃ literal read, scalarToLiteral literal = some read ∧ read ∈ values ∧
      engine.compareValues (engine.cell column row) literal.value = some .eq := by
  rw [LogicalExpr.evaluate, LogicalExpr.member, evaluateItems_eq] at passes
  split at passes
  · next some_equal =>
      obtain ⟨result, result_mem, equal⟩ := List.any_eq_true.mp some_equal
      obtain rfl := of_decide_eq_true equal
      obtain ⟨item_value, value_mem, compared⟩ := List.mem_map.mp result_mem
      obtain ⟨item, item_mem, rfl⟩ := List.mem_map.mp value_mem
      have related := List.forall₂_of_mapM_eq_some values_eq
      obtain ⟨read, read_mem, read_eq⟩ := related.exists_of_mem_left item_mem
      obtain ⟨literal, rfl, found⟩ := exprAsLiteral_eq_some read_eq
      exact ⟨literal, read, found, read_mem, compared⟩
  · split at passes <;> cases passes

end

/-! ## Row groups -/

section

variable {schema partitionBy : List String} {kinds : String → ScalarKind}
  {filter : LogicalExpr R} {column : String} {predicate : ColumnPredicate}
  {engine : FilterEngine R} {group : PlannedRowGroup} {rows : List R} {row : R}

theorem statsOutsideRange_of_hasRange {min max : Scalar} (range : HasRange group column min max)
    (check : Scalar → Scalar → Option Bool) :
    statsOutsideRange group column check = check min max := by
  obtain ⟨stats, found, min_eq, max_eq⟩ := range
  rw [statsOutsideRange, found]
  simp only [min_eq, max_eq]

/-- A row group has the range of a column, or its statistics exclude nothing. -/
theorem hasRange_or (group : PlannedRowGroup) (column : String) :
    (∃ min max, HasRange group column min max) ∨
      (∀ min max, ¬HasRange group column min max) ∧
        ∀ check, statsOutsideRange group column check = some false := by
  by_cases range : ∃ min max, HasRange group column min max
  · exact .inl range
  · right
    constructor
    · intro min max found
      exact range ⟨min, max, found⟩
    · intro check
      rw [statsOutsideRange]
      split
      · rfl
      · next stats found =>
          split
          · next min max min_eq max_eq =>
              exact absurd ⟨min, max, stats, found, min_eq, max_eq⟩ range
          · rfl

theorem HasRange.unique {min max otherMin otherMax : Scalar} (range : HasRange group column min max)
    (other : HasRange group column otherMin otherMax) : min = otherMin ∧ max = otherMax := by
  obtain ⟨stats, found, min_eq, max_eq⟩ := range
  obtain ⟨others, other_found, other_min, other_max⟩ := other
  obtain rfl := Option.some.inj (found.symm.trans other_found)
  exact ⟨Option.some.inj (min_eq.symm.trans other_min), Option.some.inj (max_eq.symm.trans other_max)⟩

variable (partitionBy) in
/-- Predicates of the kinds of the statistics are decided without an error. -/
theorem exists_rowGroupSatisfies (statistics : TypedStatistics kinds group)
    (typed : predicate.Typed kinds) :
    ∃ kept, rowGroupSatisfies partitionBy group predicate = some kept := by
  have typed_range : ∀ column min max, HasRange group column min max →
      min.kind = kinds column ∧ max.kind = kinds column := by
    rintro column min max ⟨stats, found, min_eq, max_eq⟩
    exact ⟨(statistics.min column stats min found min_eq).1,
      (statistics.max column stats max found max_eq).1⟩
  cases predicate with
  | comparison column predicate =>
      rw [rowGroupSatisfies]
      split
      · split <;> exact ⟨_, rfl⟩
      · rcases hasRange_or group column with ⟨min, max, range⟩ | ⟨-, nothing⟩
        · obtain ⟨min_kind, max_kind⟩ := typed_range column min max range
          have low : predicate.value.kind = some min.kind :=
            typed.trans (congrArg some min_kind.symm)
          have high : predicate.value.kind = some max.kind :=
            typed.trans (congrArg some max_kind.symm)
          obtain ⟨outside, outside_eq⟩ := exists_outsideInequality low high predicate.comparison
          rw [statsOutsideRange_of_hasRange range, outside_eq]
          exact ⟨_, rfl⟩
        · rw [nothing]
          exact ⟨_, rfl⟩
  | inList column values =>
      rw [rowGroupSatisfies]
      split
      · split <;> exact ⟨_, rfl⟩
      · rcases hasRange_or group column with ⟨min, max, range⟩ | ⟨-, nothing⟩
        · obtain ⟨min_kind, max_kind⟩ := typed_range column min max range
          obtain ⟨outside, outside_eq, -⟩ := allOutside_iff min max
            (fun value member => min_kind ▸ typed value member)
            (fun value member => max_kind ▸ typed value member)
          rw [statsOutsideRange_of_hasRange range, outside_eq]
          exact ⟨_, rfl⟩
        · rw [nothing]
          exact ⟨_, rfl⟩
  | isNull column | isNotNull column =>
      rw [rowGroupSatisfies]
      split <;> exact ⟨_, rfl⟩

/-- A partition value that equals a literal is the value that the literal is read as, unless the
literal wraps. -/
theorem isValue_iff {value : Scalar} {literal : FilterLiteral} {read : Literal}
    (found : scalarToLiteral literal = some read) (typed : read.kind = some value.kind)
    (equal : compareExact value literal.exact = some .eq) : isValue value read ↔ ¬literal.Wraps := by
  by_cases wraps : literal.Wraps
  · obtain ⟨number, -, -, exact_eq, rfl⟩ := exact_of_wraps found wraps
    rw [exact_eq] at equal
    cases value with
    | int value =>
        obtain rfl : value = number := compare_eq_iff_eq.mp (Option.some.inj equal)
        apply iff_of_false _ (not_not_intro wraps)
        rw [isValue, decide_eq_true_eq]
        omega
    | string | bool => cases equal
  · apply iff_of_true _ wraps
    rw [exact_of_not_wraps found wraps] at equal
    cases value <;> cases read <;> cases typed
    case int.int64 => exact decide_eq_true (compare_eq_iff_eq.mp (Option.some.inj equal))
    case string.string => exact decide_eq_true (compare_eq_iff_eq.mp (Option.some.inj equal))
    case bool.bool => exact decide_eq_true (compare_eq_iff_eq.mp (Option.some.inj equal))

section

variable (statistics : TypedStatistics kinds group) (correct : Correct engine group rows)
  (row_mem : row ∈ rows)
include statistics correct row_mem

/-- A row with a value in a column that has a range has it there, in the kind of the column. -/
theorem exists_between {min max : Scalar} (range : HasRange group column min max)
    (not_null : (engine.cell column row).isNull = false) :
    ∃ value, engine.cell column row = .ofScalar value ∧ Between min max value ∧
      value.kind = kinds column ∧ min.IsJson := by
  obtain ⟨stats, found, min_eq, max_eq⟩ := range
  obtain ⟨value, cell, between⟩ :=
    correct.bounds column stats min max found min_eq max_eq row row_mem not_null
  obtain ⟨kind, json⟩ := statistics.min column stats min found min_eq
  exact ⟨value, cell, between, between.low_le.kind_eq.symm.trans kind, json⟩

variable (standard : Standard engine)
include standard

theorem comparisonSatisfied_iff {comparison : Comparison} {literal : FilterLiteral}
    {read : Literal} (compares : comparisonIn filter = some (column, comparison, literal))
    (found : scalarToLiteral literal = some read) (typed : read.kind = some (kinds column))
    (passes : (filter.evaluate engine row).isTrue) :
    ∃ kept, rowGroupSatisfies partitionBy group (.comparison column { comparison, value := read }) =
      some kept ∧ (kept ↔ ¬MisleadsComparison partitionBy group column comparison literal) := by
  have not_null := isNull_of_isTrue compares passes
  rw [rowGroupSatisfies, MisleadsComparison]
  by_cases part : comparison = .eq ∧ column ∈ partitionBy
  · rw [if_pos part, if_pos part]
    cases value_eq : partitionValue group column with
    | none => exact ⟨true, rfl, iff_of_true rfl fun wrong => nomatch wrong.1⟩
    | some value =>
        have cell := correct.partition column value value_eq row row_mem not_null
        have value_typed : read.kind = some value.kind :=
          typed.trans (congrArg some (statistics.partition column value value_eq).symm)
        obtain ⟨ordering, compared, holds⟩ :=
          compareExact_of_isTrue standard compares found value_typed cell passes
        rw [part.1] at holds
        obtain rfl := Ordering.isEq_iff_eq_eq.mp holds
        refine ⟨isValue value read, rfl, ?_⟩
        rw [isValue_iff found value_typed compared, Option.isSome_some, and_iff_right rfl]
  · rw [if_neg part, if_neg part]
    rcases hasRange_or group column with ⟨min, max, range⟩ | ⟨none, nothing⟩
    · obtain ⟨value, cell, between, kind, json⟩ :=
        exists_between statistics correct row_mem range not_null
      have value_typed : read.kind = some value.kind := typed.trans (congrArg some kind.symm)
      obtain ⟨ordering, compared, holds⟩ :=
        compareExact_of_isTrue standard compares found value_typed cell passes
      obtain ⟨outside, outside_eq, outside_iff⟩ :=
        outsideInequality_iff between json found value_typed compared holds
      rw [statsOutsideRange_of_hasRange range, outside_eq]
      refine ⟨!outside, rfl, ?_⟩
      rw [Bool.not_eq_true', ← Bool.not_eq_true, outside_iff]
      apply not_congr
      constructor
      · intro wrong
        exact ⟨min, max, read, range, found, wrong⟩
      · rintro ⟨otherMin, otherMax, other, other_range, other_found, wrong⟩
        obtain ⟨rfl, rfl⟩ := range.unique other_range
        obtain rfl := Option.some.inj (found.symm.trans other_found)
        exact wrong
    · rw [nothing]
      refine ⟨true, rfl, iff_of_true rfl ?_⟩
      rintro ⟨min, max, -, range, -⟩
      exact none min max range

theorem listSatisfied_iff {list : List (LogicalExpr R)} {values : List Literal}
    (values_eq : list.mapM exprAsLiteral = some values)
    (typed : ∀ value ∈ values, value.kind = some (kinds column))
    (passes : (LogicalExpr.evaluate engine row (.inList (.column column) list false)).isTrue) :
    ∃ kept, rowGroupSatisfies partitionBy group (.inList column values) = some kept ∧
      (kept ↔ ¬MisleadsList partitionBy group column values) := by
  obtain ⟨literal, read, found, member, compared⟩ := exists_literal_of_isTrue values_eq passes
  have source : ∀ other ∈ values, ∃ literal, scalarToLiteral literal = some other := by
    intro other inside
    obtain ⟨item, -, item_eq⟩ :=
      (List.forall₂_of_mapM_eq_some values_eq).exists_of_mem_right inside
    obtain ⟨origin, -, origin_eq⟩ := exprAsLiteral_eq_some item_eq
    exact ⟨origin, origin_eq⟩
  have not_null : (engine.cell column row).isNull = false := by
    by_contra null
    rw [eq_null_of_isNull (Bool.eq_true_of_not_eq_false null), compareValues_null_left] at compared
    cases compared
  rw [rowGroupSatisfies, MisleadsList]
  by_cases part : column ∈ partitionBy
  · rw [if_pos part, if_pos part]
    cases value_eq : partitionValue group column with
    | none => exact ⟨true, rfl, iff_of_true rfl nofun⟩
    | some value =>
        have cell := correct.partition column value value_eq row row_mem not_null
        have value_typed : read.kind = some value.kind := (typed read member).trans
          (congrArg some (statistics.partition column value value_eq).symm)
        rw [cell, (compareValues_ofScalar standard found value_typed).1] at compared
        refine ⟨values.any (isValue value), rfl, ?_⟩
        by_cases wraps : literal.Wraps
        · obtain ⟨number, large, -, exact_eq, -⟩ := exact_of_wraps found wraps
          rw [exact_eq] at compared
          obtain ⟨other, rfl⟩ : ∃ other, value = .int other := by
            cases value with
            | int other => exact ⟨other, rfl⟩
            | string | bool => cases compared
          obtain rfl : other = number := compare_eq_iff_eq.mp (Option.some.inj compared)
          apply iff_of_false _ (not_not_intro ⟨other, rfl, large⟩)
          -- literals are read as signed integers, and the partition value is none
          intro some_equal
          obtain ⟨signed, inside, equal⟩ := List.any_eq_true.mp some_equal
          obtain ⟨origin, origin_eq⟩ := source signed inside
          cases signed with
          | int64 signed =>
              have bounded := (isI64_of_scalarToLiteral origin_eq).2
              have same : other = signed := of_decide_eq_true equal
              omega
          | float64 | string | bool => cases equal
        · have equal := (isValue_iff found value_typed compared).mpr wraps
          apply iff_of_true (List.any_eq_true.mpr ⟨read, member, equal⟩)
          rintro ⟨number, same, large⟩
          obtain rfl := Option.some.inj same
          cases read with
          | int64 signed =>
              have bounded := (isI64_of_scalarToLiteral found).2
              have same : number = signed := of_decide_eq_true equal
              omega
          | float64 | string | bool => cases value_typed
  · rw [if_neg part, if_neg part]
    rcases hasRange_or group column with ⟨min, max, range⟩ | ⟨none, nothing⟩
    · obtain ⟨value, cell, between, kind, json⟩ :=
        exists_between statistics correct row_mem range not_null
      have values_typed : ∀ other ∈ values, other.kind = some value.kind :=
        fun other inside => (typed other inside).trans (congrArg some kind.symm)
      rw [cell, (compareValues_ofScalar standard found (values_typed read member)).1] at compared
      obtain ⟨outside, outside_eq, outside_iff⟩ :=
        allOutside_iff_below between json values_typed source found member compared
      rw [statsOutsideRange_of_hasRange range, outside_eq]
      refine ⟨!outside, rfl, ?_⟩
      rw [Bool.not_eq_true', ← Bool.not_eq_true, outside_iff]
      apply not_congr
      constructor
      · intro wrong
        exact ⟨min, max, range, wrong⟩
      · rintro ⟨otherMin, otherMax, other_range, wrong⟩
        obtain ⟨rfl, rfl⟩ := range.unique other_range
        exact wrong
    · rw [nothing]
      refine ⟨true, rfl, iff_of_true rfl ?_⟩
      rintro ⟨min, max, range, -⟩
      exact none min max range

variable (partitionBy) in
/-- A row group with a row that passes a filter is kept by its predicate exactly if the filter does
not mislead. -/
theorem rowGroupSatisfies_iff (found : exprToPredicate schema filter = some (column, predicate))
    (typed : predicate.Typed kinds) (passes : (filter.evaluate engine row).isTrue) :
    ∃ kept, rowGroupSatisfies partitionBy group predicate = some kept ∧
      (kept ↔ ¬Misleads schema partitionBy group filter) := by
  obtain ⟨member, ⟨comparison, literal, read, compares, read_eq, rfl⟩ | ⟨rfl, rfl⟩ | ⟨rfl, rfl⟩ |
    ⟨list, values, rfl, values_eq, nonempty, rfl⟩⟩ := exprToPredicate_cases found
  · rw [misleads_iff_of_comparisonIn compares member]
    exact comparisonSatisfied_iff statistics correct row_mem standard compares read_eq typed passes
  · apply Exists.intro true
    refine ⟨?_, iff_of_true rfl not_misleads_isNull⟩
    rw [rowGroupSatisfies]
    cases stats_eq : group.sidecar.columns.lookup column with
    | none => rfl
    | some stats =>
        have null : (engine.cell column row).isNull := isTrue_bool.mp passes
        have positive : 0 < rows.countP fun row => (engine.cell column row).isNull :=
          List.countP_pos_iff.mpr ⟨row, row_mem, null⟩
        have nulls := correct.nulls column stats stats_eq
        exact congrArg some (decide_eq_true (by omega))
  · apply Exists.intro true
    refine ⟨?_, iff_of_true rfl not_misleads_isNotNull⟩
    rw [rowGroupSatisfies]
    cases stats_eq : group.sidecar.columns.lookup column with
    | none => rfl
    | some stats =>
        have not_null : !(engine.cell column row).isNull := isTrue_bool.mp passes
        have fewer : rows.countP (fun row => (engine.cell column row).isNull) ≠ rows.length := by
          rw [Ne, List.countP_eq_length]
          intro all
          rw [all row row_mem] at not_null
          cases not_null
        have nulls := correct.nulls column stats stats_eq
        have count := correct.count
        exact congrArg some (decide_eq_true (by omega))
  · rw [misleads_inList_iff member values_eq nonempty]
    exact listSatisfied_iff statistics correct row_mem standard values_eq typed passes

end

end

/-! ## Scan plans -/

theorem exists_keepsRowGroup (partitionBy : List String) {kinds : String → ScalarKind}
    {group : PlannedRowGroup} (statistics : TypedStatistics kinds group)
    {predicates : List ColumnPredicate} (typed : ∀ predicate ∈ predicates, predicate.Typed kinds) :
    ∃ kept, keepsRowGroup partitionBy predicates group = some kept ∧
      (kept ↔ ∀ predicate ∈ predicates,
        rowGroupSatisfies partitionBy group predicate = some true) := by
  induction predicates with
  | nil => exact ⟨true, rfl, by simp⟩
  | cons predicate predicates induction =>
      rw [List.forall_mem_cons] at typed
      obtain ⟨rest, rest_eq, rest_iff⟩ := induction typed.2
      obtain ⟨kept, kept_eq⟩ :=
        exists_rowGroupSatisfies partitionBy statistics typed.1
      rw [keepsRowGroup, kept_eq, List.forall_mem_cons, ← rest_iff, kept_eq]
      cases kept with
      | true => exact ⟨rest, rest_eq, by simp⟩
      | false => exact ⟨false, rfl, by simp⟩

/-- Pruning keeps the row groups that may satisfy all predicates. -/
theorem exists_pruneRowGroups (partitionBy : List String) {kinds : String → ScalarKind}
    {predicates : List ColumnPredicate} (typed : ∀ predicate ∈ predicates, predicate.Typed kinds)
    {groups : List PlannedRowGroup} (statistics : ∀ group ∈ groups, TypedStatistics kinds group) :
    ∃ pruned, pruneRowGroups partitionBy predicates groups = some pruned ∧
      ∀ group, group ∈ pruned ↔
        group ∈ groups ∧ keepsRowGroup partitionBy predicates group = some true := by
  induction groups with
  | nil => exact ⟨[], rfl, by simp⟩
  | cons first groups induction =>
      rw [List.forall_mem_cons] at statistics
      obtain ⟨rest, rest_eq, rest_mem⟩ := induction statistics.2
      obtain ⟨kept, kept_eq, -⟩ :=
        exists_keepsRowGroup partitionBy statistics.1 typed
      rw [pruneRowGroups, kept_eq, rest_eq]
      refine ⟨_, rfl, ?_⟩
      intro group
      rw [List.mem_cons, or_and_right, ← rest_mem]
      cases kept with
      | true =>
          apply List.mem_cons.trans (or_congr_left _)
          constructor
          · rintro rfl
            exact ⟨rfl, kept_eq⟩
          · exact And.left
      | false =>
          symm
          apply or_iff_right
          rintro ⟨rfl, kept⟩
          rw [kept_eq] at kept
          cases kept

/-- A row group with a row that passes all filters is kept exactly if no filter misleads about it. -/
theorem prune_keeps_iff {schema : List String} {kinds : String → ScalarKind}
    {engine : FilterEngine R} (standard : Standard engine) {filters : List (LogicalExpr R)}
    (typed : ∀ filter ∈ filters, ∀ column predicate,
      exprToPredicate schema filter = some (column, predicate) → predicate.Typed kinds)
    {plan : ScanPlan} (statistics : ∀ group ∈ plan.rowGroups, TypedStatistics kinds group)
    {group : PlannedRowGroup} (group_mem : group ∈ plan.rowGroups) {rows : List R}
    (correct : Correct engine group rows) {row : R} (row_mem : row ∈ rows)
    (passes : ∀ filter ∈ filters, (filter.evaluate engine row).isTrue) :
    (∃ pruned, plan.prune (filterPredicates schema filters) = some pruned ∧
      group ∈ pruned.rowGroups) ↔
      ∀ filter ∈ filters, ¬Misleads schema (plan.schema.partitionBy.getD []) group filter := by
  have all_typed : ∀ predicate ∈ filterPredicates schema filters, predicate.Typed kinds := by
    intro predicate member
    obtain ⟨filter, filter_mem, mapped⟩ := List.mem_filterMap.mp member
    obtain ⟨⟨column, other⟩, found, rfl⟩ := Option.map_eq_some_iff.mp mapped
    exact typed filter filter_mem column other found
  obtain ⟨pruned, pruned_eq, pruned_mem⟩ := exists_pruneRowGroups
    (plan.schema.partitionBy.getD []) all_typed statistics
  obtain ⟨kept, kept_eq, kept_iff⟩ := exists_keepsRowGroup
    (plan.schema.partitionBy.getD []) (statistics group group_mem) all_typed
  have prune_eq : plan.prune (filterPredicates schema filters) =
      some { plan with rowGroups := pruned } := by
    rw [ScanPlan.prune, pruned_eq]
    rfl
  have satisfied := fun filter filter_mem column predicate
      (found : exprToPredicate schema filter = some (column, predicate)) =>
    rowGroupSatisfies_iff (plan.schema.partitionBy.getD [])
      (statistics group group_mem) correct row_mem standard found
      (typed filter filter_mem column predicate found) (passes filter filter_mem)
  calc
    (∃ pruned, plan.prune (filterPredicates schema filters) = some pruned ∧
        group ∈ pruned.rowGroups) ↔ group ∈ pruned := by
      rw [prune_eq]
      constructor
      · rintro ⟨other, same, member⟩
        obtain rfl := Option.some.inj same
        exact member
      · intro member
        exact ⟨_, rfl, member⟩
    _ ↔ kept := by
      rw [pruned_mem, and_iff_right group_mem, kept_eq, Option.some_inj]
    _ ↔ ∀ filter ∈ filters,
        ¬Misleads schema (plan.schema.partitionBy.getD []) group filter := by
      rw [kept_iff]
      constructor
      · intro all filter filter_mem misleads
        obtain ⟨column, predicate, found⟩ := exists_predicate_of_misleads misleads
        obtain ⟨result, result_eq, result_iff⟩ := satisfied filter filter_mem column predicate found
        have member : predicate ∈ filterPredicates schema filters :=
          List.mem_filterMap.mpr ⟨filter, filter_mem, congrArg (Option.map _) found⟩
        have same := result_eq.symm.trans (all predicate member)
        exact result_iff.mp (Option.some.inj same) misleads
      · intro none predicate member
        obtain ⟨filter, filter_mem, mapped⟩ := List.mem_filterMap.mp member
        obtain ⟨⟨column, other⟩, found, rfl⟩ := Option.map_eq_some_iff.mp mapped
        obtain ⟨result, result_eq, result_iff⟩ := satisfied filter filter_mem column other found
        rw [result_eq, result_iff.mpr (none filter filter_mem)]

/-! ## An unsigned column -/

namespace UnsignedColumn

/-- Rows hold one number. -/
def engine : FilterEngine Int where
  cell name row := if name = "id" then .int row else .null
  compare left right :=
    match left, right with
    | .text left, .text right => some (compare left right)
    | .bool left, .bool right => some (compare left right)
    | _, _ => none

def stats : ColumnStats where
  min := some (.int 5)
  max := some (.int 7)
  nulls := 0

/-- A row group with the numbers 5 and 7. -/
def group : PlannedRowGroup where
  snapshot := 1
  entry := { data := "rg_a.parquet", metaFile := "rg_a.meta" }
  sidecar :=
    { rowGroup := "rg_a", schemaId := 1, rows := 2
      columns := (∅ : HashMap String ColumnStats).insert "id" stats
      columnOffsets := none, sort := none, rowIds := [], checksum := "", metaChecksum := "" }
  partitionValues := none

def plan : ScanPlan where
  table := "numbers"
  schema := Integers.writer.schema
  rowGroups := [group]

/-- The number is below a bound. -/
def below (bound : BitVec 64) : LogicalExpr Int :=
  .binary (.column "id") .lt (.literal (.unsigned bound))

theorem lookup_eq {name : String} {found : ColumnStats}
    (lookup : group.sidecar.columns.lookup name = some found) : name = "id" ∧ found = stats := by
  by_cases same : name = "id"
  · subst same
    exact ⟨rfl, (Option.some.inj lookup).symm⟩
  · have other : group.sidecar.columns.lookup name = none := by
      exact AList.lookup_insert_ne same
    rw [other] at lookup
    cases lookup

theorem standard : Standard engine :=
  ⟨fun _ _ => rfl, fun _ _ => rfl⟩

theorem statistics : TypedStatistics (fun _ => .int) group := by
  constructor
  · intro name found min lookup min_eq
    obtain ⟨-, rfl⟩ := lookup_eq lookup
    obtain rfl := Option.some.inj min_eq
    exact ⟨rfl, by decide, by decide⟩
  · intro name found max lookup max_eq
    obtain ⟨-, rfl⟩ := lookup_eq lookup
    obtain rfl := Option.some.inj max_eq
    exact ⟨rfl, by decide, by decide⟩
  · intro name value found
    cases found

theorem correct : Correct engine group [5, 7] := by
  constructor
  · rfl
  · intro name found lookup
    obtain ⟨rfl, rfl⟩ := lookup_eq lookup
    rfl
  · intro name found min max lookup min_eq max_eq row member not_null
    obtain ⟨rfl, rfl⟩ := lookup_eq lookup
    obtain rfl := Option.some.inj min_eq
    obtain rfl := Option.some.inj max_eq
    rcases List.mem_pair.mp member with rfl | rfl
    · exact ⟨.int 5, rfl, .refl _, (by decide : (5 : Int) ≤ 7)⟩
    · exact ⟨.int 7, rfl, (by decide : (5 : Int) ≤ 7), .refl _⟩
  · intro name value found
    cases found

/-- All numbers are below the first one that wraps, and the row group is dropped. -/
theorem below_dropped : TypedStatistics (fun _ => .int) group ∧ Correct engine group [5, 7] ∧
    ((below 0x8000000000000000).evaluate engine 5).isTrue ∧
    ¬∃ pruned, plan.prune (filterPredicates ["id"] [below 0x8000000000000000]) = some pruned ∧
      group ∈ pruned.rowGroups := by
  have passes : ((below 0x8000000000000000).evaluate engine 5).isTrue := by
    have less : compare (5 : Int) ((0x8000000000000000 : BitVec 64).toNat : Int) = .lt :=
      compare_lt_iff_lt.mpr (by decide)
    have compared : comparisonOf .lt = some .lt := rfl
    rw [below, LogicalExpr.evaluate, LogicalExpr.evaluate, LogicalExpr.evaluate,
      apply_of_comparisonOf compared, isTrue_truth]
    exact ⟨.lt, congrArg some less, rfl⟩
  refine ⟨statistics, correct, passes, ?_⟩
  rintro ⟨pruned, same, member⟩
  have predicates_eq : filterPredicates ["id"] [below 0x8000000000000000] =
      [.comparison "id" { comparison := .lt, value := .int64 (-2 ^ 63) }] := rfl
  have compared : compareJson (.int 5) (.int64 (-2 ^ 63)) = some .gt := by
    rw [compareJson, if_pos (by decide)]
    decide
  have dropped : plan.prune (filterPredicates ["id"] [below 0x8000000000000000]) =
      some { plan with rowGroups := [] } := by
    have outside : statsOutsideRange group "id" (fun min max => outsideInequality min max
        { comparison := .lt, value := .int64 (-2 ^ 63) }) = some true :=
      (statsOutsideRange_of_hasRange ⟨stats, rfl, rfl, rfl⟩ _).trans
        (congrArg (Option.map Ordering.isGE) compared)
    have unsatisfied : rowGroupSatisfies [] group
        (.comparison "id" { comparison := .lt, value := .int64 (-2 ^ 63) }) = some false := by
      rw [rowGroupSatisfies, if_neg (by decide), outside]
      rfl
    have kept : keepsRowGroup [] [.comparison "id" { comparison := .lt, value := .int64 (-2 ^ 63) }]
        group = some false := by
      rw [keepsRowGroup, unsatisfied]
      rfl
    have nothing : pruneRowGroups [] [.comparison "id" { comparison := .lt, value := .int64 (-2 ^ 63) }]
        [group] = some [] := by
      rw [pruneRowGroups, kept]
      rfl
    rw [ScanPlan.prune, predicates_eq]
    exact congrArg (Option.bind · fun rowGroups => some { plan with rowGroups }) nothing
  obtain rfl := Option.some.inj (dropped.symm.trans same)
  cases member

theorem below_kept : ∃ pruned, plan.prune (filterPredicates ["id"] [below 100]) = some pruned ∧
    group ∈ pruned.rowGroups := by
  have typed : ∀ filter ∈ [below 100], ∀ column predicate,
      exprToPredicate ["id"] filter = some (column, predicate) →
        predicate.Typed fun _ => .int := by
    intro filter member column predicate found
    obtain rfl := List.mem_singleton.mp member
    obtain ⟨rfl, rfl⟩ := Prod.mk.inj (Option.some.inj found)
    rfl
  have all_statistics : ∀ other ∈ plan.rowGroups, TypedStatistics (fun _ => .int) other := by
    intro other member
    obtain rfl := List.mem_singleton.mp member
    exact statistics
  have passes : ∀ filter ∈ [below 100], (filter.evaluate engine 5).isTrue := by
    intro filter member
    obtain rfl := List.mem_singleton.mp member
    rfl
  apply (prune_keeps_iff standard typed all_statistics List.mem_cons_self correct
    List.mem_cons_self passes).mpr
  intro filter member misleads
  obtain rfl := List.mem_singleton.mp member
  have compares : comparisonIn (below 100) = some ("id", .lt, .unsigned 100) := rfl
  have wrong := (misleads_iff_of_comparisonIn compares List.mem_cons_self).mp misleads
  obtain ⟨min, max, read, range, found, wraps, -⟩ := wrong
  exact absurd wraps (by decide : ¬2 ^ 63 ≤ (100 : BitVec 64).toNat)

end UnsignedColumn

end Pruning

end IcefallDB
