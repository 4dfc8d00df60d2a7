import IcefallDB.MetadataAggregate.Comparison
import Mathlib.Data.List.MinMax

/-!
# Least and greatest values of columns

When a row group is written, the least and the greatest value of each column are recorded.  Floats
that are not finite are left out, since JSON has no numbers for them.
-/

namespace IcefallDB

/-! ## Values -/

/-- A float.  Both zeros are one number. -/
inductive FloatValue
  | number (value : Extended)
  | nan
  deriving DecidableEq

namespace FloatValue

/-- Place of a float in the order of all floats. -/
def rank : FloatValue → WithTop Extended
  | .number value => value
  | .nan => ⊤

/-- The number that a float is, if it is finite. -/
def finite? : FloatValue → Option ℚ
  | .number (some (some value)) => some value
  | .number _ | .nan => none

/-- Compare two floats, if both are numbers. -/
def partialCmp : FloatValue → FloatValue → Option Ordering
  | .number left, .number right => some (compare left right)
  | _, _ => none

theorem finite?_eq_some {value : FloatValue} {rational : ℚ} :
    value.finite? = some rational ↔ value = .number (.finite rational) := by
  match value with
  | .number (some (some own)) =>
      constructor
      · intro same
        obtain rfl := Option.some.inj same
        rfl
      · intro same
        exact congrArg some (Extended.finite_inj.mp (number.inj same))
  | .number none => exact ⟨nofun, nofun⟩
  | .number (some none) => exact ⟨nofun, nofun⟩
  | .nan => exact ⟨nofun, nofun⟩

end FloatValue

/-- A value of a column. -/
inductive CellValue
  | scalar (value : Scalar)
  | float (value : FloatValue)
  deriving DecidableEq

/-- The value is neither infinite nor no number. -/
def CellValue.IsFinite : CellValue → Prop
  | .scalar _ => True
  | .float value => value.finite?.isSome

/-- A JSON value in the statistics of a column. -/
inductive Statistic
  | scalar (value : Scalar)
  | float (value : ℚ)
  deriving DecidableEq

/-- A column of a record batch. -/
inductive ColumnArray
  | boolean (values : List (Option Bool))
  /-- Integers of some width, or timestamps. -/
  | integer (values : List (Option Int))
  | float32 (values : List (Option FloatValue))
  | float64 (values : List (Option FloatValue))
  | text (values : List (Option String))
  /-- A column of a type without bounds. -/
  | other (valid : List Bool)

namespace ColumnArray

/-- Values of a column that are not null. -/
def values : ColumnArray → List CellValue
  | .boolean values => values.reduceOption.map fun value => .scalar (.bool value)
  | .integer values => values.reduceOption.map fun value => .scalar (.int value)
  | .float32 values | .float64 values => values.reduceOption.map .float
  | .text values => values.reduceOption.map fun value => .scalar (.string value)
  | .other _ => []

/-- Number of nulls in a column. -/
def nullCount : ColumnArray → Nat
  | .boolean values => values.countP Option.isNone
  | .integer values => values.countP Option.isNone
  | .float32 values | .float64 values => values.countP Option.isNone
  | .text values => values.countP Option.isNone
  | .other valid => valid.countP Bool.not

end ColumnArray

/-! ## Statistics -/

namespace ColumnBounds

/-- Least and greatest element of a list. -/
def extremes {α κ : Type} [LinearOrder κ] (key : α → κ) (list : List α) : Option α × Option α :=
  (list.argmin key, list.argmax key)

/-- Both bounds as JSON values. -/
def record {α : Type} (json : α → Statistic) (bounds : Option α × Option α) :
    Option Statistic × Option Statistic :=
  (bounds.1.map json, bounds.2.map json)

/-- Write a float as JSON and read it back. -/
def canonicalizeJsonValue (reparse : ℚ → ℚ) (value : ℚ) : Statistic :=
  .float (reparse value)

/-- Bounds of the finite floats. -/
def finiteFloatMinMax (reparse : ℚ → ℚ) (values : List FloatValue) :
    Option Statistic × Option Statistic :=
  record (canonicalizeJsonValue reparse) (extremes id (values.filterMap FloatValue.finite?))

/-- Least and greatest value of a column.  Bounds of floats are written as JSON and read back. -/
def computeMinMax (reparse : ℚ → ℚ) : ColumnArray → Option Statistic × Option Statistic
  | .boolean values => record (fun value => .scalar (.bool value)) (extremes id values.reduceOption)
  | .integer values => record (fun value => .scalar (.int value)) (extremes id values.reduceOption)
  | .float32 values => finiteFloatMinMax reparse values.reduceOption
  | .float64 values =>
      let bounds := extremes FloatValue.rank values.reduceOption
      if (bounds.1.any fun value => value.finite?.isNone) ||
          (bounds.2.any fun value => value.finite?.isNone) then
        finiteFloatMinMax reparse values.reduceOption
      else
        record (canonicalizeJsonValue reparse)
          (bounds.1.bind FloatValue.finite?, bounds.2.bind FloatValue.finite?)
  | .text values => record (fun value => .scalar (.string value)) (extremes id values.reduceOption)
  | .other _ => (none, none)

/-- Statistics of a column. -/
structure ArrayStats where
  min : Option Statistic
  max : Option Statistic
  nulls : Nat

def columnStats (reparse : ℚ → ℚ) (array : ColumnArray) : ArrayStats :=
  { min := (computeMinMax reparse array).1
    max := (computeMinMax reparse array).2
    nulls := array.nullCount }

/-- Statistics of the columns of a schema, unless the batch lacks one. -/
def computeRowGroupMeta (reparse : ℚ → ℚ) (schema : List String)
    (batch : HashMap String ColumnArray) : Option (HashMap String ArrayStats) :=
  schema.foldlM (fun columns name =>
    (batch.lookup name).map fun array => columns.insert name (columnStats reparse array)) ∅

/-! ## Comparing statistics with values -/

/-- A JSON value as a literal. -/
def literalOf : Scalar → Literal
  | .bool value => .bool value
  | .int value => .int64 value
  | .string value => .string value

/-- Compare a statistic with a value of the column, as statistics are compared with literals. -/
def compareValues : Statistic → CellValue → Option Ordering
  | .scalar statistic, .scalar value => compareJson statistic (literalOf value)
  | .float statistic, .float value => FloatValue.partialCmp (.number (.finite statistic)) value
  | _, _ => none

/-- A value lies between two statistics. -/
structure Bounds (min max : Statistic) (value : CellValue) : Prop where
  min_le : ∃ ordering, compareValues min value = some ordering ∧ ordering ≠ .gt
  le_max : ∃ ordering, compareValues max value = some ordering ∧ ordering ≠ .lt

/-! ## Bounds -/

section

variable {α κ : Type} [LinearOrder κ] {key : α → κ} {list : List α}

theorem extremes_bound {least greatest : α} (found : extremes key list = (some least, some greatest))
    {element : α} (member : element ∈ list) :
    key least ≤ key element ∧ key element ≤ key greatest := by
  obtain ⟨min_eq, max_eq⟩ := Prod.mk.inj found
  exact ⟨List.le_of_mem_argmin member min_eq, List.le_of_mem_argmax member max_eq⟩

theorem mem_of_extremes {least greatest : α}
    (found : extremes key list = (some least, some greatest)) :
    least ∈ list ∧ greatest ∈ list := by
  obtain ⟨min_eq, max_eq⟩ := Prod.mk.inj found
  exact ⟨List.argmin_mem min_eq, List.argmax_mem max_eq⟩

/-- A list has both extremes, or is empty. -/
theorem extremes_cases (key : α → κ) (list : List α) :
    (list = [] ∧ extremes key list = (none, none)) ∨
      ∃ least greatest, extremes key list = (some least, some greatest) := by
  cases list with
  | nil => exact .inl ⟨rfl, rfl⟩
  | cons first rest =>
      right
      have some_least : (first :: rest).argmin key ≠ none :=
        mt List.argmin_eq_none.mp (List.cons_ne_nil first rest)
      have some_greatest : (first :: rest).argmax key ≠ none :=
        mt List.argmax_eq_none.mp (List.cons_ne_nil first rest)
      obtain ⟨least, least_eq⟩ := Option.ne_none_iff_exists'.mp some_least
      obtain ⟨greatest, greatest_eq⟩ := Option.ne_none_iff_exists'.mp some_greatest
      exact ⟨least, greatest, Prod.ext least_eq greatest_eq⟩

/-- Recorded bounds are those of some elements. -/
theorem exists_of_record {json : α → Statistic} {bounds : Option α × Option α} {min max : Statistic}
    (recorded : record json bounds = (some min, some max)) :
    ∃ least greatest, bounds = (some least, some greatest) ∧ min = json least ∧
      max = json greatest := by
  obtain ⟨min_eq, max_eq⟩ := Prod.mk.inj recorded
  obtain ⟨least, least_eq, rfl⟩ := Option.map_eq_some_iff.mp min_eq
  obtain ⟨greatest, greatest_eq, rfl⟩ := Option.map_eq_some_iff.mp max_eq
  exact ⟨least, greatest, Prod.ext least_eq greatest_eq, rfl, rfl⟩

end

/-- Integers are compared with larger ones as they are, up to rounding. -/
theorem compareJson_int (left right : Int) : ∃ ordering,
    compareJson (.int left) (.int64 right) = some ordering ∧
      (left ≤ right → ordering ≠ .gt) ∧ (right ≤ left → ordering ≠ .lt) := by
  rw [compareJson]
  split
  · exact ⟨_, rfl, fun le => mt compare_gt_iff_gt.mp le.not_gt,
      fun le => mt compare_lt_iff_lt.mp le.not_gt⟩
  · exact ⟨_, rfl, fun le => mt compare_gt_iff_gt.mp (MetadataAggregate.asF64_mono le).not_gt,
      fun le => mt compare_lt_iff_lt.mp (MetadataAggregate.asF64_mono le).not_gt⟩

theorem bounds_int {least greatest value : Int} (least_le : least ≤ value)
    (le_greatest : value ≤ greatest) :
    Bounds (.scalar (.int least)) (.scalar (.int greatest)) (.scalar (.int value)) := by
  constructor
  · obtain ⟨ordering, found, ne_gt, -⟩ := compareJson_int least value
    exact ⟨ordering, found, ne_gt least_le⟩
  · obtain ⟨ordering, found, -, ne_lt⟩ := compareJson_int greatest value
    exact ⟨ordering, found, ne_lt le_greatest⟩

theorem bounds_bool {least greatest value : Bool} (least_le : least ≤ value)
    (le_greatest : value ≤ greatest) :
    Bounds (.scalar (.bool least)) (.scalar (.bool greatest)) (.scalar (.bool value)) :=
  ⟨⟨_, rfl, mt compare_gt_iff_gt.mp least_le.not_gt⟩,
    ⟨_, rfl, mt compare_lt_iff_lt.mp le_greatest.not_gt⟩⟩

theorem bounds_string {least greatest value : String} (least_le : least ≤ value)
    (le_greatest : value ≤ greatest) :
    Bounds (.scalar (.string least)) (.scalar (.string greatest)) (.scalar (.string value)) :=
  ⟨⟨_, rfl, mt compare_gt_iff_gt.mp least_le.not_gt⟩,
    ⟨_, rfl, mt compare_lt_iff_lt.mp le_greatest.not_gt⟩⟩

/-- Between two finite floats there are finite floats only. -/
theorem bounds_float_iff {least greatest : ℚ} {value : FloatValue} :
    Bounds (.float least) (.float greatest) (.float value) ↔
      ∃ rational, value = .number (.finite rational) ∧ least ≤ rational ∧ rational ≤ greatest := by
  constructor
  · rintro ⟨⟨low, low_eq, ne_gt⟩, high, high_eq, ne_lt⟩
    cases value with
    | nan => cases low_eq
    | number number =>
        obtain rfl := Option.some.inj low_eq
        obtain rfl := Option.some.inj high_eq
        have above := le_of_not_gt (mt compare_gt_iff_gt.mpr ne_gt)
        have below := le_of_not_gt (mt compare_lt_iff_lt.mpr ne_lt)
        rcases number.cases with rfl | rfl | ⟨rational, rfl⟩
        · exact absurd (Extended.bot_lt_finite least) above.not_gt
        · exact absurd (Extended.finite_lt_top greatest) below.not_gt
        · exact ⟨rational, rfl, Extended.finite_le.mp above, Extended.finite_le.mp below⟩
  · rintro ⟨rational, rfl, least_le, le_greatest⟩
    exact ⟨⟨_, rfl, mt compare_gt_iff_gt.mp (Extended.finite_le.mpr least_le).not_gt⟩,
      ⟨_, rfl, mt compare_lt_iff_lt.mp (Extended.finite_le.mpr le_greatest).not_gt⟩⟩

/-! ## Floats -/

variable {floats : List FloatValue}

theorem mem_filterMap_finite? {value : ℚ} :
    value ∈ floats.filterMap FloatValue.finite? ↔ .number (.finite value) ∈ floats := by
  rw [List.mem_filterMap]
  constructor
  · rintro ⟨float, member, finite⟩
    rwa [FloatValue.finite?_eq_some.mp finite] at member
  · intro member
    exact ⟨_, member, FloatValue.finite?_eq_some.mpr rfl⟩

theorem argmin_id_eq_some {α : Type} [LinearOrder α] {list : List α} {least : α} :
    list.argmin id = some least ↔ least ∈ list ∧ ∀ value ∈ list, least ≤ value := by
  constructor
  · intro found
    exact ⟨List.argmin_mem found, fun value member => List.le_of_mem_argmin member found⟩
  · rintro ⟨member, bound⟩
    have some_least : list.argmin id ≠ none :=
      mt List.argmin_eq_none.mp (List.ne_nil_of_mem member)
    obtain ⟨other, found⟩ := Option.ne_none_iff_exists'.mp some_least
    rw [found]
    exact congrArg some
      (le_antisymm (List.le_of_mem_argmin member found) (bound other (List.argmin_mem found)))

theorem argmax_id_eq_some {α : Type} [LinearOrder α] {list : List α} {greatest : α} :
    list.argmax id = some greatest ↔ greatest ∈ list ∧ ∀ value ∈ list, value ≤ greatest :=
  argmin_id_eq_some (α := αᵒᵈ)

/-- A least float that is finite is the least of the finite floats. -/
theorem argmin_finite {least : ℚ}
    (found : floats.argmin FloatValue.rank = some (.number (.finite least))) :
    (floats.filterMap FloatValue.finite?).argmin id = some least := by
  rw [argmin_id_eq_some]
  constructor
  · exact mem_filterMap_finite?.mpr (List.argmin_mem found)
  · intro value member
    have le := List.le_of_mem_argmin (mem_filterMap_finite?.mp member) found
    exact Extended.finite_le.mp (WithTop.coe_le_coe.mp le)

/-- A greatest float that is finite is the greatest of the finite floats. -/
theorem argmax_finite {greatest : ℚ}
    (found : floats.argmax FloatValue.rank = some (.number (.finite greatest))) :
    (floats.filterMap FloatValue.finite?).argmax id = some greatest := by
  rw [argmax_id_eq_some]
  constructor
  · exact mem_filterMap_finite?.mpr (List.argmax_mem found)
  · intro value member
    have le := List.le_of_mem_argmax (mem_filterMap_finite?.mp member) found
    exact Extended.finite_le.mp (WithTop.coe_le_coe.mp le)

/-- Bounds of doubles are those of the finite ones. -/
theorem computeMinMax_float64 (reparse : ℚ → ℚ) (values : List (Option FloatValue)) :
    computeMinMax reparse (.float64 values) = finiteFloatMinMax reparse values.reduceOption := by
  simp only [computeMinMax]
  split
  · rfl
  · next finite =>
      rcases extremes_cases FloatValue.rank values.reduceOption with ⟨empty, found⟩ |
          ⟨least, greatest, found⟩
      · rw [found, empty]
        rfl
      · rw [found] at finite ⊢
        simp only [Option.any_some, Bool.or_eq_true, Option.isNone_iff_eq_none, not_or] at finite
        obtain ⟨low, low_eq⟩ := Option.ne_none_iff_exists'.mp finite.1
        obtain ⟨high, high_eq⟩ := Option.ne_none_iff_exists'.mp finite.2
        obtain rfl := FloatValue.finite?_eq_some.mp low_eq
        obtain rfl := FloatValue.finite?_eq_some.mp high_eq
        obtain ⟨least_eq, greatest_eq⟩ := Prod.mk.inj found
        rw [finiteFloatMinMax, extremes, argmin_finite least_eq, argmax_finite greatest_eq]
        rfl

/-! ## Columns -/

/-- The finite floats of a column. -/
def finites (array : ColumnArray) : Set ℚ :=
  {rational | .float (.number (.finite rational)) ∈ array.values}

/-- The values of a column are finite, and the least and the greatest finite float do not move inwards
when they are written and read back. -/
structure Confines (reparse : ℚ → ℚ) (array : ColumnArray) : Prop where
  finite : ∀ value ∈ array.values, value.IsFinite
  least : ∀ rational, IsLeast (finites array) rational → reparse rational ≤ rational
  greatest : ∀ rational, IsGreatest (finites array) rational → rational ≤ reparse rational

variable {reparse : ℚ → ℚ} {min max : Statistic}

variable {array : ColumnArray}

/-- A column without floats is confined. -/
theorem confines_of_scalars (scalars : ∀ value ∈ array.values, ∃ scalar, value = .scalar scalar) :
    Confines reparse array := by
  have no_float : ∀ rational, rational ∉ finites array := by
    intro rational member
    obtain ⟨scalar, same⟩ := scalars _ member
    cases same
  constructor
  · intro value member
    obtain ⟨scalar, rfl⟩ := scalars value member
    trivial
  · exact fun rational least => absurd least.1 (no_float rational)
  · exact fun rational greatest => absurd greatest.1 (no_float rational)

/-- Recorded bounds of floats bound all of them exactly if these are confined. -/
theorem finiteFloatMinMax_bounds_iff (values_eq : array.values = floats.map .float)
    (recorded : finiteFloatMinMax reparse floats = (some min, some max)) :
    (∀ value ∈ array.values, Bounds min max value) ↔ Confines reparse array := by
  obtain ⟨least, greatest, found, rfl, rfl⟩ := exists_of_record recorded
  obtain ⟨min_eq, max_eq⟩ := Prod.mk.inj found
  have mem_finites : ∀ rational, rational ∈ finites array ↔
      rational ∈ floats.filterMap FloatValue.finite? := by
    intro rational
    change CellValue.float (.number (.finite rational)) ∈ array.values ↔ _
    rw [values_eq, mem_filterMap_finite?]
    exact List.mem_map_of_injective fun _ _ same => CellValue.float.inj same
  obtain ⟨least_mem, least_le⟩ := argmin_id_eq_some.mp min_eq
  obtain ⟨greatest_mem, le_greatest⟩ := argmax_id_eq_some.mp max_eq
  have is_least : IsLeast (finites array) least :=
    ⟨(mem_finites least).mpr least_mem, fun other inside => least_le other ((mem_finites other).mp inside)⟩
  have is_greatest : IsGreatest (finites array) greatest :=
    ⟨(mem_finites greatest).mpr greatest_mem,
      fun other inside => le_greatest other ((mem_finites other).mp inside)⟩
  constructor
  · intro bounds
    have finite_bounds : ∀ rational ∈ finites array,
        reparse least ≤ rational ∧ rational ≤ reparse greatest := by
      intro rational inside
      obtain ⟨own, same, between⟩ := bounds_float_iff.mp (bounds _ inside)
      obtain rfl := Extended.finite_inj.mp (FloatValue.number.inj same)
      exact between
    constructor
    · intro value member
      rw [values_eq] at member
      obtain ⟨float, float_mem, rfl⟩ := List.mem_map.mp member
      obtain ⟨rational, rfl, -⟩ := bounds_float_iff.mp
        (bounds _ (values_eq ▸ List.mem_map_of_mem float_mem))
      rfl
    · intro rational other
      rw [other.unique is_least]
      exact (finite_bounds least is_least.1).1
    · intro rational other
      rw [other.unique is_greatest]
      exact (finite_bounds greatest is_greatest.1).2
  · intro confines value member
    have finite := confines.finite value member
    rw [values_eq] at member
    obtain ⟨float, float_mem, rfl⟩ := List.mem_map.mp member
    obtain ⟨rational, rational_eq⟩ := Option.isSome_iff_exists.mp finite
    obtain rfl := FloatValue.finite?_eq_some.mp rational_eq
    have inside : rational ∈ finites array := by
      change CellValue.float (.number (.finite rational)) ∈ array.values
      rw [values_eq]
      exact List.mem_map_of_mem float_mem
    exact bounds_float_iff.mpr ⟨rational, rfl, (confines.least least is_least).trans (is_least.2 inside),
      (is_greatest.2 inside).trans (confines.greatest greatest is_greatest)⟩

/-- Recorded bounds of a column bound all its values exactly if these are confined. -/
theorem computeMinMax_bounds_iff (recorded : computeMinMax reparse array = (some min, some max)) :
    (∀ value ∈ array.values, Bounds min max value) ↔ Confines reparse array := by
  cases array with
  | boolean values =>
      obtain ⟨least, greatest, found, rfl, rfl⟩ := exists_of_record recorded
      apply iff_of_true
      · intro value member
        obtain ⟨own, own_mem, rfl⟩ := List.mem_map.mp member
        obtain ⟨least_le, le_greatest⟩ := extremes_bound found own_mem
        exact bounds_bool least_le le_greatest
      · apply confines_of_scalars
        intro value member
        obtain ⟨own, -, rfl⟩ := List.mem_map.mp member
        exact ⟨_, rfl⟩
  | integer values =>
      obtain ⟨least, greatest, found, rfl, rfl⟩ := exists_of_record recorded
      apply iff_of_true
      · intro value member
        obtain ⟨own, own_mem, rfl⟩ := List.mem_map.mp member
        obtain ⟨least_le, le_greatest⟩ := extremes_bound found own_mem
        exact bounds_int least_le le_greatest
      · apply confines_of_scalars
        intro value member
        obtain ⟨own, -, rfl⟩ := List.mem_map.mp member
        exact ⟨_, rfl⟩
  | text values =>
      obtain ⟨least, greatest, found, rfl, rfl⟩ := exists_of_record recorded
      apply iff_of_true
      · intro value member
        obtain ⟨own, own_mem, rfl⟩ := List.mem_map.mp member
        obtain ⟨least_le, le_greatest⟩ := extremes_bound found own_mem
        exact bounds_string least_le le_greatest
      · apply confines_of_scalars
        intro value member
        obtain ⟨own, -, rfl⟩ := List.mem_map.mp member
        exact ⟨_, rfl⟩
  | float32 values => exact finiteFloatMinMax_bounds_iff rfl recorded
  | float64 values =>
      rw [computeMinMax_float64] at recorded
      exact finiteFloatMinMax_bounds_iff rfl recorded
  | other valid => cases recorded

/-- Statistics that are added to others are those of columns of the batch. -/
theorem exists_of_foldlM_insert {batch : HashMap String ColumnArray} {schema : List String}
    {start columns : HashMap String ArrayStats}
    (computed : schema.foldlM (fun columns name =>
      (batch.lookup name).map fun array => columns.insert name (columnStats reparse array)) start =
        some columns) {name : String} {stats : ArrayStats}
    (found : columns.lookup name = some stats) :
    start.lookup name = some stats ∨
      ∃ array, batch.lookup name = some array ∧ stats = columnStats reparse array := by
  induction schema generalizing start with
  | nil =>
      obtain rfl := Option.some.inj computed
      exact .inl found
  | cons column schema ih =>
      rw [List.foldlM_cons] at computed
      obtain ⟨next, inserted, rest⟩ := Option.bind_eq_some_iff.mp computed
      obtain ⟨array, array_eq, rfl⟩ := Option.map_eq_some_iff.mp inserted
      rcases ih rest with earlier | own
      · by_cases same : name = column
        · subst same
          rw [AList.lookup_insert] at earlier
          exact .inr ⟨array, array_eq, (Option.some.inj earlier).symm⟩
        · rw [AList.lookup_insert_ne same] at earlier
          exact .inl earlier
      · exact .inr own

/-- The number of nulls of a column is recorded, and its values lie between its recorded bounds exactly
if they are finite and no bound moves inwards when it is written and read back. -/
theorem computeRowGroupMeta_bounds_iff {schema : List String} {batch : HashMap String ColumnArray}
    {columns : HashMap String ArrayStats}
    (computed : computeRowGroupMeta reparse schema batch = some columns) {name : String}
    {stats : ArrayStats} (found : columns.lookup name = some stats) :
    ∃ array, batch.lookup name = some array ∧ stats.nulls = array.nullCount ∧
      ∀ min max, stats.min = some min → stats.max = some max →
        ((∀ value ∈ array.values, Bounds min max value) ↔ Confines reparse array) := by
  rcases exists_of_foldlM_insert computed found with earlier | ⟨array, array_eq, rfl⟩
  · cases earlier
  · exact ⟨array, array_eq, rfl, fun min max min_eq max_eq =>
      computeMinMax_bounds_iff (Prod.ext min_eq max_eq)⟩

/-! ## Columns with and without an infinite value -/

namespace InfiniteFloat

/-- Floats, one of which is given. -/
def column (last : FloatValue) : ColumnArray :=
  .float64 [some (.number (.finite 3)), none, some (.number (.finite 1)), some last]

def batch (last : FloatValue) : HashMap String ColumnArray :=
  (∅ : HashMap String ColumnArray).insert "v" (column last)

/-- The infinite value lies beyond the recorded bounds. -/
theorem infinite_unbounded : ∃ columns stats,
    computeRowGroupMeta id ["v"] (batch (.number ⊤)) = some columns ∧
    columns.lookup "v" = some stats ∧ stats.min = some (.float 1) ∧ stats.max = some (.float 3) ∧
    ¬∀ value ∈ (column (.number ⊤)).values, Bounds (.float 1) (.float 3) value := by
  refine ⟨_, columnStats id (column (.number ⊤)), rfl, rfl, rfl, rfl, fun bounds => ?_⟩
  obtain ⟨rational, same, -⟩ := bounds_float_iff.mp (bounds (.float (.number ⊤)) (by decide))
  exact (Extended.finite_lt_top rational).ne' (FloatValue.number.inj same)

/-- Without the infinite value all values lie between the bounds. -/
theorem finite_bounded : ∃ array, (batch (.number (.finite 2))).lookup "v" = some array ∧
    (columnStats id (column (.number (.finite 2)))).nulls = array.nullCount ∧
      ∀ value ∈ array.values, Bounds (.float 1) (.float 3) value := by
  have computed : computeRowGroupMeta id ["v"] (batch (.number (.finite 2))) =
      some ((∅ : HashMap String ArrayStats).insert "v"
        (columnStats id (column (.number (.finite 2))))) := rfl
  obtain ⟨array, array_eq, nulls, bounds⟩ := computeRowGroupMeta_bounds_iff computed
    (AList.lookup_insert (∅ : HashMap String ArrayStats))
  refine ⟨array, array_eq, nulls, (bounds (.float 1) (.float 3) rfl rfl).mpr ?_⟩
  obtain rfl := Option.some.inj array_eq
  constructor
  · intro value member
    have listed : value ∈ [CellValue.float (.number (.finite 3)), .float (.number (.finite 1)),
        .float (.number (.finite 2))] := member
    simp only [List.mem_cons, List.not_mem_nil, or_false] at listed
    rcases listed with rfl | rfl | rfl <;> rfl
  · exact fun _ _ => le_rfl
  · exact fun _ _ => le_rfl

end InfiniteFloat

end ColumnBounds

end IcefallDB
