import IcefallDB.AggCache.Grouped
import IcefallDB.Lib.Accumulation
import IcefallDB.Lib.Options
import Mathlib.Algebra.Group.Int.Defs
import Mathlib.Algebra.Group.Prod

/-!
# Merging against exact sums

A measure of a group that cannot be merged is dropped, and the next part of the group starts it
again.  The merged aggregates are those of all parts, in whatever order, where no selection of the
parts overflows and every part of the group has the measure.
-/

namespace IcefallDB

variable {F G : Type}

/-! ## Scalars -/

namespace AggScalar

/-- The integers among some values. -/
def integers (scalars : List (AggScalar F)) : List Int :=
  scalars.filterMap fun
    | .int value => some value
    | .float _ | .null => none

/-- The floats among some values. -/
def floats (scalars : List (AggScalar F)) : List F :=
  scalars.filterMap fun
    | .float value => some value
    | .int _ | .null => none

/-- A value is the exact sum of others.  The sum of nulls is null. -/
def IsSum [AddCommMonoid G] (value : F → G) (scalars : List (AggScalar F)) : AggScalar F → Prop
  | .null => integers scalars = [] ∧ floats scalars = []
  | .int total => integers scalars ≠ [] ∧ floats scalars = [] ∧ total = (integers scalars).sum
  | .float total =>
      integers scalars = [] ∧ floats scalars ≠ [] ∧ value total = ((floats scalars).map value).sum

/-- Values of one kind.  The sum of two or more integers has 128 bits, as a single one has. -/
def Fits (scalars : List (AggScalar F)) : Prop :=
  (integers scalars = [] ∨ floats scalars = []) ∧
    (2 ≤ (integers scalars).length → -AggCache.bound128 ≤ (integers scalars).sum ∧
      (integers scalars).sum < AggCache.bound128)

/-- Add floats one by one. -/
def addFloats [Double F] : List F → F
  | [] => 0
  | first :: rest => rest.foldl (· + ·) first

/-- Sum of values that fit. -/
def total [Double F] (scalars : List (AggScalar F)) : AggScalar F :=
  if integers scalars = [] then
    if floats scalars = [] then .null else .float (addFloats (floats scalars))
  else .int (integers scalars).sum

@[simp]
theorem integers_append (left right : List (AggScalar F)) :
    integers (left ++ right) = integers left ++ integers right :=
  List.filterMap_append

@[simp]
theorem floats_append (left right : List (AggScalar F)) :
    floats (left ++ right) = floats left ++ floats right :=
  List.filterMap_append

variable (scalars : List (AggScalar F))

theorem integers_append_int (value : Int) :
    integers (scalars ++ [.int value]) = integers scalars ++ [value] :=
  integers_append _ _

theorem integers_append_float (value : F) :
    integers (scalars ++ [.float value]) = integers scalars := by
  rw [integers_append]
  exact List.append_nil _

theorem integers_append_null : integers (scalars ++ [.null]) = integers scalars := by
  rw [integers_append]
  exact List.append_nil _

theorem floats_append_int (value : Int) : floats (scalars ++ [.int value]) = floats scalars := by
  rw [floats_append]
  exact List.append_nil _

theorem floats_append_float (value : F) :
    floats (scalars ++ [.float value]) = floats scalars ++ [value] :=
  floats_append _ _

theorem floats_append_null : floats (scalars ++ [.null]) = floats scalars := by
  rw [floats_append]
  exact List.append_nil _

variable {left right : List (AggScalar F)}

theorem perm_integers (perm : left.Perm right) : (integers left).Perm (integers right) :=
  perm.filterMap _

theorem perm_floats (perm : left.Perm right) : (floats left).Perm (floats right) :=
  perm.filterMap _

theorem fits_perm (perm : left.Perm right) : Fits left ↔ Fits right := by
  have integers := perm_integers perm
  have floats := perm_floats perm
  rw [Fits, Fits, ← List.length_eq_zero_iff, ← List.length_eq_zero_iff, integers.length_eq,
    floats.length_eq, integers.sum_eq, List.length_eq_zero_iff, List.length_eq_zero_iff]

theorem fits_singleton (scalar : AggScalar F) : Fits [scalar] := by
  have one : (integers [scalar]).length ≤ 1 := List.length_filterMap_le _ _
  constructor
  · cases scalar with
    | int value => exact .inr rfl
    | float value => exact .inl rfl
    | null => exact .inl rfl
  · intro two
    omega

theorem integers_eq_nil_of_subset (inner : left ⊆ right) (none : integers right = []) :
    integers left = [] := by
  rw [integers, List.filterMap_eq_nil_iff] at none ⊢
  exact fun scalar member => none scalar (inner member)

theorem floats_eq_nil_of_subset (inner : left ⊆ right) (none : floats right = []) :
    floats left = [] := by
  rw [floats, List.filterMap_eq_nil_iff] at none ⊢
  exact fun scalar member => none scalar (inner member)

/-- Integers that do not fit have another sum than zero. -/
theorem sum_ne_zero_of_breaks {scalars : List (AggScalar F)}
    (kind : integers scalars = [] ∨ floats scalars = []) (breaks : ¬ Fits scalars) :
    (integers scalars).sum ≠ 0 := by
  intro zero
  apply breaks
  refine ⟨kind, fun _ => ?_⟩
  rw [zero]
  decide

theorem IsSum.kind [AddCommMonoid G] {value : F → G} {scalars : List (AggScalar F)}
    {total : AggScalar F} (exact : IsSum value scalars total) :
    integers scalars = [] ∨ floats scalars = [] := by
  cases total with
  | int total => exact .inr exact.2.1
  | float total => exact .inl exact.1
  | null => exact .inl exact.1

theorem IsSum.sum_integers [AddCommMonoid G] {value : F → G} {scalars : List (AggScalar F)}
    {total : AggScalar F} (exact : IsSum value scalars total) :
    (integers [total]).sum = (integers scalars).sum := by
  cases total with
  | int total =>
      rw [← exact.2.2]
      exact Int.add_zero total
  | float total =>
      rw [exact.1]
      rfl
  | null =>
      rw [exact.1]
      rfl

section

variable [Double F]

theorem addFloats_append_singleton {values : List F} (some_value : values ≠ []) (value : F) :
    addFloats (values ++ [value]) = addFloats values + value := by
  cases values with
  | nil => exact absurd rfl some_value
  | cons first rest => exact List.foldl_append

theorem total_singleton (scalar : AggScalar F) : total [scalar] = scalar := by
  cases scalar with
  | int value => exact congrArg AggScalar.int (Int.add_zero value)
  | float value => rfl
  | null => rfl

theorem total_append_null : total (scalars ++ [.null]) = total scalars := by
  rw [total, integers_append_null, floats_append_null, total]

theorem total_of_integers {scalars : List (AggScalar F)} (some_int : integers scalars ≠ []) :
    total scalars = .int (integers scalars).sum :=
  if_neg some_int

theorem total_of_floats {scalars : List (AggScalar F)} (no_int : integers scalars = [])
    (some_float : floats scalars ≠ []) : total scalars = .float (addFloats (floats scalars)) := by
  rw [total, if_pos no_int, if_neg some_float]

theorem total_of_nulls {scalars : List (AggScalar F)} (no_int : integers scalars = [])
    (no_float : floats scalars = []) : total scalars = .null := by
  rw [total, if_pos no_int, if_pos no_float]

theorem sum_integers_total : (integers [total scalars]).sum = (integers scalars).sum := by
  unfold total
  split
  · next no_int =>
      rw [no_int]
      split <;> rfl
  · exact Int.add_zero _

/-- The sum of values that fit is exact exactly if the floats among them are added exactly. -/
theorem isSum_total_iff [AddCommMonoid G] {value : F → G} {scalars : List (AggScalar F)}
    (fits : Fits scalars) : IsSum value scalars (total scalars) ↔
      (floats scalars ≠ [] →
        value (addFloats (floats scalars)) = ((floats scalars).map value).sum) := by
  by_cases no_int : integers scalars = []
  · by_cases no_float : floats scalars = []
    · rw [total_of_nulls no_int no_float]
      exact iff_of_true ⟨no_int, no_float⟩ fun some_float => absurd no_float some_float
    · rw [total_of_floats no_int no_float]
      exact ⟨fun exact _ => exact.2.2, fun exact => ⟨no_int, no_float, exact no_float⟩⟩
  · have no_float := fits.1.resolve_left no_int
    rw [total_of_integers no_int]
    exact iff_of_true ⟨no_int, no_float, rfl⟩ fun some_float => absurd no_float some_float

/-- In another order, values that fit have the same sum exactly if the floats among them have. -/
theorem total_eq_iff_of_perm (perm : left.Perm right) (fits : Fits right) :
    total left = total right ↔
      (floats right ≠ [] → addFloats (floats left) = addFloats (floats right)) := by
  have ints := perm_integers perm
  have same_floats := perm_floats perm
  by_cases no_int : integers right = []
  · have no_int' : integers left = [] := by
      rw [no_int] at ints
      exact ints.eq_nil
    by_cases no_float : floats right = []
    · have no_float' : floats left = [] := by
        rw [no_float] at same_floats
        exact same_floats.eq_nil
      rw [total_of_nulls no_int no_float, total_of_nulls no_int' no_float']
      exact iff_of_true rfl fun some_float => absurd no_float some_float
    · have some_float' : floats left ≠ [] := by
        intro none
        rw [none] at same_floats
        exact no_float same_floats.nil_eq.symm
      rw [total_of_floats no_int no_float, total_of_floats no_int' some_float', float.injEq]
      exact ⟨fun same _ => same, fun same => same no_float⟩
  · have some_int' : integers left ≠ [] := by
      intro none
      rw [none] at ints
      exact no_int ints.nil_eq.symm
    rw [total_of_integers no_int, total_of_integers some_int', ints.sum_eq]
    exact iff_of_true rfl fun some_float => absurd (fits.1.resolve_left no_int) some_float

end

end AggScalar

namespace AggCache

open AggScalar

section

variable [Double F] {scalars : List (AggScalar F)}

theorem mergeScalar_null (scalar : AggScalar F) : mergeScalar scalar .null = some scalar := by
  cases scalar <;> rfl

/-- Merging the sum of some values with an integer. -/
theorem mergeScalar_total_int (fits : AggScalar.Fits scalars) (value : Int) :
    mergeScalar (total scalars) (.int value) =
      if floats scalars = [] ∧ (integers scalars = [] ∨ -bound128 ≤ (integers scalars).sum + value ∧
          (integers scalars).sum + value < bound128) then some (.int ((integers scalars).sum + value))
      else none := by
  by_cases no_int : integers scalars = []
  · by_cases no_float : floats scalars = []
    · rw [total_of_nulls no_int no_float, if_pos ⟨no_float, .inl no_int⟩, no_int, List.sum_nil,
        Int.zero_add]
      rfl
    · rw [total_of_floats no_int no_float, if_neg fun both => no_float both.1]
      rfl
  · have no_float : floats scalars = [] := fits.1.resolve_left no_int
    rw [total_of_integers no_int, mergeScalar, Moments.checked]
    simp only [no_float, no_int, true_and, false_or]
    split
    · rfl
    · rfl

/-- Merging the sum of some values with a float. -/
theorem mergeScalar_total_float (value : F) :
    mergeScalar (total scalars) (.float value) =
      if integers scalars = [] then some (.float (addFloats (floats scalars ++ [value]))) else none := by
  split
  · next no_int =>
      by_cases no_float : floats scalars = []
      · rw [total_of_nulls no_int no_float, no_float]
        rfl
      · rw [total_of_floats no_int no_float, addFloats_append_singleton no_float]
        rfl
  · next some_int =>
      rw [total_of_integers some_int]
      rfl

/-- Merging the sum of some values with one more gives the sum of all, if they fit. -/
theorem mergeScalar_total_of_fits {scalar : AggScalar F} (fits : AggScalar.Fits scalars)
    (both : AggScalar.Fits (scalars ++ [scalar])) :
    mergeScalar (total scalars) scalar = some (total (scalars ++ [scalar])) := by
  cases scalar with
  | null =>
      rw [mergeScalar_null, total_append_null]
  | int value =>
      have some_int : integers (scalars ++ [.int value]) ≠ [] := by
        rw [integers_append_int]
        exact List.concat_ne_nil _ _
      have range := both.2
      rw [integers_append_int, List.length_append, List.sum_append, List.sum_singleton] at range
      rw [mergeScalar_total_int fits, if_pos, total_of_integers some_int, integers_append_int,
        List.sum_append, List.sum_singleton]
      constructor
      · exact floats_append_int scalars value ▸ both.1.resolve_left some_int
      · by_cases no_int : integers scalars = []
        · exact .inl no_int
        · right
          apply range
          have positive := List.length_pos_of_ne_nil no_int
          rw [List.length_singleton]
          omega
  | float value =>
      have some_float : floats (scalars ++ [.float value]) ≠ [] := by
        rw [floats_append_float]
        exact List.concat_ne_nil _ _
      have no_int := both.1.resolve_right some_float
      rw [mergeScalar_total_float, total_of_floats no_int some_float, floats_append_float]
      rw [integers_append_float] at no_int
      rw [if_pos no_int]

/-- Merging the sum of some values with one more fails, if they do not fit. -/
theorem mergeScalar_total_of_breaks {scalar : AggScalar F} (fits : AggScalar.Fits scalars)
    (breaks : ¬ AggScalar.Fits (scalars ++ [scalar])) : mergeScalar (total scalars) scalar = none := by
  cases scalar with
  | null =>
      rw [AggScalar.Fits, integers_append_null, floats_append_null] at breaks
      exact absurd fits breaks
  | int value =>
      rw [mergeScalar_total_int fits, if_neg]
      rintro ⟨no_float, range⟩
      apply breaks
      constructor
      · right
        rw [floats_append_int, no_float]
      · rw [integers_append_int, List.length_append, List.sum_append, List.sum_singleton]
        intro two
        apply range.resolve_left
        intro no_int
        rw [no_int, List.length_nil, List.length_singleton] at two
        omega
  | float value =>
      rw [mergeScalar_total_float, if_neg]
      intro no_int
      apply breaks
      have none_still : integers (scalars ++ [.float value]) = [] := by
        rw [integers_append_float, no_int]
      constructor
      · exact .inl none_still
      · intro two
        rw [none_still] at two
        cases two

end

end AggCache

/-! ## Counts -/

/-- Add two counts of 64 bits; a release build wraps around. -/
def wrappingAdd (left right : Nat) : Nat :=
  (left + right) % 2 ^ 64

/-- Add counts one by one. -/
def addCounts : List Nat → Nat
  | [] => 0
  | first :: rest => rest.foldl wrappingAdd first

theorem addCounts_append_singleton {counts : List Nat} (some_count : counts ≠ []) (count : Nat) :
    addCounts (counts ++ [count]) = wrappingAdd (addCounts counts) count := by
  cases counts with
  | nil => exact absurd rfl some_count
  | cons first rest => exact List.foldl_append

/-- From the second count on, sums are modulo 2 ^ 64. -/
theorem addCounts_of_two {counts : List Nat} (two : 2 ≤ counts.length) :
    addCounts counts = counts.sum % 2 ^ 64 := by
  induction counts using List.reverseRecOn with
  | nil => cases two
  | append_singleton counts count ih =>
      rw [List.length_append, List.length_singleton] at two
      have some_count : counts ≠ [] := List.ne_nil_of_length_pos (by omega)
      rw [addCounts_append_singleton some_count, wrappingAdd, List.sum_append, List.sum_singleton]
      by_cases more : 2 ≤ counts.length
      · rw [ih more, Nat.mod_add_mod]
      · obtain ⟨only, rfl⟩ := List.length_eq_one_iff.mp (by omega : counts.length = 1)
        rfl

/-- The sum of two or more counts has 64 bits, as a single one has. -/
def CountsFit (counts : List Nat) : Prop :=
  2 ≤ counts.length → counts.sum < 2 ^ 64

theorem addCounts_eq_sum_iff (counts : List Nat) :
    addCounts counts = counts.sum ↔ CountsFit counts := by
  by_cases two : 2 ≤ counts.length
  · rw [addCounts_of_two two, Nat.mod_eq_iff_lt (by decide)]
    exact ⟨fun fits _ => fits, fun fits => fits two⟩
  · refine iff_of_true ?_ fun more => absurd more two
    cases counts with
    | nil => rfl
    | cons first rest =>
        rw [List.length_cons] at two
        obtain rfl : rest = [] := List.length_eq_zero_iff.mp (by omega)
        rfl

/-! ## Measures -/

namespace ColAgg

/-- Parts of a measure whose sums can be added. -/
def Fits (parts : List (ColAgg F)) : Prop :=
  AggScalar.Fits (parts.map sum) ∧ AggScalar.Fits (parts.map sumsq)

/-- Sum of the parts of a measure. -/
def total [Double F] (parts : List (ColAgg F)) : ColAgg F :=
  { countNonNull := addCounts (parts.map countNonNull)
    sum := AggScalar.total (parts.map sum)
    sumsq := AggScalar.total (parts.map sumsq) }

/-- Aggregates are the exact sums of the parts of a measure. -/
structure IsTotal [AddCommMonoid G] (value : F → G) (parts : List (ColAgg F)) (agg : ColAgg F) :
    Prop where
  count : agg.countNonNull = (parts.map countNonNull).sum
  sum : AggScalar.IsSum value (parts.map ColAgg.sum) agg.sum
  sumsq : AggScalar.IsSum value (parts.map ColAgg.sumsq) agg.sumsq

/-- The floats of the parts of a measure have the same sum in every order, and it is not rounded. -/
def FloatsAdd [Double F] [AddCommMonoid G] (value : F → G) (parts : List (ColAgg F))
    (read : ColAgg F → AggScalar F) : Prop :=
  AggScalar.floats (parts.map read) ≠ [] →
    value (AggScalar.addFloats (AggScalar.floats (parts.map read))) =
      ((AggScalar.floats (parts.map read)).map value).sum ∧
    ∀ order : List (ColAgg F), order.Perm parts →
      AggScalar.addFloats (AggScalar.floats (order.map read)) =
        AggScalar.addFloats (AggScalar.floats (parts.map read))

/-- The measure is dropped with the last part in every order. -/
def Dropped (parts : List (ColAgg F)) : Prop :=
  ∀ order : List (ColAgg F), order.Perm parts → Accumulation.LeavesNothing Fits order

/-- The parts of a measure are added exactly: all selections of them can be added, and the counts fit. -/
structure AddsExactly [Double F] [AddCommMonoid G] (value : F → G) (parts : List (ColAgg F)) :
    Prop where
  selections : ∀ selection : List (ColAgg F), selection.Subperm parts → selection ≠ [] →
    Fits selection
  counts : CountsFit (parts.map countNonNull)
  sums : FloatsAdd value parts sum
  squares : FloatsAdd value parts sumsq

theorem fits_perm {left right : List (ColAgg F)} (perm : left.Perm right) :
    Fits left ↔ Fits right :=
  and_congr (AggScalar.fits_perm (perm.map _)) (AggScalar.fits_perm (perm.map _))

/-- Merging adds the parts of a measure as long as they fit. -/
theorem merges [Double F] :
    Accumulation.Sums (AggCache.mergeTwoColAggs wrappingAdd) total (Fits (F := F)) := by
  constructor
  · intro agg
    simp only [total, List.map_singleton, AggScalar.total_singleton]
    rfl
  · intro agg
    constructor
    · exact AggScalar.fits_singleton _
    · exact AggScalar.fits_singleton _
  · intro parts agg some_part fits both
    have some_count : parts.map countNonNull ≠ [] := mt List.map_eq_nil_iff.mp some_part
    rw [Fits, List.map_append, List.map_append] at both
    simp only [AggCache.mergeTwoColAggs, total, AggCache.mergeScalar_total_of_fits fits.1 both.1,
      AggCache.mergeScalar_total_of_fits fits.2 both.2, List.map_append, List.map_singleton,
      addCounts_append_singleton some_count]
    rfl
  · intro parts agg _ fits breaks
    rw [Fits, List.map_append, List.map_append, not_and_or] at breaks
    rcases breaks with sum_breaks | sumsq_breaks
    · simp only [AggCache.mergeTwoColAggs, total,
        AggCache.mergeScalar_total_of_breaks fits.1 sum_breaks]
      rfl
    · simp only [AggCache.mergeTwoColAggs, total,
        AggCache.mergeScalar_total_of_breaks fits.2 sumsq_breaks]
      cases AggCache.mergeScalar (AggScalar.total (parts.map sum)) agg.sum <;> rfl

/-- The integers in the sums of a part. -/
def integerPart (agg : ColAgg F) : Int × Int :=
  ((AggScalar.integers [agg.sum]).sum, (AggScalar.integers [agg.sumsq]).sum)

theorem sum_integerPart (parts : List (ColAgg F)) : (parts.map integerPart).sum =
    ((AggScalar.integers (parts.map sum)).sum, (AggScalar.integers (parts.map sumsq)).sum) := by
  induction parts with
  | nil => rfl
  | cons part parts ih =>
      rw [List.map_cons, List.sum_cons, ih, List.map_cons, List.map_cons,
        ← List.singleton_append (l := parts.map sum), ← List.singleton_append (l := parts.map sumsq),
        AggScalar.integers_append, AggScalar.integers_append, List.sum_append, List.sum_append]
      rfl

theorem integerPart_total [Double F] (parts : List (ColAgg F)) :
    integerPart (total parts) = (parts.map integerPart).sum := by
  rw [sum_integerPart, integerPart, total, AggScalar.sum_integers_total,
    AggScalar.sum_integers_total]

section

variable [Double F] [AddCommMonoid G] {value : F → G} {parts : List (ColAgg F)}

/-- Floats are added exactly if the sum is exact and the same in every order. -/
theorem floatsAdd_iff {read : ColAgg F → AggScalar F} (fits : AggScalar.Fits (parts.map read)) :
    FloatsAdd value parts read ↔
      AggScalar.IsSum value (parts.map read) (AggScalar.total (parts.map read)) ∧
        ∀ order : List (ColAgg F), order.Perm parts →
          AggScalar.total (order.map read) = AggScalar.total (parts.map read) := by
  rw [AggScalar.isSum_total_iff fits]
  constructor
  · intro adds
    constructor
    · exact fun some_float => (adds some_float).1
    · intro order perm
      apply (AggScalar.total_eq_iff_of_perm (perm.map read) fits).mpr
      exact fun some_float => (adds some_float).2 order perm
  · rintro ⟨exact, same⟩ some_float
    constructor
    · exact exact some_float
    · intro order perm
      exact (AggScalar.total_eq_iff_of_perm (perm.map read) fits).mp (same order perm) some_float

/-- Where an exact total of all parts is the same in every order, all selections of the parts fit. -/
theorem fits_of_isTotal {result : ColAgg F} (exact : IsTotal value parts result)
    (same : ∀ order : List (ColAgg F), order.Perm parts →
      Accumulation.accumulate (AggCache.mergeTwoColAggs wrappingAdd) order = some result) :
    ∀ selection : List (ColAgg F), selection.Subperm parts → selection ≠ [] → Fits selection := by
  rw [← Accumulation.forall_fitsThroughout_iff fun _ _ => fits_perm]
  apply merges.fitsThroughout_of_exact integerPart
  · intro selection _ _ _
    exact integerPart_total selection
  · intro selection inner breaks _ zero
    rw [sum_integerPart, Prod.mk_eq_zero] at zero
    have kind : ∀ read : ColAgg F → AggScalar F,
        AggScalar.integers (parts.map read) = [] ∨ AggScalar.floats (parts.map read) = [] →
          AggScalar.integers (selection.map read) = [] ∨
            AggScalar.floats (selection.map read) = [] := by
      intro read kind
      have subset := List.map_subset read inner.subset
      exact kind.imp (AggScalar.integers_eq_nil_of_subset subset)
        (AggScalar.floats_eq_nil_of_subset subset)
    rcases not_and_or.mp breaks with sum_breaks | sumsq_breaks
    · exact AggScalar.sum_ne_zero_of_breaks (kind _ exact.sum.kind) sum_breaks zero.1
    · exact AggScalar.sum_ne_zero_of_breaks (kind _ exact.sumsq.kind) sumsq_breaks zero.2
  · intro order perm
    refine ⟨result, same order perm, ?_⟩
    rw [sum_integerPart, integerPart, exact.sum.sum_integers, exact.sumsq.sum_integers]

/-- Parts that are added exactly are all in the total, in every order. -/
theorem AddsExactly.accumulate_eq (adds : AddsExactly value parts) (some_part : parts ≠ [])
    {order : List (ColAgg F)} (perm : order.Perm parts) :
    Accumulation.accumulate (AggCache.mergeTwoColAggs wrappingAdd) order = some (total parts) := by
  have parts_fit := adds.selections parts (.refl _) some_part
  have sum_same := ((floatsAdd_iff parts_fit.1).mp adds.sums).2 order perm
  have sumsq_same := ((floatsAdd_iff parts_fit.2).mp adds.squares).2 order perm
  have counts := perm.map countNonNull
  have order_counts : CountsFit (order.map countNonNull) := by
    rw [CountsFit, counts.length_eq, counts.sum_eq]
    exact adds.counts
  have count_same : addCounts (order.map countNonNull) = addCounts (parts.map countNonNull) := by
    rw [(addCounts_eq_sum_iff _).mpr order_counts, (addCounts_eq_sum_iff _).mpr adds.counts,
      counts.sum_eq]
  have through := (Accumulation.forall_fitsThroughout_iff (fun _ _ => fits_perm) parts).mpr
    adds.selections order perm
  have some_order : order ≠ [] := by
    rintro rfl
    exact some_part perm.nil_eq.symm
  rw [merges.accumulate_of_fitsThroughout through some_order, total, total, count_same, sum_same,
    sumsq_same]

/-- The parts of a measure are merged to their exact total, and in every order alike, exactly if they
are added exactly, or the measure is always dropped with the last part. -/
theorem accumulate_exact_iff :
    ((∀ agg, Accumulation.accumulate (AggCache.mergeTwoColAggs wrappingAdd) parts = some agg →
        IsTotal value parts agg) ∧
      ∀ order : List (ColAgg F), order.Perm parts →
        Accumulation.accumulate (AggCache.mergeTwoColAggs wrappingAdd) order =
          Accumulation.accumulate (AggCache.mergeTwoColAggs wrappingAdd) parts) ↔
      Dropped parts ∨ AddsExactly value parts := by
  constructor
  · rintro ⟨exact, same⟩
    cases found : Accumulation.accumulate (AggCache.mergeTwoColAggs wrappingAdd) parts with
    | none =>
        left
        intro order perm
        exact merges.accumulate_eq_none_iff.mp ((same order perm).trans found)
    | some result =>
        right
        have is_total := exact result found
        have fits := fits_of_isTotal is_total fun order perm => (same order perm).trans found
        have some_part : parts ≠ [] := by
          rintro rfl
          cases found
        have parts_fit := fits parts (.refl _) some_part
        have totals : ∀ order : List (ColAgg F), order.Perm parts → total order = result := by
          intro order perm
          have through :=
            (Accumulation.forall_fitsThroughout_iff (fun _ _ => fits_perm) parts).mpr fits order perm
          have some_order : order ≠ [] := by
            rintro rfl
            exact some_part perm.nil_eq.symm
          have merged := same order perm
          rw [merges.accumulate_of_fitsThroughout through some_order, found] at merged
          exact Option.some.inj merged
        have whole := totals parts (.refl _)
        rw [← whole] at is_total
        refine ⟨fits, (addCounts_eq_sum_iff _).mp is_total.count,
          (floatsAdd_iff parts_fit.1).mpr ⟨is_total.sum, ?_⟩,
          (floatsAdd_iff parts_fit.2).mpr ⟨is_total.sumsq, ?_⟩⟩
        · intro order perm
          exact congrArg ColAgg.sum ((totals order perm).trans whole.symm)
        · intro order perm
          exact congrArg ColAgg.sumsq ((totals order perm).trans whole.symm)
  · rintro (dropped | adds)
    · have nothing := fun order perm =>
        (merges (F := F)).accumulate_of_leavesNothing (dropped order perm)
      constructor
      · intro agg found
        rw [nothing parts (.refl _)] at found
        cases found
      · intro order perm
        rw [nothing order perm, nothing parts (.refl _)]
    · by_cases empty : parts = []
      · subst empty
        constructor
        · intro agg found
          cases found
        · intro order perm
          rw [perm.eq_nil]
      · have parts_fit := adds.selections parts (.refl _) empty
        constructor
        · intro agg found
          rw [adds.accumulate_eq empty (.refl _)] at found
          obtain rfl := Option.some.inj found
          exact ⟨(addCounts_eq_sum_iff _).mpr adds.counts,
            ((floatsAdd_iff parts_fit.1).mp adds.sums).1,
            ((floatsAdd_iff parts_fit.2).mp adds.squares).1⟩
        · intro order perm
          rw [adds.accumulate_eq empty perm, adds.accumulate_eq empty (.refl _)]

end

end ColAgg

namespace AggCache

/-! ## Groups -/

/-- What the parts that contain a group and a measure of it record. -/
def recorded (parts : List (GroupedPartials F)) (key name : String) : List (ColAgg F) :=
  parts.filterMap fun part => groupCol part.groups key name

/-- Every part that contains a group records the measure of it. -/
def RecordedThroughout (parts : List (GroupedPartials F)) (key name : String) : Prop :=
  ∀ part ∈ parts, (part.groups.lookup key).isSome → (groupCol part.groups key name).isSome

/-- The groups are the same, with the same measures. -/
def SameGroups (left right : SortedMap String (HashMap String (ColAgg F))) : Prop :=
  ∀ key, ((left.lookup key).isSome ↔ (right.lookup key).isSome) ∧
    ∀ name, groupCol left key name = groupCol right key name

section

variable [Double F]

theorem foldl_mergeOptions (existing : Option (ColAgg F)) (incoming : List (Option (ColAgg F))) :
    incoming.foldl (mergeOptions wrappingAdd) existing =
      incoming.reduceOption.foldl (Accumulation.takeIn (mergeTwoColAggs wrappingAdd)) existing := by
  induction incoming generalizing existing with
  | nil => rfl
  | cons first incoming ih =>
      rw [List.foldl_cons, ih]
      cases first with
      | none => rw [mergeOptions_none, List.reduceOption_cons_of_none]
      | some agg => cases existing <;> rfl

theorem groupCol_mergeGrouped_eq_accumulate (parts : List (GroupedPartials F))
    (key name : String) : groupCol (mergeGrouped wrappingAdd parts) key name =
      Accumulation.accumulate (mergeTwoColAggs wrappingAdd) (recorded parts key name) := by
  rw [groupCol_mergeGrouped, foldl_mergeOptions, List.reduceOption, List.filterMap_map]
  rfl

omit [Double F] in
/-- Without a part nothing is left. -/
theorem dropped_nil : ColAgg.Dropped ([] : List (ColAgg F)) := by
  intro order perm
  rw [perm.eq_nil]
  exact .nil

/-- Merging leaves the exact sums of all parts that contain a group, in every order alike, exactly if
each measure of each group is recorded by all these parts and added exactly, or is dropped. -/
theorem mergeGrouped_exact_iff [AddCommMonoid G] (value : F → G)
    (parts : List (GroupedPartials F)) :
    ((∀ key name agg, groupCol (mergeGrouped wrappingAdd parts) key name = some agg →
        RecordedThroughout parts key name ∧ ColAgg.IsTotal value (recorded parts key name) agg) ∧
      ∀ order : List (GroupedPartials F), order.Perm parts →
        SameGroups (mergeGrouped wrappingAdd order) (mergeGrouped wrappingAdd parts)) ↔
      ∀ key name, ColAgg.Dropped (recorded parts key name) ∨
        RecordedThroughout parts key name ∧ ColAgg.AddsExactly value (recorded parts key name) := by
  constructor
  · rintro ⟨exact, same⟩ key name
    have merges : ColAgg.Dropped (recorded parts key name) ∨
        ColAgg.AddsExactly value (recorded parts key name) := by
      apply ColAgg.accumulate_exact_iff.mp
      constructor
      · intro agg found
        rw [← groupCol_mergeGrouped_eq_accumulate] at found
        exact (exact key name agg found).2
      · intro order perm
        obtain ⟨other, other_perm, rfl⟩ := List.exists_perm_filterMap perm
        have groups := (same other other_perm key).2 name
        rw [groupCol_mergeGrouped_eq_accumulate, groupCol_mergeGrouped_eq_accumulate] at groups
        exact groups
    rcases merges with dropped | adds
    · exact .inl dropped
    · by_cases unrecorded : recorded parts key name = []
      · rw [unrecorded]
        exact .inl dropped_nil
      · have found := adds.accumulate_eq unrecorded (.refl _)
        rw [← groupCol_mergeGrouped_eq_accumulate] at found
        exact .inr ⟨(exact key name _ found).1, adds⟩
  · intro exactly
    have merges : ∀ key name, ColAgg.Dropped (recorded parts key name) ∨
        ColAgg.AddsExactly value (recorded parts key name) :=
      fun key name => (exactly key name).imp id And.right
    constructor
    · intro key name agg found
      rw [groupCol_mergeGrouped_eq_accumulate] at found
      refine ⟨?_, (ColAgg.accumulate_exact_iff.mpr (merges key name)).1 agg found⟩
      rcases exactly key name with dropped | ⟨throughout, -⟩
      · rw [ColAgg.merges.accumulate_of_leavesNothing (dropped _ (.refl _))] at found
        cases found
      · exact throughout
    · intro order perm key
      constructor
      · rw [isSome_mergeGrouped, isSome_mergeGrouped]
        simp only [perm.mem_iff]
      · intro name
        rw [groupCol_mergeGrouped_eq_accumulate, groupCol_mergeGrouped_eq_accumulate]
        exact (ColAgg.accumulate_exact_iff.mpr (merges key name)).2 _ (perm.filterMap _)

end

/-! ## A measure that is started again -/

namespace DroppedMeasure

/-- One group with one value of a measure. -/
def part (value : Int) : GroupedPartials Int :=
  { keyCol := "k"
    groups := (∅ : SortedMap String (HashMap String (ColAgg Int))).insert "1"
      ((∅ : HashMap String (ColAgg Int)).insert "v"
        { countNonNull := 1, sum := .int value, sumsq := .int (value * value) }) }

/-- The squares of the first two values overflow, and the last part is left. -/
theorem merged_wrong :
    groupCol (mergeGrouped wrappingAdd [part (-2 ^ 63), part (-2 ^ 63), part 1]) "1" "v" =
      some { countNonNull := 1, sum := .int 1, sumsq := .int 1 } ∧
    groupCol (mergeGrouped wrappingAdd [part 1, part (-2 ^ 63), part (-2 ^ 63)]) "1" "v" = none ∧
    ¬ ColAgg.IsTotal id (recorded [part (-2 ^ 63), part (-2 ^ 63), part 1] "1" "v")
      { countNonNull := 1, sum := .int 1, sumsq := .int 1 } := by
  refine ⟨by decide, by decide, ?_⟩
  intro exact
  cases exact.count

end DroppedMeasure

end AggCache

end IcefallDB
