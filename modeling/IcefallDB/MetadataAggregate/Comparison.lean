import IcefallDB.MetadataAggregate.FilterStatistics

/-!
# Statistics against literals

The comparison of a statistic with a literal is that of the values, except that rounding to floats
can make unequal numbers equal.  As rounding keeps the order, nothing else can go wrong.
-/

namespace IcefallDB

/-! ## Exact comparisons -/

/-- The order of values of one kind. -/
def Scalar.Le : Scalar → Scalar → Prop
  | .int left, .int right => left ≤ right
  | .string left, .string right => left ≤ right
  | .bool left, .bool right => left ≤ right
  | _, _ => False

theorem Scalar.Le.refl (value : Scalar) : value.Le value := by
  cases value <;> exact le_rfl

theorem Scalar.Le.exists_of_int_left {left : Int} {right : Scalar} (le : (Scalar.int left).Le right) :
    ∃ number, right = .int number ∧ left ≤ number := by
  cases right with
  | int number => exact ⟨number, rfl, le⟩
  | string | bool => exact absurd le id

theorem Scalar.Le.exists_of_int_right {left : Scalar} {right : Int}
    (le : left.Le (Scalar.int right)) : ∃ number, left = .int number ∧ number ≤ right := by
  cases left with
  | int number => exact ⟨number, rfl, le⟩
  | string | bool => exact absurd le id

/-- A literal is a value of its type: a float is a float of 64 bits. -/
def Literal.IsValid : Literal → Prop
  | .float64 (some value) => SimplifyCastPredicates.binary64.Represents value
  | _ => True

/-- Compare a value with a literal of its kind as they are. -/
def compareExact : Scalar → Literal → Option Ordering
  | .int left, .int64 right => some (compare left right)
  | .int left, .float64 (some right) => some (compare (left : ℚ) right)
  | .string left, .string right => some (compare left right)
  | .bool left, .bool right => some (compare left right)
  | _, _ => none

/-- An integer differs from the literal, but not as floats. -/
def Blurred : Scalar → Literal → Prop
  | .int left, .int64 right =>
      left ≠ right ∧ ¬(IsI64 left ∧ IsI64 right) ∧ asF64 left = asF64 right
  | .int left, .float64 (some right) => (left : ℚ) ≠ right ∧ asF64 left = .finite right
  | _, _ => False

namespace MetadataAggregate

open SimplifyCastPredicates

variable {low value high : Scalar} {literal : Literal}

/-- Rounding to floats keeps the order. -/
theorem asF64_mono {left right : Int} (le : left ≤ right) : asF64 left ≤ asF64 right :=
  FloatFormat.round_mono (by decide) (Extended.finite_le.mpr (Int.cast_le.mpr le))

/-- Numbers that differ as floats are compared as they are. -/
theorem compare_asF64 {left right : Int} (ne : asF64 left ≠ asF64 right) :
    compare (asF64 left) (asF64 right) = compare left right := by
  rcases lt_trichotomy left right with less | same | greater
  · rw [compare_lt_iff_lt.mpr less, compare_lt_iff_lt.mpr ((asF64_mono less.le).lt_of_ne ne)]
  · exact absurd (congrArg asF64 same) ne
  · rw [compare_gt_iff_gt.mpr greater,
      compare_gt_iff_gt.mpr ((asF64_mono greater.le).lt_of_ne ne.symm)]

theorem compare_finite (left right : ℚ) :
    compare (Extended.finite left) (.finite right) = compare left right := by
  rcases lt_trichotomy left right with less | same | greater
  · rw [compare_lt_iff_lt.mpr less, compare_lt_iff_lt.mpr (Extended.finite_lt.mpr less)]
  · rw [same, compare_eq_iff_eq.mpr rfl, compare_eq_iff_eq.mpr rfl]
  · rw [compare_gt_iff_gt.mpr greater, compare_gt_iff_gt.mpr (Extended.finite_lt.mpr greater)]

theorem compareJson_of_blurred (blurred : Blurred value literal) :
    compareJson value literal = some .eq := by
  cases value with
  | int value =>
      cases literal with
      | int64 literal =>
          obtain ⟨-, not_signed, same⟩ := blurred
          rw [compareJson, if_neg not_signed, same, compare_eq_iff_eq.mpr rfl]
      | float64 literal =>
          cases literal with
          | none => exact absurd blurred id
          | some literal =>
              obtain ⟨-, same⟩ := blurred
              rw [compareJson, same, compare_eq_iff_eq.mpr rfl]
      | string | bool => exact absurd blurred id
  | string | bool => cases literal <;> exact absurd blurred id

/-- Only rounding makes a difference. -/
theorem compareJson_of_not_blurred (valid : literal.IsValid) (clear : ¬Blurred value literal) :
    compareJson value literal = compareExact value literal := by
  cases value with
  | int value =>
      cases literal with
      | int64 literal =>
          rw [compareJson, compareExact]
          split
          · rfl
          · next not_signed =>
              by_cases same : value = literal
              · rw [same, compare_eq_iff_eq.mpr rfl, compare_eq_iff_eq.mpr rfl]
              · rw [compare_asF64]
                intro rounded
                exact clear ⟨same, not_signed, rounded⟩
      | float64 literal =>
          cases literal with
          | none => rfl
          | some literal =>
              rw [compareJson, compareExact, ← compare_finite]
              have member : .finite literal ∈ binary64.values := by
                intro rational same
                rwa [← Extended.finite_inj.mp same]
              by_cases same : asF64 value = .finite literal
              · have equal : (value : ℚ) = literal := by
                  by_contra ne
                  exact clear ⟨ne, same⟩
                rw [same, equal]
              · rw [(adjacent_asF64 value).compare_of_ne member same]
      | string | bool => rfl
  | string | bool => cases literal <;> rfl

/-- A comparison reads what the values are, or that they are equal. -/
theorem compareJson_cases (valid : literal.IsValid) {ordering : Ordering}
    (exact_eq : compareExact value literal = some ordering) :
    ∃ read, compareJson value literal = some read ∧
      (Blurred value literal ∧ read = .eq ∨ ¬Blurred value literal ∧ read = ordering) := by
  by_cases blurred : Blurred value literal
  · exact ⟨.eq, compareJson_of_blurred blurred, .inl ⟨blurred, rfl⟩⟩
  · refine ⟨ordering, ?_, .inr ⟨blurred, rfl⟩⟩
    rw [compareJson_of_not_blurred valid blurred, exact_eq]

/-- What is blurred is unequal. -/
theorem compareExact_of_blurred (blurred : Blurred value literal) :
    compareExact value literal = some .lt ∨ compareExact value literal = some .gt := by
  cases value with
  | int value =>
      cases literal with
      | int64 literal =>
          rw [compareExact, Option.some_inj, Option.some_inj, compare_lt_iff_lt, compare_gt_iff_gt]
          exact lt_or_gt_of_ne blurred.1
      | float64 literal =>
          cases literal with
          | none => exact absurd blurred id
          | some literal =>
              rw [compareExact, Option.some_inj, Option.some_inj, compare_lt_iff_lt,
                compare_gt_iff_gt]
              exact lt_or_gt_of_ne blurred.1
      | string | bool => exact absurd blurred id
  | string | bool => cases literal <;> exact absurd blurred id

section

variable (valid : literal.IsValid)
include valid

theorem compareJson_eq_iff :
    compareJson value literal = some .eq ↔
      Blurred value literal ∨ compareExact value literal = some .eq := by
  by_cases blurred : Blurred value literal
  · simp only [compareJson_of_blurred blurred, blurred, true_or]
  · rw [compareJson_of_not_blurred valid blurred, or_iff_right blurred]

theorem compareJson_iff_of_ne_eq {ordering : Ordering} (ne : ordering ≠ .eq) :
    compareJson value literal = some ordering ↔
      compareExact value literal = some ordering ∧ ¬Blurred value literal := by
  by_cases blurred : Blurred value literal
  · rw [compareJson_of_blurred blurred, Option.some_inj]
    exact iff_of_false ne.symm fun clear => clear.2 blurred
  · rw [compareJson_of_not_blurred valid blurred, and_iff_left blurred]

theorem compareJson_lt_iff :
    compareJson value literal = some .lt ↔
      compareExact value literal = some .lt ∧ ¬Blurred value literal :=
  compareJson_iff_of_ne_eq valid nofun

theorem compareJson_gt_iff :
    compareJson value literal = some .gt ↔
      compareExact value literal = some .gt ∧ ¬Blurred value literal :=
  compareJson_iff_of_ne_eq valid nofun

end

/-! ## Values in order -/

/-- The results of comparing a value and a larger one with the same thing. -/
structure Ascending (less greater : Ordering) : Prop where
  gt : less = .gt → greater = .gt
  ne_lt : less ≠ .lt → greater ≠ .lt

namespace Ascending

variable {less greater : Ordering} (ascending : Ascending less greater)
include ascending

theorem lt (same : greater = .lt) : less = .lt := by
  by_contra ne
  exact ascending.ne_lt ne same

theorem ne_gt (ne : greater ≠ .gt) : less ≠ .gt :=
  fun same => ne (ascending.gt same)

end Ascending

theorem ascending_compare {α : Type} [LinearOrder α] {less greater : α} (le : less ≤ greater)
    (bound : α) : Ascending (compare less bound) (compare greater bound) := by
  constructor
  · rw [compare_gt_iff_gt, compare_gt_iff_gt]
    exact le.trans_lt'
  · rw [compare_ge_iff_ge, compare_ge_iff_ge]
    exact le.trans'

/-- A literal that one of two ordered values is compared with is compared with both. -/
theorem ascending_compareExact (le : low.Le high) (literal : Literal) :
    compareExact low literal = none ∧ compareExact high literal = none ∨
      ∃ less greater, compareExact low literal = some less ∧
        compareExact high literal = some greater ∧ Ascending less greater := by
  cases low with
  | int low =>
      cases high with
      | int high =>
          cases literal with
          | int64 literal => exact .inr ⟨_, _, rfl, rfl, ascending_compare le literal⟩
          | float64 literal =>
              cases literal with
              | none => exact .inl ⟨rfl, rfl⟩
              | some literal =>
                  have le_rational : (low : ℚ) ≤ high := Int.cast_le.mpr le
                  exact .inr ⟨_, _, rfl, rfl, ascending_compare le_rational literal⟩
          | string | bool => exact .inl ⟨rfl, rfl⟩
      | string | bool => exact absurd le id
  | string low =>
      cases high with
      | string high =>
          cases literal with
          | string literal => exact .inr ⟨_, _, rfl, rfl, ascending_compare le literal⟩
          | int64 | float64 | bool => exact .inl ⟨rfl, rfl⟩
      | int | bool => exact absurd le id
  | bool low =>
      cases high with
      | bool high =>
          cases literal with
          | bool literal => exact .inr ⟨_, _, rfl, rfl, ascending_compare le literal⟩
          | int64 | float64 | string => exact .inl ⟨rfl, rfl⟩
      | int | string => exact absurd le id

/-- A value lies between two others. -/
structure Between (low high value : Scalar) : Prop where
  low_le : low.Le value
  le_high : value.Le high

/-- The ends of a range and a value of it compare with a literal in order, if they do. -/
theorem Between.ascending (between : Between low high value) (literal : Literal) :
    (compareExact low literal = none ∧ compareExact value literal = none ∧
      compareExact high literal = none) ∨
      ∃ first middle last, compareExact low literal = some first ∧
        compareExact value literal = some middle ∧ compareExact high literal = some last ∧
        Ascending first middle ∧ Ascending middle last := by
  rcases ascending_compareExact between.low_le literal with ⟨low_none, value_none⟩ |
    ⟨first, middle, low_eq, value_eq, lower⟩
  · left
    rcases ascending_compareExact between.le_high literal with ⟨-, high_none⟩ |
      ⟨middle, last, value_eq, -, -⟩
    · exact ⟨low_none, value_none, high_none⟩
    · rw [value_none] at value_eq
      cases value_eq
  · right
    rcases ascending_compareExact between.le_high literal with ⟨value_none, -⟩ |
      ⟨other, last, same, high_eq, upper⟩
    · rw [value_none] at value_eq
      cases value_eq
    · rw [value_eq] at same
      obtain rfl := Option.some.inj same
      exact ⟨first, middle, last, low_eq, value_eq, high_eq, lower, upper⟩

end MetadataAggregate

end IcefallDB
