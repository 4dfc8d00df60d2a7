import Mathlib.Data.Int.Log
import Mathlib.Data.Rat.Floor
import Mathlib.Order.WithBot
import Mathlib.Tactic.Linarith
import Mathlib.Tactic.Ring

/-!
# Conversions between numeric types

Truncation to integers and rounding to a float format leave no value of the target type between a
value and what it becomes.  This alone decides when a conversion may move from one side of a
comparison to the other.
-/

/-! ## Conversions that skip no target -/

/-- No target lies between a value and what it is converted to. -/
structure Adjacent {α : Type} [LinearOrder α] (targets : Set α) (value converted : α) : Prop where
  le : ∀ target ∈ targets, value < target → converted ≤ target
  ge : ∀ target ∈ targets, target < value → target ≤ converted
  fixes : value ∈ targets → converted = value

namespace Adjacent

section

variable {α : Type} [LinearOrder α] {targets : Set α} {value converted target : α}

theorem compare_of_ne (adjacent : Adjacent targets value converted) (member : target ∈ targets)
    (ne : converted ≠ target) : compare converted target = compare value target := by
  rcases lt_trichotomy value target with less | equal | greater
  · have lt := (adjacent.le target member less).lt_of_ne ne
    rw [compare_lt_iff_lt.mpr less, compare_lt_iff_lt.mpr lt]
  · subst equal
    exact absurd (adjacent.fixes member) ne
  · have gt := (adjacent.ge target member greater).lt_of_ne ne.symm
    rw [compare_gt_iff_gt.mpr greater, compare_gt_iff_gt.mpr gt]

/-- A comparison after converting the left side agrees with one after converting the right side,
unless exactly one of the conversions makes the sides equal and this makes a difference. -/
theorem compare_iff {lefts rights : Set α} {left right leftTo rightTo : α}
    (left_adjacent : Adjacent rights left leftTo) (right_mem : right ∈ rights)
    (right_adjacent : Adjacent lefts right rightTo) (left_mem : left ∈ lefts)
    (holds : Ordering → Bool) :
    holds (compare leftTo right) = holds (compare left rightTo) ↔
      (leftTo = right ↔ left = rightTo) ∨ holds (compare left right) = holds .eq := by
  have left_eq := left_adjacent.compare_of_ne right_mem
  have right_eq : left ≠ rightTo → compare left rightTo = compare left right := by
    intro ne
    calc
      compare left rightTo = (compare rightTo left).swap := Std.OrientedOrd.eq_swap
      _ = (compare right left).swap := by rw [right_adjacent.compare_of_ne left_mem ne.symm]
      _ = compare left right := Std.OrientedOrd.eq_swap.symm
  by_cases left_meets : leftTo = right
  · by_cases right_meets : left = rightTo
    · simp [left_meets, right_meets]
    · simp [left_meets, right_meets, right_eq, eq_comm]
  · by_cases right_meets : left = rightTo
    · simp [left_meets, right_meets, left_eq]
    · simp [left_meets, right_meets, left_eq, right_eq]

end

end Adjacent

/-! ## Extended rationals -/

/-- Rational numbers and two infinities. -/
abbrev Extended : Type :=
  WithBot (WithTop ℚ)

/-- A rational number. -/
def Extended.finite (value : ℚ) : Extended :=
  ((value : WithTop ℚ) : Extended)

namespace Extended

theorem finite_lt {left right : ℚ} : finite left < finite right ↔ left < right := by
  rw [finite, finite, WithBot.coe_lt_coe, WithTop.coe_lt_coe]

theorem finite_le {left right : ℚ} : finite left ≤ finite right ↔ left ≤ right := by
  rw [finite, finite, WithBot.coe_le_coe, WithTop.coe_le_coe]

theorem finite_inj {left right : ℚ} : finite left = finite right ↔ left = right := by
  rw [finite, finite, WithBot.coe_inj, WithTop.coe_inj]

theorem finite_lt_top (value : ℚ) : finite value < ⊤ :=
  WithBot.coe_lt_coe.mpr (WithTop.coe_lt_top value)

theorem bot_lt_finite (value : ℚ) : ⊥ < finite value :=
  WithBot.bot_lt_coe _

/-- An extended rational is finite or one of the infinities. -/
theorem cases (value : Extended) : value = ⊥ ∨ value = ⊤ ∨ ∃ rational, value = finite rational := by
  induction value using WithBot.recBotCoe with
  | bot => exact .inl rfl
  | coe value =>
      induction value using WithTop.recTopCoe with
      | top => exact .inr (.inl rfl)
      | coe rational => exact .inr (.inr ⟨rational, rfl⟩)

end Extended

/-! ## Integers -/

open Extended

/-- Integers of some width with a sign. -/
def integersOf (width : Nat) : Set Extended :=
  {value | ∃ number : ℤ, value = finite number ∧ -2 ^ (width - 1) ≤ number ∧ number < 2 ^ (width - 1)}

/-- The integer next to a rational number in the direction of zero. -/
def truncate (value : ℚ) : ℤ :=
  if 0 ≤ value then ⌊value⌋ else ⌈value⌉

theorem truncate_le {value : ℚ} {number : ℤ} (less : value < number) : truncate value ≤ number := by
  rw [truncate]
  split
  · exact (Int.floor_lt.mpr less).le
  · exact Int.ceil_le.mpr less.le

theorem le_truncate {value : ℚ} {number : ℤ} (less : number < value) : number ≤ truncate value := by
  rw [truncate]
  split
  · exact Int.le_floor.mpr less.le
  · exact (Int.lt_ceil.mpr less).le

@[simp]
theorem truncate_intCast (number : ℤ) : truncate number = number := by
  rw [truncate, Int.floor_intCast, Int.ceil_intCast, ite_self]

/-- Convert to an integer of some width, if it fits. -/
def toInteger (width : Nat) (value : Extended) : Option Extended :=
  match value with
  | some (some rational) =>
      if -2 ^ (width - 1) ≤ truncate rational ∧ truncate rational < 2 ^ (width - 1) then
        some (finite (truncate rational))
      else none
  | _ => none

theorem toInteger_finite (width : Nat) (value : ℚ) :
    toInteger width (finite value) =
      if -2 ^ (width - 1) ≤ truncate value ∧ truncate value < 2 ^ (width - 1) then
        some (finite (truncate value))
      else none := rfl

theorem adjacent_toInteger {width : Nat} {value converted : Extended}
    (fits : toInteger width value = some converted) :
    Adjacent (integersOf width) value converted := by
  rcases Extended.cases value with rfl | rfl | ⟨rational, rfl⟩
  · cases fits
  · cases fits
  · rw [toInteger_finite] at fits
    split at fits
    · next inside =>
        cases fits
        constructor
        · rintro target ⟨number, rfl, -, -⟩ less
          exact finite_le.mpr (Int.cast_le.mpr (truncate_le (finite_lt.mp less)))
        · rintro target ⟨number, rfl, -, -⟩ less
          exact finite_le.mpr (Int.cast_le.mpr (le_truncate (finite_lt.mp less)))
        · rintro ⟨number, same, -, -⟩
          rw [finite_inj.mp same, truncate_intCast]
    · cases fits
