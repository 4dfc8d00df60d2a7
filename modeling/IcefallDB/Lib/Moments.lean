import Mathlib.Algebra.Order.BigOperators.Group.List
import Mathlib.Data.Int.Order.Basic
import Mathlib.Tactic.Linarith

/-!
# Moments of integers in checked arithmetic

Count, sum and sum of squares of a list of integers, computed with operations that fail outside a
symmetric range.  The sum of squares dominates the sum, so it alone decides whether anything fails;
a part of a list fits whenever the list does, and its moments can be subtracted again.
-/

/-- Count, sum and sum of squares. -/
structure Moments where
  count : Nat
  sum : Int
  sumsq : Int
  deriving DecidableEq

namespace Moments

/-- A value inside the range of a signed integer with a bound. -/
def checked (bound value : Int) : Option Int :=
  if -bound ≤ value ∧ value < bound then some value else none

theorem checked_eq_some {bound value : Int} (low : -bound ≤ value) (high : value < bound) :
    checked bound value = some value :=
  if_pos ⟨low, high⟩

theorem eq_of_checked {bound value result : Int} (found : checked bound value = some result) :
    result = value := by
  unfold checked at found
  split at found
  · exact (Option.some.inj found).symm
  · cases found

/-- Take in one value. -/
def add (bound : Int) (moments : Moments) (value : Int) : Option Moments := do
  let sum ← checked bound (moments.sum + value)
  let square ← checked bound (value * value)
  let sumsq ← checked bound (moments.sumsq + square)
  some { count := moments.count + 1, sum, sumsq }

/-- Moments of a list, unless an operation fails. -/
def ofList (bound : Int) (values : List Int) : Option Moments :=
  values.foldlM (add bound) { count := 0, sum := 0, sumsq := 0 }

/-- Sum of the squares of a list. -/
def squares (values : List Int) : Int :=
  (values.map fun value => value * value).sum

@[simp]
theorem squares_nil : squares [] = 0 := rfl

@[simp]
theorem squares_cons (value : Int) (values : List Int) :
    squares (value :: values) = value * value + squares values := by
  simp [squares]

theorem squares_nonneg (values : List Int) : 0 ≤ squares values := by
  induction values with
  | nil => exact Int.le_refl 0
  | cons value values ih =>
      rw [squares_cons]
      have square := mul_self_nonneg value
      omega

theorem squares_append (left right : List Int) :
    squares (left ++ right) = squares left + squares right := by
  simp [squares]

theorem neg_square_le (value : Int) : -(value * value) ≤ value := by
  rcases Int.le_total 0 value with nonneg | nonpos
  · have square := mul_self_nonneg value
    omega
  · nlinarith

theorem le_square (value : Int) : value ≤ value * value := by
  rcases Int.le_total value 0 with nonpos | nonneg
  · have square := mul_self_nonneg value
    omega
  · rcases nonneg.eq_or_lt with zero | positive
    · simp [← zero]
    · nlinarith

/-- A sum is at most the sum of squares. -/
theorem sum_bounds (values : List Int) :
    -squares values ≤ values.sum ∧ values.sum ≤ squares values := by
  induction values with
  | nil => simp
  | cons value values ih =>
      rw [squares_cons, List.sum_cons]
      have below := neg_square_le value
      have above := le_square value
      omega

theorem squares_perm {left right : List Int} (perm : left.Perm right) :
    squares left = squares right :=
  (perm.map _).sum_eq

/-- From moments whose sum of squares dominates, only the sum of squares can leave the range. -/
theorem foldlM_add (bound : Int) (values : List Int) (start : Moments)
    (low : -start.sumsq ≤ start.sum) (high : start.sum ≤ start.sumsq) (fits : start.sumsq < bound) :
    values.foldlM (add bound) start =
      if start.sumsq + squares values < bound then
        some { count := start.count + values.length, sum := start.sum + values.sum,
               sumsq := start.sumsq + squares values }
      else none := by
  induction values generalizing start with
  | nil => simp [fits]
  | cons value values ih =>
      have square := mul_self_nonneg value
      have below := neg_square_le value
      have above := le_square value
      have rest := squares_nonneg values
      rw [List.foldlM_cons, squares_cons, List.sum_cons, List.length_cons]
      by_cases inside : start.sumsq + value * value < bound
      · have added : add bound start value = some
            { count := start.count + 1, sum := start.sum + value,
              sumsq := start.sumsq + value * value } := by
          have sum_fits := checked_eq_some (by omega : -bound ≤ start.sum + value) (by omega)
          have square_fits := checked_eq_some (by omega : -bound ≤ value * value) (by omega)
          have sumsq_fits := checked_eq_some
            (by omega : -bound ≤ start.sumsq + value * value) inside
          simp [add, sum_fits, square_fits, sumsq_fits]
        rw [added, Option.bind_eq_bind, Option.bind_some, ih _ (by simp only; omega)
          (by simp only; omega) inside]
        simp only [Int.add_assoc, Nat.add_assoc, Nat.add_comm 1]
      · have outside : add bound start value = none := by
          rw [add]
          cases checked bound (start.sum + value) with
          | none => rfl
          | some sum =>
              cases squared : checked bound (value * value) with
              | none => rfl
              | some result =>
                  rw [eq_of_checked squared]
                  have failed : checked bound (start.sumsq + value * value) = none :=
                    if_neg fun range => inside range.2
                  simp [failed]
        rw [outside, if_neg (by omega)]
        rfl

theorem ofList_eq {bound : Int} (positive : 0 < bound) (values : List Int) :
    ofList bound values =
      if squares values < bound then
        some { count := values.length, sum := values.sum, sumsq := squares values }
      else none := by
  rw [ofList, foldlM_add bound values _ (by simp) (by simp) positive]
  simp

/-- A value or nothing from a list that splits into two. -/
theorem sub_of_perm {values removed kept : List Int} (perm : values.Perm (removed ++ kept)) :
    values.sum - removed.sum = kept.sum ∧ squares values - squares removed = squares kept ∧
      values.length - removed.length = kept.length := by
  refine ⟨?_, ?_, ?_⟩
  · rw [perm.sum_eq, List.sum_append]
    omega
  · rw [squares_perm perm, squares_append]
    omega
  · rw [perm.length_eq, List.length_append]
    omega

end Moments
