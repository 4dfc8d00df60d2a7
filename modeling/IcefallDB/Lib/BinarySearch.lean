import Mathlib.Data.Nat.Init
import Mathlib.Order.Basic

/-!
# Halving an interval

A search for the last index of an interval at which a test still holds compares with the middle of
the interval and goes on in one of the halves.  Which index it settles on depends on the tests at
the halving points of the way there only.  A search for an index that compares as equal can end
early.
-/

namespace BinarySearch

/-- The middle of an interval. -/
def middle (lo hi : Nat) : Nat :=
  lo + (hi - lo) / 2

theorem lt_middle {lo hi : Nat} (wide : lo + 1 < hi) : lo < middle lo hi := by
  unfold middle
  omega

theorem middle_lt {lo hi : Nat} (wide : lo + 1 < hi) : middle lo hi < hi := by
  unfold middle
  omega

/-- The index that the search settles on. -/
def settle (test : Nat → Bool) (lo hi : Nat) : Nat :=
  if lo + 1 < hi then
    if test (middle lo hi) then settle test (middle lo hi) hi else settle test lo (middle lo hi)
  else lo
termination_by hi - lo
decreasing_by
  · have := lt_middle ‹_›
    omega
  · have := middle_lt ‹_›
    omega

/-- The indexes that the search compares with on the way to an index. -/
def halvingPoints (lo hi index : Nat) : List Nat :=
  if lo + 1 < hi then
    middle lo hi ::
      if middle lo hi ≤ index then halvingPoints (middle lo hi) hi index
      else halvingPoints lo (middle lo hi) index
  else []
termination_by hi - lo
decreasing_by
  · have := lt_middle ‹_›
    omega
  · have := middle_lt ‹_›
    omega

variable {test : Nat → Bool} {lo hi : Nat}

theorem le_settle (test : Nat → Bool) (nonempty : lo < hi) :
    lo ≤ settle test lo hi ∧ settle test lo hi < hi := by
  fun_induction settle test lo hi with
  | case1 lo hi wide holds ih =>
      have inside := lt_middle wide
      have := ih (middle_lt wide)
      omega
  | case2 lo hi wide fails ih =>
      have inside := middle_lt wide
      have := ih (lt_middle wide)
      omega
  | case3 lo hi narrow => omega

/-- The search settles on an index just if the tests at its halving points point there. -/
theorem settle_eq_iff {index : Nat} (above : lo ≤ index) (below : index < hi) :
    settle test lo hi = index ↔
      ∀ point ∈ halvingPoints lo hi index, test point = true ↔ point ≤ index := by
  fun_induction settle test lo hi with
  | case1 lo hi wide holds ih =>
      rw [halvingPoints, if_pos wide, List.forall_mem_cons]
      by_cases right : middle lo hi ≤ index
      · rw [ih right below, if_pos right]
        simp [holds, right]
      · have settled := le_settle test (middle_lt wide)
        constructor
        · intro equal
          omega
        · rintro ⟨first, -⟩
          exact absurd (first.mp holds) right
  | case2 lo hi wide fails ih =>
      rw [halvingPoints, if_pos wide, List.forall_mem_cons]
      by_cases right : middle lo hi ≤ index
      · have settled := le_settle test (lt_middle wide)
        constructor
        · intro equal
          omega
        · rintro ⟨first, -⟩
          exact absurd (first.mpr right) (by simp [fails])
      · rw [ih above (Nat.lt_of_not_le right), if_neg right]
        simp [fails, right]
  | case3 lo hi narrow =>
      rw [halvingPoints, if_neg narrow]
      simp only [List.not_mem_nil, false_implies, implies_true, iff_true]
      omega

/-- If the test holds up to some index and then no more, the search settles on the last index at
which it holds, or else on the first index. -/
theorem settle_of_monotone (nonempty : lo < hi)
    (falls : ∀ first second, first ≤ second → second < hi → test second = true →
      test first = true) :
    (∀ index, settle test lo hi < index → index < hi → test index = false) ∧
      (lo < settle test lo hi → test (settle test lo hi) = true) := by
  fun_induction settle test lo hi with
  | case1 lo hi wide holds ih =>
      obtain ⟨after, found⟩ := ih (middle_lt wide) falls
      refine ⟨after, fun _ => ?_⟩
      have settled := le_settle test (middle_lt wide)
      rcases Nat.eq_or_lt_of_le settled.1 with same | inside
      · rw [← same]
        exact holds
      · exact found inside
  | case2 lo hi wide fails ih =>
      have inside := middle_lt wide
      obtain ⟨after, found⟩ := ih (lt_middle wide) fun first second le below =>
        falls first second le (Nat.lt_trans below inside)
      refine ⟨fun index past below => ?_, found⟩
      rcases Nat.lt_or_ge index (middle lo hi) with before | beyond
      · exact after index past before
      · by_contra holds
        exact fails (falls _ _ beyond below (by simpa using holds))
  | case3 lo hi narrow =>
      refine ⟨fun index past below => ?_, fun past => ?_⟩
      · omega
      · omega

/-! ## Three-way comparisons -/

theorem middle_lt_of_lt {lo hi : Nat} (nonempty : lo < hi) : middle lo hi < hi := by
  unfold middle
  omega

theorem le_middle (lo hi : Nat) : lo ≤ middle lo hi :=
  Nat.le_add_right _ _

/-- The index that compares as equal, if the search meets one.  `lt` leads to smaller indexes. -/
def locate (order : Nat → Ordering) (lo hi : Nat) : Option Nat :=
  if lo < hi then
    match order (middle lo hi) with
    | .eq => some (middle lo hi)
    | .lt => locate order lo (middle lo hi)
    | .gt => locate order (middle lo hi + 1) hi
  else none
termination_by hi - lo
decreasing_by
  · have := middle_lt_of_lt ‹_›
    have := le_middle lo hi
    omega
  · have := le_middle lo hi
    omega

variable {order : Nat → Ordering}

theorem eq_of_locate {index : Nat} (found : locate order lo hi = some index) :
    index < hi ∧ order index = .eq := by
  fun_induction locate order lo hi with
  | case1 lo hi nonempty equal =>
      obtain rfl := Option.some.inj found
      exact ⟨middle_lt_of_lt nonempty, equal⟩
  | case2 lo hi nonempty less ih =>
      obtain ⟨below, equal⟩ := ih found
      exact ⟨Nat.lt_trans below (middle_lt_of_lt nonempty), equal⟩
  | case3 lo hi nonempty greater ih => exact ih found
  | case4 lo hi empty => cases found

/-- The search meets an index if all smaller and larger ones point to it. -/
theorem locate_eq_some {index : Nat} (above : lo ≤ index) (below : index < hi)
    (equal : order index = .eq) (before : ∀ other < index, order other = .gt)
    (after : ∀ other, index < other → other < hi → order other = .lt) :
    locate order lo hi = some index := by
  fun_induction locate order lo hi with
  | case1 lo hi nonempty same =>
      rcases Nat.lt_trichotomy (middle lo hi) index with smaller | rfl | larger
      · rw [before _ smaller] at same
        cases same
      · rfl
      · rw [after _ larger (middle_lt_of_lt nonempty)] at same
        cases same
  | case2 lo hi nonempty less ih =>
      have inside := middle_lt_of_lt nonempty
      apply ih above
      · rcases Nat.lt_trichotomy (middle lo hi) index with smaller | rfl | larger
        · rw [before _ smaller] at less
          cases less
        · rw [equal] at less
          cases less
        · exact larger
      · exact fun other past short => after other past (Nat.lt_trans short inside)
  | case3 lo hi nonempty greater ih =>
      apply ih _ below after
      rcases Nat.lt_trichotomy (middle lo hi) index with smaller | rfl | larger
      · exact smaller
      · rw [equal] at greater
        cases greater
      · rw [after _ larger (middle_lt_of_lt nonempty)] at greater
        cases greater
  | case4 lo hi empty => omega

end BinarySearch
