import IcefallDB.Lib.Conversion
import Mathlib.Algebra.Order.Field.Power
import Mathlib.Tactic.FieldSimp
import Mathlib.Tactic.Positivity

/-!
# Rounding to binary float formats

Rational numbers are rounded to the nearest multiple of the last place, with ties to even, and
become infinite beyond the largest exponent.
-/

/-- A binary format: significant bits and the range of exponents. -/
structure FloatFormat where
  precision : Nat
  minExponent : ℤ
  maxExponent : ℤ

/-- The nearest integer, or the even one of two. -/
def roundEven (value : ℚ) : ℤ :=
  if value - ⌊value⌋ < 1 / 2 ∨ value - ⌊value⌋ = 1 / 2 ∧ ⌊value⌋ % 2 = 0 then ⌊value⌋
  else ⌊value⌋ + 1

theorem floor_le_roundEven (value : ℚ) : ⌊value⌋ ≤ roundEven value := by
  rw [roundEven]
  split <;> omega

theorem roundEven_le_floor (value : ℚ) : roundEven value ≤ ⌊value⌋ + 1 := by
  rw [roundEven]
  split <;> omega

@[simp]
theorem roundEven_intCast (number : ℤ) : roundEven number = number := by
  rw [roundEven, Int.floor_intCast, sub_self, if_pos (.inl (by norm_num))]

theorem roundEven_le {value : ℚ} {number : ℤ} (le : value ≤ number) : roundEven value ≤ number := by
  rcases le.lt_or_eq with less | rfl
  · have below := Int.floor_lt.mpr less
    have near := roundEven_le_floor value
    omega
  · exact (roundEven_intCast number).le

theorem le_roundEven {value : ℚ} {number : ℤ} (le : number ≤ value) : number ≤ roundEven value :=
  (Int.le_floor.mpr le).trans (floor_le_roundEven value)

theorem roundEven_mono {left right : ℚ} (le : left ≤ right) : roundEven left ≤ roundEven right := by
  rcases (Int.floor_le_floor le).lt_or_eq with less | same
  · have above := roundEven_le_floor left
    have below := floor_le_roundEven right
    omega
  · rw [roundEven, roundEven, same]
    -- with one floor the remainders are ordered as the numbers are
    have remainder_le : left - ⌊right⌋ ≤ right - ⌊right⌋ := sub_le_sub_right le _
    split
    · split <;> omega
    · next beyond =>
        rw [if_neg]
        intro near
        apply beyond
        rcases remainder_le.lt_or_eq with less | equal
        · rcases near with small | ⟨half, -⟩
          · exact .inl (less.trans small)
          · exact .inl (less.trans_eq half)
        · rwa [equal]

namespace FloatFormat

open Extended

variable (format : FloatFormat)

/-- Exponent of the leading place of a rational number in a format. -/
def leading (value : ℚ) : ℤ :=
  max format.minExponent (Int.log 2 |value|)

/-- Weight of the last place of a rational number in a format. -/
def place (value : ℚ) : ℚ :=
  2 ^ (format.leading value - (format.precision - 1))

/-- The nearest multiple of the last place. -/
def roundFinite (value : ℚ) : ℚ :=
  roundEven (value / format.place value) * format.place value

/-- The least power of two that is too large. -/
def bound : ℚ :=
  2 ^ (format.maxExponent + 1)

/-- Round to a format. -/
def round (value : Extended) : Extended :=
  match value with
  | some (some rational) =>
      let rounded := format.roundFinite rational
      if format.bound ≤ rounded then ⊤
      else if rounded ≤ -format.bound then ⊥
      else finite rounded
  | infinity => infinity

/-- A rational number of a format. -/
structure Represents (value : ℚ) : Prop where
  small : |value| < format.bound
  scaled : ∃ significand exponent : ℤ, |significand| < 2 ^ format.precision ∧
    format.minExponent - (format.precision - 1) ≤ exponent ∧ value = significand * 2 ^ exponent

/-- Values of a format. -/
def values : Set Extended :=
  {value | ∀ rational, value = finite rational → format.Represents rational}

variable {format} {value target : ℚ}

theorem place_pos (value : ℚ) : 0 < format.place value :=
  zpow_pos (by norm_num) _

theorem round_finite (value : ℚ) :
    format.round (finite value) =
      if format.bound ≤ format.roundFinite value then ⊤
      else if format.roundFinite value ≤ -format.bound then ⊥
      else finite (format.roundFinite value) := rfl

theorem round_of_small (small : |format.roundFinite value| < format.bound) :
    format.round (finite value) = finite (format.roundFinite value) := by
  obtain ⟨above, below⟩ := abs_lt.mp small
  rw [round_finite, if_neg below.not_ge, if_neg above.not_ge]

/-! ## Multiples of the last place -/

theorem roundFinite_le {number : ℤ} (le : value ≤ number * format.place value) :
    format.roundFinite value ≤ number * format.place value := by
  have scaled : value / format.place value ≤ number := (div_le_iff₀ (place_pos value)).mpr le
  have rounded : (roundEven (value / format.place value) : ℚ) ≤ number :=
    Int.cast_le.mpr (roundEven_le scaled)
  exact mul_le_mul_of_nonneg_right rounded (place_pos value).le

theorem le_roundFinite {number : ℤ} (le : number * format.place value ≤ value) :
    number * format.place value ≤ format.roundFinite value := by
  have scaled : (number : ℚ) ≤ value / format.place value := (le_div_iff₀ (place_pos value)).mpr le
  have rounded : (number : ℚ) ≤ roundEven (value / format.place value) :=
    Int.cast_le.mpr (le_roundEven scaled)
  exact mul_le_mul_of_nonneg_right rounded (place_pos value).le

@[simp]
theorem roundFinite_zero : format.roundFinite 0 = 0 := by
  have zero : roundEven 0 = 0 := roundEven_intCast 0
  rw [roundFinite, zero_div, zero, Int.cast_zero, zero_mul]

theorem abs_scaled_lt {significand : ℤ} (few : |significand| < 2 ^ format.precision)
    (exponent : ℤ) :
    |(significand : ℚ) * 2 ^ exponent| < 2 ^ (exponent + format.precision : ℤ) := by
  have few_rational : |(significand : ℚ)| < 2 ^ format.precision := by exact_mod_cast few
  have power_pos : (0 : ℚ) < 2 ^ exponent := zpow_pos two_pos exponent
  calc
    |(significand : ℚ) * 2 ^ exponent| = |(significand : ℚ)| * 2 ^ exponent := by
      rw [abs_mul, abs_of_pos power_pos]
    _ < 2 ^ format.precision * 2 ^ exponent := mul_lt_mul_of_pos_right few_rational power_pos
    _ = 2 ^ (exponent + format.precision : ℤ) := by
      rw [zpow_add₀ two_ne_zero, zpow_natCast, mul_comm]

/-- A value of the format is a multiple of the last place of a number, or below its leading place. -/
theorem Represents.multiple_or_lt (represents : format.Represents target) (value : ℚ) :
    (∃ number : ℤ, target = number * format.place value) ∨
      format.minExponent < format.leading value ∧ |target| < 2 ^ format.leading value := by
  obtain ⟨significand, exponent, few, above, rfl⟩ := represents.scaled
  by_cases high : format.leading value - (format.precision - 1) ≤ exponent
  · left
    obtain ⟨shift, shift_eq⟩ := Int.eq_ofNat_of_zero_le (sub_nonneg.mpr high)
    apply Exists.intro (significand * 2 ^ shift)
    have exponent_eq : exponent =
        shift + (format.leading value - (format.precision - 1)) := by omega
    rw [place, exponent_eq, zpow_add₀ two_ne_zero, zpow_natCast]
    push_cast
    ring
  · right
    constructor
    · omega
    · have low : (exponent + format.precision : ℤ) ≤ format.leading value := by omega
      exact (abs_scaled_lt few exponent).trans_le (zpow_le_zpow_right₀ one_le_two low)

/-- The leading place of a number above the least exponent is a multiple of its last place. -/
theorem two_zpow_leading (precise : 0 < format.precision) (value : ℚ) :
    (2 : ℚ) ^ format.leading value =
      ((2 ^ (format.precision - 1) : ℤ) : ℚ) * format.place value := by
  have exponent_eq : format.leading value =
      ((format.precision - 1 : Nat) : ℤ) + (format.leading value - (format.precision - 1)) := by
    omega
  rw [place, Int.cast_pow, Int.cast_ofNat, ← zpow_natCast, ← zpow_add₀ two_ne_zero, ← exponent_eq]

theorem two_zpow_leading_le (nonzero : value ≠ 0)
    (above : format.minExponent < format.leading value) : 2 ^ format.leading value ≤ |value| := by
  have leading_eq : format.leading value = Int.log 2 |value| := by
    rw [leading] at above ⊢
    omega
  rw [leading_eq]
  exact_mod_cast Int.zpow_log_le_self (by norm_num : 1 < 2) (abs_pos.mpr nonzero)

/-! ## Rounding skips no value of the format -/

theorem roundFinite_of_represents (represents : format.Represents value) :
    format.roundFinite value = value := by
  rcases represents.multiple_or_lt value with ⟨number, multiple⟩ | ⟨above, small⟩
  · apply le_antisymm
    · have rounded := roundFinite_le multiple.le
      rwa [← multiple] at rounded
    · have rounded := le_roundFinite multiple.ge
      rwa [← multiple] at rounded
  · by_cases zero : value = 0
    · rw [zero, roundFinite_zero]
    · exact absurd (two_zpow_leading_le zero above) small.not_ge

section

variable (precise : 0 < format.precision)
include precise

theorem roundFinite_le_of_lt (represents : format.Represents target) (less : value < target) :
    format.roundFinite value ≤ target := by
  rcases represents.multiple_or_lt value with ⟨number, multiple⟩ | ⟨above, small⟩
  · rw [multiple] at less ⊢
    exact roundFinite_le less.le
  · by_cases zero : value = 0
    · subst zero
      rw [roundFinite_zero]
      exact less.le
    · have large := two_zpow_leading_le zero above
      have target_gt := neg_lt_of_abs_lt small
      -- a value that is not below the leading place lies beyond the target on the left
      have below : value ≤ -2 ^ format.leading value := by
        rcases le_abs.mp large with right | left
        · have target_lt := lt_of_abs_lt small
          linarith
        · linarith
      rw [two_zpow_leading precise, ← neg_mul, ← Int.cast_neg] at below
      have rounded := roundFinite_le below
      rw [Int.cast_neg, neg_mul, ← two_zpow_leading precise] at rounded
      linarith

theorem le_roundFinite_of_lt (represents : format.Represents target) (less : target < value) :
    target ≤ format.roundFinite value := by
  rcases represents.multiple_or_lt value with ⟨number, multiple⟩ | ⟨above, small⟩
  · rw [multiple] at less ⊢
    exact le_roundFinite less.le
  · by_cases zero : value = 0
    · subst zero
      rw [roundFinite_zero]
      exact less.le
    · have large := two_zpow_leading_le zero above
      have target_lt := lt_of_abs_lt small
      -- a value that is not below the leading place lies beyond the target on the right
      have beyond : 2 ^ format.leading value ≤ value := by
        rcases le_abs.mp large with right | left
        · exact right
        · have target_gt := neg_lt_of_abs_lt small
          linarith
      rw [two_zpow_leading precise] at beyond
      have rounded := le_roundFinite beyond
      rw [← two_zpow_leading precise] at rounded
      linarith

theorem adjacent_round (value : Extended) : Adjacent format.values value (format.round value) := by
  rcases Extended.cases value with rfl | rfl | ⟨rational, rfl⟩
  · exact ⟨fun target _ _ => bot_le, fun target _ less => absurd less not_lt_bot, fun _ => rfl⟩
  · exact ⟨fun target _ less => absurd less not_top_lt, fun target _ _ => le_top, fun _ => rfl⟩
  · rw [round_finite]
    constructor
    · intro target member less
      rcases Extended.cases target with rfl | rfl | ⟨goal, rfl⟩
      · exact absurd less not_lt_bot
      · exact le_top
      · have represents := member goal rfl
        have le := roundFinite_le_of_lt precise represents (finite_lt.mp less)
        have bounded := (abs_lt.mp represents.small).2
        rw [if_neg (le.trans_lt bounded).not_ge]
        split
        · exact bot_le
        · exact finite_le.mpr le
    · intro target member less
      rcases Extended.cases target with rfl | rfl | ⟨goal, rfl⟩
      · exact bot_le
      · exact absurd less not_top_lt
      · have represents := member goal rfl
        have le := le_roundFinite_of_lt precise represents (finite_lt.mp less)
        have bounded := (abs_lt.mp represents.small).1
        split
        · exact le_top
        · rw [if_neg (bounded.trans_le le).not_ge]
          exact finite_le.mpr le
    · intro member
      have represents := member rational rfl
      have bounded := abs_lt.mp represents.small
      rw [roundFinite_of_represents represents, if_neg bounded.2.not_ge,
        if_neg bounded.1.not_ge]

end

/-! ## Rounding keeps the order -/

/-- A power of two above the leading place is a multiple of the last place. -/
theorem two_zpow_multiple {exponent : ℤ} (precise : 0 < format.precision)
    (above : format.leading value ≤ exponent) :
    ∃ number : ℤ, (2 : ℚ) ^ exponent = number * format.place value := by
  obtain ⟨shift, shift_eq⟩ := Int.eq_ofNat_of_zero_le (sub_nonneg.mpr above)
  apply Exists.intro (2 ^ shift * 2 ^ (format.precision - 1))
  have exponent_eq : exponent = shift + format.leading value := by omega
  rw [exponent_eq, zpow_add₀ two_ne_zero, two_zpow_leading precise, zpow_natCast]
  push_cast
  ring

theorem abs_lt_two_zpow {exponent : ℤ} (below : format.leading value < exponent) :
    |value| < 2 ^ exponent := by
  have log_lt : Int.log 2 |value| < exponent := (le_max_right _ _).trans_lt below
  have next : |value| < ((2 : Nat) : ℚ) ^ (Int.log 2 |value| + 1) :=
    Int.lt_zpow_succ_log_self (by decide) _
  rw [Nat.cast_ofNat] at next
  exact next.trans_le (zpow_le_zpow_right₀ one_le_two log_lt)

theorem roundFinite_nonneg (nonneg : 0 ≤ value) : 0 ≤ format.roundFinite value := by
  have zero_le : ((0 : ℤ) : ℚ) * format.place value ≤ value := by rwa [Int.cast_zero, zero_mul]
  have rounded := le_roundFinite zero_le
  rwa [Int.cast_zero, zero_mul] at rounded

theorem roundFinite_nonpos (nonpos : value ≤ 0) : format.roundFinite value ≤ 0 := by
  have le_zero : value ≤ ((0 : ℤ) : ℚ) * format.place value := by rwa [Int.cast_zero, zero_mul]
  have rounded := roundFinite_le le_zero
  rwa [Int.cast_zero, zero_mul] at rounded

section

variable (precise : 0 < format.precision) {exponent : ℤ}
include precise

theorem roundFinite_le_two_zpow (above : format.leading value ≤ exponent) (le : value ≤ 2 ^ exponent) :
    format.roundFinite value ≤ 2 ^ exponent := by
  obtain ⟨number, multiple⟩ := two_zpow_multiple precise above
  rw [multiple] at le ⊢
  exact roundFinite_le le

theorem two_zpow_le_roundFinite (above : format.leading value ≤ exponent) (le : 2 ^ exponent ≤ value) :
    2 ^ exponent ≤ format.roundFinite value := by
  obtain ⟨number, multiple⟩ := two_zpow_multiple precise above
  rw [multiple] at le ⊢
  exact le_roundFinite le

theorem roundFinite_le_neg_two_zpow (above : format.leading value ≤ exponent)
    (le : value ≤ -2 ^ exponent) : format.roundFinite value ≤ -2 ^ exponent := by
  obtain ⟨number, multiple⟩ := two_zpow_multiple precise above
  rw [multiple, ← neg_mul, ← Int.cast_neg] at le ⊢
  exact roundFinite_le le

theorem neg_two_zpow_le_roundFinite (above : format.leading value ≤ exponent)
    (le : -2 ^ exponent ≤ value) : -2 ^ exponent ≤ format.roundFinite value := by
  obtain ⟨number, multiple⟩ := two_zpow_multiple precise above
  rw [multiple, ← neg_mul, ← Int.cast_neg] at le ⊢
  exact le_roundFinite le

/-- Rounding keeps the order: numbers with one last place are rounded alike, and otherwise a power of
two lies between. -/
theorem roundFinite_mono {left right : ℚ} (le : left ≤ right) :
    format.roundFinite left ≤ format.roundFinite right := by
  by_cases left_zero : left = 0
  · subst left_zero
    rw [roundFinite_zero]
    exact roundFinite_nonneg le
  by_cases right_zero : right = 0
  · subst right_zero
    rw [roundFinite_zero]
    exact roundFinite_nonpos le
  rcases lt_trichotomy (format.leading left) (format.leading right) with less | same | greater
  · have small := abs_lt.mp (abs_lt_two_zpow less)
    have large := two_zpow_leading_le right_zero ((le_max_left _ _).trans_lt less)
    have beyond : 2 ^ format.leading right ≤ right := by
      rcases le_abs.mp large with positive | negative
      · exact positive
      · linarith
    exact (roundFinite_le_two_zpow precise less.le small.2.le).trans
      (two_zpow_le_roundFinite precise le_rfl beyond)
  · have place_eq : format.place left = format.place right := by rw [place, place, same]
    have scaled : left / format.place right ≤ right / format.place right :=
      div_le_div_of_nonneg_right le (place_pos right).le
    rw [roundFinite, roundFinite, place_eq]
    exact mul_le_mul_of_nonneg_right (Int.cast_le.mpr (roundEven_mono scaled)) (place_pos right).le
  · have small := abs_lt.mp (abs_lt_two_zpow greater)
    have large := two_zpow_leading_le left_zero ((le_max_left _ _).trans_lt greater)
    have beyond : left ≤ -2 ^ format.leading left := by
      rcases le_abs.mp large with positive | negative
      · linarith
      · linarith
    exact (roundFinite_le_neg_two_zpow precise le_rfl beyond).trans
      (neg_two_zpow_le_roundFinite precise greater.le small.1.le)

theorem round_mono {left right : Extended} (le : left ≤ right) :
    format.round left ≤ format.round right := by
  rcases Extended.cases left with rfl | rfl | ⟨low, rfl⟩
  · exact bot_le
  · rw [top_le_iff.mp le]
  · rcases Extended.cases right with rfl | rfl | ⟨high, rfl⟩
    · exact absurd le (bot_lt_finite low).not_ge
    · exact le_top
    · have rounded := roundFinite_mono precise (finite_le.mp le)
      rw [round_finite, round_finite]
      split
      · next large => rw [if_pos (large.trans rounded)]
      · split
        · exact bot_le
        · next not_large not_small =>
            split
            · exact le_top
            · rw [if_neg fun small => not_small (rounded.trans small)]
              exact finite_le.mpr rounded

end

/-- Short significands with a moderate exponent are in the format. -/
theorem represents_mul_zpow {significand exponent : ℤ} (few : |significand| < 2 ^ format.precision)
    (low : format.minExponent - (format.precision - 1) ≤ exponent)
    (high : exponent + format.precision ≤ format.maxExponent + 1) :
    format.Represents (significand * 2 ^ exponent) := by
  constructor
  · exact (abs_scaled_lt few exponent).trans_le (zpow_le_zpow_right₀ one_le_two high)
  · exact ⟨significand, exponent, few, low, rfl⟩

end FloatFormat
