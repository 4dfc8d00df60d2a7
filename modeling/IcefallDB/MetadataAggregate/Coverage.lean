import IcefallDB.MetadataAggregate.Comparison

/-!
# Coverage of ranges

Statistics classify the range of values between them.  Predicates that cover it cover all its values,
and predicates that are disjoint from it exclude all of them, unless a literal is blurred with one of
the ends.
-/

namespace IcefallDB

namespace MetadataAggregate

/-- The statistics show that all values satisfy all predicates. -/
def fragmentFullyCovered (predicates : List Predicate) (stats : ColumnStats) : Bool :=
  !predicates.isEmpty && predicates.all fun predicate => predicateCovers predicate stats

/-- The statistics show that no value satisfies all predicates. -/
def fragmentDisjoint (predicates : List Predicate) (stats : ColumnStats) : Bool :=
  predicates.any fun predicate => predicateDisjoint predicate stats

theorem fragmentFullyCovered_iff {predicates : List Predicate} {stats : ColumnStats} :
    fragmentFullyCovered predicates stats ↔
      predicates ≠ [] ∧ ∀ predicate ∈ predicates, predicateCovers predicate stats := by
  rw [fragmentFullyCovered, Bool.and_eq_true, List.all_eq_true, Bool.not_eq_true', Bool.eq_false_iff,
    Ne, List.isEmpty_iff]

/-! ## Ranges -/

/-- A value satisfies a predicate.  Any meaning may be given to predicates whose literal is not
compared with the value. -/
def Satisfies (undecided : Predicate → Scalar → Prop) (value : Scalar) (predicate : Predicate) :
    Prop :=
  match compareExact value predicate.value with
  | some ordering => predicate.comparison.holds ordering
  | none => undecided predicate value

/-- The classification says the truth about the values of a range. -/
structure ClassifiesSoundly (undecided : Predicate → Scalar → Prop) (predicates : List Predicate)
    (stats : ColumnStats) (low high : Scalar) : Prop where
  covered : fragmentFullyCovered predicates stats →
    ∀ value, Between low high value → ∀ predicate ∈ predicates, Satisfies undecided value predicate
  disjoint : fragmentDisjoint predicates stats →
    ∀ value, Between low high value →
      ¬∀ predicate ∈ predicates, Satisfies undecided value predicate
  apart : ¬(fragmentFullyCovered predicates stats ∧ fragmentDisjoint predicates stats)

/-- All values of a range satisfy a predicate, and rounding does not hide it. -/
def ClearlyCovers (low high : Scalar) (predicate : Predicate) : Prop :=
  let first := compareExact low predicate.value
  let last := compareExact high predicate.value
  match predicate.comparison with
  | .eq => first = some .eq ∧ last = some .eq
  | .lt => last = some .lt ∧ ¬Blurred high predicate.value
  | .lte => last = some .lt ∨ last = some .eq
  | .gt => first = some .gt ∧ ¬Blurred low predicate.value
  | .gte => first = some .gt ∨ first = some .eq

/-- A literal is blurred with an end of a range that does not satisfy the predicate. -/
def WronglyCovers (low high : Scalar) (predicate : Predicate) : Prop :=
  let first := compareExact low predicate.value
  let last := compareExact high predicate.value
  match predicate.comparison with
  | .eq => Blurred low predicate.value ∧ (last = some .eq ∨ Blurred high predicate.value) ∨
      Blurred high predicate.value ∧ first = some .eq
  | .lte => Blurred high predicate.value ∧ last = some .gt
  | .gte => Blurred low predicate.value ∧ first = some .lt
  | .lt | .gt => False

/-- No value of a range satisfies a predicate, and rounding does not hide it. -/
def ClearlyDisjoint (low high : Scalar) (predicate : Predicate) : Prop :=
  let first := compareExact low predicate.value
  let last := compareExact high predicate.value
  match predicate.comparison with
  | .eq => first = some .gt ∧ ¬Blurred low predicate.value ∨
      last = some .lt ∧ ¬Blurred high predicate.value
  | .lt => first = some .gt ∨ first = some .eq
  | .lte => first = some .gt ∧ ¬Blurred low predicate.value
  | .gt => last = some .lt ∨ last = some .eq
  | .gte => last = some .lt ∧ ¬Blurred high predicate.value

/-- A literal is blurred with an end of a range that satisfies the predicate. -/
def WronglyDisjoint (low high : Scalar) (predicate : Predicate) : Prop :=
  match predicate.comparison with
  | .lt => Blurred low predicate.value ∧ compareExact low predicate.value = some .lt
  | .gt => Blurred high predicate.value ∧ compareExact high predicate.value = some .gt
  | .eq | .lte | .gte => False

section

variable {undecided : Predicate → Scalar → Prop} {predicate : Predicate} {low high value : Scalar}

theorem satisfies_of_compareExact {ordering : Ordering}
    (found : compareExact value predicate.value = some ordering) :
    Satisfies undecided value predicate ↔ predicate.comparison.holds ordering := by
  rw [Satisfies, found]

theorem satisfies_of_clearlyCovers (clear : ClearlyCovers low high predicate)
    (between : Between low high value) : Satisfies undecided value predicate := by
  unfold ClearlyCovers at clear
  rcases between.ascending predicate.value with ⟨low_none, -, high_none⟩ |
    ⟨first, middle, last, low_eq, value_eq, high_eq, lower, upper⟩
  · rw [low_none, high_none] at clear
    cases comparison_eq : predicate.comparison <;> simp [comparison_eq] at clear
  · rw [satisfies_of_compareExact value_eq]
    rw [low_eq, high_eq] at clear
    simp only [Option.some_inj] at clear
    cases comparison_eq : predicate.comparison <;> rw [comparison_eq] at clear
    case eq =>
      have not_lt := lower.ne_lt (clear.1 ▸ nofun)
      have not_gt := upper.ne_gt (clear.2 ▸ nofun)
      cases middle with
      | eq => rfl
      | lt => exact absurd rfl not_lt
      | gt => exact absurd rfl not_gt
    case lt => exact Ordering.isLT_iff_eq_lt.mpr (upper.lt clear.1)
    case lte =>
      apply Ordering.isLE_iff_ne_gt.mpr (upper.ne_gt _)
      rintro rfl
      exact clear.elim nofun nofun
    case gt => exact Ordering.isGT_iff_eq_gt.mpr (lower.gt clear.1)
    case gte =>
      apply Ordering.isGE_iff_ne_lt.mpr (lower.ne_lt _)
      rintro rfl
      exact clear.elim nofun nofun

theorem not_satisfies_of_clearlyDisjoint (clear : ClearlyDisjoint low high predicate)
    (between : Between low high value) : ¬Satisfies undecided value predicate := by
  unfold ClearlyDisjoint at clear
  rcases between.ascending predicate.value with ⟨low_none, -, high_none⟩ |
    ⟨first, middle, last, low_eq, value_eq, high_eq, lower, upper⟩
  · rw [low_none, high_none] at clear
    cases comparison_eq : predicate.comparison <;> simp [comparison_eq] at clear
  · rw [satisfies_of_compareExact value_eq]
    rw [low_eq, high_eq] at clear
    simp only [Option.some_inj] at clear
    cases comparison_eq : predicate.comparison <;> rw [comparison_eq] at clear
    case eq =>
      intro equal
      obtain rfl := Ordering.isEq_iff_eq_eq.mp equal
      rcases clear with ⟨first_gt, -⟩ | ⟨last_lt, -⟩
      · cases lower.gt first_gt
      · cases upper.lt last_lt
    case lt =>
      apply mt Ordering.isLT_iff_eq_lt.mp (lower.ne_lt _)
      rintro rfl
      exact clear.elim nofun nofun
    case lte =>
      intro le
      exact Ordering.isLE_iff_ne_gt.mp le (lower.gt clear.1)
    case gt =>
      apply mt Ordering.isGT_iff_eq_gt.mp (upper.ne_gt _)
      rintro rfl
      exact clear.elim nofun nofun
    case gte =>
      intro ge
      exact Ordering.isGE_iff_ne_lt.mp ge (upper.lt clear.1)

section

variable {stats : ColumnStats} (least : stats.min = some low) (greatest : stats.max = some high)
  (valid : predicate.value.IsValid)
include least greatest valid

/-- A predicate is found to cover the range where it clearly or wrongly does. -/
theorem predicateCovers_iff : predicateCovers predicate stats ↔
    WronglyCovers low high predicate ∨ ClearlyCovers low high predicate := by
  unfold WronglyCovers ClearlyCovers
  rw [predicateCovers, least, greatest]
  cases comparison_eq : predicate.comparison <;>
    simp only [Bool.and_eq_true, Bool.or_eq_true, decide_eq_true_eq, compareJson_eq_iff valid,
      compareJson_lt_iff valid, compareJson_gt_iff valid]
  case eq => tauto
  case lt | gt => tauto
  case lte =>
    have unequal := @compareExact_of_blurred high predicate.value
    tauto
  case gte =>
    have unequal := @compareExact_of_blurred low predicate.value
    tauto

/-- A predicate is found to exclude the range where it clearly or wrongly does. -/
theorem predicateDisjoint_iff : predicateDisjoint predicate stats ↔
    WronglyDisjoint low high predicate ∨ ClearlyDisjoint low high predicate := by
  unfold WronglyDisjoint ClearlyDisjoint
  rw [predicateDisjoint, least, greatest]
  cases comparison_eq : predicate.comparison <;>
    simp only [Bool.or_eq_true, decide_eq_true_eq, compareJson_eq_iff valid,
      compareJson_lt_iff valid, compareJson_gt_iff valid]
  case eq | lte | gte => tauto
  case lt =>
    have unequal := @compareExact_of_blurred low predicate.value
    tauto
  case gt =>
    have unequal := @compareExact_of_blurred high predicate.value
    tauto

end

/-- Some end of a range does not satisfy a predicate that covers it wrongly. -/
theorem exists_not_satisfies_of_wronglyCovers (nonempty : low.Le high)
    (wrong : WronglyCovers low high predicate) :
    ∃ value, Between low high value ∧ ¬Satisfies undecided value predicate := by
  have low_mem : Between low high low := ⟨.refl low, nonempty⟩
  have high_mem : Between low high high := ⟨nonempty, .refl high⟩
  unfold WronglyCovers at wrong
  cases comparison_eq : predicate.comparison <;> rw [comparison_eq] at wrong
  case eq =>
    -- an end that is blurred with the literal differs from it
    have unequal : ∀ value, Blurred value predicate.value →
        ¬Satisfies undecided value predicate := by
      intro value blurred
      rcases compareExact_of_blurred blurred with less | greater
      · rw [satisfies_of_compareExact less, comparison_eq]
        exact nofun
      · rw [satisfies_of_compareExact greater, comparison_eq]
        exact nofun
    rcases wrong with ⟨blurred, -⟩ | ⟨blurred, -⟩
    · exact ⟨low, low_mem, unequal low blurred⟩
    · exact ⟨high, high_mem, unequal high blurred⟩
  case lte =>
    apply Exists.intro high
    rw [satisfies_of_compareExact wrong.2, comparison_eq]
    exact ⟨high_mem, nofun⟩
  case gte =>
    apply Exists.intro low
    rw [satisfies_of_compareExact wrong.2, comparison_eq]
    exact ⟨low_mem, nofun⟩
  case lt | gt => exact absurd wrong id

/-! ## Soundness -/

/-- The classification of a range is sound exactly if a predicate that covers it wrongly stands beside
one that does not cover it at all, and one that excludes it wrongly stands beside predicates that
exclude it together. -/
theorem classifiesSoundly_iff {predicates : List Predicate} {stats : ColumnStats}
    (least : stats.min = some low) (greatest : stats.max = some high) (nonempty : low.Le high)
    (valid : ∀ predicate ∈ predicates, predicate.value.IsValid) :
    ClassifiesSoundly undecided predicates stats low high ↔
      (∀ predicate ∈ predicates, WronglyCovers low high predicate →
        ∃ other ∈ predicates, ¬WronglyCovers low high other ∧ ¬ClearlyCovers low high other) ∧
      ∀ predicate ∈ predicates, WronglyDisjoint low high predicate →
        ∀ value, Between low high value →
          ∃ other ∈ predicates, ¬Satisfies undecided value other := by
  have covers_iff := fun predicate member =>
    predicateCovers_iff least greatest (valid predicate member)
  have disjoint_iff := fun predicate member =>
    predicateDisjoint_iff least greatest (valid predicate member)
  constructor
  · intro sound
    constructor
    · intro predicate member wrong
      by_contra all
      push Not at all
      have covered : fragmentFullyCovered predicates stats := by
        apply fragmentFullyCovered_iff.mpr ⟨List.ne_nil_of_mem member, _⟩
        intro other other_mem
        apply (covers_iff other other_mem).mpr
        by_cases other_wrong : WronglyCovers low high other
        · exact .inl other_wrong
        · exact .inr (all other other_mem other_wrong)
      obtain ⟨value, between, fails⟩ : ∃ value, Between low high value ∧
          ¬Satisfies undecided value predicate :=
        exists_not_satisfies_of_wronglyCovers nonempty wrong
      exact fails (sound.covered covered value between predicate member)
    · intro predicate member wrong value between
      have disjoint : fragmentDisjoint predicates stats :=
        List.any_eq_true.mpr ⟨predicate, member, (disjoint_iff predicate member).mpr (.inl wrong)⟩
      have excluded := sound.disjoint disjoint value between
      push Not at excluded
      exact excluded
  · rintro ⟨covers, excludes⟩
    have covered : fragmentFullyCovered predicates stats → ∀ value, Between low high value →
        ∀ predicate ∈ predicates, Satisfies undecided value predicate := by
      intro shown value between predicate member
      obtain ⟨-, all⟩ := fragmentFullyCovered_iff.mp shown
      rcases (covers_iff predicate member).mp (all predicate member) with wrong | clear
      · obtain ⟨other, other_mem, not_wrong, not_clear⟩ := covers predicate member wrong
        exact ((covers_iff other other_mem).mp (all other other_mem)).elim
          (absurd · not_wrong) (absurd · not_clear)
      · exact satisfies_of_clearlyCovers clear between
    have disjoint : fragmentDisjoint predicates stats → ∀ value, Between low high value →
        ¬∀ predicate ∈ predicates, Satisfies undecided value predicate := by
      intro shown value between all
      obtain ⟨predicate, member, excluded⟩ := List.any_eq_true.mp shown
      rcases (disjoint_iff predicate member).mp excluded with wrong | clear
      · obtain ⟨other, other_mem, fails⟩ := excludes predicate member wrong value between
        exact fails (all other other_mem)
      · exact not_satisfies_of_clearlyDisjoint clear between (all predicate member)
    constructor
    · exact covered
    · exact disjoint
    · rintro ⟨all, none⟩
      have low_mem : Between low high low := ⟨.refl low, nonempty⟩
      exact disjoint none low low_mem (covered all low low_mem)

end

/-! ## A range at the end of the signed integers -/

namespace BlurredRange

open SimplifyCastPredicates

/-- A range that ends beyond the signed integers of 64 bits. -/
def stats : ColumnStats where
  min := some (.int (2 ^ 63 - 5))
  max := some (.int (2 ^ 63))
  nulls := 0

/-- At most a number just below the range. -/
def predicates : List Predicate :=
  [{ comparison := .lte, value := .int64 (2 ^ 63 - 10) }]

theorem asF64_max : asF64 (2 ^ 63) = .finite (2 ^ 63) := by
  have fixed := (adjacent_asF64 (2 ^ 63)).fixes
  rw [Int.cast_pow, Int.cast_ofNat] at fixed
  apply fixed
  intro rational same
  rw [← Extended.finite_inj.mp same]
  exact represents_two_pow

theorem asF64_literal : asF64 (2 ^ 63 - 10) = .finite (2 ^ 63) := by
  have leading_eq : binary64.leading ((2 ^ 63 - 10 : Int) : ℚ) = 62 := by
    have number : ((2 ^ 63 - 10 : Int) : ℚ) = ((2 ^ 63 - 10 : Nat) : ℚ) := by norm_num
    have log_eq : Nat.log 2 (2 ^ 63 - 10) = 62 :=
      Nat.log_eq_of_pow_le_of_lt_pow (by decide) (by decide)
    rw [FloatFormat.leading, number, abs_of_nonneg (Nat.cast_nonneg _), Int.log_natCast, log_eq]
    rfl
  have place_eq : binary64.place ((2 ^ 63 - 10 : Int) : ℚ) = 2 ^ 10 := by
    rw [FloatFormat.place, leading_eq]
    rfl
  have rounded : binary64.roundFinite ((2 ^ 63 - 10 : Int) : ℚ) = 2 ^ 63 := by
    have floor_eq : ⌊((2 ^ 63 - 10 : Int) : ℚ) / 2 ^ 10⌋ = 2 ^ 53 - 1 := by
      rw [Int.floor_eq_iff]
      norm_num
    rw [FloatFormat.roundFinite, place_eq, roundEven, floor_eq]
    norm_num
  rw [asF64, FloatFormat.round_of_small, rounded]
  rw [rounded]
  exact represents_two_pow.small

/-- The range is found to be covered and to be disjoint. -/
theorem classified_twice : fragmentFullyCovered predicates stats ∧ fragmentDisjoint predicates stats ∧
    ¬ClassifiesSoundly (fun _ _ => False) predicates stats (.int (2 ^ 63 - 5)) (.int (2 ^ 63)) := by
  have blurred : Blurred (.int (2 ^ 63)) (.int64 (2 ^ 63 - 10)) := by
    refine ⟨by decide, by decide, ?_⟩
    rw [asF64_max, asF64_literal]
  have covered : fragmentFullyCovered predicates stats := by
    apply fragmentFullyCovered_iff.mpr ⟨List.cons_ne_nil _ _, _⟩
    intro predicate member
    obtain rfl := List.mem_singleton.mp member
    have valid : (Literal.int64 (2 ^ 63 - 10)).IsValid := trivial
    have wrong : WronglyCovers (.int (2 ^ 63 - 5)) (.int (2 ^ 63))
        { comparison := .lte, value := .int64 (2 ^ 63 - 10) } := ⟨blurred, rfl⟩
    exact (predicateCovers_iff rfl rfl valid).mpr (.inl wrong)
  have disjoint : fragmentDisjoint predicates stats := rfl
  exact ⟨covered, disjoint, fun sound => sound.apart ⟨covered, disjoint⟩⟩

end BlurredRange

namespace SmallRange

/-- A range of small numbers. -/
def stats : ColumnStats where
  min := some (.int 1)
  max := some (.int 10)
  nulls := 0

/-- Bounds around the range. -/
def predicates : List Predicate :=
  [{ comparison := .gte, value := .int64 1 }, { comparison := .lt, value := .int64 100 }]

theorem classified_soundly :
    ClassifiesSoundly (fun _ _ => False) predicates stats (.int 1) (.int 10) := by
  have clear : ∀ value literal, IsI64 value → IsI64 literal →
      ¬Blurred (.int value) (.int64 literal) :=
    fun value literal signed fits blurred => blurred.2.1 ⟨signed, fits⟩
  have valid : ∀ predicate ∈ predicates, predicate.value.IsValid := by
    intro predicate member
    rcases List.mem_pair.mp member with rfl | rfl <;> trivial
  have nonempty : (Scalar.int 1).Le (.int 10) := by
    rw [Scalar.Le]
    decide
  apply (classifiesSoundly_iff rfl rfl nonempty valid).mpr
  constructor
  · intro predicate member wrong
    rcases List.mem_pair.mp member with rfl | rfl
    · exact absurd wrong.1 (clear 1 1 (by decide) (by decide))
    · exact absurd wrong id
  · intro predicate member wrong
    rcases List.mem_pair.mp member with rfl | rfl
    · exact absurd wrong id
    · exact absurd wrong.1 (clear 1 100 (by decide) (by decide))

end SmallRange

end MetadataAggregate

end IcefallDB
