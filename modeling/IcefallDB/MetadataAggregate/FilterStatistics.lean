import IcefallDB.MetadataAggregate.Answers
import IcefallDB.MetadataAggregate.Filtered

/-!
# What statistics show about filters

Statistics of integer columns are compared with literals as the values are, as long as the literals
keep their values as signed integers and stay below the numbers that floats cannot tell apart.  Then
all live rows of covered row groups pass, and none of disjoint ones does.
-/

namespace IcefallDB

/-- Comparisons with the literal give the right results on a column: it keeps its value as a signed
integer, and if the statistics may be larger then there is a float between. -/
def FilterLiteral.Keeps (kind : NumericKind) : FilterLiteral → Prop
  | .signed value => kind = .signed ∨ value.toInt ≤ 2 ^ 63 - 1024
  | .unsigned value => value.toNat ≤ 2 ^ 63 - 1024
  | _ => False

variable {R F : Type}

/-- The literals of an expression that the rule looks into. -/
def FilterExpr.literals : FilterExpr R → List FilterLiteral
  | .literal value => [value]
  | .binary left _ right => left.literals ++ right.literals
  | .column _ | .other _ => []

/-- Values of integer columns fit into 64 bits. -/
def NumericKernel.Fits (kernel : NumericKernel R F) : Prop :=
  ∀ name row value, kernel.intValue name row = some value →
    (kernel.columns.lookup name = some .signed → IsI64 value) ∧
      (kernel.columns.lookup name = some .unsigned → 0 ≤ value ∧ value < 2 ^ 64)

/-- The comparison holds for an order of its sides. -/
def Comparison.holds : Comparison → Ordering → Bool
  | .eq => Ordering.isEq
  | .lt => Ordering.isLT
  | .lte => Ordering.isLE
  | .gt => Ordering.isGT
  | .gte => Ordering.isGE

/-- The comparison as a relation. -/
def Comparison.Relates (left right : Int) : Comparison → Prop
  | .eq => left = right
  | .lt => left < right
  | .lte => left ≤ right
  | .gt => right < left
  | .gte => right ≤ left

theorem Comparison.holds_compare (comparison : Comparison) (left right : Int) :
    comparison.holds (compare left right) ↔ comparison.Relates left right := by
  cases comparison with
  | eq => exact Ordering.isEq_iff_eq_eq.trans compare_eq_iff_eq
  | lt => exact Ordering.isLT_iff_eq_lt.trans compare_lt_iff_lt
  | lte => exact Ordering.isLE_iff_ne_gt.trans ((not_congr compare_gt_iff_gt).trans not_lt)
  | gt => exact Ordering.isGT_iff_eq_gt.trans compare_gt_iff_gt
  | gte => exact Ordering.isGE_iff_ne_lt.trans ((not_congr compare_lt_iff_lt).trans not_lt)

namespace MetadataAggregate

open FloatFormat SimplifyCastPredicates

/-! ## Numbers as floats -/

theorem represents_two_pow : binary64.Represents (2 ^ 63) := by
  have short : binary64.Represents ((1 : Int) * 2 ^ (63 : Int)) :=
    represents_mul_zpow (by decide) (by decide) (by decide)
  rwa [Int.cast_one, one_mul] at short

theorem represents_pred_two_pow : binary64.Represents (2 ^ 63 - 1024) := by
  have short : binary64.Represents ((2 ^ 53 - 1 : Int) * 2 ^ (10 : Int)) :=
    represents_mul_zpow (by decide) (by decide) (by decide)
  have value_eq : (((2 ^ 53 - 1 : Int) : ℚ) * 2 ^ (10 : Int)) = 2 ^ 63 - 1024 := by norm_num
  rwa [value_eq] at short

theorem adjacent_asF64 (value : Int) :
    Adjacent binary64.values (.finite value) (asF64 value) :=
  adjacent_round (by decide) _

/-- Large numbers stay large as floats. -/
theorem le_asF64 {value : Int} (le : 2 ^ 63 ≤ value) : .finite (2 ^ 63) ≤ asF64 value := by
  have member : .finite (2 ^ 63) ∈ binary64.values := by
    intro rational same
    rw [← Extended.finite_inj.mp same]
    exact represents_two_pow
  rcases le.lt_or_eq with less | rfl
  · have less_rational : ((2 ^ 63 : Int) : ℚ) < value := Int.cast_lt.mpr less
    rw [Int.cast_pow, Int.cast_ofNat] at less_rational
    exact (adjacent_asF64 value).ge _ member (Extended.finite_lt.mpr less_rational)
  · have fixed := (adjacent_asF64 (2 ^ 63)).fixes
    rw [Int.cast_pow, Int.cast_ofNat] at fixed
    exact (fixed member).ge

/-- Small numbers stay small as floats. -/
theorem asF64_le {value : Int} (le : value ≤ 2 ^ 63 - 1024) :
    asF64 value ≤ .finite (2 ^ 63 - 1024) := by
  have member : .finite (2 ^ 63 - 1024) ∈ binary64.values := by
    intro rational same
    rw [← Extended.finite_inj.mp same]
    exact represents_pred_two_pow
  rcases le.lt_or_eq with less | rfl
  · have less_rational : (value : ℚ) < ((2 ^ 63 - 1024 : Int) : ℚ) := Int.cast_lt.mpr less
    rw [Int.cast_sub, Int.cast_pow, Int.cast_ofNat, Int.cast_ofNat] at less_rational
    exact (adjacent_asF64 value).le _ member (Extended.finite_lt.mpr less_rational)
  · have fixed := (adjacent_asF64 (2 ^ 63 - 1024)).fixes
    rw [Int.cast_sub, Int.cast_pow, Int.cast_ofNat, Int.cast_ofNat] at fixed
    exact (fixed member).le

/-- A statistic is compared with a literal as the numbers are. -/
theorem compareJson_eq {value literal : Int} (large : -2 ^ 63 ≤ value) (fits : IsI64 literal)
    (keeps : IsI64 value ∨ literal ≤ 2 ^ 63 - 1024) :
    compareJson (.int value) (.int64 literal) = some (compare value literal) := by
  rw [compareJson]
  by_cases signed : IsI64 value
  · rw [if_pos ⟨signed, fits⟩]
  · rw [if_neg fun both => signed both.1]
    have small := keeps.resolve_left signed
    have beyond : 2 ^ 63 ≤ value := by
      rw [IsI64] at signed
      omega
    have less : asF64 literal < asF64 value := calc
      asF64 literal ≤ .finite (2 ^ 63 - 1024) := asF64_le small
      _ < .finite (2 ^ 63) := Extended.finite_lt.mpr (by norm_num)
      _ ≤ asF64 value := le_asF64 beyond
    have greater : literal < value := by omega
    rw [compare_gt_iff_gt.mpr less, compare_gt_iff_gt.mpr greater]

/-! ## Predicates -/

/-- The least and the greatest value in the statistics of integer columns are those of the rows. -/
structure Bounds (kernel : NumericKernel R F) (group : AggregatedRowGroup F)
    (fragment : PhysicalFragment R) : Prop where
  least : ∀ name stats min, kernel.IsInteger name →
    group.sidecar.columns.lookup name = some stats → stats.min = some min →
      ∃ value ∈ AggCache.ints kernel name fragment.rows, min = .int value ∧
        ∀ other ∈ AggCache.ints kernel name fragment.rows, value ≤ other
  greatest : ∀ name stats max, kernel.IsInteger name →
    group.sidecar.columns.lookup name = some stats → stats.max = some max →
      ∃ value ∈ AggCache.ints kernel name fragment.rows, max = .int value ∧
        ∀ other ∈ AggCache.ints kernel name fragment.rows, other ≤ value

theorem exists_of_predicateCovers {predicate : Predicate} {stats : ColumnStats}
    (covers : predicateCovers predicate stats) :
    ∃ min max, stats.min = some min ∧ stats.max = some max := by
  unfold predicateCovers at covers
  split at covers
  · next min max min_eq max_eq => exact ⟨min, max, min_eq, max_eq⟩
  · cases covers

theorem exists_of_predicateDisjoint {predicate : Predicate} {stats : ColumnStats}
    (disjoint : predicateDisjoint predicate stats) :
    ∃ min max, stats.min = some min ∧ stats.max = some max := by
  unfold predicateDisjoint at disjoint
  split at disjoint
  · next min max min_eq max_eq => exact ⟨min, max, min_eq, max_eq⟩
  · cases disjoint

section

variable {predicate : Predicate} {stats : ColumnStats} {literal low high value : Int}
  (exact_low : compareJson (.int low) predicate.value = some (compare low literal))
  (exact_high : compareJson (.int high) predicate.value = some (compare high literal))
  (least : stats.min = some (.int low)) (greatest : stats.max = some (.int high))
  (low_le : low ≤ value) (le_high : value ≤ high)
include exact_low exact_high least greatest low_le le_high

/-- All values between statistics that satisfy a predicate satisfy it. -/
theorem relates_of_predicateCovers (covers : predicateCovers predicate stats) :
    predicate.comparison.Relates value literal := by
  rw [predicateCovers, least, greatest] at covers
  simp only [exact_low, exact_high] at covers
  cases comparison_eq : predicate.comparison <;> rw [comparison_eq] at covers <;>
    simp only [Option.some.injEq, Bool.or_eq_true, Bool.and_eq_true, decide_eq_true_eq,
      compare_lt_iff_lt, compare_gt_iff_gt, compare_eq_iff_eq] at covers <;>
    rw [Comparison.Relates] <;> omega

/-- No value between statistics that exclude a predicate satisfies it. -/
theorem not_relates_of_predicateDisjoint (disjoint : predicateDisjoint predicate stats) :
    ¬predicate.comparison.Relates value literal := by
  rw [predicateDisjoint, least, greatest] at disjoint
  simp only [exact_low, exact_high] at disjoint
  cases comparison_eq : predicate.comparison <;> rw [comparison_eq] at disjoint <;>
    simp only [Option.some.injEq, Bool.or_eq_true, decide_eq_true_eq, compare_lt_iff_lt,
      compare_gt_iff_gt, compare_eq_iff_eq] at disjoint <;>
    rw [Comparison.Relates] <;> omega

end

/-! ## Decoded filters -/

section

variable {kernel : NumericKernel R F} {engine : FilterEngine R} {row : R} {expr : FilterExpr R}
  {kind : NumericKind} {name : String}

theorem isTrue_conjunction (left right : FilterValue) :
    (FilterEngine.conjunction left right).isTrue ↔ left.isTrue ∧ right.isTrue := by
  cases left with
  | bool left =>
      cases right with
      | bool right => cases left <;> cases right <;> simp [FilterEngine.conjunction, FilterValue.isTrue]
      | null | int | float | text =>
          cases left <;> simp [FilterEngine.conjunction, FilterValue.isTrue]
  | null | int | float | text =>
      cases right with
      | bool right => cases right <;> simp [FilterEngine.conjunction, FilterValue.isTrue]
      | null | int | float | text => simp [FilterEngine.conjunction, FilterValue.isTrue]

theorem isTrue_truth (holds : Ordering → Bool) (result : Option Ordering) :
    (FilterEngine.truth holds result).isTrue ↔ ∃ ordering ∈ result, holds ordering := by
  cases result with
  | none => simp [FilterEngine.truth, FilterValue.isTrue]
  | some ordering =>
      cases held : holds ordering <;> simp [FilterEngine.truth, FilterValue.isTrue, held]

/-- An expression is true exactly if its conjuncts are. -/
theorem isTrue_evaluate_iff : (engine.evaluate kernel row expr).isTrue ↔
    ∀ conjunct ∈ collectConjuncts expr, (engine.evaluate kernel row conjunct).isTrue := by
  induction expr with
  | binary left op right left_ih right_ih =>
      cases op with
      | and =>
          rw [collectConjuncts, List.forall_mem_append, ← left_ih, ← right_ih]
          exact isTrue_conjunction _ _
      | eq | lt | ltEq | gt | gtEq | other => simp [collectConjuncts]
  | column | literal | other => simp [collectConjuncts]

theorem passes_iff {filters : List (FilterExpr R)} : engine.passes kernel filters row ↔
    ∀ conjunct ∈ filters.flatMap collectConjuncts,
      (engine.evaluate kernel row conjunct).isTrue := by
  rw [FilterEngine.passes, List.all_eq_true]
  constructor
  · intro all conjunct member
    obtain ⟨filter, filter_mem, conjunct_mem⟩ := List.mem_flatMap.mp member
    exact isTrue_evaluate_iff.mp (all filter filter_mem) conjunct conjunct_mem
  · intro all filter member
    apply isTrue_evaluate_iff.mpr
    intro conjunct conjunct_mem
    exact all conjunct (List.mem_flatMap.mpr ⟨filter, member, conjunct_mem⟩)

theorem literals_of_conjunct {conjunct : FilterExpr R} (member : conjunct ∈ collectConjuncts expr)
    {literal : FilterLiteral} (inside : literal ∈ conjunct.literals) : literal ∈ expr.literals := by
  induction expr with
  | binary left op right left_ih right_ih =>
      cases op with
      | and =>
          rw [collectConjuncts, List.mem_append] at member
          rw [FilterExpr.literals, List.mem_append]
          exact member.imp left_ih right_ih
      | eq | lt | ltEq | gt | gtEq | other =>
          obtain rfl := List.mem_singleton.mp member
          exact inside
  | column | literal | other =>
      obtain rfl := List.mem_singleton.mp member
      exact inside

/-- The number that a predicate compares with. -/
def literalOf (predicate : Predicate) : Int :=
  match predicate.value with
  | .int64 literal => literal
  | _ => 0

theorem literalOf_int64 (comparison : Comparison) (literal : Int) :
    literalOf { comparison, value := .int64 literal } = literal := rfl

/-- A predicate on a column of integers that is compared as the numbers are. -/
structure Exact (kind : NumericKind) (predicate : Predicate) : Prop where
  value : predicate.value = .int64 (literalOf predicate)
  fits : IsI64 (literalOf predicate)
  keeps : kind = .signed ∨ literalOf predicate ≤ 2 ^ 63 - 1024

/-- A literal that keeps its value becomes the literal of the predicate. -/
theorem exact_of_keeps {literal : FilterLiteral} (keeps : literal.Keeps kind) {value : Literal}
    (found : physScalarToLiteral literal = some value) (comparison : Comparison) :
    Exact kind { comparison, value } ∧
      literal.value = .int (literalOf { comparison, value }) := by
  cases literal with
  | signed bits =>
      obtain rfl := Option.some.inj found
      constructor
      · constructor
        · rfl
        · have low := bits.le_toInt
          have high := bits.toInt_lt
          exact ⟨low, high⟩
        · exact keeps
      · rfl
  | unsigned bits =>
      obtain rfl := Option.some.inj found
      have small : bits.toNat ≤ 2 ^ 63 - 1024 := keeps
      have same : bits.toInt = bits.toNat := BitVec.toInt_eq_toNat_of_lt (by omega)
      constructor
      · constructor
        · rfl
        · rw [literalOf_int64, same, IsI64]
          omega
        · right
          rw [literalOf_int64, same]
          omega
      · rw [FilterLiteral.value, literalOf_int64, same]
  | float | utf8 | boolean | other => exact absurd keeps id

theorem evaluate_column (integer : kernel.IsInteger name) :
    engine.evaluate kernel row (.column name) = (kernel.intValue name row).elim .null .int := by
  obtain ⟨kind, kind_eq, not_float⟩ := integer
  rw [FilterEngine.evaluate, kind_eq]
  cases kind with
  | signed => rfl
  | unsigned => rfl
  | float => exact absurd rfl not_float

theorem apply_of_comparisonOf {op : FilterOperator} {comparison : Comparison}
    (found : comparisonOf op = some comparison) (left right : FilterValue) :
    engine.apply left op right =
      FilterEngine.truth comparison.holds (engine.compareValues left right) := by
  cases op with
  | eq | lt | ltEq | gt | gtEq =>
      obtain rfl := Option.some.inj found
      rfl
  | and | other => cases found

theorem apply_of_swappedComparisonOf {op : FilterOperator} {comparison : Comparison}
    (found : swappedComparisonOf op = some comparison) (left right : FilterValue) :
    engine.apply left op right =
      FilterEngine.truth (fun ordering => comparison.holds ordering.swap)
        (engine.compareValues left right) := by
  cases op with
  | eq | lt | ltEq | gt | gtEq =>
      obtain rfl := Option.some.inj found
      simp only [FilterEngine.apply, Comparison.holds, Ordering.isEq_swap, Ordering.isLT_swap,
        Ordering.isLE_swap, Ordering.isGT_swap, Ordering.isGE_swap]
  | and | other => cases found

variable (engine) in
/-- A comparison that becomes a predicate is true of the rows whose values satisfy it. -/
theorem isTrue_comparison (integer : kernel.IsInteger name) {predicate : Predicate}
    (found : physComparisonToPredicate expr = some (name, predicate))
    (keeps : ∀ literal ∈ expr.literals, literal.Keeps kind) :
    Exact kind predicate ∧ ∀ row, (engine.evaluate kernel row expr).isTrue ↔
      ∃ value ∈ kernel.intValue name row,
        predicate.comparison.Relates value (literalOf predicate) := by
  unfold physComparisonToPredicate at found
  split at found
  · next column op literal =>
      obtain ⟨value, decoded, rest⟩ := Option.bind_eq_some_iff.mp found
      obtain ⟨comparison, comparison_eq, same⟩ := Option.bind_eq_some_iff.mp rest
      obtain ⟨rfl, rfl⟩ := Prod.mk.inj (Option.some.inj same)
      have literal_keeps := keeps literal (by simp [FilterExpr.literals])
      obtain ⟨exact_predicate, literal_eq⟩ := exact_of_keeps literal_keeps decoded comparison
      constructor
      · exact exact_predicate
      · intro row
        rw [FilterEngine.evaluate, evaluate_column integer, FilterEngine.evaluate, literal_eq,
          apply_of_comparisonOf comparison_eq, isTrue_truth]
        cases kernel.intValue column row with
        | none => simp [FilterEngine.compareValues]
        | some value => simp [FilterEngine.compareValues, Comparison.holds_compare]
  · next literal op column =>
      obtain ⟨value, decoded, rest⟩ := Option.bind_eq_some_iff.mp found
      obtain ⟨comparison, comparison_eq, same⟩ := Option.bind_eq_some_iff.mp rest
      obtain ⟨rfl, rfl⟩ := Prod.mk.inj (Option.some.inj same)
      have literal_keeps := keeps literal (by simp [FilterExpr.literals])
      obtain ⟨exact_predicate, literal_eq⟩ := exact_of_keeps literal_keeps decoded comparison
      constructor
      · exact exact_predicate
      · intro row
        rw [FilterEngine.evaluate, evaluate_column integer, FilterEngine.evaluate, literal_eq,
          apply_of_swappedComparisonOf comparison_eq, isTrue_truth]
        cases kernel.intValue column row with
        | none => simp [FilterEngine.compareValues]
        | some value =>
            have swapped : ∀ left right : Int, (compare left right).swap = compare right left :=
              fun left right => Std.OrientedOrd.eq_swap.symm
            simp [FilterEngine.compareValues, Comparison.holds_compare, swapped]
  · cases found

variable (engine) in
/-- The rows that pass filters satisfy all their predicates. -/
theorem passes_iff_predicates {filters : List (FilterExpr R)} {filter : DecodedFilter}
    (decoded : decodeScanFilter filters = some filter) (integer : kernel.IsInteger filter.column)
    (keeps : ∀ expr ∈ filters, ∀ literal ∈ expr.literals, literal.Keeps kind) :
    filter.predicates ≠ [] ∧ (∀ predicate ∈ filter.predicates, Exact kind predicate) ∧
      ∀ row, engine.passes kernel filters row ↔ ∀ predicate ∈ filter.predicates,
        ∃ value ∈ kernel.intValue filter.column row,
          predicate.comparison.Relates value (literalOf predicate) := by
  obtain ⟨pairs, pairs_eq, rest⟩ := Option.bind_eq_some_iff.mp decoded
  have each : ∀ conjunct ∈ filters.flatMap collectConjuncts,
      ∀ literal ∈ conjunct.literals, literal.Keeps kind := by
    intro conjunct member literal inside
    obtain ⟨expr, expr_mem, conjunct_mem⟩ := List.mem_flatMap.mp member
    exact keeps expr expr_mem literal (literals_of_conjunct conjunct_mem inside)
  have related := List.forall₂_of_mapM_eq_some pairs_eq
  obtain ⟨nonempty, predicates_eq, columns⟩ : pairs ≠ [] ∧
      filter.predicates = pairs.map Prod.snd ∧ ∀ pair ∈ pairs, pair.1 = filter.column := by
    cases pairs with
    | nil => cases rest
    | cons first later =>
        simp only at rest
        split at rest
        · next same =>
            obtain rfl := Option.some.inj rest
            rw [List.all_eq_true] at same
            refine ⟨List.cons_ne_nil _ _, rfl, ?_⟩
            intro pair member
            rcases List.mem_cons.mp member with rfl | member
            · rfl
            · exact of_decide_eq_true (same pair member)
        · cases rest
  refine ⟨?_, ?_, ?_⟩
  · rw [predicates_eq]
    simpa using nonempty
  · rw [predicates_eq, List.forall_mem_map]
    intro pair member
    obtain ⟨conjunct, conjunct_mem, found⟩ := related.exists_of_mem_right member
    rw [← Prod.eta pair, columns pair member] at found
    exact (isTrue_comparison engine integer found (each conjunct conjunct_mem)).1
  · intro row
    rw [passes_iff, predicates_eq, List.forall_mem_map]
    constructor
    · intro all pair member
      obtain ⟨conjunct, conjunct_mem, found⟩ := related.exists_of_mem_right member
      rw [← Prod.eta pair, columns pair member] at found
      exact ((isTrue_comparison engine integer found (each conjunct conjunct_mem)).2 row).mp
        (all conjunct conjunct_mem)
    · intro all conjunct conjunct_mem
      obtain ⟨pair, member, found⟩ := related.exists_of_mem_left conjunct_mem
      rw [← Prod.eta pair, columns pair member] at found
      exact ((isTrue_comparison engine integer found (each conjunct conjunct_mem)).2 row).mpr
        (all pair member)

/-! ## Classified row groups -/

section

variable {group : AggregatedRowGroup F} {fragment : PhysicalFragment R}

theorem mem_ints {rows : List R} {row : R} {value : Int} (member : row ∈ rows)
    (holds : kernel.intValue name row = some value) : value ∈ AggCache.ints kernel name rows :=
  List.reduceOption_mem_iff.mpr (List.mem_map.mpr ⟨row, member, holds⟩)

theorem exists_of_mem_ints {rows : List R} {value : Int}
    (member : value ∈ AggCache.ints kernel name rows) :
    ∃ row, kernel.intValue name row = some value := by
  obtain ⟨row, -, holds⟩ := List.mem_map.mp (List.reduceOption_mem_iff.mp member)
  exact ⟨row, holds⟩

theorem compareJson_of_fits (fits : kernel.Fits) (column : kernel.columns.lookup name = some kind)
    (not_float : kind ≠ .float) {predicate : Predicate} (exact_predicate : Exact kind predicate)
    {row : R} {value : Int} (holds : kernel.intValue name row = some value) :
    compareJson (.int value) predicate.value = some (compare value (literalOf predicate)) := by
  obtain ⟨signed, unsigned⟩ := fits name row value holds
  rw [exact_predicate.value]
  cases kind with
  | signed =>
      have small := signed column
      exact compareJson_eq small.1 exact_predicate.fits (.inl small)
  | unsigned =>
      have nonneg := (unsigned column).1
      have keeps := exact_predicate.keeps.resolve_left (by decide)
      exact compareJson_eq (by omega) exact_predicate.fits (.inr keeps)
  | float => exact absurd rfl not_float

/-- Statistics that both exist bound the values of the column, and are compared as they are. -/
theorem Bounds.between (bounds : Bounds kernel group fragment) (fits : kernel.Fits)
    (column : kernel.columns.lookup name = some kind) (not_float : kind ≠ .float)
    {stats : ColumnStats} (found : group.sidecar.columns.lookup name = some stats)
    {predicate : Predicate} (exact_predicate : Exact kind predicate) {min max : Scalar}
    (min_eq : stats.min = some min) (max_eq : stats.max = some max) :
    ∃ low high : Int, stats.min = some (.int low) ∧ stats.max = some (.int high) ∧
      compareJson (.int low) predicate.value = some (compare low (literalOf predicate)) ∧
      compareJson (.int high) predicate.value = some (compare high (literalOf predicate)) ∧
      ∀ value ∈ AggCache.ints kernel name fragment.rows, low ≤ value ∧ value ≤ high := by
  have integer : kernel.IsInteger name := ⟨kind, column, not_float⟩
  obtain ⟨low, low_mem, rfl, least⟩ := bounds.least name stats min integer found min_eq
  obtain ⟨high, high_mem, rfl, greatest⟩ := bounds.greatest name stats max integer found max_eq
  obtain ⟨low_row, low_holds⟩ := exists_of_mem_ints low_mem
  obtain ⟨high_row, high_holds⟩ := exists_of_mem_ints high_mem
  exact ⟨low, high, min_eq, max_eq,
    compareJson_of_fits fits column not_float exact_predicate low_holds,
    compareJson_of_fits fits column not_float exact_predicate high_holds,
    fun value member => ⟨least value member, greatest value member⟩⟩

variable {filters : List (FilterExpr R)} {filter : DecodedFilter}
  (decoded : decodeScanFilter filters = some filter)
  (column : kernel.columns.lookup filter.column = some kind) (not_float : kind ≠ .float)
  (keeps : ∀ expr ∈ filters, ∀ literal ∈ expr.literals, literal.Keeps kind)
  (fits : kernel.Fits) (bounds : Bounds kernel group fragment)
include decoded column not_float keeps fits bounds

/-- All live rows of covered row groups pass. -/
theorem passes_of_covered (describes : Describes kernel group fragment)
    (known : group.fallback = false) (covered : classifyFragment filter group = .covered) {row : R}
    (member : row ∈ fragment.live) : engine.passes kernel filters row := by
  have integer : kernel.IsInteger filter.column := ⟨kind, column, not_float⟩
  obtain ⟨-, exact_predicates, passes⟩ :=
    passes_iff_predicates engine decoded integer keeps
  rw [passes row]
  intro predicate predicate_mem
  unfold classifyFragment at covered
  split at covered
  · cases covered
  · next stats found =>
      split at covered
      · cases covered
      · split at covered
        · next shown =>
            obtain ⟨no_nulls, -, all⟩ := shown
            have covers := List.all_eq_true.mp all predicate predicate_mem
            obtain ⟨min, max, min_eq, max_eq⟩ := exists_of_predicateCovers covers
            obtain ⟨low, high, least, greatest, exact_low, exact_high, between⟩ :=
              bounds.between fits column not_float found
                (exact_predicates predicate predicate_mem) min_eq max_eq
            have row_mem := mem_rows_of_mem_live member
            have none_null := (describes.nulls known _ stats integer found).symm.trans no_nulls
            rw [List.countP_eq_zero, List.forall_mem_map] at none_null
            obtain ⟨value, value_eq⟩ := Option.ne_none_iff_exists'.mp fun null =>
              none_null row row_mem (Option.isNone_iff_eq_none.mpr null)
            have inside := between value (mem_ints row_mem value_eq)
            exact ⟨value, value_eq, relates_of_predicateCovers exact_low exact_high least greatest
              inside.1 inside.2 covers⟩
        · cases covered

/-- No live row of disjoint row groups passes. -/
theorem not_passes_of_disjoint (disjoint : classifyFragment filter group = .disjoint) {row : R}
    (member : row ∈ fragment.live) : ¬engine.passes kernel filters row := by
  have integer : kernel.IsInteger filter.column := ⟨kind, column, not_float⟩
  obtain ⟨-, exact_predicates, passes⟩ :=
    passes_iff_predicates engine decoded integer keeps
  rw [passes row]
  intro all
  unfold classifyFragment at disjoint
  split at disjoint
  · cases disjoint
  · next stats found =>
      split at disjoint
      · next shown =>
          obtain ⟨predicate, predicate_mem, excludes⟩ := List.any_eq_true.mp shown
          obtain ⟨min, max, min_eq, max_eq⟩ := exists_of_predicateDisjoint excludes
          obtain ⟨low, high, least, greatest, exact_low, exact_high, between⟩ :=
            bounds.between fits column not_float found
              (exact_predicates predicate predicate_mem) min_eq max_eq
          obtain ⟨value, value_eq, relates⟩ := all predicate predicate_mem
          have inside := between value (mem_ints (mem_rows_of_mem_live member) value_eq)
          exact not_relates_of_predicateDisjoint exact_low exact_high least greatest
            inside.1 inside.2 excludes relates
      · split at disjoint <;> cases disjoint

end

end

end MetadataAggregate

end IcefallDB
