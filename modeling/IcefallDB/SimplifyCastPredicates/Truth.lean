import IcefallDB.SimplifyCastPredicates
import Mathlib

/-!
# Truth values of rewritten predicates

Casting the column and casting the literal skip no value of the other side's type.  A rewritten
comparison can only differ from the original one on rows that exactly one of the casts makes equal
to the literal.
-/

namespace IcefallDB

namespace SimplifyCastPredicates

variable {engine : Engine} {schema : Schema} {row : Row}

/-! ## Casts -/

variable {dataType : DataType}

theorem adjacent_fromNumber {value converted : Extended}
    (fits : dataType.fromNumber value = some converted) :
    Adjacent dataType.numbers value converted := by
  cases dataType with
  | float64 =>
      cases fits
      exact FloatFormat.adjacent_round (by decide) value
  | float32 =>
      cases fits
      exact FloatFormat.adjacent_round (by decide) value
  | int64 | int32 | int16 | int8 => exact adjacent_toInteger fits
  | utf8 | largeUtf8 | boolean | other _ => cases fits

/-- Both types of a comparison that is rewritten are numeric, or both are text. -/
theorem kinds_of_compatible {literal source : DataType}
    (compatible : isCompatible literal source = true) :
    (literal.isNumeric = true ∧ source.isNumeric = true) ∨
      literal.isText = true ∧ source.isText = true := by
  cases literal <;> cases source <;> simp_all [isCompatible, DataType.isNumeric, DataType.isFloat,
    DataType.isText]

/-- The orderings for which a comparison with the literal on one side is true. -/
def orient (literalLeft : Bool) (holds : Ordering → Bool) (ordering : Ordering) : Bool :=
  holds (if literalLeft then ordering.swap else ordering)

/-! ## Comparisons -/

/-- The comparison with the cast column fails on a row. -/
def CastComparison.FailsBefore (engine : Engine) (schema : Schema) (row : Row)
    (found : CastComparison) : Prop :=
  columnType schema found.column = none ∨ found.target ≠ found.literal.dataType ∨
    ∃ source ∈ columnType schema found.column, ∃ datum ∈ row found.column,
      engine.castDatum source datum found.target = none

/-- The comparison with the cast literal fails on every row. -/
def CastComparison.FailsAfter (schema : Schema) (found : CastComparison) : Prop :=
  columnType schema found.column ≠ some found.source

/-- Exactly one of the casts makes a number equal to the literal, and for the comparison this is not
what it is to compare them exactly. -/
def CastComparison.Differs (row : Row) (holds : Ordering → Bool) (found : CastComparison) : Prop :=
  ∃ value literal, row found.column = some (.number value) ∧
    found.literal.value = some (.number literal) ∧
      ¬ (found.target.fromNumber value = some literal ↔
        found.source.fromNumber literal = some value) ∧
      holds (compare value literal) ≠ holds .eq

/-- The truth value of a rewritten comparison is kept: it fails in both forms, or in neither and the
casts make no difference. -/
def CastComparison.Preserved (engine : Engine) (schema : Schema) (row : Row)
    (holds : Ordering → Bool) (found : CastComparison) : Prop :=
  found.FailsBefore engine schema row ∧ found.FailsAfter schema ∨
    ¬ found.FailsBefore engine schema row ∧ ¬ found.FailsAfter schema ∧ ¬ found.Differs row holds

/-- Values of a row belong to the types of their columns. -/
def WellTyped (schema : Schema) (row : Row) : Prop :=
  ∀ column dataType datum, columnType schema column = some dataType → row column = some datum →
    datum.HasType dataType

/-- A literal belongs to its type. -/
def ScalarValue.IsValid (scalar : ScalarValue) : Prop :=
  ∀ datum, scalar.value = some datum → datum.HasType scalar.dataType

/-- The value of the cast column compared with the literal. -/
def CastComparison.before (engine : Engine) (schema : Schema) (row : Row)
    (holds : Ordering → Bool) (found : CastComparison) : Option ScalarValue :=
  ((columnType schema found.column).bind fun source =>
    engine.castTo { dataType := source, value := row found.column } found.target).bind fun value =>
      engine.compareValues holds value found.literal

/-- The value of the column compared with the cast literal. -/
def CastComparison.after (engine : Engine) (schema : Schema) (row : Row)
    (holds : Ordering → Bool) (found : CastComparison) : Option ScalarValue :=
  (columnType schema found.column).bind fun source =>
    engine.compareValues holds { dataType := source, value := row found.column } found.castLiteral

theorem castTo_dataType {scalar converted : ScalarValue} {target : DataType}
    (casts : engine.castTo scalar target = some converted) : converted.dataType = target := by
  rw [Engine.castTo] at casts
  split at casts
  · cases casts
    rfl
  · obtain ⟨_, -, rfl⟩ := Option.map_eq_some_iff.mp casts
    rfl

theorem exists_number {datum : Datum} (typed : datum.HasType dataType)
    (numeric : dataType.isNumeric = true) :
    ∃ value, datum = .number value ∧ value ∈ dataType.numbers := by
  cases datum with
  | number value => exact ⟨value, rfl, typed⟩
  | text _ =>
      cases dataType with
      | utf8 | largeUtf8 => cases numeric
      | _ => cases typed
  | bool _ =>
      cases typed
      cases numeric
  | other _ =>
      obtain ⟨_, rfl⟩ := typed
      cases numeric

theorem exists_text {datum : Datum} (typed : datum.HasType dataType) (text : dataType.isText = true) :
    ∃ value, datum = .text value := by
  cases datum with
  | number value =>
      cases dataType with
      | utf8 | largeUtf8 => exact absurd typed (Set.notMem_empty _)
      | _ => cases text
  | text value => exact ⟨value, rfl⟩
  | bool _ =>
      cases typed
      cases text
  | other _ =>
      obtain ⟨_, rfl⟩ := typed
      cases text

variable {found : CastComparison}

/-- The data compare alike before and after, unless the casts make a difference. -/
theorem compareData_eq_iff {datum casted literal castLiteral : Datum}
    (compatible : isCompatible found.literal.dataType found.source = true)
    (same : found.target = found.literal.dataType) (datum_eq : row found.column = some datum)
    (literal_eq : found.literal.value = some literal) (datum_typed : datum.HasType found.source)
    (literal_typed : literal.HasType found.target)
    (casts : engine.castDatum found.source datum found.target = some casted)
    (castsLiteral : engine.castDatum found.literal.dataType literal found.source = some castLiteral)
    (holds : Ordering → Bool) :
    holds (engine.compareData casted literal) = holds (engine.compareData datum castLiteral) ↔
      ¬ found.Differs row holds := by
  rw [← same] at compatible castsLiteral
  rcases kinds_of_compatible compatible with ⟨numeric, source_numeric⟩ | ⟨text, source_text⟩
  · obtain ⟨value, rfl, value_mem⟩ := exists_number datum_typed source_numeric
    obtain ⟨number, rfl, number_mem⟩ := exists_number literal_typed numeric
    rw [Engine.castDatum, if_pos numeric] at casts
    rw [Engine.castDatum, if_pos source_numeric] at castsLiteral
    obtain ⟨valueTo, value_fits, rfl⟩ := Option.map_eq_some_iff.mp casts
    obtain ⟨numberTo, number_fits, rfl⟩ := Option.map_eq_some_iff.mp castsLiteral
    have agree := (adjacent_fromNumber value_fits).compare_iff number_mem
      (adjacent_fromNumber number_fits) value_mem holds
    have differs_iff : found.Differs row holds ↔ ¬ (valueTo = number ↔ value = numberTo) ∧
        holds (compare value number) ≠ holds .eq := by
      simp only [CastComparison.Differs, datum_eq, literal_eq, Option.some.injEq,
        Datum.number.injEq, ↓existsAndEq, true_and, value_fits, number_fits,
        eq_comm (a := numberTo)]
    simp only [Engine.compareData]
    rw [agree, differs_iff, not_and_or, not_not, not_not]
  · obtain ⟨value, rfl⟩ := exists_text datum_typed source_text
    obtain ⟨other, rfl⟩ := exists_text literal_typed text
    rw [Engine.castDatum, if_pos text] at casts
    rw [Engine.castDatum, if_pos source_text] at castsLiteral
    cases casts
    cases castsLiteral
    constructor
    · rintro - ⟨number, _, number_eq, -⟩
      rw [datum_eq] at number_eq
      cases number_eq
    · intro _
      rfl

/-- A comparison of values of one type fails for no value, and else for all. -/
theorem compareValues_eq_none {holds : Ordering → Bool} {left right : ScalarValue} :
    engine.compareValues holds left right = none ↔ left.dataType ≠ right.dataType := by
  rw [Engine.compareValues]
  split
  · next same => simp [same]
  · next different => simp [different]

/-- Two comparisons that do not fail have the same value if their results are. -/
theorem compareValues_eq_iff {holds : Ordering → Bool} {left right left' right' : ScalarValue}
    (same : left.dataType = right.dataType) (same' : left'.dataType = right'.dataType) :
    engine.compareValues holds left right = engine.compareValues holds left' right' ↔
      (match left.value, right.value with
        | some left, some right => some (Datum.bool (holds (engine.compareData left right)))
        | _, _ => none) =
      match left'.value, right'.value with
        | some left, some right => some (Datum.bool (holds (engine.compareData left right)))
        | _, _ => none := by
  rw [Engine.compareValues, Engine.compareValues, if_pos same, if_pos same', Option.some.injEq,
    ScalarValue.mk.injEq]
  exact and_iff_right rfl

/-- The value of a column that has one type. -/
theorem before_eq_none_iff {own : DataType} (own_eq : columnType schema found.column = some own)
    (holds : Ordering → Bool) :
    found.before engine schema row holds = none ↔ found.FailsBefore engine schema row := by
  rw [CastComparison.before, own_eq, Option.bind_some, CastComparison.FailsBefore, own_eq]
  simp only [reduceCtorEq, false_or, Option.mem_def, Option.some.injEq, ↓existsAndEq, true_and]
  cases datum_eq : row found.column with
  | none =>
      simp only [Engine.castTo, Option.bind_some, compareValues_eq_none, reduceCtorEq, false_and,
        exists_false, or_false, ne_eq]
  | some datum =>
      simp only [Engine.castTo, Option.some.injEq, ↓existsAndEq, true_and]
      cases casts : engine.castDatum own datum found.target with
      | none => simp
      | some casted =>
          simp only [Option.map_some, Option.bind_some, compareValues_eq_none, reduceCtorEq,
            or_false, ne_eq]

/-- Where neither form fails, they have the same value unless the casts make a difference. -/
theorem after_eq_before_iff_of_not_fails (wellTyped : WellTyped schema row)
    (valid : found.literal.IsValid)
    (compatible : isCompatible found.literal.dataType found.source = true)
    (castsLiteral : engine.castTo found.literal found.source = some found.castLiteral)
    (own_eq : columnType schema found.column = some found.source)
    (works : ¬ found.FailsBefore engine schema row) (holds : Ordering → Bool) :
    found.after engine schema row holds = found.before engine schema row holds ↔
      ¬ found.Differs row holds := by
  have literal_type := castTo_dataType castsLiteral
  rw [CastComparison.FailsBefore, not_or, not_or, not_not] at works
  obtain ⟨-, same, castable⟩ := works
  rw [CastComparison.after, CastComparison.before, own_eq, Option.bind_some, Option.bind_some]
  cases datum_eq : row found.column with
  | none =>
      rw [Engine.castTo, Option.bind_some, compareValues_eq_iff literal_type.symm same]
      apply iff_of_true rfl
      rintro ⟨_, _, found_eq, -⟩
      rw [datum_eq] at found_eq
      cases found_eq
  | some datum =>
      cases casts : engine.castDatum found.source datum found.target with
      | none => exact absurd ⟨_, own_eq, datum, datum_eq, casts⟩ castable
      | some casted =>
          have cast_eq : engine.castTo { dataType := found.source, value := some datum }
              found.target = some { dataType := found.target, value := some casted } := by
            rw [Engine.castTo]
            simp only [casts, Option.map_some]
          rw [cast_eq, Option.bind_some, compareValues_eq_iff literal_type.symm same]
          cases literal_eq : found.literal.value with
          | none =>
              have nothing : found.castLiteral.value = none := by
                rw [Engine.castTo, literal_eq] at castsLiteral
                rw [← Option.some.inj castsLiteral]
              rw [nothing]
              apply iff_of_true rfl
              rintro ⟨_, _, -, found_eq, -⟩
              rw [literal_eq] at found_eq
              cases found_eq
          | some literal =>
              obtain ⟨castLiteral, fits, castLiteral_eq⟩ : ∃ castLiteral,
                  engine.castDatum found.literal.dataType literal found.source =
                    some castLiteral ∧ found.castLiteral.value = some castLiteral := by
                rw [Engine.castTo, literal_eq] at castsLiteral
                obtain ⟨castLiteral, fits, result⟩ := Option.map_eq_some_iff.mp castsLiteral
                rw [← result]
                exact ⟨castLiteral, fits, rfl⟩
              rw [castLiteral_eq]
              simp only [Option.some.injEq, Datum.bool.injEq]
              have literal_typed := valid literal literal_eq
              rw [← same] at literal_typed
              rw [← compareData_eq_iff compatible same datum_eq literal_eq
                (wellTyped _ _ _ own_eq datum_eq) literal_typed casts fits holds]
              exact eq_comm

/-- A comparison has the same value before and after exactly if its truth value is preserved. -/
theorem after_eq_before_iff (wellTyped : WellTyped schema row) (valid : found.literal.IsValid)
    (castsLiteral : castLiteralToSource engine found.literal found.source = some found.castLiteral)
    (holds : Ordering → Bool) :
    found.after engine schema row holds = found.before engine schema row holds ↔
      found.Preserved engine schema row holds := by
  rw [castLiteralToSource] at castsLiteral
  split at castsLiteral
  · next compatible =>
      have literal_type := castTo_dataType castsLiteral
      cases own_eq : columnType schema found.column with
      | none =>
          have both : found.FailsBefore engine schema row ∧ found.FailsAfter schema :=
            ⟨.inl own_eq, by rw [CastComparison.FailsAfter, own_eq]; nofun⟩
          simp [CastComparison.after, CastComparison.before, CastComparison.Preserved, own_eq, both]
      | some own =>
          have before_iff : found.before engine schema row holds = none ↔ _ :=
            before_eq_none_iff own_eq holds
          have after_iff : found.after engine schema row holds = none ↔
              found.FailsAfter schema := by
            rw [CastComparison.after, own_eq, Option.bind_some, compareValues_eq_none,
              CastComparison.FailsAfter, own_eq, literal_type, ne_eq, ne_eq, Option.some.injEq]
          rw [CastComparison.Preserved, ← before_iff, ← after_iff]
          by_cases fails_before : found.before engine schema row holds = none
          · simp [fails_before]
          · by_cases fails_after : found.after engine schema row holds = none
            · simp [fails_after, fails_before, eq_comm (a := none)]
            · simp only [fails_before, fails_after, and_self, not_false_eq_true, true_and,
                false_or]
              have source_eq : columnType schema found.column = some found.source := by
                rw [after_iff, CastComparison.FailsAfter, not_not] at fails_after
                exact fails_after
              rw [before_iff] at fails_before
              exact after_eq_before_iff_of_not_fails wellTyped valid compatible castsLiteral
                source_eq fails_before holds
  · cases castsLiteral

/-! ## Predicates -/

/-- An expression and the operands below its binary operators. -/
def Expr.subexpressions : Expr → List Expr
  | .binaryExpr left op right =>
      .binaryExpr left op right :: (left.subexpressions ++ right.subexpressions)
  | expr => [expr]

/-- The comparison of a cast column with a literal that an operator is, with the orderings for which
it is true. -/
def foundComparison (engine : Engine) (schema : Schema) (left : Expr) (op : Operator)
    (right : Expr) : Option (CastComparison × (Ordering → Bool)) := do
  let holds ← op.comparison
  if literalOnRight schema left right then
    (castComparison engine schema left right).map fun found => (found, holds)
  else
    (castComparison engine schema right left).map fun found => (found, orient true holds)

/-- The truth values of the comparisons that are rewritten are preserved. -/
def PreservesAll (engine : Engine) (schema : Schema) (row : Row) : Expr → Prop
  | .binaryExpr left op right =>
      PreservesAll engine schema row left ∧ PreservesAll engine schema row right ∧
        (simplifyCastPredicates engine schema left = none →
          simplifyCastPredicates engine schema right = none →
            ∀ found ∈ foundComparison engine schema left op right,
              found.1.Preserved engine schema row found.2)
  | _ => True

/-- The value of an expression is that of what it is rewritten to. -/
def KeepsValue (engine : Engine) (schema : Schema) (row : Row) (expr : Expr) : Prop :=
  ∀ simplified ∈ simplifyCastPredicates engine schema expr,
    simplified.evaluate engine schema row = expr.evaluate engine schema row

/-- The literals of an expression belong to their types. -/
def Expr.LiteralsValid : Expr → Prop
  | .literal value => value.IsValid
  | .cast expr _ => expr.LiteralsValid
  | .binaryExpr left _ right => left.LiteralsValid ∧ right.LiteralsValid
  | _ => True

theorem castColumn_eq_some {expr : Expr} {column : Column} {target : DataType}
    (found : castColumn schema expr = some (column, target)) :
    expr = .cast (.column column) target := by
  unfold castColumn at found
  split at found
  · split at found
    · cases found
      rfl
    · cases found
  · cases found

theorem extractLiteral_eq_some {expr : Expr} {value : ScalarValue}
    (found : extractLiteral expr = some value) : expr = .literal value := by
  cases expr <;> cases found
  rfl

/-- A comparison that is found consists of the parts that are found. -/
theorem castComparison_eq_some {cast literal : Expr}
    (recognised : castComparison engine schema cast literal = some found) :
    cast = .cast (.column found.column) found.target ∧ literal = .literal found.literal ∧
      castLiteralToSource engine found.literal found.source = some found.castLiteral := by
  simp only [castComparison, Option.bind_eq_bind, Option.bind_eq_some_iff, Option.some.injEq]
    at recognised
  obtain ⟨⟨column, target⟩, column_eq, value, literal_eq, source, -, castLiteral, casts, rfl⟩ :=
    recognised
  exact ⟨castColumn_eq_some column_eq, extractLiteral_eq_some literal_eq, casts⟩

theorem compareData_swap (left right : Datum) :
    engine.compareData left right = (engine.compareData right left).swap := by
  cases left with
  | number left =>
      cases right with
      | number right => exact Std.OrientedOrd.eq_swap
      | _ => exact engine.compare_swap _ _
  | text left =>
      cases right with
      | text right => exact Std.OrientedOrd.eq_swap
      | _ => exact engine.compare_swap _ _
  | bool _ | other _ => cases right <;> exact engine.compare_swap _ _

theorem compareValues_swap (holds : Ordering → Bool) (left right : ScalarValue) :
    engine.compareValues holds left right =
      engine.compareValues (orient true holds) right left := by
  rw [Engine.compareValues, Engine.compareValues]
  by_cases same : left.dataType = right.dataType
  · rw [if_pos same, if_pos same.symm]
    cases left.value with
    | none => cases right.value <;> rfl
    | some first =>
        cases right.value with
        | none => rfl
        | some second => simp only [orient, if_true, ← compareData_swap]
  · rw [if_neg same, if_neg fun same' => same same'.symm]

/-- A single comparison that is rewritten keeps its value exactly if its truth value is
preserved. -/
theorem simplifyCastComparison_keeps_iff {left right : Expr} {op : Operator}
    (wellTyped : WellTyped schema row) (left_valid : left.LiteralsValid)
    (right_valid : right.LiteralsValid) :
    (∀ simplified ∈ simplifyCastComparison engine schema left op right,
        simplified.evaluate engine schema row =
          (Expr.binaryExpr left op right).evaluate engine schema row) ↔
      ∀ found ∈ foundComparison engine schema left op right,
        found.1.Preserved engine schema row found.2 := by
  cases comparison : op.comparison with
  | none => simp [simplifyCastComparison, foundComparison, comparison]
  | some holds =>
      simp only [simplifyCastComparison, foundComparison, comparison, Option.isNone_some,
        Bool.false_eq_true, if_false, Option.bind_eq_bind, Option.bind_some]
      split
      · cases recognised : castComparison engine schema left right with
        | none => simp
        | some found =>
            obtain ⟨rfl, rfl, casts⟩ := castComparison_eq_some recognised
            simp only [Option.map_some, Option.mem_def, Option.some.injEq, forall_eq']
            rw [← after_eq_before_iff wellTyped right_valid casts holds]
            simp only [Expr.evaluate, comparison, Option.bind_some, CastComparison.after,
              CastComparison.before, Option.bind_map, Function.comp_def]
      · cases recognised : castComparison engine schema right left with
        | none => simp
        | some found =>
            obtain ⟨rfl, rfl, casts⟩ := castComparison_eq_some recognised
            simp only [Option.map_some, Option.mem_def, Option.some.injEq, forall_eq']
            rw [← after_eq_before_iff wellTyped left_valid casts (orient true holds)]
            simp only [Expr.evaluate, comparison, Option.bind_some, CastComparison.after,
              CastComparison.before, Option.bind_map, Function.comp_def, compareValues_swap holds]

theorem mem_subexpressions (expr : Expr) : expr ∈ expr.subexpressions := by
  cases expr <;> exact List.mem_cons_self

/-- The value of a binary expression is determined by those of its operands. -/
theorem evaluate_binaryExpr_congr {left left' right right' : Expr} (op : Operator)
    (left_eq : left'.evaluate engine schema row = left.evaluate engine schema row)
    (right_eq : right'.evaluate engine schema row = right.evaluate engine schema row) :
    (Expr.binaryExpr left' op right').evaluate engine schema row =
      (Expr.binaryExpr left op right).evaluate engine schema row := by
  simp only [Expr.evaluate, left_eq, right_eq]

/-- Where the operands keep their values, a binary expression keeps its value exactly if the truth
value of the comparison that it is, if it is rewritten as one, is preserved. -/
theorem keepsValue_binaryExpr_iff {left right : Expr} {op : Operator}
    (wellTyped : WellTyped schema row) (left_valid : left.LiteralsValid)
    (right_valid : right.LiteralsValid) (left_keeps : KeepsValue engine schema row left)
    (right_keeps : KeepsValue engine schema row right) :
    KeepsValue engine schema row (.binaryExpr left op right) ↔
      (simplifyCastPredicates engine schema left = none →
        simplifyCastPredicates engine schema right = none →
          ∀ found ∈ foundComparison engine schema left op right,
            found.1.Preserved engine schema row found.2) := by
  rw [KeepsValue, simplifyCastPredicates]
  cases left_eq : simplifyCastPredicates engine schema left with
  | some newLeft =>
      simp only [Option.mem_def, Option.some.injEq, forall_eq', reduceCtorEq, false_implies,
        iff_true]
      apply evaluate_binaryExpr_congr op (left_keeps newLeft left_eq)
      cases right_eq : simplifyCastPredicates engine schema right with
      | none => rfl
      | some newRight => exact right_keeps newRight right_eq
  | none =>
      cases right_eq : simplifyCastPredicates engine schema right with
      | some newRight =>
          simp only [Option.mem_def, Option.some.injEq, forall_eq', reduceCtorEq, false_implies,
            implies_true, iff_true]
          exact evaluate_binaryExpr_congr op rfl (right_keeps newRight right_eq)
      | none =>
          simp only [forall_const]
          exact simplifyCastComparison_keeps_iff wellTyped left_valid right_valid

/-- A predicate and its operands keep their values exactly if the truth value of every comparison
that is rewritten is preserved: both forms fail on the row, or neither does and not exactly one of
the casts makes the column equal to the literal where this makes a difference. -/
theorem keepsValue_iff {expr : Expr} (engine : Engine) (wellTyped : WellTyped schema row)
    (valid : expr.LiteralsValid) :
    (∀ sub ∈ expr.subexpressions, KeepsValue engine schema row sub) ↔
      PreservesAll engine schema row expr := by
  induction expr with
  | binaryExpr left op right left_ih right_ih =>
      rw [Expr.subexpressions, List.forall_mem_cons, List.forall_mem_append, left_ih valid.1,
        right_ih valid.2, PreservesAll, and_comm, and_assoc]
      apply and_congr_right
      intro left_preserves
      apply and_congr_right
      intro right_preserves
      apply keepsValue_binaryExpr_iff wellTyped valid.1 valid.2
      · exact (left_ih valid.1).mpr left_preserves left (mem_subexpressions left)
      · exact (right_ih valid.2).mpr right_preserves right (mem_subexpressions right)
  | column _ | literal _ | cast _ _ | other _ =>
      apply iff_of_true _ trivial
      intro sub member simplified rewritten
      obtain rfl := List.mem_singleton.mp member
      cases rewritten

end SimplifyCastPredicates

/-! ## Concrete predicates -/

namespace Integers

open SimplifyCastPredicates

/-- An engine that casts and compares nothing else. -/
def numbersOnly : Engine where
  cast := fun _ _ _ => none
  compare := fun _ _ => .eq
  compare_swap := fun _ _ => rfl
  apply := fun _ _ _ => none

/-- A column of floats in double precision. -/
def measure : SimplifyCastPredicates.Column where
  relation := none
  name := "x"

/-- The cast of the column to integers compared with 0. -/
def truncatedIsZero (op : Operator) : Expr :=
  .binaryExpr (.cast (.column measure) .int64) op
    (.literal { dataType := .int64, value := some (.number (.finite 0)) })

/-- A row with one number. -/
def measureRow (value : ℚ) : Row :=
  fun column => if column = measure then some (.number (.finite value)) else none

theorem wellTyped_measureRow {value : ℚ} (represents : binary64.Represents value) :
    WellTyped [(measure, .float64)] (measureRow value) := by
  intro column dataType datum type_eq datum_eq
  rw [measureRow] at datum_eq
  split at datum_eq
  · next here =>
      subst here
      cases type_eq
      cases datum_eq
      intro rational same
      rw [← Extended.finite_inj.mp same]
      exact represents
  · cases datum_eq

theorem literalsValid_truncatedIsZero (op : Operator) : (truncatedIsZero op).LiteralsValid := by
  constructor
  · trivial
  · intro datum datum_eq
    cases datum_eq
    exact ⟨0, by rw [Int.cast_zero], by norm_num, by norm_num⟩

/-- Small multiples of powers of two are in double precision. -/
theorem represents_binary64 (significand exponent : ℤ) (few : |significand| < 2 ^ 53)
    (low : -1074 ≤ exponent) (high : exponent ≤ 971) :
    binary64.Represents (significand * 2 ^ exponent) :=
  FloatFormat.represents_mul_zpow few low (show exponent + 53 ≤ 1023 + 1 by omega)

theorem round_zero : binary64.round (.finite 0) = .finite 0 := by
  apply (FloatFormat.adjacent_round (by decide) _).fixes
  intro rational same
  rw [← Extended.finite_inj.mp same]
  simpa using represents_binary64 0 0 (by norm_num) (by norm_num) (by norm_num)

theorem toInteger_of_small {value : ℚ} {number : ℤ} (truncated : truncate value = number)
    (low : -2 ^ 63 ≤ number) (high : number < 2 ^ 63) :
    DataType.int64.fromNumber (.finite value) = some (.finite number) := by
  rw [DataType.fromNumber, toInteger_finite, truncated, if_pos ⟨low, high⟩]

/-- What the rule finds. -/
def truncatedComparison : CastComparison where
  column := measure
  target := .int64
  literal := { dataType := .int64, value := some (.number (.finite 0)) }
  source := .float64
  castLiteral :=
    { dataType := .float64, value := some (.number (binary64.round (.finite 0))) }

theorem not_failsBefore {value : ℚ} {number : ℤ} (truncated : truncate value = number)
    (low : -2 ^ 63 ≤ number) (high : number < 2 ^ 63) :
    ¬ truncatedComparison.FailsBefore numbersOnly [(measure, .float64)] (measureRow value) := by
  rintro (missing | different | ⟨source, source_eq, datum, datum_eq, fails⟩)
  · cases missing
  · exact different rfl
  · cases source_eq
    rw [measureRow, truncatedComparison, if_pos rfl] at datum_eq
    cases datum_eq
    change (DataType.int64.fromNumber (.finite value)).map Datum.number = none at fails
    rw [toInteger_of_small truncated low high] at fails
    cases fails

/-- One half is truncated to 0, and is not 0. -/
theorem not_keepsValue_half :
    ¬ KeepsValue numbersOnly [(measure, .float64)] (measureRow (1 / 2)) (truncatedIsZero .eq) := by
  have represents : binary64.Represents (1 / 2) := by
    have half := represents_binary64 1 (-1) (by norm_num) (by norm_num) (by norm_num)
    norm_num at half ⊢
    exact half
  have truncated : truncate (1 / 2) = 0 := by norm_num [truncate]
  have literals := literalsValid_truncatedIsZero .eq
  rw [truncatedIsZero, keepsValue_binaryExpr_iff (wellTyped_measureRow represents) literals.1
    literals.2 (by rintro _ ⟨⟩) (by rintro _ ⟨⟩)]
  intro preserved
  have found : truncatedComparison.Preserved numbersOnly [(measure, .float64)]
      (measureRow (1 / 2)) fun ordering => ordering = .eq := preserved rfl rfl _ rfl
  rcases found with ⟨fails, -⟩ | ⟨-, -, same⟩
  · exact not_failsBefore truncated (by norm_num) (by norm_num) fails
  · apply same
    have fits := toInteger_of_small truncated (by norm_num) (by norm_num)
    rw [Int.cast_zero] at fits
    have greater : compare (Extended.finite (1 / 2)) (Extended.finite 0) = .gt :=
      compare_gt_iff_gt.mpr (Extended.finite_lt.mpr (by norm_num))
    refine ⟨.finite (1 / 2), .finite 0, rfl, rfl, fun agree => ?_, ?_⟩
    · have equal : binary64.round (.finite 0) = .finite (1 / 2) := Option.some.inj (agree.mp fits)
      rw [round_zero, Extended.finite_inj] at equal
      norm_num at equal
    · rw [greater]
      decide

/-- 3 is neither truncated to 0 nor 0. -/
theorem keepsValue_three :
    KeepsValue numbersOnly [(measure, .float64)] (measureRow 3) (truncatedIsZero .eq) := by
  have represents : binary64.Represents 3 := by
    have three := represents_binary64 3 0 (by norm_num) (by norm_num) (by norm_num)
    norm_num at three ⊢
    exact three
  have truncated : truncate 3 = 3 := truncate_intCast 3
  apply (keepsValue_iff numbersOnly (wellTyped_measureRow represents)
    (literalsValid_truncatedIsZero .eq)).mpr _ (truncatedIsZero .eq) (mem_subexpressions _)
  refine ⟨trivial, trivial, fun _ _ found found_eq => ?_⟩
  cases found_eq
  right
  refine ⟨not_failsBefore truncated (by norm_num) (by norm_num), fun fails => fails rfl, ?_⟩
  rintro ⟨value, literal, value_eq, literal_eq, different, -⟩
  rw [measureRow, if_pos rfl] at value_eq
  cases value_eq
  cases literal_eq
  apply different
  apply iff_of_false
  · intro zero
    have fits := toInteger_of_small truncated (by norm_num) (by norm_num)
    have equal : Extended.finite ((3 : ℤ) : ℚ) = .finite 0 := Option.some.inj (fits.symm.trans zero)
    rw [Extended.finite_inj] at equal
    norm_num at equal
  · intro three
    have equal : binary64.round (.finite 0) = .finite 3 := Option.some.inj three
    rw [round_zero, Extended.finite_inj] at equal
    norm_num at equal

end Integers

end IcefallDB
