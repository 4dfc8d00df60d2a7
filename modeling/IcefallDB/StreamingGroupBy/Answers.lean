import IcefallDB.Lib.Options
import IcefallDB.StreamingGroupBy

/-!
# Answers of the streaming group-by

Over a sorted input, the running state of a group is a function of its rows, however these are
split into batches.  The groups that have been emitted are the ones below every row still to come.
-/

namespace IcefallDB

namespace StreamingGroupBy

variable {K R F : Type} [FloatCasts F]

/-! ## Answers in SQL -/

/-- Sum of some values in order; null without values. -/
def total {V : Type} [Zero V] [Add V] (values : List V) : Option V :=
  if values.isEmpty then none else some (values.foldl (· + ·) 0)

theorem total_append {V : Type} [Zero V] [Add V] (values : List V) (value : V) :
    total (values ++ [value]) = some ((total values).getD 0 + value) := by
  cases values with
  | nil => rfl
  | cons first values => simp [total]

/-- Divide, unless there is nothing to divide by. -/
def average (sum : F) (count : Int) : Option F :=
  if count > 0 then some (sum / FloatCasts.ofInt count) else none

/-- A float in the type of an output column. -/
def floatOutput (type : DataType) (value : Option F) : OutputValue F :=
  match type with
  | .float32 => .float32 (value.map Double.toSingle)
  | _ => .float64 value

/-- The sum of a column over some rows, modulo the width of the output column. -/
def sqlSum (input : ColumnExpr R F) (outputType : DataType) (rows : List R) : OutputValue F :=
  match input, outputType with
  | .int _ value, .int width =>
      .int width ((total (rows.filterMap value)).map fun sum => sum.bmod (2 ^ width.bits))
  | .uint _ value, .uint width =>
      .uint width ((total (rows.filterMap value)).map fun sum => sum % 2 ^ width.bits)
  | .float32 value, type | .float64 value, type =>
      floatOutput type (total (rows.filterMap value))
  | _, type => floatOutput type none

/-- The sum that an average divides. -/
def sumToDivide (input : ColumnExpr R F) (rows : List R) : F :=
  match input with
  | .int _ value =>
      FloatCasts.ofInt (((total (rows.filterMap value)).getD 0).bmod (2 ^ 128))
  | .uint _ value =>
      FloatCasts.ofInt (((total (rows.filterMap value)).getD 0 % 2 ^ 128 : Nat) : Int)
  | .float32 value | .float64 value => (total (rows.filterMap value)).getD 0
  | .other _ _ => 0

/-- The answer of an aggregate over some rows, with the counts of a number of rows as given. -/
def sqlValue (counted : Nat → Int) (agg : AggrExpr R F) (rows : List R) : OutputValue F :=
  match agg.aggType with
  | .count => .int .w64 (some (counted (rows.countP agg.input.isValid)))
  | .sum => sqlSum agg.input agg.outputType rows
  | .avg => floatOutput agg.outputType
      (average (sumToDivide agg.input rows) (counted (rows.countP agg.input.isValid)))

/-- Group-by: the distinct keys in order, with the answers over the rows of each. -/
def groupBy [LinearOrder K] (counted : Nat → Int) (exec : StreamingGroupByExec K R F)
    (rows : List R) : List (K × List (OutputValue F)) :=
  (Groups.keys exec.groupKey rows).map fun group =>
    (group, exec.aggrExprs.map fun agg =>
      sqlValue counted agg (Groups.members exec.groupKey rows group))

variable {rows : List R}

/-- Only counts up to the number of rows matter. -/
theorem groupBy_congr [LinearOrder K] {counted counted' : Nat → Int}
    {exec : StreamingGroupByExec K R F}
    (same : ∀ count, count ≤ rows.length → counted count = counted' count) :
    groupBy counted exec rows = groupBy counted' exec rows := by
  apply List.map_congr_left
  intro group _
  congr 1
  apply List.map_congr_left
  intro agg _
  have small : (Groups.members exec.groupKey rows group).countP agg.input.isValid ≤ rows.length :=
    List.countP_le_length.trans (List.length_filter_le _ rows)
  simp only [sqlValue, same _ small]

/-- A count as 64 signed bits hold it. -/
def countI64 (count : Nat) : Int :=
  (count : Int).bmod (2 ^ 64)

theorem countI64_eq {count : Nat} (small : count < 2 ^ 63) : countI64 count = count := by
  have low : -((2 ^ 64 : Nat) : Int) ≤ (count : Int) * 2 := by omega
  have high : (count : Int) * 2 < (2 ^ 64 : Nat) := by omega
  exact Int.bmod_eq_of_le_mul_two low high

/-- The output column of an aggregate has a type that SQL gives it. -/
def Planned (agg : AggrExpr R F) : Prop :=
  match agg.aggType, agg.input, agg.outputType with
  | .count, _, .int .w64 => True
  | .sum, .int _ _, .int _ => True
  | .sum, .uint _ _, .uint _ => True
  | .sum, .float32 _, .float32 | .sum, .float32 _, .float64 | .sum, .float64 _, .float64 => True
  | .avg, .int _ _, .float64 | .avg, .uint _ _, .float64 => True
  | .avg, .float32 _, .float32 | .avg, .float32 _, .float64 | .avg, .float64 _, .float64 => True
  | _, _, _ => False

/-! ## State of an aggregate -/

/-- The accumulator of an aggregate after some rows. -/
def accumulatorOf (agg : AggrExpr R F) (rows : List R) : Accumulator F :=
  match agg.aggType, agg.input with
  | .count, _ => .count
  | _, .int _ value =>
      .i128 ((total (rows.filterMap value)).map fun sum => sum.bmod (2 ^ 128))
  | _, .uint _ value =>
      .u128 ((total (rows.filterMap value)).map fun sum => sum % 2 ^ 128)
  | _, .float32 value | _, .float64 value => .f64 (total (rows.filterMap value))
  | _, .other _ _ => .count

/-- The state of an aggregate after some rows. -/
def perAggOf (agg : AggrExpr R F) (rows : List R) : PerAggState F where
  count :=
    match agg.aggType with
    | .sum => 0
    | _ => countI64 (rows.countP agg.input.isValid)
  accumulator := accumulatorOf agg rows

variable {agg : AggrExpr R F}

theorem new_eq (planned : Planned agg) :
    Accumulator.new agg.input agg.aggType = .ok (accumulatorOf agg []) := by
  obtain ⟨aggType, input, outputType⟩ := agg
  cases aggType with
  | count => rfl
  | sum => cases input <;> first | rfl | exact planned.elim
  | avg => cases input <;> first | rfl | exact planned.elim

theorem perAggOf_nil (agg : AggrExpr R F) :
    perAggOf agg [] = { count := 0, accumulator := accumulatorOf agg [] } := by
  have none_counted : countI64 0 = 0 := countI64_eq (by omega)
  cases type : agg.aggType <;> simp only [perAggOf, type, List.countP_nil, none_counted]

theorem addI128_total (values : List Int) (value : Int) :
    addI128 (((total values).map fun sum => sum.bmod (2 ^ 128)).getD 0) value =
      ((total values).getD 0 + value).bmod (2 ^ 128) := by
  cases total values with
  | none => simp only [Option.map_none, Option.getD_none, addI128]
  | some sum => exact Int.bmod_add_bmod

theorem addU128_total (values : List Nat) (value : Nat) :
    addU128 (((total values).map fun sum => sum % 2 ^ 128).getD 0) value =
      ((total values).getD 0 + value) % 2 ^ 128 := by
  cases total values with
  | none => simp only [Option.map_none, Option.getD_none, addU128]
  | some sum => simp only [Option.map_some, Option.getD_some, addU128, Nat.mod_add_mod]

variable {row : R}

theorem filterMap_append_some {V : Type} {value : R → Option V} {v : V} (found : value row = some v) :
    (rows ++ [row]).filterMap value = rows.filterMap value ++ [v] := by
  simp [found]

theorem filterMap_append_none {V : Type} {value : R → Option V} (absent : value row = none) :
    (rows ++ [row]).filterMap value = rows.filterMap value := by
  simp [absent]

/-- A row that is not null is added to the running sum. -/
theorem accumulate_accumulatorOf (planned : Planned agg) (sums : agg.aggType ≠ .count)
    (rows : List R) (valid : agg.input.isValid row = true) :
    accumulate agg.input row (accumulatorOf agg rows) = .ok (accumulatorOf agg (rows ++ [row])) := by
  obtain ⟨aggType, input, outputType⟩ := agg
  cases aggType with
  | count => exact (sums rfl).elim
  | sum | avg =>
      cases input with
      | int width value =>
          obtain ⟨v, found⟩ := Option.isSome_iff_exists.mp valid
          simp only [accumulatorOf, accumulate, filterMap_append_some found, total_append, found,
            Option.map_some, addI128_total]
      | uint width value =>
          obtain ⟨v, found⟩ := Option.isSome_iff_exists.mp valid
          simp only [accumulatorOf, accumulate, filterMap_append_some found, total_append, found,
            Option.map_some, addU128_total]
      | float32 value | float64 value =>
          obtain ⟨v, found⟩ := Option.isSome_iff_exists.mp valid
          simp only [accumulatorOf, accumulate, extractF64, filterMap_append_some found,
            total_append, found]
      | other name isValid => exact planned.elim

/-- A null changes no running sum. -/
theorem accumulatorOf_null (agg : AggrExpr R F) (rows : List R)
    (null : agg.input.isValid row = false) :
    accumulatorOf agg (rows ++ [row]) = accumulatorOf agg rows := by
  obtain ⟨aggType, input, outputType⟩ := agg
  cases aggType with
  | count => rfl
  | sum | avg =>
      cases input with
      | int _ value | uint _ value | float32 value | float64 value =>
          have absent : value row = none := by simpa [ColumnExpr.isValid] using null
          simp only [accumulatorOf, filterMap_append_none absent]
      | other name isValid => rfl

theorem countI64_succ (count : Nat) : addI64 (countI64 count) 1 = countI64 (count + 1) := by
  unfold addI64 countI64
  rw [Int.bmod_add_bmod, Int.natCast_add, Int.natCast_one]

/-- Each row takes the state of an aggregate to that of one more row. -/
theorem updatePerAggState_perAggOf (planned : Planned agg) (rows : List R) (row : R) :
    updatePerAggState agg (perAggOf agg rows) row = .ok (perAggOf agg (rows ++ [row])) := by
  rw [updatePerAggState]
  split
  · next valid =>
      have counted : (rows ++ [row]).countP agg.input.isValid =
          rows.countP agg.input.isValid + 1 := by simp [List.countP_append, valid]
      have summed := fun sums => accumulate_accumulatorOf planned sums rows valid
      cases type : agg.aggType with
      | count => simp only [perAggOf, type, counted, countI64_succ, accumulatorOf]
      | sum =>
          simp only [perAggOf, type, summed (by simp [type])]
          rfl
      | avg =>
          simp only [perAggOf, type, counted, countI64_succ, summed (by simp [type])]
          rfl
  · next null =>
      have absent : agg.input.isValid row = false := by simpa using null
      have counted : (rows ++ [row]).countP agg.input.isValid = rows.countP agg.input.isValid := by
        simp [List.countP_append, absent]
      simp only [perAggOf, counted, accumulatorOf_null agg rows absent]

theorem width_dvd (width : IntWidth) : 2 ^ width.bits ∣ 2 ^ 128 := by
  apply Nat.pow_dvd_pow
  cases width <;> decide

theorem buildSum_perAggOf (planned : Planned agg) (sums : agg.aggType = .sum) (rows : List R) :
    buildSum agg (perAggOf agg rows) = .ok (sqlSum agg.input agg.outputType rows) := by
  obtain ⟨aggType, input, outputType⟩ := agg
  obtain rfl : aggType = .sum := sums
  cases input with
  | int width value =>
      cases outputType with
      | int width =>
          simp only [buildSum, perAggOf, accumulatorOf, buildI128Output, sqlSum, Option.map_map,
            Function.comp_def, Int.bmod_bmod_of_dvd (width_dvd width)]
      | uint _ | float32 | float64 | other _ => exact planned.elim
  | uint width value =>
      cases outputType with
      | uint width =>
          simp only [buildSum, perAggOf, accumulatorOf, buildU128Output, sqlSum, Option.map_map,
            Function.comp_def, Nat.mod_mod_of_dvd _ (width_dvd width)]
      | int _ | float32 | float64 | other _ => exact planned.elim
  | float32 value =>
      cases outputType with
      | float32 | float64 => rfl
      | int _ | uint _ | other _ => exact planned.elim
  | float64 value =>
      cases outputType with
      | float64 => rfl
      | int _ | uint _ | float32 | other _ => exact planned.elim
  | other name isValid => exact planned.elim

theorem total_eq_some {V : Type} [Zero V] [Add V] (value : R → Option V)
    (counted : 0 < rows.countP fun row => (value row).isSome) :
    ∃ sum, total (rows.filterMap value) = some sum := by
  rw [← List.length_filterMap_eq_countP] at counted
  rw [total, if_neg (by simpa using List.ne_nil_of_length_pos counted)]
  exact ⟨_, rfl⟩

theorem countI64_pos {count : Nat} (pos : countI64 count > 0) : 0 < count := by
  rcases Nat.eq_zero_or_pos count with rfl | counted
  · rw [countI64_eq (by omega)] at pos
    exact absurd pos (by decide)
  · exact counted

theorem avgValue_eq {count : Int} {accumulator : Accumulator F} {sum : F}
    (summed : count > 0 → accumulator = .f64 (some sum) ∨
      (∃ value, accumulator = .i128 (some value) ∧ FloatCasts.ofInt value = sum) ∨
      ∃ value : Nat, accumulator = .u128 (some value) ∧ FloatCasts.ofInt (value : Int) = sum) :
    avgValue { count, accumulator } = .ok (average sum count) := by
  unfold avgValue average
  by_cases pos : count > 0
  · rw [if_pos pos, if_pos pos]
    rcases summed pos with rfl | ⟨value, rfl, rfl⟩ | ⟨value, rfl, rfl⟩ <;> rfl
  · rw [if_neg pos, if_neg pos]

/-- Where the count is positive, there is a sum to divide. -/
theorem avgValue_perAggOf (planned : Planned agg) (averages : agg.aggType = .avg) (rows : List R) :
    avgValue (perAggOf agg rows) =
      .ok (average (sumToDivide agg.input rows) (countI64 (rows.countP agg.input.isValid))) := by
  obtain ⟨aggType, input, outputType⟩ := agg
  obtain rfl : aggType = .avg := averages
  apply avgValue_eq
  intro pos
  have counted := countI64_pos pos
  cases input with
  | int width value =>
      obtain ⟨sum, found⟩ := total_eq_some value counted
      refine .inr (.inl ⟨sum.bmod (2 ^ 128), ?_, ?_⟩)
      · simp only [accumulatorOf, found, Option.map_some]
      · simp only [sumToDivide, found, Option.getD_some]
  | uint width value =>
      obtain ⟨sum, found⟩ := total_eq_some value counted
      refine .inr (.inr ⟨sum % 2 ^ 128, ?_, ?_⟩)
      · simp only [accumulatorOf, found, Option.map_some]
      · simp only [sumToDivide, found, Option.getD_some]
  | float32 value | float64 value =>
      obtain ⟨sum, found⟩ := total_eq_some value counted
      left
      simp only [accumulatorOf, sumToDivide, found, Option.getD_some]
  | other name isValid => exact planned.elim

theorem buildAvg_perAggOf (planned : Planned agg) (averages : agg.aggType = .avg) (rows : List R) :
    buildAvg agg (perAggOf agg rows) = .ok (floatOutput agg.outputType
      (average (sumToDivide agg.input rows) (countI64 (rows.countP agg.input.isValid)))) := by
  rw [buildAvg, avgValue_perAggOf planned averages]
  generalize average (sumToDivide agg.input rows) _ = value
  obtain ⟨aggType, input, outputType⟩ := agg
  obtain rfl : aggType = .avg := averages
  cases outputType with
  | float32 | float64 => rfl
  | int _ | uint _ | other _ => cases input <;> exact planned.elim

/-- What is built from the state of an aggregate is its answer. -/
theorem buildAgg_perAggOf (planned : Planned agg) (rows : List R) :
    buildAgg agg (perAggOf agg rows) = .ok (sqlValue countI64 agg rows) := by
  cases type : agg.aggType with
  | count =>
      have int64 : agg.outputType = .int .w64 := by
        obtain ⟨aggType, input, outputType⟩ := agg
        obtain rfl : aggType = .count := type
        unfold Planned at planned
        split at planned <;> simp_all
      simp only [buildAgg, type, int64, if_true, perAggOf, sqlValue]
  | sum => simp only [buildAgg, type, buildSum_perAggOf planned type, sqlValue]
  | avg => simp only [buildAgg, type, buildAvg_perAggOf planned type, sqlValue]

/-! ## State of a group -/

theorem mapM_zip_map {α β γ : Type} {f : α → β → Except String γ} {g : α → β} {h : α → γ}
    {values : List α} (maps : ∀ value ∈ values, f value (g value) = .ok (h value)) :
    ((values.zip (values.map g)).mapM fun pair => f pair.1 pair.2) = .ok (values.map h) := by
  induction values with
  | nil => rfl
  | cons value values ih =>
      have rest := ih fun other member => maps other (List.mem_cons_of_mem _ member)
      simp only [List.map_cons, List.zip_cons_cons, List.mapM_cons, rest,
        maps value List.mem_cons_self]
      rfl

/-- The state of a group after some of its rows. -/
def groupOf (exec : StreamingGroupByExec K R F) (key : K) (rows : List R) : GroupState K F :=
  { perAgg := exec.aggrExprs.map fun agg => perAggOf agg rows, keyScalars := key }

/-- The output row of a group. -/
def answerRow (exec : StreamingGroupByExec K R F) (key : K) (rows : List R) :
    K × List (OutputValue F) :=
  (key, exec.aggrExprs.map fun agg => sqlValue countI64 agg rows)

section Group

variable {exec : StreamingGroupByExec K R F} (planned : ∀ agg ∈ exec.aggrExprs, Planned agg)

include planned

theorem newGroup_eq (row : R) : newGroup exec row = .ok (groupOf exec (exec.groupKey row) []) := by
  have states := List.mapM_eq_ok (f := fun agg => do
      let accumulator ← Accumulator.new agg.input agg.aggType
      .ok ({ count := 0, accumulator } : PerAggState F))
    (g := fun agg : AggrExpr R F => perAggOf agg [])
    (fun agg (member : agg ∈ exec.aggrExprs) => by
      rw [new_eq (planned agg member), perAggOf_nil]
      rfl)
  rw [newGroup, states]
  rfl

theorem updateGroup_groupOf (key : K) (rows : List R) (row : R) :
    updateGroup exec (groupOf exec key rows) row = .ok (groupOf exec key (rows ++ [row])) := by
  have states := mapM_zip_map (f := fun agg state => updatePerAggState agg state row)
    (g := fun agg => perAggOf agg rows) (h := fun agg => perAggOf agg (rows ++ [row]))
    fun agg member => updatePerAggState_perAggOf (planned agg member) rows row
  rw [updateGroup, groupOf, states]
  rfl

theorem buildRow_groupOf (key : K) (rows : List R) :
    buildRow exec (groupOf exec key rows) = .ok (answerRow exec key rows) := by
  have values := mapM_zip_map (f := buildAgg) (g := fun agg => perAggOf agg rows)
    fun agg member => buildAgg_perAggOf (planned agg member) rows
  rw [buildRow, groupOf, values]
  rfl

end Group

/-! ## Runs -/

/-- The operator has taken in some rows of a sorted input, with others to come, and has emitted
some output rows. -/
structure Running [LinearOrder K] (exec : StreamingGroupByExec K R F) (seen rest : List R)
    (emitted : List (K × List (OutputValue F))) (groups : SortedMap RowBytes (GroupState K F))
    (drainedUpTo : Option RowBytes) : Prop where
  sorted : (seen ++ rest).Pairwise fun left right => exec.groupKey left ≤ exec.groupKey right
  /-- No row to come has been drained. -/
  drained_le : ∀ drained ∈ drainedUpTo, ∀ row ∈ rest, drained ≤ exec.encode (exec.groupKey row)
  emitted_lt : ∀ row ∈ emitted, ∃ drained ∈ drainedUpTo, exec.encode row.1 < drained
  le_group : ∀ entry ∈ groups.entries, ∃ drained ∈ drainedUpTo, drained ≤ entry.1
  ascending : (emitted.map Prod.fst).Pairwise (· < ·)
  answered : ∀ row ∈ emitted, row.1 ∈ Groups.keys exec.groupKey seen ∧
    row = answerRow exec row.1 (Groups.members exec.groupKey seen row.1)
  grouped : ∀ entry ∈ groups.entries, ∃ key ∈ Groups.keys exec.groupKey seen,
    entry = (exec.encode key, groupOf exec key (Groups.members exec.groupKey seen key))
  complete : ∀ key ∈ Groups.keys exec.groupKey seen,
    key ∈ emitted.map Prod.fst ∨ ∃ entry ∈ groups.entries, entry.1 = exec.encode key

variable {seen rest : List R} {threshold : RowBytes}

/-- Before anything has been drained, nothing has been taken in. -/
theorem Running.begin [LinearOrder K] {exec : StreamingGroupByExec K R F}
    {emitted : List (K × List (OutputValue F))} {groups : SortedMap RowBytes (GroupState K F)}
    (running : Running exec seen rest emitted groups none)
    (le_rest : ∀ row ∈ rest, threshold ≤ exec.encode (exec.groupKey row)) :
    Running exec seen rest emitted groups (some threshold) :=
  { running with
    drained_le := by
      intro drained set row member
      cases set
      exact le_rest row member
    emitted_lt := by
      intro row member
      obtain ⟨drained, set, -⟩ := running.emitted_lt row member
      cases set
    le_group := by
      intro entry member
      obtain ⟨drained, set, -⟩ := running.le_group entry member
      cases set }

variable {state : StreamingState K F}

theorem doneReading_drainGroupsLt {exec : StreamingGroupByExec K R F} {next : StreamingState K F}
    (drains : drainGroupsLt exec threshold state = .ok next) :
    next.doneReading = state.doneReading := by
  unfold drainGroupsLt at drains
  dsimp only at drains
  split at drains
  · cases drains
    rfl
  · obtain ⟨batch, -, built⟩ := Script.except_bind_eq_ok.mp drains
    cases built
    rfl

theorem doneReading_drainCompleted {exec : StreamingGroupByExec K R F} {firstKey : RowBytes}
    {next : StreamingState K F} (drains : drainCompleted exec firstKey state = .ok next) :
    next.doneReading = state.doneReading := by
  unfold drainCompleted at drains
  split at drains
  · split at drains
    · cases drains
    · split at drains
      · obtain ⟨drained, found, rest⟩ := Script.except_bind_eq_ok.mp drains
        cases rest
        have kept := doneReading_drainGroupsLt found
        exact kept
      · cases drains
        rfl
  · cases drains
    rfl

section Runs

variable [LinearOrder K] {exec : StreamingGroupByExec K R F}
  (planned : ∀ agg ∈ exec.aggrExprs, Planned agg) (encode_mono : StrictMono exec.encode)

include planned encode_mono

/-- The output of entries that hold the groups of some rows. -/
theorem buildOutputBatch_eq {entries : List (RowBytes × GroupState K F)}
    (grouped : ∀ entry ∈ entries, ∃ key ∈ Groups.keys exec.groupKey seen,
      entry = (exec.encode key, groupOf exec key (Groups.members exec.groupKey seen key)))
    (ascending : (entries.map Prod.fst).Pairwise (· < ·)) :
    ∃ batch, buildOutputBatch exec entries = .ok batch ∧
      (batch.map Prod.fst).Pairwise (· < ·) ∧
      entries.map Prod.fst = batch.map (fun row => exec.encode row.1) ∧
      ∀ row ∈ batch, row.1 ∈ Groups.keys exec.groupKey seen ∧
        row = answerRow exec row.1 (Groups.members exec.groupKey seen row.1) := by
  induction entries with
  | nil => exact ⟨[], rfl, .nil, rfl, nofun⟩
  | cons entry entries ih =>
      rw [List.map_cons, List.pairwise_cons] at ascending
      obtain ⟨batch, built, rest_ascending, same, answered⟩ :=
        ih (fun other member => grouped other (List.mem_cons_of_mem _ member)) ascending.2
      obtain ⟨key, present, rfl⟩ := grouped entry List.mem_cons_self
      refine ⟨answerRow exec key (Groups.members exec.groupKey seen key) :: batch, ?_, ?_, ?_, ?_⟩
      · rw [buildOutputBatch] at built
        simp only [buildOutputBatch, List.mapM_cons, buildRow_groupOf planned, built]
        rfl
      · rw [List.map_cons, List.pairwise_cons]
        refine ⟨fun other member => ?_, rest_ascending⟩
        obtain ⟨row, found, rfl⟩ := List.mem_map.mp member
        apply encode_mono.lt_iff_lt.mp
        apply ascending.1
        rw [same]
        exact List.mem_map_of_mem found
      · rw [List.map_cons, List.map_cons, same]
        rfl
      · intro row member
        rcases List.mem_cons.mp member with rfl | later
        · exact ⟨present, rfl⟩
        · exact answered row later

variable {emitted : List (K × List (OutputValue F))} {groups : SortedMap RowBytes (GroupState K F)}

omit planned in
/-- Rows built from groups that are still open come after the rows emitted before. -/
theorem Running.emitted_lt_built {batch : List (K × List (OutputValue F))}
    {drainedUpTo : Option RowBytes} (running : Running exec seen rest emitted groups drainedUpTo)
    (built : ∀ row ∈ batch, ∃ entry ∈ groups.entries, entry.1 = exec.encode row.1) :
    ∀ row ∈ emitted, ∀ later ∈ batch, row.1 < later.1 := by
  intro row member later found
  obtain ⟨drained, set, below⟩ := running.emitted_lt row member
  obtain ⟨entry, present, same⟩ := built later found
  obtain ⟨drained', set', above⟩ := running.le_group entry present
  obtain rfl : drained = drained' := Option.mem_unique set set'
  apply encode_mono.lt_iff_lt.mp
  rw [← same]
  exact below.trans_le above

/-- Groups below every row to come can be emitted. -/
theorem running_drainGroupsLt
    (running : Running exec seen rest emitted state.groups state.drainedUpTo)
    (flushed : state.pending = []) (drained_le : ∀ drained ∈ state.drainedUpTo, drained ≤ threshold)
    (le_rest : ∀ row ∈ rest, threshold ≤ exec.encode (exec.groupKey row)) :
    ∃ next, drainGroupsLt exec threshold state = .ok next ∧
      Running exec seen rest (emitted ++ next.pending.flatten) next.groups (some threshold) := by
  obtain ⟨batch, built, ascending, same, answered⟩ :=
    buildOutputBatch_eq planned encode_mono
      (fun entry member => running.grouped entry (SortedMap.mem_splitOff_fst.mp member).1)
      (state.groups.splitOff threshold).1.ascending
  have from_entry : ∀ row ∈ batch, ∃ entry ∈ (state.groups.splitOff threshold).1.entries,
      entry.1 = exec.encode row.1 := by
    intro row member
    have found := List.mem_map_of_mem (f := fun row => exec.encode row.1) member
    rw [← same] at found
    exact List.mem_map.mp found
  have next : ∃ next, drainGroupsLt exec threshold state = .ok next ∧
      next.groups = (state.groups.splitOff threshold).2 ∧ next.pending.flatten = batch := by
    rw [drainGroupsLt]
    by_cases empty : (state.groups.splitOff threshold).1.entries = []
    · rw [empty] at same
      refine ⟨{ state with groups := (state.groups.splitOff threshold).2 }, ?_, rfl, ?_⟩
      · simp only [empty, List.isEmpty_nil, if_true]
      · have nothing : batch = [] := by simpa using same.symm
        rw [flushed, nothing]
        rfl
    · refine ⟨{ state with
          groups := (state.groups.splitOff threshold).2, pending := [batch] }, ?_, rfl, ?_⟩
      · have nonempty : (state.groups.splitOff threshold).1.entries.isEmpty = false := by
          simpa using empty
        simp only [nonempty, built, flushed]
        rfl
      · simp
  obtain ⟨next, drained, groups_eq, pending_eq⟩ := next
  refine ⟨next, drained, ?_⟩
  rw [groups_eq, pending_eq]
  have below : ∀ row ∈ batch, exec.encode row.1 < threshold := by
    intro row member
    obtain ⟨entry, found, same⟩ := from_entry row member
    rw [← same]
    exact (SortedMap.mem_splitOff_fst.mp found).2
  exact {
    sorted := running.sorted
    drained_le := by
      intro drained set row member
      cases set
      exact le_rest row member
    emitted_lt := by
      intro row member
      refine ⟨threshold, rfl, ?_⟩
      rcases List.mem_append.mp member with before | now
      · obtain ⟨drained, set, lt⟩ := running.emitted_lt row before
        exact lt.trans_le (drained_le drained set)
      · exact below row now
    le_group := by
      intro entry member
      exact ⟨threshold, rfl, (SortedMap.mem_splitOff_snd.mp member).2⟩
    ascending := by
      rw [List.map_append, List.pairwise_append]
      refine ⟨running.ascending, ascending, ?_⟩
      intro key before key' now
      obtain ⟨row, member, rfl⟩ := List.mem_map.mp before
      obtain ⟨row', member', rfl⟩ := List.mem_map.mp now
      refine running.emitted_lt_built encode_mono (fun row member => ?_) row member row' member'
      obtain ⟨entry, found, same⟩ := from_entry row member
      exact ⟨entry, (SortedMap.mem_splitOff_fst.mp found).1, same⟩
    answered := by
      intro row member
      rcases List.mem_append.mp member with before | now
      · exact running.answered row before
      · exact answered row now
    grouped := by
      intro entry member
      exact running.grouped entry (SortedMap.mem_splitOff_snd.mp member).1
    complete := by
      intro key present
      rw [List.map_append, List.mem_append]
      rcases running.complete key present with before | ⟨entry, found, same_key⟩
      · exact .inl (.inl before)
      · by_cases low : entry.1 < threshold
        · have member : entry ∈ (state.groups.splitOff threshold).1.entries :=
            SortedMap.mem_splitOff_fst.mpr ⟨found, low⟩
          have mapped := List.mem_map_of_mem (f := Prod.fst) member
          rw [same] at mapped
          obtain ⟨row, now, encoded⟩ := List.mem_map.mp mapped
          have row_key : row.1 = key := encode_mono.injective (encoded.trans same_key)
          exact .inl (.inr (List.mem_map.mpr ⟨row, now, row_key⟩))
        · exact .inr ⟨entry, SortedMap.mem_splitOff_snd.mpr ⟨found, not_lt.mp low⟩, same_key⟩ }

/-- Before a batch is taken in, the groups below its first key are emitted. -/
theorem running_drainCompleted {first : R}
    (running : Running exec seen (first :: rest) emitted state.groups state.drainedUpTo)
    (flushed : state.pending = []) :
    ∃ next, drainCompleted exec (exec.encode (exec.groupKey first)) state = .ok next ∧
      Running exec seen (first :: rest) (emitted ++ next.pending.flatten) next.groups
        (some (exec.encode (exec.groupKey first))) ∧
      next.drainedUpTo = some (exec.encode (exec.groupKey first)) := by
  have le_rest : ∀ row ∈ first :: rest,
      exec.encode (exec.groupKey first) ≤ exec.encode (exec.groupKey row) := by
    intro row member
    apply encode_mono.le_iff_le.mpr
    rcases List.mem_cons.mp member with rfl | later
    · exact le_rfl
    · exact (List.pairwise_cons.mp (List.pairwise_append.mp running.sorted).2.1).1 row later
  cases set : state.drainedUpTo with
  | none =>
      refine ⟨{ state with drainedUpTo := some (exec.encode (exec.groupKey first)) }, ?_, ?_, rfl⟩
      · simp only [drainCompleted, set]
      · rw [set] at running
        rw [flushed, List.flatten_nil, List.append_nil]
        exact running.begin le_rest
  | some drained =>
      have le : drained ≤ exec.encode (exec.groupKey first) :=
        running.drained_le drained set first List.mem_cons_self
      rcases le.lt_or_eq with lt | rfl
      · obtain ⟨next, drains, result⟩ := running_drainGroupsLt planned encode_mono running flushed
          (by simpa [set] using le) le_rest
        refine ⟨{ next with drainedUpTo := some (exec.encode (exec.groupKey first)) }, ?_, ?_, rfl⟩
        · simp only [drainCompleted, set, if_neg lt.not_gt, if_pos lt, drains]
          rfl
        · exact result
      · refine ⟨state, ?_, ?_, set⟩
        · simp only [drainCompleted, set, lt_self_iff_false, if_false]
        · rw [flushed, ← set]
          simpa using running

variable {drained : RowBytes}

/-- The group of a row is opened with the rows it has so far. -/
theorem processRow_eq (running : Running exec seen (row :: rest) emitted groups (some drained)) :
    ∃ groups', processRow exec groups row = .ok groups' ∧
      ∀ entry, entry ∈ groups'.entries ↔
        entry = (exec.encode (exec.groupKey row), groupOf exec (exec.groupKey row)
          (Groups.members exec.groupKey seen (exec.groupKey row) ++ [row])) ∨
        entry ∈ groups.entries ∧ entry.1 ≠ exec.encode (exec.groupKey row) := by
  have le_key : drained ≤ exec.encode (exec.groupKey row) :=
    running.drained_le drained rfl row List.mem_cons_self
  cases found : groups.lookup (exec.encode (exec.groupKey row)) with
  | some group =>
      obtain ⟨key, -, same⟩ := running.grouped _ (SortedMap.lookup_eq_some.mp found)
      obtain ⟨encoded, rfl⟩ := Prod.mk.inj same
      rw [← encode_mono.injective encoded] at found
      refine ⟨_, ?_, fun entry => SortedMap.mem_insert⟩
      simp only [processRow, found]
      simp only [bind, Except.bind, found, updateGroup_groupOf planned]
  | none =>
      have absent : Groups.members exec.groupKey seen (exec.groupKey row) = [] := by
        apply Groups.members_eq_nil
        intro other member same
        have present := Groups.mem_keys.mpr ⟨other, member, same⟩
        rcases running.complete _ present with before | ⟨entry, open_entry, encoded⟩
        · obtain ⟨out, emitted_out, out_key⟩ := List.mem_map.mp before
          obtain ⟨drained', set, below⟩ := running.emitted_lt out emitted_out
          cases set
          rw [out_key] at below
          exact absurd below le_key.not_gt
        · obtain ⟨encoding, group⟩ := entry
          obtain rfl : encoding = exec.encode (exec.groupKey row) := encoded
          exact SortedMap.lookup_eq_none.mp found group open_entry
      rw [absent]
      refine ⟨(groups.insert (exec.encode (exec.groupKey row))
          (groupOf exec (exec.groupKey row) [])).insert (exec.encode (exec.groupKey row))
          (groupOf exec (exec.groupKey row) ([] ++ [row])), ?_, fun entry => ?_⟩
      · simp only [processRow, found, newGroup_eq planned]
        simp only [bind, Except.bind, SortedMap.lookup_insert_self, updateGroup_groupOf planned]
      · rw [SortedMap.mem_insert, SortedMap.mem_insert]
        constructor
        · rintro (here | ⟨rfl | ⟨before, other⟩, different⟩)
          · exact .inl here
          · exact (different rfl).elim
          · exact .inr ⟨before, other⟩
        · rintro (here | ⟨before, other⟩)
          · exact .inl here
          · exact .inr ⟨.inr ⟨before, other⟩, other⟩

/-- A row is taken into its group. -/
theorem running_processRow (running : Running exec seen (row :: rest) emitted groups (some drained)) :
    ∃ groups', processRow exec groups row = .ok groups' ∧
      Running exec (seen ++ [row]) rest emitted groups' (some drained) := by
  obtain ⟨groups', processed, mem_groups⟩ := processRow_eq planned encode_mono running
  have le_key : drained ≤ exec.encode (exec.groupKey row) :=
    running.drained_le drained rfl row List.mem_cons_self
  have same_group : Groups.members exec.groupKey (seen ++ [row]) (exec.groupKey row) =
      Groups.members exec.groupKey seen (exec.groupKey row) ++ [row] := by
    rw [Groups.members_append]
    simp [Groups.members]
  have other_group : ∀ key, key ≠ exec.groupKey row →
      Groups.members exec.groupKey (seen ++ [row]) key = Groups.members exec.groupKey seen key := by
    intro key different
    have alone : Groups.members exec.groupKey [row] key = [] :=
      Groups.members_eq_nil (by simpa using different.symm)
    rw [Groups.members_append, alone, List.append_nil]
  have mem_keys : ∀ key, key ∈ Groups.keys exec.groupKey (seen ++ [row]) ↔
      key ∈ Groups.keys exec.groupKey seen ∨ key = exec.groupKey row := by
    intro key
    simp only [Groups.mem_keys, List.mem_append, List.mem_singleton, or_and_right, exists_or,
      exists_eq_left, eq_comm (a := key)]
  refine ⟨groups', processed, ?_⟩
  exact {
    sorted := by
      rw [List.append_assoc]
      exact running.sorted
    drained_le := fun drained set other member =>
      running.drained_le drained set other (List.mem_cons_of_mem _ member)
    emitted_lt := running.emitted_lt
    le_group := by
      intro entry member
      rcases (mem_groups entry).mp member with rfl | ⟨before, -⟩
      · exact ⟨drained, rfl, le_key⟩
      · exact running.le_group entry before
    ascending := running.ascending
    answered := by
      intro out member
      obtain ⟨present, answer⟩ := running.answered out member
      obtain ⟨drained', set, below⟩ := running.emitted_lt out member
      cases set
      have different : out.1 ≠ exec.groupKey row := by
        intro same
        rw [same] at below
        exact absurd below le_key.not_gt
      refine ⟨(mem_keys out.1).mpr (.inl present), ?_⟩
      rw [other_group out.1 different]
      exact answer
    grouped := by
      intro entry member
      rcases (mem_groups entry).mp member with rfl | ⟨before, other⟩
      · refine ⟨exec.groupKey row, (mem_keys _).mpr (.inr rfl), ?_⟩
        rw [same_group]
      · obtain ⟨key, present, rfl⟩ := running.grouped entry before
        refine ⟨key, (mem_keys key).mpr (.inl present), ?_⟩
        rw [other_group key fun same => other (congrArg exec.encode same)]
    complete := by
      intro key present
      by_cases same : key = exec.groupKey row
      · subst same
        exact .inr ⟨_, (mem_groups _).mpr (.inl rfl), rfl⟩
      · rcases (mem_keys key).mp present with before | here
        · rcases running.complete key before with emitted_key | ⟨entry, found, encoded⟩
          · exact .inl emitted_key
          · refine .inr ⟨entry, (mem_groups entry).mpr (.inr ⟨found, ?_⟩), encoded⟩
            rw [encoded]
            exact fun equal => same (encode_mono.injective equal)
        · exact (same here).elim }

theorem running_foldlM_processRow (batch : List R)
    (running : Running exec seen (batch ++ rest) emitted groups (some drained)) :
    ∃ groups', batch.foldlM (processRow exec) groups = .ok groups' ∧
      Running exec (seen ++ batch) rest emitted groups' (some drained) := by
  induction batch generalizing seen groups with
  | nil =>
      refine ⟨groups, rfl, ?_⟩
      rw [List.append_nil]
      exact running
  | cons row batch ih =>
      obtain ⟨next, processed, running⟩ := running_processRow planned encode_mono running
      obtain ⟨last, folded, running⟩ := ih running
      refine ⟨last, ?_, ?_⟩
      · rw [List.foldlM_cons, processed]
        exact folded
      · rw [List.append_assoc] at running
        exact running

/-- A batch is taken in. -/
theorem running_processBatch {batch : List R} (state : StreamingState K F)
    (running : Running exec seen (batch ++ rest) emitted state.groups state.drainedUpTo)
    (flushed : state.pending = []) :
    ∃ next, processBatch exec batch state = .ok next ∧
      Running exec (seen ++ batch) rest (emitted ++ next.pending.flatten) next.groups
        next.drainedUpTo ∧ next.doneReading = state.doneReading := by
  cases batch with
  | nil =>
      refine ⟨state, rfl, ?_, rfl⟩
      rw [flushed, List.flatten_nil, List.append_nil, List.append_nil]
      exact running
  | cons first batch =>
      obtain ⟨next, drains, running, set⟩ :=
        running_drainCompleted planned encode_mono running flushed
      obtain ⟨groups, folded, running⟩ :=
        running_foldlM_processRow planned encode_mono (first :: batch) running
      refine ⟨{ next with groups }, ?_, ?_, ?_⟩
      · simp only [processBatch, drains, bind, Except.bind, folded]
      · rw [set]
        exact running
      · have kept := doneReading_drainCompleted drains
        exact kept

/-- After the last row everything that is left can be emitted. -/
theorem running_flushRemaining (state : StreamingState K F)
    (running : Running exec seen [] emitted state.groups state.drainedUpTo)
    (flushed : state.pending = []) :
    ∃ next, flushRemaining exec state = .ok next ∧
      emitted ++ next.pending.flatten = groupBy countI64 exec seen := by
  obtain ⟨batch, built, ascending, same, answered⟩ :=
    buildOutputBatch_eq planned encode_mono running.grouped state.groups.ascending
  have next : ∃ next, flushRemaining exec state = .ok next ∧ next.pending.flatten = batch := by
    rw [flushRemaining]
    by_cases empty : state.groups.entries = []
    · rw [empty] at same
      refine ⟨state, by simp only [empty, List.isEmpty_nil, if_true], ?_⟩
      have nothing : batch = [] := by simpa using same.symm
      rw [flushed, nothing]
      rfl
    · refine ⟨{ state with groups := ∅, pending := [batch] }, ?_, by simp⟩
      have nonempty : state.groups.entries.isEmpty = false := by simpa using empty
      simp only [nonempty, built, flushed]
      rfl
  obtain ⟨next, flushes, pending_eq⟩ := next
  refine ⟨next, flushes, ?_⟩
  rw [pending_eq]
  have from_entry : ∀ row ∈ batch, ∃ entry ∈ state.groups.entries,
      entry.1 = exec.encode row.1 := by
    intro row member
    have found := List.mem_map_of_mem (f := fun row => exec.encode row.1) member
    rw [← same] at found
    exact List.mem_map.mp found
  have all_answered : ∀ row ∈ emitted ++ batch, row.1 ∈ Groups.keys exec.groupKey seen ∧
      row = answerRow exec row.1 (Groups.members exec.groupKey seen row.1) := by
    intro row member
    rcases List.mem_append.mp member with before | now
    · exact running.answered row before
    · exact answered row now
  apply Groups.eq_map_keys (fun group => exec.aggrExprs.map fun agg =>
    sqlValue countI64 agg (Groups.members exec.groupKey seen group))
  · rw [List.map_append, List.pairwise_append]
    refine ⟨running.ascending, ascending, ?_⟩
    intro key before key' now
    obtain ⟨row, member, rfl⟩ := List.mem_map.mp before
    obtain ⟨row', member', rfl⟩ := List.mem_map.mp now
    exact running.emitted_lt_built encode_mono from_entry row member row' member'
  · intro row member
    obtain ⟨present, answer⟩ := all_answered row member
    exact ⟨present, congrArg Prod.snd answer⟩
  · intro key present
    rw [List.map_append, List.mem_append]
    rcases running.complete key present with before | ⟨entry, found, encoded⟩
    · exact .inl before
    · have mapped := List.mem_map_of_mem (f := Prod.fst) found
      rw [same] at mapped
      obtain ⟨row, now, row_encoded⟩ := List.mem_map.mp mapped
      have row_key : row.1 = key := encode_mono.injective (row_encoded.trans encoded)
      exact .inr (List.mem_map.mpr ⟨row, now, row_key⟩)

/-- From any point of a run, what is emitted completes the groups of the whole input. -/
theorem unfold_eq {batches : List (List R)} (emitted : List (K × List (OutputValue F)))
    (state : StreamingState K F) (reading : state.doneReading = false)
    (running : Running exec seen batches.flatten (emitted ++ state.pending.flatten) state.groups
      state.drainedUpTo) :
    ∃ outputs, unfold exec (batches.map some ++ [none]) state = .ok outputs ∧
      emitted ++ outputs.flatten = groupBy countI64 exec (seen ++ batches.flatten) := by
  induction batches generalizing seen emitted state with
  | nil =>
      obtain ⟨next, flushes, complete⟩ :=
        running_flushRemaining planned encode_mono { state with pending := [] } running rfl
      refine ⟨state.pending ++ next.pending, ?_, ?_⟩
      · rw [List.map_nil, List.nil_append, unfold, if_neg (by simp [reading])]
        simp only [flushes, bind, Except.bind, unfold, if_true]
      · rw [List.flatten_append, ← List.append_assoc, complete, List.flatten_nil, List.append_nil]
  | cons batch batches ih =>
      rw [List.flatten_cons] at running
      obtain ⟨next, processed, running, still⟩ := running_processBatch planned encode_mono
        { state with pending := [] } running rfl
      obtain ⟨outputs, unfolds, complete⟩ := ih _ next (still.trans reading) running
      refine ⟨state.pending ++ outputs, ?_, ?_⟩
      · rw [List.map_cons, List.cons_append, unfold, if_neg (by simp [reading])]
        simp only [processed, bind, Except.bind, unfolds]
      · rw [List.flatten_append, ← List.append_assoc, complete, List.flatten_cons,
          List.append_assoc]

end Runs

/-- Streaming over an input that is sorted by the group key gives the answers of a group-by, in the
order of the keys, however the input is split into batches. -/
theorem execute_eq_groupBy [LinearOrder K] (exec : StreamingGroupByExec K R F)
    (planned : ∀ agg ∈ exec.aggrExprs, Planned agg) (encode_mono : StrictMono exec.encode)
    (batches : List (List R))
    (sorted : batches.flatten.Pairwise fun left right => exec.groupKey left ≤ exec.groupKey right) :
    ∃ outputs, execute exec batches = .ok outputs ∧
      outputs.flatten = groupBy countI64 exec batches.flatten ∧
      (batches.flatten.length < 2 ^ 63 →
        outputs.flatten = groupBy (fun count => count) exec batches.flatten) := by
  have running : Running exec [] batches.flatten []
      (∅ : SortedMap RowBytes (GroupState K F)) none :=
    { sorted
      drained_le := nofun
      emitted_lt := nofun
      le_group := nofun
      ascending := .nil
      answered := nofun
      grouped := nofun
      complete := fun key present => by simp [Groups.mem_keys] at present }
  obtain ⟨outputs, executed, complete⟩ := unfold_eq planned encode_mono []
    { groups := ∅, drainedUpTo := none, pending := [], doneReading := false } rfl running
  refine ⟨outputs, executed, complete, fun small => ?_⟩
  simp only [List.nil_append] at complete
  rw [complete]
  exact groupBy_congr fun count le => countI64_eq (by omega)

end StreamingGroupBy

/-! ## A concrete run -/

namespace Integers

/-- Integers in place of floats. -/
instance : FloatCasts Int where
  ofInt := id
  ofIntSingle := id
  saturate := fun low high value => max low (min high value)

/-- Encoding of a nullable byte: a marker, and the byte. -/
def encodeByte : WithBot (Fin 256) → RowBytes
  | none => [0]
  | some byte => [1, byte]

theorem strictMono_encodeByte : StrictMono encodeByte := by
  intro left right below
  cases right with
  | bot => exact absurd below not_lt_bot
  | coe right =>
      cases left with
      | bot =>
          show ([0] : RowBytes) < [1, right]
          exact List.Lex.rel (by decide)
      | coe left =>
          show ([1, left] : RowBytes) < [1, right]
          exact List.Lex.cons (List.Lex.rel (WithBot.coe_lt_coe.mp below))

/-- Rows of a nullable byte and a nullable integer, grouped by the byte. -/
def countAndSum : StreamingGroupByExec (WithBot (Fin 256)) (WithBot (Fin 256) × Option Int) Int where
  groupKey := Prod.fst
  encode := encodeByte
  aggrExprs :=
    [{ aggType := .count, input := .int .w64 Prod.snd, outputType := .int .w64 },
     { aggType := .sum, input := .int .w64 Prod.snd, outputType := .int .w64 }]

/-- Three batches, one of them empty, with a group on both sides of a cut. -/
def threeBatches : List (List (WithBot (Fin 256) × Option Int)) :=
  [[(⊥, some 1), ((3 : Fin 256), some 4)], [], [((3 : Fin 256), none), ((5 : Fin 256), none)]]

open StreamingGroupBy in
theorem execute_threeBatches :
    ∃ outputs, execute countAndSum threeBatches = .ok outputs ∧
      outputs.flatten = groupBy countI64 countAndSum threeBatches.flatten ∧
      (threeBatches.flatten.length < 2 ^ 63 →
        outputs.flatten = groupBy (fun count => count) countAndSum threeBatches.flatten) :=
  execute_eq_groupBy countAndSum (by simp [countAndSum, Planned]) strictMono_encodeByte threeBatches
    (by simp [threeBatches, countAndSum])

end Integers

end IcefallDB
