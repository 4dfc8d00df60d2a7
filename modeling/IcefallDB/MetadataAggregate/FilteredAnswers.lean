import IcefallDB.MetadataAggregate.FilterStatistics
import Mathlib

/-!
# Filtered answers from metadata against SQL

Row groups that the statistics of the filter column misclassify give rows that are counted wrongly
or missed, and an answer is right when these balance.  Small enough literals misclassify nothing.
-/

namespace IcefallDB

variable {R F : Type}

namespace MetadataAggregate

open AggCache

/-! ## Meaning -/

/-- The fragments whose row groups are classified in a way. -/
def fragmentsOf (filter : DecodedFilter) (coverage : Coverage)
    (groups : List (AggregatedRowGroup F)) (fragments : List (PhysicalFragment R)) :
    List (PhysicalFragment R) :=
  ((groups.zip fragments).filter fun pair => classifyFragment filter pair.1 = coverage).map Prod.snd

/-- The live rows of fragments. -/
def liveOf (fragments : List (PhysicalFragment R)) : List R :=
  fragments.flatMap PhysicalFragment.live

theorem liveOf_cons (fragment : PhysicalFragment R) (fragments : List (PhysicalFragment R)) :
    liveOf (fragment :: fragments) = fragment.live ++ liveOf fragments :=
  List.flatMap_cons

/-- When rows that are counted wrongly and rows that are missed balance in 64 bits, next to rows that
are counted as they should be. -/
def Balanced (kernel : NumericKernel R F) (right wrong missed : List R) : Query → Prop
  | .countStar => wrapping wrong.length = wrapping missed.length
  | .count name =>
      wrapping (ints kernel name wrong).length = wrapping (ints kernel name missed).length
  | .sum name =>
      wrapping (ints kernel name wrong).sum = wrapping (ints kernel name missed).sum ∧
        (ints kernel name (right ++ wrong) = [] ↔ ints kernel name (right ++ missed) = [])

/-- When the answer to a query over a filter is right: the rows of covered fragments that do not pass
and the rows of disjoint ones that pass balance. -/
def FilteredRightWhen (kernel : NumericKernel R F) (passes : R → Bool) (filter : DecodedFilter)
    (groups : List (AggregatedRowGroup F)) (fragments : List (PhysicalFragment R))
    (query : Query) : Prop :=
  let covered := liveOf (fragmentsOf filter .covered groups fragments)
  let boundary := liveOf (fragmentsOf filter .boundary groups fragments)
  let disjoint := liveOf (fragmentsOf filter .disjoint groups fragments)
  Balanced kernel (covered.filter passes ++ boundary.filter passes)
    (covered.filter fun row => !passes row) (disjoint.filter passes) query

section

variable {kernel : NumericKernel R F} {name : String} {passes : R → Bool} {filter : DecodedFilter}
  {groups : List (AggregatedRowGroup F)} {fragments : List (PhysicalFragment R)}

theorem perm_coverage {α : Type} (coverage : α → Coverage) (list : List α) :
    list.Perm (list.filter (fun element => coverage element = .covered) ++
      (list.filter (fun element => coverage element = .boundary) ++
        list.filter fun element => coverage element = .disjoint)) := by
  induction list with
  | nil => exact .nil
  | cons element list ih =>
      cases own : coverage element with
      | covered => simpa [own] using ih
      | boundary =>
          simp only [own, List.filter_cons, decide_false, decide_true, Bool.false_eq_true,
            if_false, if_true, reduceCtorEq]
          exact (ih.cons element).trans List.perm_middle.symm
      | disjoint =>
          simp only [own, List.filter_cons, decide_false, decide_true, Bool.false_eq_true,
            if_false, if_true, reduceCtorEq]
          rw [← List.append_assoc] at ih ⊢
          exact (ih.cons element).trans List.perm_middle.symm

variable (filter) in
theorem perm_liveOf (same : groups.length = fragments.length) : (liveOf fragments).Perm
    (liveOf (fragmentsOf filter .covered groups fragments) ++
      (liveOf (fragmentsOf filter .boundary groups fragments) ++
        liveOf (fragmentsOf filter .disjoint groups fragments))) := by
  have pairs := (perm_coverage (fun pair : AggregatedRowGroup F × PhysicalFragment R =>
    classifyFragment filter pair.1) (groups.zip fragments)).map Prod.snd
  rw [List.map_snd_zip same.ge, List.map_append, List.map_append] at pairs
  rw [liveOf, liveOf, liveOf, liveOf, ← List.flatMap_append, ← List.flatMap_append]
  exact pairs.flatMap_right _

theorem ints_perm {rows rows' : List R} (perm : rows.Perm rows') :
    (ints kernel name rows).Perm (ints kernel name rows') :=
  (perm.map _).filterMap id

theorem ints_append (rows rows' : List R) :
    ints kernel name (rows ++ rows') = ints kernel name rows ++ ints kernel name rows' := by
  rw [ints, List.map_append, List.reduceOption_append]
  rfl

theorem rowsAnswer_count [Double F] (integer : kernel.IsInteger name) (rows : List R) :
    rowsAnswer kernel rows (.count name) =
      .int64 (some (wrapping (ints kernel name rows).length)) := by
  obtain ⟨kind, kind_eq, not_float⟩ := integer
  rw [rowsAnswer, kind_eq]
  cases kind with
  | signed => rfl
  | unsigned => rfl
  | float => exact absurd rfl not_float

theorem rowsAnswer_sum [Double F] (signed : kernel.columns.lookup name = some .signed)
    (rows : List R) : rowsAnswer kernel rows (.sum name) =
      .int64 (if ints kernel name rows = [] then none
        else some (wrapping (ints kernel name rows).sum)) := by
  rw [rowsAnswer, signed]

/-- What a query means does not depend on the order of the rows. -/
theorem rowsAnswer_perm [Double F] {query : Query} (integer : query.IsInteger kernel)
    {rows rows' : List R} (perm : rows.Perm rows') :
    rowsAnswer kernel rows query = rowsAnswer kernel rows' query := by
  cases query with
  | countStar => rw [rowsAnswer, rowsAnswer, perm.length_eq]
  | count name =>
      have values : (ints kernel name rows).Perm (ints kernel name rows') := ints_perm perm
      rw [rowsAnswer_count integer, rowsAnswer_count integer, values.length_eq]
  | sum name =>
      obtain ⟨kind, kind_eq, not_float⟩ := integer
      have values : (ints kernel name rows).Perm (ints kernel name rows') := ints_perm perm
      have empty : ints kernel name rows = [] ↔ ints kernel name rows' = [] := by
        rw [← List.length_eq_zero_iff, values.length_eq, List.length_eq_zero_iff]
      cases kind with
      | signed => rw [rowsAnswer_sum kind_eq, rowsAnswer_sum kind_eq, values.sum_eq]; simp only [empty]
      | unsigned => rw [rowsAnswer, rowsAnswer, kind_eq]; simp only [empty, values.sum_eq]
      | float => exact absurd rfl not_float

/-! ## Covered row groups -/

/-- What a covered row group says about its fragment. -/
structure Covers (kernel : NumericKernel R F) (group : AggregatedRowGroup F)
    (fragment : PhysicalFragment R) : Prop where
  live : fragment.live = fragment.rows
  rows : group.sidecar.rows = fragment.live.length
  partials : ∀ name agg, kernel.IsInteger name → coveredPartial name group = some agg →
    agg = liveAgg kernel name fragment

theorem Describes.covers {group : AggregatedRowGroup F} {fragment : PhysicalFragment R}
    (describes : Describes kernel group fragment) (known : group.fallback = false)
    (trusted : trusted group) : Covers kernel group fragment := by
  rw [MetadataAggregate.trusted, Bool.and_eq_true, decide_eq_true_eq] at trusted
  have none_deleted : fragment.deleted = ∅ :=
    Finset.card_eq_zero.mp (describes.deletedCount.symm.trans trusted.1)
  have live := live_of_clean none_deleted
  refine ⟨live, ?_, ?_⟩
  · rw [describes.rows known, live]
  · intro name agg integer found
    obtain ⟨state, state_eq, column_eq⟩ := Option.bind_eq_some_iff.mp found
    exact describes.partials name state agg integer state_eq column_eq

section Covered

variable {covered : List (AggregatedRowGroup F)}

theorem sum_rows (covers : List.Forall₂ (Covers kernel) covered fragments) :
    (covered.map fun group => group.sidecar.rows).sum = (liveOf fragments).length := by
  induction covers with
  | nil => rfl
  | cons cover _ ih =>
      rw [List.map_cons, List.sum_cons, ih, cover.rows, liveOf_cons, List.length_append]

theorem coveredPartials_eq (covers : List.Forall₂ (Covers kernel) covered fragments)
    (integer : kernel.IsInteger name) {aggs : List (ColAgg F)}
    (found : covered.mapM (coveredPartial name) = some aggs) :
    aggs = fragments.map (liveAgg kernel name) := by
  induction covers generalizing aggs with
  | nil => exact (Option.some.inj found).symm
  | cons cover _ ih =>
      rw [List.mapM_cons] at found
      obtain ⟨agg, first, rest⟩ := Option.bind_eq_some_iff.mp found
      obtain ⟨later, others, whole⟩ := Option.bind_eq_some_iff.mp rest
      obtain rfl := Option.some.inj whole
      rw [List.map_cons, ← ih others, ← cover.partials name agg integer first]

theorem ints_liveOf (fragments : List (PhysicalFragment R)) :
    ints kernel name (liveOf fragments) = liveValues kernel name fragments := by
  induction fragments with
  | nil => rfl
  | cons fragment fragments ih =>
      rw [liveOf_cons, ints_append, ih, liveValues, liveValues, List.flatMap_cons]

theorem sum_countNonNull (fragments : List (PhysicalFragment R)) :
    ((fragments.map (liveAgg (F := F) kernel name)).map ColAgg.countNonNull).sum =
      (ints kernel name (liveOf fragments)).length := by
  rw [ints_liveOf]
  induction fragments with
  | nil => rfl
  | cons fragment fragments ih =>
      rw [List.map_cons, List.map_cons, List.sum_cons, ih, countNonNull_liveAgg, liveValues,
        liveValues, List.flatMap_cons, List.length_append]

/-- Adding up the partial sums of covered fragments. -/
theorem foldlM_addCoveredInts
    (live : ∀ fragment ∈ fragments, fragment.live = fragment.rows) {totals result : Int × Bool}
    (found : (fragments.map (liveAgg (F := F) kernel name)).foldlM addCoveredInts totals =
      some result) :
    result = (totals.1 + (ints kernel name (liveOf fragments)).sum,
      totals.2 || !(ints kernel name (liveOf fragments)).isEmpty) := by
  rw [ints_liveOf]
  induction fragments generalizing totals with
  | nil =>
      obtain rfl := Option.some.inj found
      simp [liveValues]
  | cons fragment fragments ih =>
      rw [List.forall_mem_cons] at live
      rw [List.map_cons, List.foldlM_cons] at found
      obtain ⟨next, added, rest⟩ := Option.bind_eq_some_iff.mp found
      rw [ih live.2 rest, liveValues, liveValues, List.flatMap_cons]
      by_cases nulls : ints kernel name fragment.rows = []
      · rw [liveAgg, if_pos nulls] at added
        obtain rfl := Option.some.inj added
        rw [live.1, nulls]
        rfl
      · rw [liveAgg, if_neg nulls] at added
        obtain ⟨total, checked, rfl⟩ := Option.map_eq_some_iff.mp added
        rw [Moments.eq_of_checked checked, live.1, List.sum_append]
        cases values_eq : ints kernel name fragment.rows with
        | nil => exact absurd values_eq nulls
        | cons value values => simp [Int.add_assoc]

theorem wrapping_eq_of_checked {value result : Int}
    (found : Moments.checked (2 ^ 63) value = some result) : wrapping value = result := by
  unfold Moments.checked at found
  split at found
  · next bounds =>
      obtain rfl := Option.some.inj found
      rw [wrapping, Int.bmod_eq_of_le_mul_two] <;> omega
  · cases found

variable [Double F] [IntCast F]

theorem coveredSumConst_eq (covers : List.Forall₂ (Covers kernel) covered fragments)
    (signed : kernel.columns.lookup name = some .signed) {const : ScalarValue F}
    (found : coveredSumConst name .int64 covered = some const) :
    const = rowsAnswer kernel (liveOf fragments) (.sum name) := by
  have integer : kernel.IsInteger name := ⟨.signed, signed, by decide⟩
  have live : ∀ fragment ∈ fragments, fragment.live = fragment.rows := by
    intro fragment member
    obtain ⟨group, -, cover⟩ := covers.exists_of_mem_right member
    exact cover.live
  have added : ∀ value, (do
      let aggs ← covered.mapM (coveredPartial name)
      let totals ← aggs.foldlM addCoveredInts (0, false)
      if totals.2 then
        (Moments.checked (2 ^ 63) totals.1).map fun total => .int64 (some total)
      else some (.int64 none)) = some value →
        value = rowsAnswer kernel (liveOf fragments) (.sum name) := by
    intro value given
    obtain ⟨aggs, aggs_eq, rest⟩ := Option.bind_eq_some_iff.mp given
    obtain ⟨totals, totals_eq, answered⟩ := Option.bind_eq_some_iff.mp rest
    rw [coveredPartials_eq covers integer aggs_eq] at totals_eq
    have totals_eq := foldlM_addCoveredInts live totals_eq
    rw [rowsAnswer_sum signed]
    rw [totals_eq, Bool.false_or, Int.zero_add] at answered
    by_cases empty : ints kernel name (liveOf fragments) = []
    · rw [if_pos empty]
      rw [empty] at answered
      exact (Option.some.inj answered).symm
    · rw [if_neg empty]
      have values : (!(ints kernel name (liveOf fragments)).isEmpty) = true := by
        rw [Bool.not_eq_true', List.isEmpty_eq_false_iff]
        exact empty
      rw [values, if_pos rfl] at answered
      obtain ⟨total, checked, rfl⟩ := Option.map_eq_some_iff.mp answered
      rw [wrapping_eq_of_checked checked]
  rw [coveredSumConst] at found
  obtain ⟨first, -, rest⟩ := Option.bind_eq_some_iff.mp found
  obtain ⟨firstAgg, -, given⟩ := Option.bind_eq_some_iff.mp rest
  cases kind_eq : firstAgg.sum with
  | int sum =>
      rw [kind_eq] at given
      exact added const given
  | null =>
      rw [kind_eq] at given
      exact added const given
  | float sum =>
      rw [kind_eq] at given
      cases given

/-- The contribution of covered row groups is what the query means on their rows, and only sums of
signed integers have one. -/
theorem coveredConst_eq (covers : List.Forall₂ (Covers kernel) covered fragments) {query : Query}
    (integer : query.IsInteger kernel) {const : ScalarValue F}
    (found : coveredConst kernel covered query = some const) :
    const = rowsAnswer kernel (liveOf fragments) query ∧
      ∀ name, query = .sum name → kernel.columns.lookup name = some .signed := by
  cases query with
  | countStar =>
      rw [coveredConst, sum_rows covers] at found
      obtain ⟨total, checked, rfl⟩ := Option.map_eq_some_iff.mp found
      constructor
      · rw [rowsAnswer, wrapping_eq_of_checked checked]
      · intro name same
        cases same
  | count name =>
      obtain ⟨aggs, aggs_eq, answered⟩ := Option.bind_eq_some_iff.mp found
      obtain ⟨total, checked, rfl⟩ := Option.map_eq_some_iff.mp answered
      constructor
      · rw [coveredPartials_eq covers integer aggs_eq, sum_countNonNull] at checked
        rw [rowsAnswer_count integer, wrapping_eq_of_checked checked]
      · intro name same
        cases same
  | sum name =>
      obtain ⟨kind, kind_eq, answered⟩ := Option.bind_eq_some_iff.mp found
      have signed : kind = .signed := by
        cases kind with
        | signed => rfl
        | unsigned =>
            rw [sumType, coveredSumConst] at answered
            obtain ⟨first, -, rest⟩ := Option.bind_eq_some_iff.mp answered
            obtain ⟨firstAgg, -, given⟩ := Option.bind_eq_some_iff.mp rest
            cases sum_eq : firstAgg.sum <;> rw [sum_eq] at given <;> cases given
        | float =>
            obtain ⟨other, other_eq, not_float⟩ := integer
            exact absurd (Option.some.inj (other_eq.symm.trans kind_eq)) not_float
      subst signed
      constructor
      · exact coveredSumConst_eq covers kind_eq answered
      · intro other same
        rw [← Query.sum.inj same]
        exact kind_eq

end Covered

/-! ## Executing -/

section Executing

variable [Double F] {query : Query}

theorem wrapping_add (left right : Int) :
    wrapping (wrapping left + wrapping right) = wrapping (left + right) := by
  rw [wrapping, wrapping, wrapping, wrapping, Int.bmod_add_bmod, Int.add_bmod_bmod]

/-- Adding the answer on some rows to the answer on others gives the answer on all. -/
theorem combine_rowsAnswer (integer : query.IsInteger kernel)
    (signed : ∀ name, query = .sum name → kernel.columns.lookup name = some .signed)
    (rows rows' : List R) :
    combine (rowsAnswer kernel rows query) (rowsAnswer kernel rows' query) query =
      rowsAnswer kernel (rows' ++ rows) query := by
  cases query with
  | countStar =>
      rw [rowsAnswer, rowsAnswer, rowsAnswer, combine, plus, wrapping_add, List.length_append,
        Int.natCast_add]
  | count name =>
      have integer : kernel.IsInteger name := integer
      rw [rowsAnswer_count integer, rowsAnswer_count integer, rowsAnswer_count integer, combine,
        plus, wrapping_add, ints_append, List.length_append, Int.natCast_add]
  | sum name =>
      have signed := signed name rfl
      rw [rowsAnswer_sum signed, rowsAnswer_sum signed, rowsAnswer_sum signed, combine, ints_append]
      by_cases empty : ints kernel name rows = []
      · rw [if_pos empty, empty, List.append_nil]
        rfl
      · by_cases empty' : ints kernel name rows' = []
        · rw [if_neg empty, if_pos empty', empty', List.nil_append, if_neg empty]
          rfl
        · have both : ints kernel name rows' ++ ints kernel name rows ≠ [] := by simp [empty]
          rw [if_neg empty, if_neg empty', if_neg both, List.sum_append, ← wrapping_add]
          rfl

/-- Answers on rows that are counted next to others are the same if these balance. -/
theorem rowsAnswer_append_iff (integer : query.IsInteger kernel)
    (signed : ∀ name, query = .sum name → kernel.columns.lookup name = some .signed)
    (right wrong missed : List R) :
    rowsAnswer kernel (right ++ wrong) query = rowsAnswer kernel (right ++ missed) query ↔
      Balanced kernel right wrong missed query := by
  cases query with
  | countStar =>
      rw [rowsAnswer, rowsAnswer, Balanced, List.length_append, List.length_append,
        Int.natCast_add, Int.natCast_add]
      simp only [ScalarValue.int64.injEq, Option.some.injEq]
      exact Int.bmod_add_cancel_left _
  | count name =>
      have integer : kernel.IsInteger name := integer
      rw [rowsAnswer_count integer, rowsAnswer_count integer, Balanced, ints_append, ints_append,
        List.length_append, List.length_append, Int.natCast_add, Int.natCast_add]
      simp only [ScalarValue.int64.injEq, Option.some.injEq]
      exact Int.bmod_add_cancel_left _
  | sum name =>
      have signed := signed name rfl
      rw [rowsAnswer_sum signed, rowsAnswer_sum signed, Balanced, ScalarValue.int64.injEq]
      have cancel : wrapping (ints kernel name (right ++ wrong)).sum =
          wrapping (ints kernel name (right ++ missed)).sum ↔
            wrapping (ints kernel name wrong).sum = wrapping (ints kernel name missed).sum := by
        rw [ints_append, ints_append, List.sum_append, List.sum_append]
        exact Int.bmod_add_cancel_left _
      rw [← cancel]
      by_cases empty : ints kernel name (right ++ wrong) = [] <;>
        by_cases empty' : ints kernel name (right ++ missed) = [] <;> simp [empty, empty']

end Executing

theorem balanced_nil (query : Query) (right : List R) : Balanced kernel right [] [] query := by
  cases query with
  | countStar | count => rfl
  | sum => exact ⟨rfl, Iff.rfl⟩

/-! ## Plans -/

section Plans

variable {storage : TableStorage R} {manifest : Manifest} {schemaId : Nat}

/-- What a scan plan says about the fragments, and what scanning its row groups gives. -/
theorem HoldsFragments.scans [Double F]
    (holds : HoldsFragments kernel storage manifest schemaId fragments) :
    List.Forall₂ (fun group fragment => Describes kernel group fragment ∧
        scanRows storage group.entry = some fragment.live)
      (Reader.scanAllowMissingMeta kernel storage manifest schemaId) fragments := by
  obtain ⟨length_eq, each⟩ := holds
  rw [List.forall₂_iff_get, Reader.scanAllowMissingMeta]
  constructor
  · rw [List.length_mapIdx, length_eq]
  · intro index left right
    rw [List.length_mapIdx] at left
    simp only [List.get_eq_getElem, List.getElem_mapIdx]
    have held := each index _ _ (List.getElem?_eq_getElem left) (List.getElem?_eq_getElem right)
    constructor
    · exact describes_planAllowMissingMeta held
    · rw [Reader.planAllowMissingMeta_entry, scanRows, held.deletions, Option.bind_eq_bind,
        Option.bind_some, held.data]
      rfl

theorem mapM_scanRows {boundary : List (AggregatedRowGroup F)}
    (scans : List.Forall₂ (fun group fragment => Describes kernel group fragment ∧
      scanRows storage group.entry = some fragment.live) boundary fragments) :
    boundary.mapM (fun group => scanRows storage group.entry) =
      some (fragments.map PhysicalFragment.live) := by
  apply List.Forall₂.mapM_eq_some
  rw [List.forall₂_map_right_iff]
  exact scans.imp fun _ _ => And.right

variable {engine : FilterEngine R} {filters : List (FilterExpr R)} {query : Query}

/-- With literals that keep their values, no row is counted wrongly and none is missed. -/
theorem filteredRightWhen_of_keeps {kind : NumericKind}
    (describes : List.Forall₂ (Describes kernel) groups fragments)
    (bounds : List.Forall₂ (Bounds kernel) groups fragments)
    (known : ∀ group ∈ groups, group.fallback = false)
    (decoded : decodeScanFilter filters = some filter)
    (column : kernel.columns.lookup filter.column = some kind) (not_float : kind ≠ .float)
    (keeps : ∀ expr ∈ filters, ∀ literal ∈ expr.literals, literal.Keeps kind)
    (fits : kernel.Fits) :
    FilteredRightWhen kernel (engine.passes kernel filters) filter groups fragments query := by
  have classified : ∀ coverage, ∀ row ∈ liveOf (fragmentsOf filter coverage groups fragments),
      ∃ group fragment, group.fallback = false ∧ classifyFragment filter group = coverage ∧
        Describes kernel group fragment ∧ Bounds kernel group fragment ∧ row ∈ fragment.live := by
    intro coverage row member
    obtain ⟨fragment, fragment_mem, row_mem⟩ := List.mem_flatMap.mp member
    obtain ⟨pair, pair_mem, rfl⟩ := List.mem_map.mp fragment_mem
    obtain ⟨inside, same⟩ := List.mem_filter.mp pair_mem
    exact ⟨pair.1, pair.2, known _ (List.of_mem_zip inside).1, of_decide_eq_true same,
      List.forall₂_zip describes inside, List.forall₂_zip bounds inside, row_mem⟩
  have none_wrong : (liveOf (fragmentsOf filter .covered groups fragments)).filter
      (fun row => !engine.passes kernel filters row) = [] := by
    rw [List.filter_eq_nil_iff]
    intro row member
    obtain ⟨group, fragment, fallback_eq, covered, describe, bound, row_mem⟩ :=
      classified .covered row member
    rw [passes_of_covered decoded column not_float keeps fits bound describe fallback_eq covered
      row_mem]
    decide
  have none_missed : (liveOf (fragmentsOf filter .disjoint groups fragments)).filter
      (engine.passes kernel filters) = [] := by
    rw [List.filter_eq_nil_iff]
    intro row member
    obtain ⟨group, fragment, -, disjoint, -, bound, row_mem⟩ := classified .disjoint row member
    exact not_passes_of_disjoint decoded column not_float keeps fits bound disjoint row_mem
  rw [FilteredRightWhen, none_wrong, none_missed]
  exact balanced_nil query _

/-- The row groups that are classified in a way. -/
def groupsOf (filter : DecodedFilter) (coverage : Coverage) (groups : List (AggregatedRowGroup F)) :
    List (AggregatedRowGroup F) :=
  groups.filter fun group => classifyFragment filter group = coverage

theorem covers_of_describes (describes : List.Forall₂ (Describes kernel) groups fragments)
    (known : ∀ group ∈ groups, group.fallback = false)
    (all_trusted : ∀ group ∈ groupsOf filter .covered groups, trusted group) :
    List.Forall₂ (Covers kernel) (groupsOf filter .covered groups)
      (fragmentsOf filter .covered groups fragments) := by
  have covered := describes.filter_left fun group =>
    decide (classifyFragment filter group = .covered)
  have members := (List.forall₂_and_left _ _).mpr ⟨fun group member => member, covered⟩
  apply members.imp
  rintro group fragment ⟨member, describe⟩
  exact describe.covers (known group (List.mem_of_mem_filter member)) (all_trusted group member)

variable [Double F] [IntCast F] {rewrite : FilteredRewrite F} (engine)

/-- What a plan consists of. -/
theorem of_composeFiltered (decoded : decodeScanFilter filters = some filter)
    (found : composeFiltered kernel filters query groups = some rewrite) :
    (∀ group ∈ groups, group.fallback = false) ∧
      (∀ group ∈ groupsOf filter .covered groups, trusted group) ∧
      coveredConst kernel (groupsOf filter .covered groups) query = some rewrite.const ∧
      rewrite.boundary = groupsOf filter .boundary groups := by
  rw [composeFiltered, decoded, Option.bind_eq_bind, Option.bind_some] at found
  split at found
  · cases found
  · next none_unknown =>
      simp only at found
      split at found
      · cases found
      · next usable =>
          rw [Bool.or_eq_true, not_or, Bool.not_eq_true', Bool.not_eq_false] at usable
          obtain ⟨const, const_eq, rfl⟩ := Option.map_eq_some_iff.mp found
          refine ⟨?_, List.all_eq_true.mp usable.2, const_eq, rfl⟩
          intro group member
          rw [Bool.not_eq_true, List.any_eq_false] at none_unknown
          exact Bool.eq_false_iff.mpr (none_unknown group member)

/-- A plan gives the answer on the rows of covered fragments and those of boundary fragments that
pass. -/
theorem execute_eq
    (scans : List.Forall₂ (fun group fragment => Describes kernel group fragment ∧
      scanRows storage group.entry = some fragment.live) groups fragments)
    (integer : query.IsInteger kernel) (decoded : decodeScanFilter filters = some filter)
    (found : composeFiltered kernel filters query groups = some rewrite) :
    (rewrite.execute kernel engine storage filters query = some (rowsAnswer kernel
      (liveOf (fragmentsOf filter .covered groups fragments) ++
        (liveOf (fragmentsOf filter .boundary groups fragments)).filter
          (engine.passes kernel filters)) query)) ∧
      ∀ name, query = .sum name → kernel.columns.lookup name = some .signed := by
  obtain ⟨known, all_trusted, const_eq, boundary_eq⟩ := of_composeFiltered decoded found
  have scans_of : ∀ coverage, List.Forall₂ (fun group fragment => Describes kernel group fragment ∧
      scanRows storage group.entry = some fragment.live) (groupsOf filter coverage groups)
        (fragmentsOf filter coverage groups fragments) := fun coverage =>
    scans.filter_left fun group => decide (classifyFragment filter group = coverage)
  have covers := covers_of_describes (scans.imp fun _ _ => And.left) known all_trusted
  obtain ⟨answer_eq, signed⟩ := coveredConst_eq covers integer const_eq
  constructor
  · rw [FilteredRewrite.execute, boundary_eq, answer_eq]
    split
    · next nothing =>
        have boundary := scans_of .boundary
        rw [List.isEmpty_iff.mp nothing] at boundary
        rw [List.forall₂_nil_left_iff.mp boundary, liveOf, liveOf, List.flatMap_nil,
          List.filter_nil, List.append_nil]
    · rw [mapM_scanRows (scans_of .boundary), Option.bind_eq_bind, Option.bind_some,
        Option.some.injEq, combine_rowsAnswer integer signed, ← List.flatMap_def]
      exact rowsAnswer_perm integer List.perm_append_comm
  · exact signed

/-- The answer of a plan is right exactly if the rows that are counted wrongly and those that are
missed balance. -/
theorem execute_right_iff
    (scans : List.Forall₂ (fun group fragment => Describes kernel group fragment ∧
      scanRows storage group.entry = some fragment.live) groups fragments)
    (integer : query.IsInteger kernel) (decoded : decodeScanFilter filters = some filter)
    (found : composeFiltered kernel filters query groups = some rewrite) :
    rewrite.execute kernel engine storage filters query =
        some (rowsAnswer kernel ((liveOf fragments).filter (engine.passes kernel filters)) query) ↔
      FilteredRightWhen kernel (engine.passes kernel filters) filter groups fragments query := by
  obtain ⟨answer_eq, signed⟩ := execute_eq engine scans integer decoded found
  rw [answer_eq, Option.some.injEq, FilteredRightWhen, ← rowsAnswer_append_iff integer signed]
  have counted : ∀ covered boundary : List R,
      (covered.filter (engine.passes kernel filters) ++ boundary ++
        covered.filter fun row => !engine.passes kernel filters row).Perm
          (covered ++ boundary) := by
    intro covered boundary
    rw [List.append_assoc]
    apply (List.perm_append_comm.append_left _).trans
    rw [← List.append_assoc]
    exact (List.filter_append_perm _ covered).append_right boundary
  have passing := (perm_liveOf filter scans.length_eq).filter
    (engine.passes kernel filters)
  rw [List.filter_append, List.filter_append, ← List.append_assoc] at passing
  rw [rowsAnswer_perm integer (counted _ _), rowsAnswer_perm integer passing]

/-- When a plan for an aggregate over a filter gives the right answer, and that it does for literals
that keep their values. -/
theorem composeFiltered_right_iff
    (holds : HoldsFragments kernel storage manifest schemaId fragments)
    (integer : query.IsInteger kernel) (decoded : decodeScanFilter filters = some filter)
    (found : composeFiltered kernel filters query
      (Reader.scanAllowMissingMeta kernel storage manifest schemaId) = some rewrite) :
    (rewrite.execute kernel engine storage filters query =
        some (rowsAnswer kernel ((liveOf fragments).filter (engine.passes kernel filters)) query) ↔
      FilteredRightWhen kernel (engine.passes kernel filters) filter
        (Reader.scanAllowMissingMeta kernel storage manifest schemaId) fragments query) ∧
    ∀ kind, kernel.columns.lookup filter.column = some kind → kind ≠ .float → kernel.Fits →
      List.Forall₂ (Bounds kernel) (Reader.scanAllowMissingMeta kernel storage manifest schemaId)
        fragments →
      (∀ expr ∈ filters, ∀ literal ∈ expr.literals, literal.Keeps kind) →
        rewrite.execute kernel engine storage filters query = some (rowsAnswer kernel
          ((liveOf fragments).filter (engine.passes kernel filters)) query) := by
  have right_iff := execute_right_iff engine holds.scans integer decoded found
  constructor
  · exact right_iff
  · intro kind column not_float fits bounds keeps
    rw [right_iff]
    exact filteredRightWhen_of_keeps holds.describes bounds (of_composeFiltered decoded found).1
      decoded column not_float keeps fits

end Plans

end

/-! ## A column of unsigned integers -/

namespace UnsignedFilter

def kernel : NumericKernel (BitVec 64) Int :=
  { columns := (∅ : HashMap String NumericKind).insert "u" .unsigned
    intValue := fun _ row => some row.toNat
    floatValue := fun _ _ => none }

def engine : FilterEngine (BitVec 64) :=
  { cell := fun _ _ => .null
    compare := fun _ _ => none }

def entry : RowGroupEntry :=
  { data := "rg_1.parquet"
    metaFile := "rg_1.meta"
    deletes := none
    deletedCount := 0
    agg := some "rg_1.agg" }

def summary : FragmentSummary :=
  { rowGroup := "rg_1"
    data := entry.data
    metaFile := entry.metaFile
    agg := entry.agg
    deletes := none
    fragmentId := 0
    rows := 1
    deletedCount := 0
    columns := (∅ : HashMap String ColumnStats).insert "u"
      { min := some (.int 1), max := some (.int 1), nulls := 0 }
    columnOffsets := none
    rowIds := [.range 0 1]
    sort := none
    checksum := "c"
    metaChecksum := "" }

def manifest : Manifest :=
  { sequence := 1, schemaId := 1, rowGroups := [entry], nextRowId := 1, nextFragmentId := 1,
    checkpoint := some "_checkpoints/000000001.json" }

/-- A table with the row `1`. -/
def storage : TableStorage (BitVec 64) :=
  { pointer := .latest 1
    manifests := (∅ : HashMap Nat Manifest).insert 1 manifest
    log := []
    files := (((∅ : HashMap String (File (BitVec 64))).insert "rg_1.parquet" (.data [1])).insert
      "rg_1.agg" (.aggregate 0 "c" [1])).insert "_checkpoints/000000001.json"
        (.checkpoint { sequence := 1, schemaId := 1, fragments := [summary], checksum := "" })
    intents := ∅
    schemaPointer := some 1 }

def fragment : PhysicalFragment (BitVec 64) :=
  { rows := [1], deleted := ∅, inside := by decide }

/-- The column is greater than a number. -/
def greater (bound : BitVec 64) : List (FilterExpr (BitVec 64)) :=
  [.binary (.column "u") .gt (.literal (.unsigned bound))]

def groups : List (AggregatedRowGroup Int) :=
  Reader.scanAllowMissingMeta kernel storage manifest 1

theorem findMeta_eq {index : Nat} {entry : RowGroupEntry}
    (found : manifest.rowGroups[index]? = some entry) :
    index = 0 ∧ entry = UnsignedFilter.entry ∧
      Reader.findMeta storage manifest 1 index entry =
        some (Reader.summarizedMeta 1 entry summary) := by
  obtain ⟨rfl, rfl⟩ : index = 0 ∧ entry = UnsignedFilter.entry := by
    match index, found with
    | 0, found => exact ⟨rfl, (Option.some.inj found).symm⟩
  exact ⟨rfl, rfl, rfl⟩

theorem stats_eq {name : String} {stats : ColumnStats}
    (found : summary.columns.lookup name = some stats) :
    stats = { min := some (.int 1), max := some (.int 1), nulls := 0 } := by
  have inserted : ((∅ : HashMap String ColumnStats).insert "u"
      { min := some (.int 1), max := some (.int 1), nulls := 0 }).lookup name = some stats := found
  by_cases same_name : name = "u"
  · rw [same_name, AList.lookup_insert] at inserted
    exact (Option.some.inj inserted).symm
  · rw [AList.lookup_insert_ne same_name] at inserted
    cases inserted

theorem holdsFragments : HoldsFragments kernel storage manifest 1 [fragment] := by
  constructor
  · rfl
  · intro index entry contents found stored
    obtain ⟨rfl, rfl, meta_eq⟩ := findMeta_eq found
    obtain rfl := Option.some.inj stored
    constructor
    · rfl
    · rfl
    · rfl
    · intro sidecar same
      rw [← Option.some.inj (meta_eq.symm.trans same)]
      rfl
    · intro sidecar same name stats integer column
      rw [← Option.some.inj (meta_eq.symm.trans same)] at column
      rw [stats_eq column]
      rfl
    · intro count counted
      cases counted
    · intro path named fragmentId contentHash rows stored
      obtain rfl := Option.some.inj named
      have known : storage.files.lookup "rg_1.agg" = some (.aggregate 0 "c" [1]) := rfl
      rw [known] at stored
      cases stored
      rfl

theorem bounds : List.Forall₂ (Bounds kernel) groups [fragment] := by
  have groups_eq : groups =
      [Reader.planAllowMissingMeta kernel storage manifest 1 0 entry] := rfl
  rw [groups_eq]
  apply List.Forall₂.cons _ .nil
  constructor
  · intro name stats min integer found least
    rw [stats_eq found] at least
    exact ⟨1, List.mem_singleton_self 1, (Option.some.inj least).symm,
      fun other member => (List.mem_singleton.mp member).ge⟩
  · intro name stats max integer found greatest
    rw [stats_eq found] at greatest
    exact ⟨1, List.mem_singleton_self 1, (Option.some.inj greatest).symm,
      fun other member => (List.mem_singleton.mp member).le⟩

theorem fits : kernel.Fits := by
  intro name row value holds
  obtain rfl := Option.some.inj holds
  constructor
  · intro signed
    by_cases same_name : name = "u"
    · rw [same_name] at signed
      cases signed
    · have absent : kernel.columns.lookup name = none := AList.lookup_insert_ne same_name
      rw [absent] at signed
      cases signed
  · intro
    have small := row.isLt
    omega

/-- No row is greater than `2 ^ 63`, and the count from metadata is one. -/
theorem filtered_count_wrong : HoldsFragments kernel storage manifest 1 [fragment] ∧
    List.Forall₂ (Bounds kernel) groups [fragment] ∧ kernel.Fits ∧
    (composeFiltered kernel (greater (2 ^ 63)) .countStar groups).bind (fun rewrite =>
      rewrite.execute kernel engine storage (greater (2 ^ 63)) .countStar) =
        some (.int64 (some 1)) ∧
    rowsAnswer kernel ((liveOf [fragment]).filter (engine.passes kernel (greater (2 ^ 63))))
      .countStar = .int64 (some 0) := by
  refine ⟨holdsFragments, bounds, fits, ?_, ?_⟩
  · decide +kernel
  · decide +kernel

/-- Every row is greater than `0`, and the count from metadata is one. -/
theorem filtered_count_right : ∃ rewrite,
    composeFiltered kernel (greater 0) .countStar groups = some rewrite ∧
    rewrite.execute kernel engine storage (greater 0) .countStar = some (rowsAnswer kernel
      ((liveOf [fragment]).filter (engine.passes kernel (greater 0))) .countStar) ∧
    FilteredRightWhen kernel (engine.passes kernel (greater 0))
      { column := "u", predicates := [{ comparison := .gt, value := .int64 0 }] } groups [fragment]
      .countStar := by
  have composed : (composeFiltered kernel (greater 0) .countStar groups).isSome := by
    decide +kernel
  obtain ⟨rewrite, found⟩ := Option.isSome_iff_exists.mp composed
  have decoded : decodeScanFilter (greater 0) =
      some { column := "u", predicates := [{ comparison := .gt, value := .int64 0 }] } := rfl
  have integer : Query.IsInteger kernel .countStar := trivial
  obtain ⟨right_iff, right⟩ :=
    composeFiltered_right_iff engine holdsFragments integer decoded found
  have keeps : ∀ expr ∈ greater 0, ∀ literal ∈ expr.literals, literal.Keeps .unsigned := by
    intro expr member literal inside
    rw [List.mem_singleton.mp member] at inside
    rw [List.mem_singleton.mp inside]
    exact Nat.zero_le _
  have answer_right := right .unsigned rfl (by decide) fits bounds keeps
  exact ⟨rewrite, found, answer_right, right_iff.mp answer_right⟩

end UnsignedFilter

end MetadataAggregate

end IcefallDB
