import IcefallDB.MetadataAggregate.GroupBy

/-!
# Retraction against the live rows

Subtracting the contribution of the deleted rows leaves count, sum and sum of squares of the live
values.  Only where all values are deleted, the sums are zero and not null.
-/

namespace IcefallDB

variable {R F : Type}

namespace AggCache

/-- The aggregates of a column are those of some rows; sums of no values are null. -/
structure Summarizes (kernel : NumericKernel R F) (name : String) (rows : List R)
    (agg : ColAgg F) : Prop where
  count : agg.countNonNull = (ints kernel name rows).length
  nulls : rows.length - agg.countNonNull =
    (rows.map (kernel.intValue name)).countP Option.isNone
  sum : agg.sum = if ints kernel name rows = [] then .null else .int (ints kernel name rows).sum
  sumsq : agg.sumsq = if ints kernel name rows = [] then .null
    else .int (Moments.squares (ints kernel name rows))

variable {kernel : NumericKernel R F} {name : String} {rows : List R} {physical : List Int}

theorem length_sub_length_ints (kernel : NumericKernel R F) (name : String) (rows : List R) :
    rows.length - (ints kernel name rows).length =
      (rows.map (kernel.intValue name)).countP Option.isNone := by
  have split : (ints kernel name rows).length = _ := MetadataAggregate.length_ints rows
  have le := List.countP_le_length (p := Option.isNone) (l := rows.map (kernel.intValue name))
  rw [List.length_map] at le
  omega

/-- Aggregates that are left of a column are those of the live rows, unless all values are deleted. -/
theorem summarizes_liveGroupCol_iff (inside : physical = [] → ints kernel name rows = []) :
    Summarizes kernel name rows (liveGroupCol (F := F) physical (ints kernel name rows)) ↔
      (ints kernel name rows = [] → physical = []) := by
  constructor
  · intro summarizes nothing
    by_contra some_value
    have sum := summarizes.sum
    rw [if_pos nothing, liveGroupCol, if_neg some_value] at sum
    cases sum
  · intro covered
    by_cases nothing : ints kernel name rows = []
    · have count := length_sub_length_ints kernel name rows
      rw [nothing] at count
      rw [liveGroupCol, if_pos (covered nothing)]
      constructor
      · rw [nothing]
        rfl
      · exact count
      · rw [if_pos nothing]
        rfl
      · rw [if_pos nothing]
        rfl
    · rw [liveGroupCol, if_neg (mt inside nothing)]
      constructor
      · rfl
      · exact length_sub_length_ints kernel name rows
      · rw [if_neg nothing]
        rfl
      · rw [if_neg nothing]
        rfl

/-- Aggregates that are kept while a sum of squares fits are those of the live rows, unless all values
are deleted. -/
theorem forall_summarizes_iff (inside : physical = [] → ints kernel name rows = [])
    (squares : Int) : (∀ agg : ColAgg F, (if squares < bound128 then
        some (liveGroupCol physical (ints kernel name rows)) else none) = some agg →
          Summarizes kernel name rows agg) ↔
      (physical ≠ [] → ints kernel name rows = [] → bound128 ≤ squares) := by
  by_cases fits : squares < bound128
  · rw [if_pos fits]
    constructor
    · intro summarizes some_value nothing
      have covered := (summarizes_liveGroupCol_iff inside).mp (summarizes _ rfl)
      exact absurd (covered nothing) some_value
    · intro condition agg same
      obtain rfl := Option.some.inj same
      apply (summarizes_liveGroupCol_iff inside).mpr
      intro nothing
      by_contra some_value
      exact (condition some_value nothing).not_gt fits
  · rw [if_neg fits]
    exact iff_of_true nofun fun _ _ => not_lt.mp fits

end AggCache

namespace MetadataAggregate

open AggCache

/-! ## Columns -/

section Columns

variable {kernel : NumericKernel R F} {storage : TableStorage R} {entry : RowGroupEntry}
  {fragment : PhysicalFragment R} {name : String}

theorem squares_deletedRows_lt (fits : Moments.squares (ints kernel name fragment.rows) < bound128) :
    Moments.squares (ints kernel name (deletedRows fragment.deleted fragment.rows)) < bound128 :=
  lt_of_le_of_lt (squares_le_of_perm ((perm_ints kernel name fragment.deleted
    fragment.rows).trans List.perm_append_comm)) fits

variable [Double F]

/-- The contribution of deleted rows to the columns of partial aggregates does not overflow. -/
theorem exists_deletedContribution (data : storage.files.lookup entry.data = some (.data fragment.rows))
    (fragmentId : Nat) (contentHash : String) :
    ∃ contribution : HashMap String (ColAgg F),
      deletedContribution kernel storage entry fragment.deleted
        (computeAggState (F := F) kernel fragmentId contentHash fragment.rows).cols.keys =
          some contribution := by
  unfold deletedContribution
  split
  · exact ⟨_, rfl⟩
  · rw [data]
    simp only
    split
    · exact ⟨_, rfl⟩
    · rw [if_pos]
      · exact ⟨_, rfl⟩
      · rw [List.all_eq_true]
        intro column member
        have found := AList.mem_lookup_iff.mpr member
        rw [HashMap.lookup_filterMap] at found
        obtain ⟨kind, kind_eq, array_eq⟩ := Option.bind_eq_some_iff.mp found
        split at array_eq
        · next listed =>
            rw [← Option.some.inj array_eq]
            by_cases float : kind = .float
            · rw [float]
              rfl
            · have integer : kernel.IsInteger column.1 := ⟨kind, kind_eq, float⟩
              rw [← AList.mem_keys, ← AList.lookup_isSome, lookup_computeAggState integer,
                computeSignedIntCol_eq_ite] at listed
              have fits : Moments.squares (ints kernel column.1 fragment.rows) < bound128 := by
                by_contra overflows
                rw [ints] at overflows
                rw [if_neg overflows] at listed
                cases listed
              rw [array_of_ne_float float, deletedCol_ints (squares_deletedRows_lt fits)]
              rfl
        · cases array_eq

/-- Retracting the deleted rows leaves what the live rows have, unless a column has values and all of
them are deleted. -/
theorem retract_summarizes_iff (integer : kernel.IsInteger name)
    (data : storage.files.lookup entry.data = some (.data fragment.rows)) (fragmentId : Nat)
    (contentHash : String) :
    ∃ contribution : HashMap String (ColAgg F),
      deletedContribution kernel storage entry fragment.deleted
        (computeAggState (F := F) kernel fragmentId contentHash fragment.rows).cols.keys =
          some contribution ∧
      ((∀ agg, (retract (computeAggState kernel fragmentId contentHash fragment.rows)
          contribution).cols.lookup name = some agg → Summarizes kernel name fragment.live agg) ↔
        (ints kernel name fragment.rows ≠ [] → ints kernel name fragment.live = [] →
          bound128 ≤ Moments.squares (ints kernel name fragment.rows))) := by
  obtain ⟨contribution, found⟩ := exists_deletedContribution (F := F) data fragmentId contentHash
  refine ⟨contribution, found, ?_⟩
  rw [lookup_retract_computeAggState integer data found]
  exact forall_summarizes_iff ints_live_eq_nil _

end Columns

namespace DeletedMeasure

/-- The deleted row has the only value of the first measure: its sum is zero, and of no values. -/
theorem retracted_sum_wrong :
    ∃ contribution agg, deletedContribution kernel storage DeletedRow.entry fragment.deleted
        (computeAggState (F := Int) kernel 0 "c" fragment.rows).cols.keys = some contribution ∧
      (retract (computeAggState kernel 0 "c" fragment.rows) contribution).cols.lookup "v" =
        some agg ∧ agg.sum = .int 0 ∧ ¬ Summarizes kernel "v" fragment.live agg := by
  refine ⟨_, ⟨0, .int 0, .int 0⟩, rfl, rfl, rfl, ?_⟩
  intro summarizes
  cases summarizes.sum

/-- The other measure keeps its value. -/
theorem retracted_sum_right :
    ∃ contribution, deletedContribution kernel storage DeletedRow.entry fragment.deleted
        (computeAggState (F := Int) kernel 0 "c" fragment.rows).cols.keys = some contribution ∧
      ∀ agg, (retract (computeAggState kernel 0 "c" fragment.rows) contribution).cols.lookup "w" =
        some agg → Summarizes kernel "w" fragment.live agg := by
  have data : storage.files.lookup DeletedRow.entry.data = some (.data fragment.rows) := rfl
  obtain ⟨contribution, found, iff⟩ := retract_summarizes_iff (F := Int) isInteger_w data 0 "c"
  refine ⟨contribution, found, iff.mpr ?_⟩
  intro _ nothing
  cases nothing

end DeletedMeasure

/-! ## Groups -/

section Groups

variable [Double F] {kernel : NumericKernel R F} {storage : TableStorage R} {entry : RowGroupEntry}
  {fragment : PhysicalFragment R} {name : String} {grouping : Grouping R} {column : KeyColumn R}
  {partials : GroupedPartials F}

/-- Retracting the deleted rows from groups leaves what the live rows of a group have, unless a
measure of the group has values and all of them are deleted. -/
theorem retractGrouped_summarizes_iff (integer : kernel.IsInteger name)
    (data : storage.files.lookup entry.data = some (.data fragment.rows)) {fragmentId : Nat}
    {contentHash keyCol : String} (column_eq : grouping.columns.lookup keyCol = some column)
    (computed : computeGrouped kernel grouping.columns keyCol
      (computeAggState kernel fragmentId contentHash fragment.rows).cols fragment.rows =
        some partials)
    {key : String} (live : groupMembers column key fragment.live ≠ []) :
    ∃ groups, retractGrouped kernel grouping.columns storage entry partials fragment.deleted
        (partials.groups.entries.flatMap fun group => group.2.keys).dedup = some groups ∧
      ((∀ agg, groupCol groups key name = some agg →
        Summarizes kernel name (groupMembers column key fragment.live) agg) ↔
          (groupInts kernel column key name fragment.rows ≠ [] →
            groupInts kernel column key name fragment.live = [] →
              bound128 ≤ Moments.squares (ints kernel name fragment.rows))) := by
  obtain ⟨keyCol_eq, describes⟩ := describesGroups_computeGrouped column_eq computed
  rw [← keyCol_eq] at column_eq
  obtain ⟨groups, retracted⟩ : ∃ groups, retractGrouped kernel grouping.columns storage entry
      partials fragment.deleted
        (partials.groups.entries.flatMap fun group => group.2.keys).dedup = some groups := by
    unfold retractGrouped
    split
    · exact ⟨_, rfl⟩
    · rw [data, column_eq]
      exact ⟨_, rfl⟩
  refine ⟨groups, retracted, ?_⟩
  have left := describesGroups_retractGrouped column_eq data describes retracted
  have perm := perm_groupMembers column key fragment.deleted fragment.rows
  have present : groupMembers column key fragment.rows ≠ [] := by
    intro none
    rw [none] at perm
    exact live (List.append_eq_nil_iff.mp perm.symm.eq_nil).2
  have nothing_live : groupInts kernel column key name fragment.rows = [] →
      groupInts kernel column key name fragment.live = [] := by
    intro nothing
    have values : (ints kernel name (groupMembers column key fragment.rows)).Perm _ :=
      perm_ints_append perm
    rw [show ints kernel name (groupMembers column key fragment.rows) = [] from nothing] at values
    exact (List.append_eq_nil_iff.mp values.symm.eq_nil).2
  have col_eq : groupCol groups key name =
      if Moments.squares (ints kernel name fragment.rows) < bound128 then
        some (liveGroupCol (groupInts kernel column key name fragment.rows)
          (groupInts kernel column key name fragment.live))
      else none := by
    split
    · next fits => exact left.told key name integer ⟨present, fits⟩
    · next overflows => exact left.untold key name integer fun tells => overflows tells.2
  rw [col_eq]
  exact forall_summarizes_iff nothing_live _

end Groups

namespace DeletedMeasure

/-- The group has a live row, and none with a value of the first measure. -/
theorem retracted_group_wrong : groupMembers column "1" fragment.live ≠ [] ∧
    ∃ partials groups agg, computeGrouped kernel grouping.columns "k"
        (computeAggState kernel 0 "c" fragment.rows).cols fragment.rows = some partials ∧
      retractGrouped kernel grouping.columns storage DeletedRow.entry partials fragment.deleted
        (partials.groups.entries.flatMap fun group => group.2.keys).dedup = some groups ∧
      groupCol groups "1" "v" = some agg ∧ agg.sum = .int 0 ∧
      ¬ Summarizes kernel "v" (groupMembers column "1" fragment.live) agg := by
  constructor
  · exact List.cons_ne_nil _ _
  · refine ⟨_, _, ⟨0, .int 0, .int 0⟩, rfl, rfl, rfl, rfl, ?_⟩
    intro summarizes
    cases summarizes.sum

/-- The group keeps the value of the other measure. -/
theorem retracted_group_right :
    ∃ partials groups, computeGrouped kernel grouping.columns "k"
        (computeAggState kernel 0 "c" fragment.rows).cols fragment.rows = some partials ∧
      retractGrouped kernel grouping.columns storage DeletedRow.entry partials fragment.deleted
        (partials.groups.entries.flatMap fun group => group.2.keys).dedup = some groups ∧
      ∀ agg, groupCol groups "1" "w" = some agg →
        Summarizes kernel "w" (groupMembers column "1" fragment.live) agg := by
  obtain ⟨partials, computed⟩ := Option.isSome_iff_exists.mp
    (show (computeGrouped kernel grouping.columns "k"
      (computeAggState kernel 0 "c" fragment.rows).cols fragment.rows).isSome from rfl)
  have data : storage.files.lookup DeletedRow.entry.data = some (.data fragment.rows) := rfl
  have column_eq : grouping.columns.lookup "k" = some column := rfl
  have live : groupMembers column "1" fragment.live ≠ [] := List.cons_ne_nil _ _
  obtain ⟨groups, retracted, iff⟩ := retractGrouped_summarizes_iff isInteger_w data column_eq
    computed live
  refine ⟨partials, groups, computed, retracted, iff.mpr ?_⟩
  intro _ nothing
  cases nothing

end DeletedMeasure

end MetadataAggregate

end IcefallDB
