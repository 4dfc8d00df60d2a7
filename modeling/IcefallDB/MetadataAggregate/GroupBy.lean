import IcefallDB.MetadataAggregate.GroupSources
import Mathlib.Tactic.LinearCombination

/-!
# Grouped answers from metadata against SQL

What grouping means on the live rows, and when an answer composed from the partial aggregates of
groups is that meaning.
-/

namespace IcefallDB

variable {R F : Type}

namespace MetadataAggregate

open AggCache

section

variable {kernel : NumericKernel R F} {column : KeyColumn R} {name : String}

/-! ## Meaning -/

/-- What an aggregate of the values of a column means. -/
def sqlGroupValue (kernel : NumericKernel R F) (aggregate : GroupAggregate) (values : List Int) :
    GroupValue F :=
  match aggregate.function with
  | .count => .scalar (.int64 (some values.length))
  | .sum =>
      match kernel.columns.lookup aggregate.column with
      | some .unsigned => .scalar (.uint64 (if values = [] then none else some values.sum.toNat))
      | _ => .scalar (.int64 (if values = [] then none else some values.sum))
  | .avg =>
      if values = [] then .scalar (.float64 none) else .rational (values.sum / values.length)

/-- What `GROUP BY` a column means. -/
def sqlGroupBy (kernel : NumericKernel R F) (column : KeyColumn R)
    (fragments : List (PhysicalFragment R)) (aggregates : List GroupAggregate) :
    List (KeyValue × List (GroupValue F)) :=
  ((fragments.flatMap PhysicalFragment.live).map column.value).dedup.map fun key =>
    (key, aggregates.map fun aggregate =>
      sqlGroupValue kernel aggregate (groupValues kernel column key aggregate.column fragments))

/-- When an aggregate of the kept values is that of the kept and the lost ones together.  The column
has the physical values in the fragments of the kept ones. -/
def RightFor (physical kept lost : List Int) : AggregateFunction → Prop
  | .count => lost = []
  | .sum => if physical = [] then lost = [] else lost ++ kept ≠ [] ∧ lost.sum = 0
  | .avg => lost = [] ∨ kept ≠ [] ∧ lost.sum * kept.length = kept.sum * lost.length

/-- When an answer about a group is right. -/
def GroupRightWhen (kernel : NumericKernel R F) (column : KeyColumn R)
    (fragments : List (PhysicalFragment R)) (key : KeyValue) (aggregate : GroupAggregate) : Prop :=
  let sources := sourcesOf kernel column key aggregate.column fragments
  let kept := sources.kept.getD []
  RightFor (physicalValues kernel column key aggregate.column kept)
    (groupValues kernel column key aggregate.column kept)
    (groupValues kernel column key aggregate.column sources.lost) aggregate.function

/-! ## Answers -/

section Answers

variable [Double F] [Div F] [NatCast F]

omit [Double F] [Div F] [NatCast F] in
theorem sqlGroupValue_perm {aggregate : GroupAggregate} {values values' : List Int}
    (perm : values.Perm values') :
    sqlGroupValue kernel aggregate values = sqlGroupValue kernel aggregate values' := by
  have empty : values = [] ↔ values' = [] := by
    rw [← List.length_eq_zero_iff, perm.length_eq, List.length_eq_zero_iff]
  simp only [sqlGroupValue, perm.length_eq, perm.sum_eq, empty]

/-- More values have the same average exactly if their average is the same. -/
theorem average_append_iff {kept lost : List Int} (some_kept : kept ≠ []) :
    ((kept.sum : ℚ) / kept.length = ((lost ++ kept).sum : Int) / ((lost ++ kept).length : Nat)) ↔
      lost.sum * kept.length = kept.sum * lost.length := by
  have kept_pos : (kept.length : ℚ) ≠ 0 := by
    rw [Nat.cast_ne_zero]
    exact fun none_kept => some_kept (List.length_eq_zero_iff.mp none_kept)
  have all_pos : (lost.length + kept.length : ℚ) ≠ 0 := by
    have lost_nonneg : (0 : ℚ) ≤ lost.length := Nat.cast_nonneg _
    have kept_nonneg : (0 : ℚ) < kept.length := lt_of_le_of_ne (Nat.cast_nonneg _) kept_pos.symm
    linarith
  rw [List.sum_append, List.length_append, Int.cast_add, Nat.cast_add, div_eq_div_iff kept_pos
    all_pos]
  constructor
  · intro same
    have cast : ((lost.sum * kept.length : Int) : ℚ) = (kept.sum * lost.length : Int) := by
      rw [Int.cast_mul, Int.cast_mul, Int.cast_natCast, Int.cast_natCast]
      linarith
    exact Int.cast_injective cast
  · intro same
    have cast : ((lost.sum * kept.length : Int) : ℚ) = (kept.sum * lost.length : Int) := by
      rw [same]
    rw [Int.cast_mul, Int.cast_mul, Int.cast_natCast, Int.cast_natCast] at cast
    linarith

/-- When an aggregate composed from the partial aggregates of a group is right. -/
theorem composeAggregateForGroup_eq_iff {aggregate : GroupAggregate}
    (integer : kernel.IsInteger aggregate.column) {cols : HashMap String (ColAgg F)}
    {physical kept lost : List Int} (inside : physical = [] → kept = [])
    (column_eq : cols.lookup aggregate.column = some (liveGroupCol physical kept))
    {value : GroupValue F} {count : Nat}
    (found : composeAggregateForGroup kernel cols aggregate = some (value, count)) :
    count = kept.length ∧ (value = sqlGroupValue kernel aggregate (lost ++ kept) ↔
      RightFor physical kept lost aggregate.function) := by
  obtain ⟨function, name⟩ := aggregate
  have count_eq : (liveGroupCol (F := F) physical kept).countNonNull = kept.length := by
    rw [liveGroupCol]
    split
    · next nulls =>
        rw [inside nulls]
        rfl
    · rfl
  rw [composeAggregateForGroup, column_eq, Option.bind_eq_bind, Option.bind_some] at found
  simp only [count_eq] at found
  cases function with
  | count =>
      obtain ⟨rfl, rfl⟩ := Prod.mk.inj (Option.some.inj found)
      refine ⟨rfl, ?_⟩
      simp [sqlGroupValue, RightFor]
  | sum =>
      obtain ⟨kind, kind_eq, not_float⟩ := integer
      simp only [kind_eq, Option.bind_eq_bind, Option.bind_some] at found
      simp only [sqlGroupValue, RightFor, kind_eq]
      by_cases nulls : physical = []
      · rw [liveGroupCol, if_pos nulls] at found
        obtain ⟨rfl, rfl⟩ := Prod.mk.inj (Option.some.inj found)
        refine ⟨rfl, ?_⟩
        rw [if_pos nulls, inside nulls, List.append_nil]
        cases kind with
        | signed => simp [sumType, SqlType.null]
        | unsigned => simp [sumType, SqlType.null]
        | float => exact absurd rfl not_float
      · rw [liveGroupCol, if_neg nulls, liveCol] at found
        cases kind with
        | signed =>
            simp only [sumType] at found
            obtain ⟨sum, sum_eq, same⟩ := Option.map_eq_some_iff.mp found
            obtain rfl := Moments.eq_of_checked sum_eq
            obtain ⟨rfl, rfl⟩ := Prod.mk.inj same
            refine ⟨rfl, ?_⟩
            rw [if_neg nulls]
            by_cases nothing : lost ++ kept = []
            · simp [nothing]
            · simp [nothing, List.sum_append]
        | unsigned => cases found
        | float => exact absurd rfl not_float
  | avg =>
      simp only [sqlGroupValue, RightFor]
      by_cases nothing : kept = []
      · rw [if_pos (List.length_eq_zero_iff.mpr nothing)] at found
        obtain ⟨rfl, rfl⟩ := Prod.mk.inj (Option.some.inj found)
        refine ⟨rfl, ?_⟩
        simp [nothing]
      · have values : physical ≠ [] := fun nulls => nothing (inside nulls)
        rw [if_neg fun zero => nothing (List.length_eq_zero_iff.mp zero), liveGroupCol,
          if_neg values, liveCol] at found
        obtain ⟨rfl, rfl⟩ := Prod.mk.inj (Option.some.inj found)
        refine ⟨rfl, ?_⟩
        have some_values : lost ++ kept ≠ [] := fun empty =>
          nothing (List.append_eq_nil_iff.mp empty).2
        rw [if_neg some_values, GroupValue.rational.injEq, average_append_iff nothing]
        constructor
        · exact fun same => .inr ⟨nothing, same⟩
        · rintro (rfl | ⟨-, same⟩)
          · simp
          · exact same

omit [Double F] [Div F] [NatCast F] in
theorem mem_of_groupValues {fragments : List (PhysicalFragment R)} {key : KeyValue}
    (values : groupValues kernel column key name fragments ≠ []) :
    key ∈ (fragments.flatMap PhysicalFragment.live).map column.value := by
  obtain ⟨value, member⟩ := List.exists_mem_of_ne_nil _ values
  obtain ⟨fragment, fragment_mem, value_mem⟩ := List.mem_flatMap.mp member
  have some_rows : rowsOf column key fragment.live ≠ [] := by
    intro nobody
    rw [nobody] at value_mem
    cases value_mem
  obtain ⟨row, row_mem⟩ := List.exists_mem_of_ne_nil _ some_rows
  obtain ⟨live, key_eq⟩ := List.mem_filter.mp row_mem
  rw [List.mem_map]
  exact ⟨row, List.mem_flatMap.mpr ⟨fragment, fragment_mem, live⟩, of_decide_eq_true key_eq⟩

theorem foldl_max_eq_zero_iff (counts : List Nat) :
    counts.foldl max 0 = 0 ↔ ∀ count ∈ counts, count = 0 := by
  suffices from_any : ∀ start, counts.foldl max start = 0 ↔
      start = 0 ∧ ∀ count ∈ counts, count = 0 by
    rw [from_any]
    exact and_iff_right rfl
  induction counts with
  | nil => simp
  | cons count counts ih =>
      intro start
      rw [List.foldl_cons, ih, List.forall_mem_cons, ← and_assoc]
      exact and_congr_left fun _ => by omega

section

variable {parts : List (GroupedPartials F)} {fragments : List (PhysicalFragment R)}
  {aggregates : List GroupAggregate}

omit [Div F] [NatCast F] in
/-- A merged group has the key of a row. -/
theorem exists_row_of_merged
    (describes : List.Forall₂ (fun (part : GroupedPartials F) fragment =>
      DescribesGroups kernel column part.groups fragment.rows fragment.live) parts fragments)
    {text : String} (merged : ((mergeGrouped (· + ·) parts).lookup text).isSome) :
    ∃ row : R, arrowScalarToGroupKeyString (column.value row) = some text := by
  obtain ⟨part, part_mem, present⟩ := (isSome_mergeGrouped parts text).mp merged
  obtain ⟨fragment, -, describe⟩ := describes.exists_of_mem_left part_mem
  obtain ⟨row, member⟩ := List.exists_mem_of_ne_nil _ ((describe.keys text).mp present)
  exact ⟨row, (mem_groupMembers.mp member).2⟩

/-- A group in an answer has the key of a live row, and its values are right under their
conditions. -/
theorem composeGroup_spec
    (describes : List.Forall₂ (fun (part : GroupedPartials F) fragment =>
      DescribesGroups kernel column part.groups fragment.rows fragment.live) parts fragments)
    (integer : ∀ aggregate ∈ aggregates, kernel.IsInteger aggregate.column)
    {group : String × HashMap String (ColAgg F)}
    (member : group ∈ (mergeGrouped (· + ·) parts).entries)
    {result : KeyValue × List (GroupValue F)}
    (composed : composeGroup kernel column.type aggregates group = some result) :
    arrowScalarToGroupKeyString result.1 = some group.1 ∧
      result.1 ∈ (fragments.flatMap PhysicalFragment.live).map column.value ∧
      (result.2 = aggregates.map (fun aggregate => sqlGroupValue kernel aggregate
          (groupValues kernel column result.1 aggregate.column fragments)) ↔
        ∀ aggregate ∈ aggregates, GroupRightWhen kernel column fragments result.1 aggregate) := by
  obtain ⟨text, cols⟩ := group
  have found : (mergeGrouped (· + ·) parts).lookup text = some cols :=
    SortedMap.lookup_eq_some.mpr member
  obtain ⟨row, text_eq⟩ := exists_row_of_merged describes (Option.isSome_of_eq_some found)
  obtain ⟨key, decoded, rest⟩ := Option.bind_eq_some_iff.mp composed
  obtain ⟨values, mapped, rest⟩ := Option.bind_eq_some_iff.mp rest
  rw [decodeGroupKey_of_fits (column.fits row) text_eq] at decoded
  obtain rfl := Option.some.inj decoded
  split at rest
  · cases rest
  · next some_count =>
      obtain rfl := Option.some.inj rest
      have each := List.forall₂_of_mapM_eq_some mapped
      have right : ∀ aggregate ∈ aggregates, ∀ value count,
          composeAggregateForGroup kernel cols aggregate = some (value, count) →
            count = (groupValues kernel column (column.value row) aggregate.column
              ((sourcesOf kernel column (column.value row) aggregate.column fragments).kept.getD
                [])).length ∧
            (value = sqlGroupValue kernel aggregate
              (groupValues kernel column (column.value row) aggregate.column fragments) ↔
                GroupRightWhen kernel column fragments (column.value row) aggregate) := by
        intro aggregate aggregate_mem value count composed
        obtain ⟨agg, agg_eq, -⟩ := Option.bind_eq_some_iff.mp composed
        have merged := groupCol_mergeGrouped_eq describes (integer aggregate aggregate_mem) text_eq
        rw [groupCol, found, Option.bind_some, agg_eq] at merged
        obtain ⟨kept, kept_eq, agg_value⟩ := Option.map_eq_some_iff.mp merged.symm
        rw [← agg_value] at agg_eq
        have perm := perm_groupValues kernel column aggregate.column (column.value row) fragments
        rw [GroupRightWhen, sqlGroupValue_perm perm, kept_eq, Option.getD_some]
        exact composeAggregateForGroup_eq_iff (integer aggregate aggregate_mem) groupValues_eq_nil
          agg_eq composed
      refine ⟨text_eq, ?_, ?_⟩
      · rw [foldl_max_eq_zero_iff] at some_count
        push Not at some_count
        obtain ⟨count, count_mem, positive⟩ := some_count
        obtain ⟨⟨value, count⟩, value_mem, rfl⟩ := List.mem_map.mp count_mem
        obtain ⟨aggregate, aggregate_mem, composed⟩ := each.exists_of_mem_right value_mem
        have count_eq := (right aggregate aggregate_mem value count composed).1
        have perm := perm_groupValues kernel column aggregate.column (column.value row) fragments
        have values_ne : groupValues kernel column (column.value row) aggregate.column fragments ≠
            [] := by
          intro nothing
          rw [nothing] at perm
          rw [(List.append_eq_nil_iff.mp perm.symm.eq_nil).2] at count_eq
          exact positive count_eq
        exact mem_of_groupValues values_ne
      · apply each.map_eq_map_iff
        rintro aggregate aggregate_mem ⟨value, count⟩ composed
        exact (right aggregate aggregate_mem value count composed).2

omit [Div F] [NatCast F] in
/-- The key of a live row is the key of a merged group. -/
theorem exists_merged_of_live
    (describes : List.Forall₂ (fun (part : GroupedPartials F) fragment =>
      DescribesGroups kernel column part.groups fragment.rows fragment.live) parts fragments)
    {key : KeyValue} (live : key ∈ (fragments.flatMap PhysicalFragment.live).map column.value) :
    ∃ text cols, arrowScalarToGroupKeyString key = some text ∧
      (text, cols) ∈ (mergeGrouped (· + ·) parts).entries := by
  obtain ⟨row, row_mem, rfl⟩ := List.mem_map.mp live
  obtain ⟨fragment, fragment_mem, row_live⟩ := List.mem_flatMap.mp row_mem
  obtain ⟨part, part_mem, describe⟩ := describes.exists_of_mem_right fragment_mem
  have physical : row ∈ fragment.rows := mem_rows_of_mem_live row_live
  obtain ⟨text, text_eq⟩ := describe.texts row physical
  have present := (describe.keys text).mpr
    (List.ne_nil_of_mem (mem_groupMembers.mpr ⟨physical, text_eq⟩))
  have merged : ((mergeGrouped (· + ·) parts).lookup text).isSome :=
    (isSome_mergeGrouped parts text).mpr ⟨part, part_mem, present⟩
  obtain ⟨cols, found⟩ := Option.isSome_iff_exists.mp merged
  exact ⟨text, cols, text_eq, SortedMap.lookup_eq_some.mp found⟩

/-- The groups of an answer are the keys of the live rows. -/
theorem perm_keys_of_composed
    (describes : List.Forall₂ (fun (part : GroupedPartials F) fragment =>
      DescribesGroups kernel column part.groups fragment.rows fragment.live) parts fragments)
    (integer : ∀ aggregate ∈ aggregates, kernel.IsInteger aggregate.column)
    {answer : List (KeyValue × List (GroupValue F))}
    (composed : (mergeGrouped (· + ·) parts).entries.mapM (composeGroup kernel column.type aggregates) =
      some answer) :
    (answer.map Prod.fst).Perm
      ((fragments.flatMap PhysicalFragment.live).map column.value).dedup := by
  have each := List.forall₂_of_mapM_eq_some composed
  have text_of : ∀ group ∈ (mergeGrouped (· + ·) parts).entries, ∀ result,
      composeGroup kernel column.type aggregates group = some result →
        (arrowScalarToGroupKeyString result.1 = some group.1 ↔ True) :=
    fun group member result found =>
      iff_true_intro (composeGroup_spec describes integer member found).1
  have texts_eq : (answer.map Prod.fst).map arrowScalarToGroupKeyString =
      ((mergeGrouped (· + ·) parts).entries.map Prod.fst).map some := by
    rw [List.map_map, List.map_map]
    exact (each.map_eq_map_iff text_of).mpr fun _ _ => trivial
  have distinct : (answer.map Prod.fst).Nodup := by
    apply List.Nodup.of_map arrowScalarToGroupKeyString
    rw [texts_eq]
    apply List.Nodup.map (Option.some_injective String)
    exact (mergeGrouped (· + ·) parts).ascending.imp fun {_ _} => ne_of_lt
  rw [List.perm_ext_iff_of_nodup distinct (List.nodup_dedup _)]
  intro key
  rw [List.mem_dedup]
  constructor
  · intro member
    obtain ⟨result, result_mem, rfl⟩ := List.mem_map.mp member
    obtain ⟨group, group_mem, found⟩ := each.exists_of_mem_right result_mem
    exact (composeGroup_spec describes integer group_mem found).2.1
  · intro live
    obtain ⟨text, cols, text_eq, group_mem⟩ := exists_merged_of_live describes live
    obtain ⟨result, result_mem, found⟩ := each.exists_of_mem_left group_mem
    have own_text := (composeGroup_spec describes integer group_mem found).1
    rw [arrowScalarToGroupKeyString_injective text_eq own_text]
    exact List.mem_map_of_mem result_mem

end

/-- A grouped query answered from metadata has the groups of the live rows, and exactly the values
that SQL gives if the answers about all groups are right. -/
theorem composeGrouped_perm_iff {storage : TableStorage R} {manifest : Manifest} {schemaId : Nat}
    {fragments : List (PhysicalFragment R)} {grouping : Grouping R} {keyName : String}
    {aggregates : List GroupAggregate} {answer : List (KeyValue × List (GroupValue F))}
    (holds : HoldsFragments kernel storage manifest schemaId fragments)
    (column_eq : grouping.columns.lookup keyName = some column)
    (integer : ∀ aggregate ∈ aggregates, kernel.IsInteger aggregate.column)
    (answered : composeGrouped kernel grouping keyName aggregates
      (Reader.scanGrouped kernel grouping storage manifest schemaId) = some answer) :
    answer.Perm (sqlGroupBy kernel column fragments aggregates) ↔
      ∀ key ∈ (fragments.flatMap PhysicalFragment.live).map column.value,
        ∀ aggregate ∈ aggregates, GroupRightWhen kernel column fragments key aggregate := by
  unfold composeGrouped at answered
  split at answered
  · cases answered
  · rw [column_eq, Option.bind_eq_bind, Option.bind_some] at answered
    obtain ⟨parts, parts_eq, composed⟩ := Option.bind_eq_some_iff.mp answered
    have describes := HoldsFragments.describesGroups holds column_eq parts_eq
    have perm := perm_keys_of_composed describes integer composed
    have each := List.forall₂_of_mapM_eq_some composed
    rw [sqlGroupBy, Groups.perm_map_iff perm]
    constructor
    · intro values key live
      obtain ⟨result, result_mem, rfl⟩ :=
        List.mem_map.mp (perm.mem_iff.mpr (List.mem_dedup.mpr live))
      obtain ⟨group, group_mem, found⟩ := each.exists_of_mem_right result_mem
      exact (composeGroup_spec describes integer group_mem found).2.2.mp (values result result_mem)
    · intro right result result_mem
      obtain ⟨group, group_mem, found⟩ := each.exists_of_mem_right result_mem
      obtain ⟨-, live, values⟩ := composeGroup_spec describes integer group_mem found
      exact values.mpr (right result.1 live)

end Answers

end

/-! ## A measure whose values are all deleted -/

namespace DeletedMeasure

/-- A value of each of two measures. -/
structure Row where
  v : Option Int
  w : Option Int
  deriving DecidableEq

def kernel : NumericKernel Row Int :=
  { columns := ((∅ : HashMap String NumericKind).insert "v" .signed).insert "w" .signed
    intValue := fun name row => if name = "v" then row.v else row.w
    floatValue := fun _ _ => none }

/-- All rows are in one group. -/
def column : KeyColumn Row :=
  { type := .int64
    value := fun _ => .int 1
    fits := fun _ => ⟨-2 ^ 63, 2 ^ 63, rfl, by decide, by decide⟩ }

def grouping : Grouping Row :=
  { columns := (∅ : HashMap String (KeyColumn Row)).insert "k" column
    aggGroupKeys := ["k"]
    declaredIn := fun _ => some "k" }

/-- The only value of the first measure is in the first row, and that of the second in the other. -/
def rows : List Row :=
  [{ v := some 5, w := none }, { v := none, w := some 7 }]

def columnStats : HashMap String ColumnStats :=
  ((∅ : HashMap String ColumnStats).insert "v" { min := none, max := none, nulls := 1 }).insert
    "w" { min := none, max := none, nulls := 1 }

def summary : FragmentSummary :=
  { DeletedRow.summary with rows := 2, columns := columnStats }

/-- A table with two rows, the first of them deleted. -/
def storage : TableStorage Row :=
  { pointer := .latest 2
    manifests := (∅ : HashMap Nat Manifest).insert 2 DeletedRow.manifest
    log := []
    files := ((((∅ : HashMap String (File Row)).insert "rg_1.parquet" (.data rows)).insert
      "_deletions/rg_0000000000000000__v2.del" (.deletions {0})).insert "rg_1.agg"
        (.aggregate 0 "c" rows)).insert "_checkpoints/000000002.json"
          (.checkpoint { sequence := 2, schemaId := 1, fragments := [summary], checksum := "" })
    intents := ∅
    schemaPointer := some 1 }

def fragment : PhysicalFragment Row :=
  { rows, deleted := {0}, inside := by decide }

theorem isInteger_v : kernel.IsInteger "v" :=
  ⟨.signed, rfl, by decide⟩

theorem isInteger_w : kernel.IsInteger "w" :=
  ⟨.signed, rfl, by decide⟩

theorem holdsFragments : HoldsFragments kernel storage DeletedRow.manifest 1 [fragment] := by
  constructor
  · rfl
  · intro index entry contents found stored
    obtain ⟨rfl, rfl⟩ : index = 0 ∧ entry = DeletedRow.entry := by
      match index, found with
      | 0, found => exact ⟨rfl, (Option.some.inj found).symm⟩
    have meta_eq : Reader.findMeta storage DeletedRow.manifest 1 0 DeletedRow.entry =
        some (Reader.summarizedMeta 1 DeletedRow.entry summary) := rfl
    obtain rfl := Option.some.inj stored
    constructor
    · rfl
    · rfl
    · rfl
    · intro sidecar same
      rw [← Option.some.inj (meta_eq.symm.trans same)]
      rfl
    · intro sidecar same name stats integer column
      rw [← Option.some.inj (meta_eq.symm.trans same)] at column
      have inserted : columnStats.lookup name = some stats := column
      by_cases second : name = "w"
      · subst second
        cases inserted
        rfl
      · by_cases first : name = "v"
        · subst first
          cases inserted
          rfl
        · rw [columnStats, AList.lookup_insert_ne second, AList.lookup_insert_ne first] at inserted
          cases inserted
    · intro count counted
      cases counted
    · intro path named fragmentId contentHash stored_rows stored
      obtain rfl := Option.some.inj named
      have known : storage.files.lookup "rg_1.agg" = some (.aggregate 0 "c" rows) := rfl
      rw [known] at stored
      cases stored
      rfl

/-- The sum of the first measure is answered with zero, and is null. -/
theorem grouped_sum_wrong : HoldsFragments kernel storage DeletedRow.manifest 1 [fragment] ∧
    composeGrouped kernel grouping "k" [⟨.sum, "v"⟩, ⟨.count, "w"⟩]
        (Reader.scanGrouped kernel grouping storage DeletedRow.manifest 1) =
      some [(.int 1, [.scalar (.int64 (some 0)), .scalar (.int64 (some 1))])] ∧
    ¬ [(KeyValue.int 1, [.scalar (.int64 (some 0)), .scalar (.int64 (some 1))])].Perm
      (sqlGroupBy kernel column [fragment] [⟨.sum, "v"⟩, ⟨.count, "w"⟩]) := by
  have meaning : sqlGroupBy kernel column [fragment] [⟨.sum, "v"⟩, ⟨.count, "w"⟩] =
      [(.int 1, [.scalar (.int64 none), .scalar (.int64 (some 1))])] := rfl
  refine ⟨holdsFragments, rfl, ?_⟩
  rw [meaning, List.perm_singleton]
  simp

/-- The count of the first measure and the sum of the other are right. -/
theorem grouped_count_right :
    [(KeyValue.int 1, [.scalar (.int64 (some 0)), .scalar (.int64 (some 7))])].Perm
      (sqlGroupBy kernel column [fragment] [⟨.count, "v"⟩, ⟨.sum, "w"⟩]) := by
  have integer : ∀ aggregate ∈ ([⟨.count, "v"⟩, ⟨.sum, "w"⟩] : List GroupAggregate),
      kernel.IsInteger aggregate.column := by
    rw [List.forall_mem_cons, List.forall_mem_singleton]
    exact ⟨isInteger_v, isInteger_w⟩
  have answered : composeGrouped kernel grouping "k" [⟨.count, "v"⟩, ⟨.sum, "w"⟩]
      (Reader.scanGrouped kernel grouping storage DeletedRow.manifest 1) =
        some [(.int 1, [.scalar (.int64 (some 0)), .scalar (.int64 (some 7))])] := rfl
  have column_eq : grouping.columns.lookup "k" = some column := rfl
  apply (composeGrouped_perm_iff holdsFragments column_eq integer answered).mpr
  intro key live
  obtain rfl : key = .int 1 := List.mem_singleton.mp live
  rw [List.forall_mem_cons, List.forall_mem_singleton]
  constructor
  · rfl
  · exact ⟨List.cons_ne_nil _ _, rfl⟩

end DeletedMeasure

end MetadataAggregate

end IcefallDB
