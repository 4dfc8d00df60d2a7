import IcefallDB.Lib.Options
import IcefallDB.Writer.Planning
import IcefallDB.Writer.Publish
import Mathlib

/-!
# Partition values

Scans prune row groups by the partition values that the manifest records for their data files.  An
append should keep what is recorded for the row groups it carries over, and record for each new row
group the value that its rows share in every partition column.
-/

namespace IcefallDB

variable {R : Type}

/-- The values that a manifest records for a data file, by partition column. -/
def Manifest.partitionEntry (manifest : Manifest) (data : String) :
    Option (String → Option Scalar) :=
  ((manifest.partitionValues.getD ∅).lookup data).map fun values column => values.lookup column

namespace Writer

/-! ## What rows share -/

/-- There are rows, and all of them have one value, not null, in a column. -/
def Shares (writer : Writer R) (rows : List R) (column : String) (value : Scalar) : Prop :=
  rows ≠ [] ∧ ∀ row ∈ rows, writer.kernel.partitionValue column row = .ok (some value)

/-- The recorded values are the partition values of some rows: the value they share in each partition
column.  Rows that share no value in some partition column have no partition values. -/
def RecordsPartition (writer : Writer R) (rows : List R) : Option (String → Option Scalar) → Prop
  | some values => ∀ column,
      (column ∈ writer.partitionColumns →
        ∃ value, values column = some value ∧ writer.Shares rows column value) ∧
      (column ∉ writer.partitionColumns → values column = none)
  | none => ∃ column ∈ writer.partitionColumns, ∀ value, ¬writer.Shares rows column value

/-- All rows agree in a column, be it on a value or on null. -/
def Agrees (writer : Writer R) (rows : List R) (column : String) : Prop :=
  ∃ value, ∀ row ∈ rows, writer.kernel.partitionValue column row = .ok value

variable {writer : Writer R} {rows : List R} {column : String}

theorem Agrees.sublist {part : List R} (agrees : writer.Agrees rows column)
    (inside : ∀ row ∈ part, row ∈ rows) : writer.Agrees part column := by
  obtain ⟨value, all⟩ := agrees
  exact ⟨value, fun row member => all row (inside row member)⟩

/-- The value in a column of the first row. -/
def firstValue (writer : Writer R) (rows : List R) (column : String) : Option Scalar :=
  rows.head?.bind fun row => (writer.kernel.partitionValue column row).toOption.join

theorem firstValue_eq_some_iff (agrees : writer.Agrees rows column) {value : Scalar} :
    writer.firstValue rows column = some value ↔ writer.Shares rows column value := by
  obtain ⟨common, all⟩ := agrees
  cases rows with
  | nil => simp [firstValue, Shares]
  | cons first rest =>
      have first_eq := all first List.mem_cons_self
      have value_eq : writer.firstValue (first :: rest) column = common := by
        simp [firstValue, first_eq, Except.toOption]
      rw [value_eq]
      constructor
      · rintro rfl
        exact ⟨List.cons_ne_nil first rest, all⟩
      · rintro ⟨-, shared⟩
        exact Except.ok.inj (first_eq.symm.trans (shared first List.mem_cons_self))

private theorem mapM_eq_replicate {value : Option Scalar}
    (all : ∀ row ∈ rows, writer.kernel.partitionValue column row = .ok value) :
    rows.mapM (writer.kernel.partitionValue column) = .ok (List.replicate rows.length value) := by
  induction rows with
  | nil => rfl
  | cons row rows ih =>
      have rest := ih fun other member => all other (List.mem_cons_of_mem row member)
      rw [List.mapM_cons, all row List.mem_cons_self, rest]
      rfl

/-- Rows that agree in a column have the value of the first row there, and no other. -/
theorem distinctNonNullValues_of_agrees (agrees : writer.Agrees rows column) :
    writer.distinctNonNullValues column rows = .ok (writer.firstValue rows column).toList := by
  obtain ⟨value, all⟩ := agrees
  have values : writer.distinctNonNullValues column rows =
      .ok (List.replicate rows.length value).reduceOption.dedup := by
    rw [distinctNonNullValues, mapM_eq_replicate all]
    rfl
  rw [values]
  cases rows with
  | nil => rfl
  | cons row rows =>
      have first_eq : writer.firstValue (row :: rows) column = value := by
        simp [firstValue, all row List.mem_cons_self, Except.toOption]
      rw [first_eq]
      cases value with
      | none => rw [List.reduceOption_replicate_none, List.dedup_nil, Option.toList_none]
      | some value =>
          have kept : (List.replicate (row :: rows).length (some value)).reduceOption =
              List.replicate (row :: rows).length value := by
            simp [List.reduceOption]
          rw [kept, List.replicate_dedup (by simp), Option.toList_some]

/-- The partition values of rows that agree in every column are gathered from the first row. -/
theorem partitionValuesFrom_of_agrees {columns : List String}
    (agrees : ∀ column ∈ columns, writer.Agrees rows column) (start : HashMap String Scalar) :
    writer.partitionValuesFrom rows columns start =
      .ok (gather (writer.firstValue rows) columns start) := by
  induction columns generalizing start with
  | nil => rfl
  | cons first rest ih =>
      have later := ih fun column member => agrees column (List.mem_cons_of_mem first member)
      rw [partitionValuesFrom, distinctNonNullValues_of_agrees (agrees first List.mem_cons_self)]
      cases found : writer.firstValue rows first with
      | none => simp [gather, found, Bind.bind, Except.bind]
      | some value =>
          simp only [gather, found, Option.bind_eq_bind, Option.bind_some]
          exact later _

/-- The partition values of rows that agree in every partition column are right. -/
theorem recordsPartition_of_agrees {found : Option (HashMap String Scalar)}
    (partitioned : writer.partitionColumns ≠ [])
    (agrees : ∀ column ∈ writer.partitionColumns, writer.Agrees rows column)
    (computed : writer.computePartitionValues rows = .ok found) :
    writer.RecordsPartition rows (found.map fun values column => values.lookup column) := by
  rw [computePartitionValues, partitionValuesFrom_of_agrees agrees] at computed
  have gathered := gather_cases (writer.firstValue rows) writer.partitionColumns ∅
  rw [Except.ok.inj computed] at gathered
  cases found with
  | none =>
      rcases gathered with ⟨-, unpartitioned⟩ | ⟨column, member, absent⟩
      · exact absurd unpartitioned partitioned
      · refine ⟨column, member, fun value shared => ?_⟩
        rw [(firstValue_eq_some_iff (agrees column member)).mpr shared] at absent
        cases absent
  | some values =>
      intro column
      refine ⟨fun member => ?_, (gathered column).2⟩
      obtain ⟨there, lookup_eq⟩ := (gathered column).1 member
      obtain ⟨value, first_eq⟩ := Option.isSome_iff_exists.mp there
      exact ⟨value, lookup_eq.trans first_eq,
        (firstValue_eq_some_iff (agrees column member)).mp first_eq⟩

/-! ## Row groups of one partition -/

private theorem key_part_injective :
    Function.Injective fun part : Option Scalar =>
      (part.map Scalar.codec.encode).getD Json.null := by
  intro left right same
  cases left with
  | none =>
      cases right with
      | none => rfl
      | some value => exact absurd same.symm (Scalar.codec.encode_ne_null value)
  | some value =>
      cases right with
      | none => exact absurd same (Scalar.codec.encode_ne_null value)
      | some other =>
          have decoded := congrArg Scalar.codec.decode same
          simpa using decoded

/-- Rows with one partition key have the same value in every partition column. -/
theorem partitionValue_eq_of_key {key : String} {left right : R}
    (left_key : writer.partitionKeyForRow left = .ok key)
    (right_key : writer.partitionKeyForRow right = .ok key)
    (member : column ∈ writer.partitionColumns) :
    ∃ value, writer.kernel.partitionValue column left = .ok value ∧
      writer.kernel.partitionValue column right = .ok value := by
  obtain ⟨left_parts, left_mapped, left_same⟩ := Script.except_bind_eq_ok.mp left_key
  obtain ⟨right_parts, right_mapped, right_same⟩ := Script.except_bind_eq_ok.mp right_key
  have rendered := String.ofList_injective
    ((Except.ok.inj left_same).trans (Except.ok.inj right_same).symm)
  have documents := congrArg Json.parse rendered
  rw [Json.parse_render, Json.parse_render] at documents
  have parts_eq : left_parts = right_parts :=
    key_part_injective.list_map (Json.arr.inj (Option.some.inj documents))
  have left_values := List.forall₂_of_mapM_eq_ok left_mapped
  have right_values := List.forall₂_of_mapM_eq_ok right_mapped
  rw [← parts_eq] at right_values
  obtain ⟨index, inside, rfl⟩ := List.getElem_of_mem member
  obtain ⟨length_eq, left_at⟩ := List.forall₂_iff_get.mp left_values
  obtain ⟨-, right_at⟩ := List.forall₂_iff_get.mp right_values
  exact ⟨left_parts[index], left_at index inside (length_eq ▸ inside),
    right_at index inside (length_eq ▸ inside)⟩

private theorem key_of_mem_partitionKeys {keyed : List (String × R)}
    (computed : writer.partitionKeys rows = .ok keyed) :
    ∀ pair ∈ keyed, writer.partitionKeyForRow pair.2 = .ok pair.1 := by
  induction rows generalizing keyed with
  | nil =>
      obtain rfl := Except.ok.inj computed
      intro pair member
      cases member
  | cons row rows ih =>
      obtain ⟨key, keyed_row, computed⟩ := Script.except_bind_eq_ok.mp computed
      obtain ⟨rest, keyed_rest, same⟩ := Script.except_bind_eq_ok.mp computed
      obtain rfl := Except.ok.inj same
      intro pair member
      rcases List.mem_cons.mp member with rfl | in_rest
      · exact keyed_row
      · exact ih keyed_rest pair in_rest

variable {choices : Choices R} {buffer : List (List R)}

/-- The rows of a planned row group agree in every partition column. -/
theorem agrees_of_planRowGroups {groups : List (List R)}
    (partitioned : writer.partitionColumns ≠ [])
    (planned : writer.planRowGroups choices buffer = .ok groups) :
    ∀ rows ∈ groups, ∀ column ∈ writer.partitionColumns, writer.Agrees rows column := by
  rw [planRowGroups, if_neg (by simpa using partitioned)] at planned
  obtain ⟨keyed, keys, same⟩ := Script.except_bind_eq_ok.mp planned
  obtain rfl := Except.ok.inj same
  intro rows member column column_member
  obtain ⟨group, in_groups, sliced⟩ := List.mem_flatMap.mp member
  obtain ⟨key, -, rfl⟩ := List.mem_map.mp ((choices.groupOrder_perm _).mem_iff.mp in_groups)
  apply Agrees.sublist _ (mem_of_mem_slices sliced)
  have keyed_rows : ∀ row ∈ (keyed.filter fun pair => pair.1 = key).map Prod.snd,
      writer.partitionKeyForRow row = .ok key := by
    intro row in_group
    obtain ⟨pair, filtered, rfl⟩ := List.mem_map.mp in_group
    obtain ⟨in_keyed, key_eq⟩ := List.mem_filter.mp filtered
    rw [← of_decide_eq_true key_eq]
    exact key_of_mem_partitionKeys keys pair in_keyed
  -- the first row of the group, if there is one, tells the value
  cases group_eq : (keyed.filter fun pair => pair.1 = key).map Prod.snd with
  | nil => exact ⟨none, fun row in_group => absurd in_group List.not_mem_nil⟩
  | cons first rest =>
      rw [group_eq] at keyed_rows
      have first_key := keyed_rows first List.mem_cons_self
      obtain ⟨value, first_value, -⟩ := partitionValue_eq_of_key first_key first_key column_member
      refine ⟨value, fun row in_group => ?_⟩
      obtain ⟨other, first_other, row_other⟩ :=
        partitionValue_eq_of_key first_key (keyed_rows row in_group) column_member
      rw [row_other, ← first_other, first_value]

/-! ## Entries of new row groups -/

@[simp]
theorem lookup_withPartitionValues (recorded : HashMap String (HashMap String Scalar))
    (data other : String) (found : Option (HashMap String Scalar)) :
    (withPartitionValues recorded data found).lookup other =
      if other = data then found.or (recorded.lookup data) else recorded.lookup other := by
  split
  · next same =>
      rw [same]
      cases found with
      | none => rfl
      | some values => exact AList.lookup_insert recorded
  · next different =>
      cases found with
      | none => rfl
      | some values => exact AList.lookup_insert_ne different

@[simp]
theorem lookup_onlyPartitionValues (recorded : HashMap String (HashMap String Scalar))
    (data other : String) :
    (onlyPartitionValues recorded data).lookup other =
      if other = data then recorded.lookup data else none := by
  unfold onlyPartitionValues
  split
  · next values found =>
      split
      · next same => rw [same, AList.lookup_insert, found]
      · next different => rw [AList.lookup_insert_ne different, AList.lookup_empty]
  · next absent => rw [AList.lookup_empty, absent, ite_self]

/-- Adding the values of new row groups changes their entries only. -/
theorem lookup_addPartitionValues {groups : List (PlannedRowGroup R × RowGroupFiles)}
    {recorded result : HashMap String (HashMap String Scalar)}
    (added : writer.addPartitionValues groups recorded = .ok result) :
    (∀ data, data ∉ groups.map (fun group => group.2.data) →
      result.lookup data = recorded.lookup data) ∧
    ((groups.map fun group => group.2.data).Nodup → ∀ group ∈ groups, ∃ found,
      writer.computePartitionValues group.1.rows = .ok found ∧
        result.lookup group.2.data = found.or (recorded.lookup group.2.data)) := by
  induction groups generalizing recorded with
  | nil =>
      obtain rfl := Except.ok.inj added
      exact ⟨fun _ _ => rfl, fun _ group member => nomatch member⟩
  | cons first rest ih =>
      obtain ⟨found, computed, added⟩ := Script.except_bind_eq_ok.mp added
      -- the map that the remaining row groups are added to
      have added_rest : writer.addPartitionValues rest
          (withPartitionValues recorded first.2.data found) = .ok result := by
        cases found <;> exact added
      have first_lookup : (withPartitionValues recorded first.2.data found).lookup first.2.data =
          found.or (recorded.lookup first.2.data) := by
        rw [lookup_withPartitionValues, if_pos rfl]
      have other_lookup : ∀ data, data ≠ first.2.data →
          (withPartitionValues recorded first.2.data found).lookup data = recorded.lookup data := by
        intro data different
        rw [lookup_withPartitionValues, if_neg different]
      obtain ⟨outside, inside⟩ := ih added_rest
      refine ⟨fun data absent => ?_, fun distinct group member => ?_⟩
      · obtain ⟨not_first, not_rest⟩ := not_or.mp (mt List.mem_cons.mpr absent)
        rw [outside data not_rest, other_lookup data not_first]
      · obtain ⟨not_rest, distinct_rest⟩ := List.nodup_cons.mp distinct
        rcases List.mem_cons.mp member with rfl | in_rest
        · exact ⟨found, computed, by rw [outside _ not_rest, first_lookup]⟩
        · obtain ⟨other, other_computed, other_eq⟩ := inside distinct_rest group in_rest
          have different : group.2.data ≠ first.2.data := by
            intro same
            exact not_rest (List.mem_map.mpr ⟨group, in_rest, same⟩)
          exact ⟨other, other_computed, by rw [other_eq, other_lookup _ different]⟩

/-! ## Appends -/

/-- The row groups of the current manifest are in the directory, and no identifier is drawn again
whose data file the table has dropped. -/
structure ReadyToAppend (choices : Choices R) (current : Manifest) (before : TableStorage R) :
    Prop where
  data : ∀ entry ∈ current.rowGroups, kindOf entry.data = .data ∧
    ∃ rows, before.files.lookup entry.data = some (.data rows)
  sidecar : ∀ entry ∈ current.rowGroups,
    ∃ sidecar, before.files.lookup entry.metaFile = some (.sidecar sidecar)
  fresh : ∀ group attempt values,
    (current.partitionValues.getD ∅).lookup (dataFilename (choices.rgId group attempt)) =
        some values →
      ∃ entry ∈ current.rowGroups, entry.data = dataFilename (choices.rgId group attempt)

/-- An append keeps the entries of the row groups it carries over, and each row group it adds to a
partitioned table has an entry with the partition values of its rows. -/
def PreservesPartitions (writer : Writer R) (current published : Manifest) (after : TableStorage R) :
    Prop :=
  ∃ added, published.rowGroups = current.rowGroups ++ added ∧
    (∀ entry ∈ current.rowGroups,
      published.partitionEntry entry.data = current.partitionEntry entry.data) ∧
    (writer.partitionColumns ≠ [] → ∀ entry ∈ added, ∃ rows,
      after.files.lookup entry.data = some (.data rows) ∧
        writer.RecordsPartition rows (published.partitionEntry entry.data))

variable {before after : TableStorage R}

/-- The data files of distinct row groups have distinct names. -/
private theorem names_nodup {planned : List (PlannedRowGroup R)} {files : List RowGroupFiles}
    (promoted : List.Forall₂ (fun group => writer.Promoted choices group before after) planned
      files) (distinct : (planned.map PlannedRowGroup.index).Nodup) :
    ((planned.zip files).map fun group => group.2.data).Nodup := by
  induction promoted with
  | nil => exact List.nodup_nil
  | @cons group named planned files done rest ih =>
      obtain ⟨other, distinct_rest⟩ := List.nodup_cons.mp distinct
      refine List.nodup_cons.mpr ⟨fun again => ?_, ih distinct_rest⟩
      obtain ⟨⟨later, later_named⟩, member, same⟩ := List.mem_map.mp again
      obtain ⟨attempt, data_eq, -⟩ := done.attempt
      obtain ⟨attempt', data_eq', -⟩ := (List.forall₂_zip rest member).attempt
      have names : RowGroupName choices group.index later_named.data := by
        rw [show later_named.data = named.data from same, data_eq]
        exact .data attempt
      have names' : RowGroupName choices later.index later_named.data := by
        rw [data_eq']
        exact .data attempt'
      apply other
      rw [names.unique names']
      exact List.mem_map_of_mem (List.of_mem_zip member).1

variable {latestSeq : Nat} {current published : Manifest} {begun : TableStorage R}

/-- Committing buffered batches preserves partition values, unless the table is not partitioned and
has some from before. -/
private theorem preserves_iff_of_commits {groups : List (List R)} {files : List RowGroupFiles}
    (commits : writer.Commits choices buffer false latestSeq current begun after published groups
      files) (present : ∀ entry ∈ current.rowGroups, begun.fileExists entry.data = true)
    (fresh : ∀ group attempt values,
      (current.partitionValues.getD ∅).lookup (dataFilename (choices.rgId group attempt)) =
          some values →
        ∃ entry ∈ current.rowGroups, entry.data = dataFilename (choices.rgId group attempt)) :
    writer.PreservesPartitions current published after ↔
      writer.partitionColumns ≠ [] ∨
        ∀ entry ∈ current.rowGroups, current.partitionEntry entry.data = none := by
  have collected := commits.partitionValues
  rw [collectPartitionValues] at collected
  by_cases partitioned : writer.partitionColumns = []
  · rw [if_pos (by simpa using partitioned)] at collected
    have nothing : ∀ data, published.partitionEntry data = none := by
      intro data
      rw [Manifest.partitionEntry, ← Except.ok.inj collected]
      rfl
    constructor
    · rintro ⟨-, -, carried, -⟩
      exact .inr fun entry member => (carried entry member).symm.trans (nothing _)
    · rintro (some_column | none_recorded)
      · exact absurd partitioned some_column
      · refine ⟨_, commits.rowGroups, fun entry member => ?_, fun some_column => ?_⟩
        · rw [nothing, none_recorded entry member]
        · exact absurd partitioned some_column
  · refine iff_of_true ?_ (.inl partitioned)
    rw [if_neg (by simpa using partitioned)] at collected
    obtain ⟨result, added, same⟩ := Script.except_bind_eq_ok.mp collected
    have recorded : published.partitionValues.getD ∅ = result := by
      rw [← Except.ok.inj same]
      exact getD_unless_empty result
    obtain ⟨outside, inside⟩ := lookup_addPartitionValues added
    replace inside := inside
      (names_nodup commits.promoted (plannedOn_index_nodup current groups))
    refine ⟨_, commits.rowGroups, fun entry member => ?_, fun _ entry member => ?_⟩
    · have carried_over : entry.data ∉ ((plannedOn current groups).zip files).map
          fun group => group.2.data := by
        intro again
        obtain ⟨⟨group, named⟩, in_zip, same_name⟩ := List.mem_map.mp again
        have free := (List.forall₂_zip commits.promoted in_zip).data_free
        rw [show named.data = entry.data from same_name, present entry member] at free
        cases free
      rw [Manifest.partitionEntry, Manifest.partitionEntry, recorded, outside _ carried_over]
    · rw [← List.map_uncurry_zip_eq_zipWith] at member
      obtain ⟨⟨group, named⟩, in_zip, rfl⟩ := List.mem_map.mp member
      have done := List.forall₂_zip commits.promoted in_zip
      obtain ⟨found, computed, lookup_eq⟩ := inside _ in_zip
      obtain ⟨attempt, data_eq, -, -, holds⟩ := done.attempt
      refine ⟨group.rows, holds.data, ?_⟩
      have unrecorded : (current.partitionValues.getD ∅).lookup named.data = none := by
        rw [data_eq]
        by_contra old
        obtain ⟨values, old⟩ := Option.ne_none_iff_exists'.mp old
        obtain ⟨entry, in_current, entry_eq⟩ := fresh _ _ _ old
        have free := done.data_free
        rw [data_eq, ← entry_eq, present entry in_current] at free
        cases free
      rw [unrecorded, Option.or_none] at lookup_eq
      have in_groups : group.rows ∈ groups := by
        rw [← allocate_rows 0 current.nextRowId current.nextFragmentId groups]
        exact List.mem_map_of_mem (List.of_mem_zip in_zip).1
      have records := recordsPartition_of_agrees partitioned
        (agrees_of_planRowGroups partitioned commits.planned _ in_groups) computed
      rw [← lookup_eq] at records
      rw [Manifest.partitionEntry, recorded]
      exact records

/-! ## Copying a Parquet file -/

/-- The one value that column statistics show in a column. -/
def shownValue (columns : HashMap String ColumnStats) (column : String) : Option Scalar := do
  let stats ← columns.lookup column
  let least ← stats.min
  if stats.nulls = 0 && stats.max = some least then some least else none

private theorem footerPartitionValues_eq_gather (columns : HashMap String ColumnStats)
    (names : List String) (start : HashMap String Scalar) :
    footerPartitionValues columns names start = gather (shownValue columns) names start := by
  induction names generalizing start with
  | nil => rfl
  | cons name names ih =>
      rw [footerPartitionValues, gather, shownValue]
      cases columns.lookup name with
      | none => rfl
      | some stats =>
          cases least_eq : stats.min with
          | none => simp [least_eq]
          | some least =>
              simp only [Option.bind_eq_bind, Option.bind_some, least_eq, ih]
              split <;> rfl

/-- Statistics show the partition values of rows: the value that the rows share in every partition
column, or in some column nothing when the rows share nothing in some column. -/
def StatisticsTell (writer : Writer R) (columns : HashMap String ColumnStats) (rows : List R) : Prop :=
  (∀ column ∈ writer.partitionColumns,
    ∃ value, shownValue columns column = some value ∧ writer.Shares rows column value) ∨
  (∃ column ∈ writer.partitionColumns, shownValue columns column = none) ∧
    ∃ column ∈ writer.partitionColumns, ∀ value, ¬writer.Shares rows column value

theorem recordsPartition_derived_iff (columns : HashMap String ColumnStats) (rows : List R)
    (partitioned : writer.partitionColumns ≠ []) :
    writer.RecordsPartition rows ((writer.derivePartitionValuesFromStats columns).map
      fun values column => values.lookup column) ↔ writer.StatisticsTell columns rows := by
  rw [derivePartitionValuesFromStats, footerPartitionValues_eq_gather]
  have gathered := gather_cases (shownValue columns) writer.partitionColumns ∅
  cases found : gather (shownValue columns) writer.partitionColumns ∅ with
  | none =>
      rw [found] at gathered
      obtain ⟨column, member, absent⟩ : ∃ column ∈ writer.partitionColumns,
          shownValue columns column = none := by
        rcases gathered with ⟨-, unpartitioned⟩ | hidden
        · exact absurd unpartitioned partitioned
        · exact hidden
      constructor
      · intro unshared
        exact .inr ⟨⟨column, member, absent⟩, unshared⟩
      · rintro (shown | ⟨-, unshared⟩)
        · obtain ⟨value, there, -⟩ := shown column member
          rw [absent] at there
          cases there
        · exact unshared
  | some values =>
      rw [found] at gathered
      constructor
      · intro records
        refine .inl fun column member => ?_
        obtain ⟨value, lookup_eq, shares⟩ := (records column).1 member
        refine ⟨value, ?_, shares⟩
        rw [← ((gathered column).1 member).2]
        exact lookup_eq
      · rintro (shown | ⟨⟨column, member, absent⟩, -⟩)
        · intro column
          refine ⟨fun member => ?_, (gathered column).2⟩
          obtain ⟨value, there, shares⟩ := shown column member
          exact ⟨value, ((gathered column).1 member).2.trans there, shares⟩
        · have there := ((gathered column).1 member).1
          rw [absent] at there
          cases there

/-- Copying a Parquet file into an unpartitioned table preserves partition values; in a partitioned
one it does when the statistics tell those of the file. -/
private theorem preserves_iff_of_copies {sidecar : RowGroupMeta}
    {columns : HashMap String ColumnStats} {files : RowGroupFiles}
    (copies : Copies choices rows sidecar (writer.derivePartitionValuesFromStats columns) latestSeq
      current begun after published files)
    (present : ∀ entry ∈ current.rowGroups, begun.fileExists entry.data = true)
    (fresh : ∀ group attempt values,
      (current.partitionValues.getD ∅).lookup (dataFilename (choices.rgId group attempt)) =
          some values →
        ∃ entry ∈ current.rowGroups, entry.data = dataFilename (choices.rgId group attempt)) :
    writer.PreservesPartitions current published after ↔
      (writer.partitionColumns ≠ [] → writer.StatisticsTell columns rows) := by
  obtain ⟨attempt, data_eq, -⟩ := copies.copied.attempt
  have new_name : ∀ entry ∈ current.rowGroups, entry.data ≠ files.data := by
    intro entry member same
    have free := copies.copied.data_free
    rw [← same, present entry member] at free
    cases free
  have unrecorded : (current.partitionValues.getD ∅).lookup files.data = none := by
    by_contra old
    obtain ⟨values, old⟩ := Option.ne_none_iff_exists'.mp old
    obtain ⟨entry, member, entry_eq⟩ := fresh _ _ _ (data_eq ▸ old)
    exact new_name entry member (entry_eq.trans data_eq.symm)
  have new_entry : published.partitionEntry files.data =
      (writer.derivePartitionValuesFromStats columns).map fun values column =>
        values.lookup column := by
    rw [Manifest.partitionEntry, copies.partitionValues, lookup_withPartitionValues, if_pos rfl,
      unrecorded, Option.or_none]
  constructor
  · rintro ⟨added, rowGroups_eq, -, describes⟩ partitioned
    obtain rfl := List.append_cancel_left (copies.rowGroups.symm.trans rowGroups_eq)
    obtain ⟨found, found_at, records⟩ := describes partitioned _ (List.mem_singleton.mpr rfl)
    obtain rfl : found = rows := by
      have same := found_at.symm.trans copies.copied.data
      exact File.data.inj (Option.some.inj same)
    rw [show (newEntry current.nextFragmentId files).data = files.data from rfl, new_entry] at records
    exact (recordsPartition_derived_iff columns found partitioned).mp records
  · intro tells
    refine ⟨_, copies.rowGroups, fun entry member => ?_, fun partitioned entry member => ?_⟩
    · rw [Manifest.partitionEntry, copies.partitionValues, lookup_withPartitionValues,
        if_neg (new_name entry member)]
      rfl
    · obtain rfl := List.mem_singleton.mp member
      refine ⟨rows, copies.copied.data, ?_⟩
      rw [show (newEntry current.nextFragmentId files).data = files.data from rfl, new_entry]
      exact (recordsPartition_derived_iff columns rows partitioned).mpr (tells partitioned)

/-! ## Referring to a data file -/

/-- Referring to a data file preserves partition values when no other data file has any, the
statistics show nothing but what is recorded for it, and that is right. -/
structure ReferenceKeeps (writer : Writer R) (columns : HashMap String ColumnStats)
    (current : Manifest) (before : TableStorage R) (existing : RowGroupEntry) : Prop where
  others : ∀ entry ∈ current.rowGroups, entry.data ≠ existing.data →
    current.partitionEntry entry.data = none
  shown : ∀ values, writer.derivePartitionValuesFromStats columns = some values →
    current.partitionEntry existing.data = some fun column => values.lookup column
  recorded : writer.partitionColumns ≠ [] → ∃ rows,
    before.files.lookup existing.data = some (.data rows) ∧
      writer.RecordsPartition rows (current.partitionEntry existing.data)

private theorem preserves_iff_of_references {columns : HashMap String ColumnStats}
    {existing : RowGroupEntry} {identical : RowGroupMeta}
    (references : References choices existing (writer.derivePartitionValuesFromStats columns)
      latestSeq current begun after published identical) (listed : existing ∈ current.rowGroups)
    (kept : after.files.lookup existing.data = before.files.lookup existing.data) :
    writer.PreservesPartitions current published after ↔
      writer.ReferenceKeeps columns current before existing := by
  have other_entry : ∀ data, data ≠ existing.data → published.partitionEntry data = none := by
    intro data different
    simp [Manifest.partitionEntry, references.partitionValues, different]
  have entry_eq : published.partitionEntry existing.data =
      ((writer.derivePartitionValuesFromStats columns).or
        ((current.partitionValues.getD ∅).lookup existing.data)).map
          fun values column => values.lookup column := by
    simp [Manifest.partitionEntry, references.partitionValues]
  constructor
  · rintro ⟨added, rowGroups_eq, carried, describes⟩
    obtain rfl := List.append_cancel_left (references.rowGroups.symm.trans rowGroups_eq)
    refine ⟨fun entry member different => ?_, fun values shown => ?_, fun partitioned => ?_⟩
    · rw [← carried entry member, other_entry _ different]
    · rw [← carried existing listed, entry_eq, shown]
      rfl
    · obtain ⟨rows, found, records⟩ := describes partitioned _ (List.mem_singleton.mpr rfl)
      refine ⟨rows, kept ▸ found, ?_⟩
      rw [← carried existing listed]
      exact records
  · rintro ⟨others, shown, recorded⟩
    have same_entry : published.partitionEntry existing.data =
        current.partitionEntry existing.data := by
      rw [entry_eq]
      cases found : writer.derivePartitionValuesFromStats columns with
      | none => rfl
      | some values => exact (shown values found).symm
    refine ⟨_, references.rowGroups, fun entry member => ?_, fun partitioned entry member => ?_⟩
    · by_cases same : entry.data = existing.data
      · rw [same, same_entry]
      · rw [other_entry _ same, others entry member same]
    · obtain rfl := List.mem_singleton.mp member
      obtain ⟨rows, found, records⟩ := recorded partitioned
      refine ⟨rows, kept.trans found, ?_⟩
      rw [show published.partitionEntry _ = _ from same_entry]
      exact records

/-! ## Every append -/

/-- An append to a table. -/
inductive Append (R : Type)
  | commit (buffer : List (List R))
  | insertParquet (source : ParquetSource R)

/-- Run an append.  Returns whether it published a manifest. -/
def Append.program (writer : Writer R) (choices : Choices R) : Append R → TableProgram R Bool
  | .commit buffer => do
      writer.commit choices buffer
      pure !buffer.isEmpty
  | .insertParquet source => do
      match ← writer.insertParquet choices source with
      | .incompatible => pure false
      | .fastPath _ => pure true

/-- A Parquet file may be inserted by reference when no unique index has to see its rows. -/
def dedupAllowed (writer : Writer R) : Bool :=
  !writer.indexes.any fun index =>
    index.table = writer.table && index.unique && index.indexType = "btree"

/-- The first row group whose sidecar has a checksum. -/
def identicalRowGroup (storage : TableStorage R) (checksum : String)
    (entries : List RowGroupEntry) : Option RowGroupEntry :=
  entries.find? fun entry =>
    match storage.files.lookup entry.metaFile with
    | some (.sidecar sidecar) => sidecar.checksum = checksum
    | _ => false

theorem ends_findIdentical {checksum : String} {entries : List RowGroupEntry}
    {found : Option RowGroupEntry} (run : (findIdentical checksum entries).Ends before found after) :
    identicalRowGroup before checksum entries = found ∧ before = after := by
  induction entries with
  | nil => exact Script.ends_pure.mp run
  | cons entry entries ih =>
      obtain ⟨sidecar, _, read_run, run⟩ := Script.ends_bind.mp run
      obtain ⟨read, rfl⟩ := ends_readSidecar.mp read_run
      rw [Script.ends_ite] at run
      rcases run with ⟨same, run⟩ | ⟨different, run⟩
      · obtain ⟨rfl, rfl⟩ := Script.ends_pure.mp run
        simp [identicalRowGroup, read, same]
      · obtain ⟨found_eq, rfl⟩ := ih run
        refine ⟨?_, rfl⟩
        rw [← found_eq, identicalRowGroup, List.find?_cons_of_neg, identicalRowGroup]
        simpa [read] using different

/-- When inserting a Parquet file preserves partition values: a copy into a partitioned table needs
statistics that tell the partition values of the file, and a reference needs a table that records
values for no other data file. -/
def InsertKeeps (writer : Writer R) (columns : HashMap String ColumnStats) (rows : List R)
    (current : Manifest) (before : TableStorage R) : Option RowGroupEntry → Prop
  | some existing => writer.ReferenceKeeps columns current before existing
  | none => writer.partitionColumns ≠ [] → writer.StatisticsTell columns rows

/-- When an append preserves partition values: buffered batches need a partitioned table, or one
without recorded values. -/
def Append.Keeps (writer : Writer R) (current : Manifest) (before : TableStorage R) :
    Append R → Prop
  | .commit _ => writer.partitionColumns ≠ [] ∨
      ∀ entry ∈ current.rowGroups, current.partitionEntry entry.data = none
  | .insertParquet source => ∀ columns, source.footer = .ok (some columns) →
      writer.InsertKeeps columns source.rows current before
        (identicalRowGroup before source.checksum
          (if writer.dedupAllowed then current.rowGroups else []))

variable {loaded : TableStorage R}

/-- An append finds the data files of the current manifest in place when it starts to stage. -/
private theorem data_in_cleaned (ready : ReadyToAppend choices current before)
    (kept : ∀ path contents, before.files.lookup path = some contents →
      loaded.files.lookup path = some contents) {entry : RowGroupEntry}
    (member : entry ∈ current.rowGroups) :
    (cleaned latestSeq (manifestReferencedFiles current) loaded).files.lookup entry.data =
      before.files.lookup entry.data := by
  obtain ⟨kind, rows, found⟩ := ready.data entry member
  rw [lookup_cleaned, found, kept _ _ found]
  rintro (part | ⟨unreferenced, -⟩)
  · have staging := kindOf_of_isStagedPart part
    rw [kind] at staging
    cases staging
  · exact unreferenced (mem_manifestReferencedFiles.mpr (.data member))

private theorem present_in_cleaned (ready : ReadyToAppend choices current before)
    (kept : ∀ path contents, before.files.lookup path = some contents →
      loaded.files.lookup path = some contents) :
    ∀ entry ∈ current.rowGroups,
      (cleaned latestSeq (manifestReferencedFiles current) loaded).fileExists entry.data = true := by
  intro entry member
  obtain ⟨-, rows, found⟩ := ready.data entry member
  rw [Storage.fileExists, data_in_cleaned ready kept member, found, Option.isSome_some]

private theorem identicalRowGroup_congr (ready : ReadyToAppend choices current before)
    (kept : ∀ path contents, before.files.lookup path = some contents →
      loaded.files.lookup path = some contents) {entries : List RowGroupEntry}
    (listed : ∀ entry ∈ entries, entry ∈ current.rowGroups) (checksum : String) :
    identicalRowGroup loaded checksum entries = identicalRowGroup before checksum entries := by
  apply List.find?_congr
  intro entry member
  obtain ⟨sidecar, found⟩ := ready.sidecar entry (listed entry member)
  rw [found, kept _ _ found]

private theorem preserves_iff_of_commit (load : loadCurrent.Ends before (latestSeq, current) loaded)
    (ready : ReadyToAppend choices current before) (not_empty : buffer ≠ [])
    (run : (writer.commit choices buffer).Ends before () after) :
    ∃ published, after.pointer = .latest (latestSeq + 1) ∧
      after.manifests.lookup (latestSeq + 1) = some published ∧
      (writer.PreservesPartitions current published after ↔
        (Append.commit buffer).Keeps writer current before) := by
  obtain ⟨_, _, load_run, run⟩ := Script.ends_bind.mp run
  obtain ⟨rfl, rfl⟩ := load.deterministic load_run
  rw [if_neg (by simpa using not_empty)] at run
  obtain ⟨published, committed, try_run, dropped⟩ := Script.ends_bind.mp run
  rw [Script.ends_onError] at try_run
  obtain rfl := Script.ends_emit.mp dropped
  obtain ⟨latestSeq', current', begun, groups, files, begin_run, commits⟩ :=
    commits_of_ends_tryCommit try_run
  obtain ⟨reloaded, load_again, rfl⟩ := ends_beginAppend begin_run
  obtain ⟨rfl, rfl⟩ := Prod.mk.inj (loadCurrentManifest_again load load_again)
  have kept : ∀ path contents, before.files.lookup path = some contents →
      reloaded.files.lookup path = some contents := fun path contents found =>
    lookup_of_ends_loadCurrentManifest load_again (lookup_of_ends_loadCurrentManifest load found)
  have preserves := preserves_iff_of_commits commits (present_in_cleaned ready kept) ready.fresh
  exact ⟨published, commits.pointer,
    (congrArg (AList.lookup _) commits.manifests).trans (AList.lookup_insert _), preserves⟩

private theorem preserves_iff_of_insertParquet {source : ParquetSource R} {count : Nat}
    (load : loadCurrent.Ends before (latestSeq, current) loaded)
    (ready : ReadyToAppend choices current before)
    (run : (writer.insertParquet choices source).Ends before (.fastPath count) after) :
    ∃ published, after.pointer = .latest (latestSeq + 1) ∧
      after.manifests.lookup (latestSeq + 1) = some published ∧
      (writer.PreservesPartitions current published after ↔
        (Append.insertParquet source).Keeps writer current before) := by
  rw [insertParquet, Script.ends_ite] at run
  rcases run with ⟨-, run⟩ | ⟨-, run⟩
  · exact absurd (Script.ends_pure.mp run).1 nofun
  obtain ⟨footer, _, lifted, run⟩ := Script.ends_bind.mp run
  obtain ⟨footer_eq, rfl⟩ := Script.ends_lift.mp lifted
  cases footer with
  | none => exact absurd (Script.ends_pure.mp run).1 nofun
  | some columns =>
      obtain ⟨_, _, load_run, run⟩ := Script.ends_bind.mp run
      obtain ⟨rfl, rfl⟩ := load.deterministic load_run
      obtain ⟨identical, _, find_run, run⟩ := Script.ends_bind.mp run
      obtain ⟨identical_eq, rfl⟩ := ends_findIdentical find_run
      have kept : ∀ path contents, before.files.lookup path = some contents →
          loaded.files.lookup path = some contents := fun path contents =>
        lookup_of_ends_loadCurrentManifest load
      have candidates_listed : ∀ entry ∈ (if writer.dedupAllowed then current.rowGroups else []),
          entry ∈ current.rowGroups := by
        intro entry member
        split at member
        · exact member
        · cases member
      have keeps_iff : (Append.insertParquet source).Keeps writer current before ↔
          writer.InsertKeeps columns source.rows current before identical := by
        have found_eq : identicalRowGroup before source.checksum
            (if writer.dedupAllowed then current.rowGroups else []) = identical :=
          (identicalRowGroup_congr ready kept candidates_listed _).symm.trans identical_eq
        rw [Append.Keeps, found_eq, footer_eq]
        constructor
        · exact fun keeps => keeps columns rfl
        · intro keeps other same
          rw [← Option.some.inj (Except.ok.inj same)]
          exact keeps
      rw [keeps_iff]
      cases identical with
      | none =>
          obtain ⟨_, copied, copy_run, run⟩ := Script.ends_bind.mp run
          rw [Script.ends_onError] at copy_run
          obtain ⟨_, _, dropped, run⟩ := Script.ends_bind.mp run
          obtain rfl := Script.ends_emit.mp dropped
          obtain ⟨-, rfl⟩ := Script.ends_pure.mp run
          obtain ⟨latestSeq', current', begun, published, files, begin_run, copies⟩ :=
            copies_of_ends_tryCommitParquetFast copy_run
          obtain ⟨reloaded, load_again, rfl⟩ := ends_beginAppend begin_run
          obtain ⟨rfl, rfl⟩ := Prod.mk.inj (loadCurrentManifest_again load load_again)
          have still : ∀ path contents, before.files.lookup path = some contents →
              reloaded.files.lookup path = some contents := fun path contents found =>
            lookup_of_ends_loadCurrentManifest load_again (kept path contents found)
          have preserves :=
            preserves_iff_of_copies copies (present_in_cleaned ready still) ready.fresh
          exact ⟨published, copies.pointer,
            (congrArg (AList.lookup _) copies.manifests).trans (AList.lookup_insert _), preserves⟩
      | some existing =>
          obtain ⟨published, identical, -, references⟩ :=
            references_of_ends_appendReferenceRowGroup run
          have listed := candidates_listed _ (List.mem_of_find?_eq_some identical_eq)
          have kind := (ready.data existing listed).1
          have not_sidecar : existing.data ≠ metaFilename (choices.rgId 0 0) := by
            intro same
            rw [same] at kind
            simp [Choices.rgId] at kind
          have data_kept : after.files.lookup existing.data = before.files.lookup existing.data := by
            rw [references.files _ (not_isSupport (.inl kind)) not_sidecar,
              data_in_cleaned ready kept listed]
          exact ⟨published, references.pointer,
            (congrArg (AList.lookup _) references.manifests).trans (AList.lookup_insert _),
            preserves_iff_of_references references listed data_kept⟩

/-- A complete append preserves partition values exactly under its condition. -/
theorem append_preserves_iff (writer : Writer R) (choices : Choices R) (append : Append R)
    {before loaded after : TableStorage R} {latestSeq : Nat} {current : Manifest}
    (load : loadCurrent.Ends before (latestSeq, current) loaded)
    (ready : ReadyToAppend choices current before)
    (run : (append.program writer choices).Ends before true after) :
    ∃ published, after.pointer = .latest (latestSeq + 1) ∧
      after.manifests.lookup (latestSeq + 1) = some published ∧
      (writer.PreservesPartitions current published after ↔ append.Keeps writer current before) := by
  cases append with
  | commit buffer =>
      obtain ⟨⟨⟩, _, commit_run, run⟩ := Script.ends_bind.mp run
      obtain ⟨not_empty, rfl⟩ := Script.ends_pure.mp run
      exact preserves_iff_of_commit load ready (by simpa using not_empty) commit_run
  | insertParquet source =>
      obtain ⟨outcome, _, insert_run, run⟩ := Script.ends_bind.mp run
      cases outcome with
      | incompatible => exact absurd (Script.ends_pure.mp run).1 nofun
      | fastPath count =>
          obtain ⟨-, rfl⟩ := Script.ends_pure.mp run
          exact preserves_iff_of_insertParquet load ready insert_run

/-! ## A partitioned table -/

/-- A writer of the integers, partitioned by their value. -/
def partitionedWriter : Writer Int :=
  { Integers.writer with schema := { Integers.writer.schema with partitionBy := some ["id"] } }

/-- The partition values of rows of one integer. -/
def integerPartition (value : Int) : HashMap String Scalar :=
  AList.singleton "id" (.int value)

/-- The manifest of two row groups of different partitions. -/
def partitionedManifest : Manifest :=
  let manifest : Manifest :=
    { formatVersion := 1, sequence := 1, schemaId := 1
      rowGroups := [{ data := "rg_a.parquet", metaFile := "rg_a.meta" },
        { data := "rg_b.parquet", metaFile := "rg_b.meta", fragmentId := 1 }]
      partitionValues := some ([⟨"rg_a.parquet", integerPartition 10⟩,
        ⟨"rg_b.parquet", integerPartition 20⟩] :
          List (Sigma fun _ : String => HashMap String Scalar)).toAList
      nextRowId := 3
      nextFragmentId := 2 }
  { manifest with checksum := manifest.computeChecksum }

/-- A sidecar of rows of the integers. -/
def integerSidecar (rgId : String) (rows : List Int) (rowId : Nat) : RowGroupMeta :=
  { rowGroup := rgId, schemaId := 1, rows := rows.length, columns := ∅, columnOffsets := none
    sort := none, rowIds := [.range rowId rows.length], checksum := Integers.kernel.dataChecksum rows
    metaChecksum := "" }

/-- The directory of the two row groups. -/
def partitionedTable : TableStorage Int where
  pointer := .latest 1
  manifests := AList.singleton 1 partitionedManifest
  log := []
  files := ([⟨"rg_a.parquet", .data [10, 10]⟩,
    ⟨"rg_a.meta", .sidecar (integerSidecar "rg_a" [10, 10] 0)⟩,
    ⟨"rg_b.parquet", .data [20]⟩,
    ⟨"rg_b.meta", .sidecar (integerSidecar "rg_b" [20] 2)⟩] :
      List (Sigma fun _ : String => File Int)).toAList
  intents := ∅
  schemaPointer := some 1

/-- A Parquet file with the rows of the first row group. -/
def identicalSource : ParquetSource Int where
  rows := [10, 10]
  checksum := Integers.kernel.dataChecksum [10, 10]
  compatible := true
  footer := .ok (some (AList.singleton "id" { min := some (.int 10), max := some (.int 10), nulls := 0 }))
  columnOffsets := none

/-- Inserting it. -/
def insertIdentical : TableProgram Int Bool :=
  (Append.insertParquet identicalSource).program partitionedWriter (Integers.choices 1)

private theorem load_partitionedTable :
    loadCurrent.Ends partitionedTable (1, partitionedManifest) partitionedTable := by
  have verified : partitionedManifest.verifyChecksum = true := Manifest.verifyChecksum_sealed _
  exact (ends_loadCurrentManifest rfl rfl verified).mpr
    ⟨rfl, rfl, Script.ends_each_nil.mpr rfl⟩

private theorem ready_partitionedTable (call : Nat) :
    ReadyToAppend (Integers.choices call) partitionedManifest partitionedTable where
  data entry member := by
    have two : entry = { data := "rg_a.parquet", metaFile := "rg_a.meta" } ∨
        entry = { data := "rg_b.parquet", metaFile := "rg_b.meta", fragmentId := 1 } := by
      simpa [partitionedManifest] using member
    rcases two with rfl | rfl
    · exact ⟨by decide, [10, 10], rfl⟩
    · exact ⟨by decide, [20], rfl⟩
  sidecar entry member := by
    have two : entry = { data := "rg_a.parquet", metaFile := "rg_a.meta" } ∨
        entry = { data := "rg_b.parquet", metaFile := "rg_b.meta", fragmentId := 1 } := by
      simpa [partitionedManifest] using member
    rcases two with rfl | rfl
    · exact ⟨_, rfl⟩
    · exact ⟨_, rfl⟩
  fresh group attempt values found := by
    generalize dataFilename ((Integers.choices call).rgId group attempt) = name at found
    have listed : name ∈ ["rg_a.parquet", "rg_b.parquet"] := by
      have member : name ∈ (partitionedManifest.partitionValues.getD ∅).keys :=
        AList.mem_keys.mpr (AList.lookup_isSome.mp (found ▸ rfl))
      exact member
    rcases List.mem_pair.mp listed with rfl | rfl
    · exact ⟨_, List.mem_cons_self, rfl⟩
    · exact ⟨_, List.mem_cons_of_mem _ List.mem_cons_self, rfl⟩

/-- The insertion publishes a manifest without the partition values of the second row group. -/
private theorem insertIdentical_loses :
    ((match (insertIdentical partitionedTable).2 with
      | .ok published => published
      | .error _ => false) &&
    ((insertIdentical.final partitionedTable).manifests.lookup 2).any fun published =>
      (published.partitionEntry "rg_b.parquet").isNone) = true := by
  decide +kernel

private theorem ends_insertIdentical :
    insertIdentical.Ends partitionedTable true (insertIdentical.final partitionedTable) := by
  have succeeds := (Bool.and_eq_true_iff.mp insertIdentical_loses).1
  split at succeeds
  · next published outcome => exact ⟨succeeds ▸ outcome, rfl⟩
  · cases succeeds

theorem insertIdentical_preserves_iff :
    ∃ published, (insertIdentical.final partitionedTable).pointer = .latest 2 ∧
      (insertIdentical.final partitionedTable).manifests.lookup 2 = some published ∧
      (partitionedWriter.PreservesPartitions partitionedManifest published
          (insertIdentical.final partitionedTable) ↔
        (Append.insertParquet identicalSource).Keeps partitionedWriter partitionedManifest
          partitionedTable) :=
  append_preserves_iff partitionedWriter (Integers.choices 1) (.insertParquet identicalSource)
    load_partitionedTable (ready_partitionedTable 1) ends_insertIdentical

/-- Inserting a Parquet file by reference drops the partition values of the other row group. -/
theorem insertIdentical_drops_partition :
    ∃ after published, loadCurrent.Ends partitionedTable (1, partitionedManifest) partitionedTable ∧
      ReadyToAppend (Integers.choices 1) partitionedManifest partitionedTable ∧
      insertIdentical.Ends partitionedTable true after ∧
      after.manifests.lookup 2 = some published ∧
      ¬partitionedWriter.PreservesPartitions partitionedManifest published after := by
  have dropped := (Bool.and_eq_true_iff.mp insertIdentical_loses).2
  obtain ⟨published, found, absent⟩ := (Option.any_eq_true _ _).mp dropped
  refine ⟨_, published, load_partitionedTable, ready_partitionedTable 1, ends_insertIdentical, found,
    ?_⟩
  rintro ⟨-, -, carried, -⟩
  have same := carried { data := "rg_b.parquet", metaFile := "rg_b.meta", fragmentId := 1 }
    (List.mem_cons_of_mem _ List.mem_cons_self)
  have none_left : published.partitionEntry "rg_b.parquet" = none := by simpa using absent
  rw [none_left] at same
  cases same

end Writer

end IcefallDB
