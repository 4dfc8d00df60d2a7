import IcefallDB.FooterStats.Columns

/-!
# Inserting Parquet files as they are

A file that is inserted without reading its rows should get the column statistics and partition
values that reading them gives.  It does exactly if the footer leaves nothing out.
-/

namespace IcefallDB

open ColumnBounds

variable {R : Type}

/-! ## Partition values of rows -/

/-- The JSON value, whatever the sign of a zero. -/
def JsonScalar.statistic : JsonScalar → Statistic
  | .scalar value => .scalar value
  | .float _ value => .float value

theorem JsonScalar.same_iff {left right : JsonScalar} :
    left.same right ↔ left.statistic = right.statistic := by
  cases left <;> cases right <;> simp [JsonScalar.same, JsonScalar.statistic]

namespace RowGroupPlanner

open InsertParquet

theorem insertValue_singleton {known value : JsonScalar} :
    insertValue [known] value =
      if value.statistic = known.statistic then [known] else [known, value] := by
  by_cases same : value.statistic = known.statistic
  · simp [insertValue, JsonScalar.same_iff, same]
  · simp [insertValue, JsonScalar.same_iff, same, Ne.symm same]

theorem length_le_length_foldl_insertValue (values known : List JsonScalar) :
    known.length ≤ (values.foldl insertValue known).length := by
  induction values generalizing known with
  | nil => exact le_rfl
  | cons value values ih =>
      refine le_trans ?_ (ih (insertValue known value))
      rw [insertValue]
      split <;> simp

/-- Values that are one value are kept once, and others more than once. -/
theorem foldl_insertValue_singleton (values : List JsonScalar) (first : JsonScalar) :
    if ∀ value ∈ values, value.statistic = first.statistic then
      values.foldl insertValue [first] = [first]
    else 2 ≤ (values.foldl insertValue [first]).length := by
  induction values with
  | nil => simp
  | cons value values ih =>
      rw [List.foldl_cons, insertValue_singleton]
      by_cases same : value.statistic = first.statistic
      · simpa only [List.forall_mem_cons, same, true_and, if_true] using ih
      · have differ : ¬∀ other ∈ value :: values, other.statistic = first.statistic :=
          fun all => same (all value List.mem_cons_self)
        rw [if_neg differ, if_neg same]
        exact length_le_length_foldl_insertValue values [first, value]

variable (planner : RowGroupPlanner R)

/-- The one value of rows in a column. -/
def sharedValue (rows : List R) (column : String) : Option JsonScalar :=
  match planner.distinctNonNullValues column rows with
  | [value] => some value
  | _ => none

variable {planner}

theorem partitionValuesFrom_eq_gather_sharedValue (rows : List R) (columns : List String)
    (start : HashMap String JsonScalar) :
    planner.partitionValuesFrom rows columns start =
      Writer.gather (planner.sharedValue rows) columns start := by
  induction columns generalizing start with
  | nil => rfl
  | cons column columns ih =>
      rcases found : planner.distinctNonNullValues column rows with _ | ⟨value, _ | ⟨second, rest⟩⟩
      · simp [partitionValuesFrom, Writer.gather, sharedValue, found]
      · simp [partitionValuesFrom, Writer.gather, sharedValue, found, ih]
      · simp [partitionValuesFrom, Writer.gather, sharedValue, found]

theorem sharedValue_statistic (rows : List R) (column : String) :
    (planner.sharedValue rows column).map JsonScalar.statistic =
      soleValue ((rows.filterMap (planner.jsonValue column)).map JsonScalar.statistic) := by
  rw [sharedValue, distinctNonNullValues]
  cases rows.filterMap (planner.jsonValue column) with
  | nil => rfl
  | cons first rest =>
      have kept := foldl_insertValue_singleton rest first
      have start : insertValue [] first = [first] := rfl
      rw [List.foldl_cons, start, List.map_cons, soleValue]
      simp only [List.forall_mem_map]
      split at kept
      · next same =>
          rw [kept, if_pos same]
          rfl
      · next differ =>
          rw [if_neg differ]
          split
          · next value found =>
              rw [found] at kept
              simp at kept
          · rfl

end RowGroupPlanner

namespace InsertParquet

/-! ## Columns of a file -/

namespace ParquetMetaData

/-- Statistics of a column in the first row group. -/
def statistics? (metadata : ParquetMetaData) (name : String) : Option Statistics := do
  let leaf ← metadata.leaves.idxOf? name
  let chunks ← metadata.rowGroups.head?
  chunks[leaf]?.join

/-- In a file with one row group the statistics of a column are those of its column chunk. -/
theorem statistics?_of_deriveColumnStats {metadata : ParquetMetaData}
    (one : metadata.rowGroups.length = 1) {field : Field} {derived : ArrayStats}
    (found : deriveColumnStats metadata field = some derived) :
    ∃ stats, metadata.statistics? field.name = some stats ∧
      derived = footerStats field.dataType stats := by
  obtain ⟨chunks, rowGroups_eq⟩ := List.length_eq_one_iff.mp one
  rw [deriveColumnStats] at found
  split at found
  · obtain ⟨leaf, leaf_eq, merged⟩ := Option.bind_eq_some_iff.mp found
    rw [rowGroups_eq, mergeStatistics] at merged
    obtain ⟨stats, stats_eq, rest⟩ := Option.bind_eq_some_iff.mp merged
    refine ⟨stats, ?_, ?_⟩
    · rw [statistics?, leaf_eq, rowGroups_eq]
      exact stats_eq
    · rw [← Option.some.inj rest]
      simp [footerStats, minJson, maxJson]
  · cases found

end ParquetMetaData

/-! ## Columns by name -/

variable {V : Type}

/-- A value that is inserted for every element is found under the key of the last one with it. -/
theorem lookup_of_foldlM_insert {β : Type} {key : β → String} {value : β → Option V} {list : List β}
    {start result : HashMap String V}
    (done : list.foldlM (fun values element =>
      (value element).map fun found => values.insert (key element) found) start = some result)
    (name : String) :
    result.lookup name = match list.reverse.find? fun element => key element = name with
      | some element => value element
      | none => start.lookup name := by
  induction list using List.reverseRecOn generalizing result with
  | nil =>
      obtain rfl := Option.some.inj done
      rfl
  | append_singleton list last ih =>
      rw [List.foldlM_append] at done
      obtain ⟨before, earlier, inserted⟩ := Option.bind_eq_some_iff.mp done
      rw [List.foldlM_cons] at inserted
      obtain ⟨after, own, nothing⟩ := Option.bind_eq_some_iff.mp inserted
      obtain rfl := Option.some.inj nothing
      obtain ⟨found, found_eq, rfl⟩ := Option.map_eq_some_iff.mp own
      rw [List.reverse_append, List.reverse_singleton, List.singleton_append, List.find?_cons]
      by_cases same : key last = name
      · subst same
        simp [found_eq]
      · rw [AList.lookup_insert_ne (Ne.symm same), ih earlier]
        simp [same]

theorem isSome_of_foldlM_insert {β : Type} {key : β → String} {value : β → Option V} {list : List β}
    {start result : HashMap String V}
    (done : list.foldlM (fun values element =>
      (value element).map fun found => values.insert (key element) found) start = some result) :
    ∀ element ∈ list, (value element).isSome := by
  induction list generalizing start with
  | nil => nofun
  | cons first rest ih =>
      rw [List.foldlM_cons] at done
      obtain ⟨next, inserted, later⟩ := Option.bind_eq_some_iff.mp done
      obtain ⟨found, found_eq, -⟩ := Option.map_eq_some_iff.mp inserted
      rw [List.forall_mem_cons, found_eq]
      exact ⟨rfl, ih later⟩

theorem exists_foldlM_insert {β : Type} {key : β → String} {value : β → Option V} {list : List β}
    (all : ∀ element ∈ list, (value element).isSome) (start : HashMap String V) :
    ∃ result, list.foldlM (fun values element =>
      (value element).map fun found => values.insert (key element) found) start = some result := by
  induction list generalizing start with
  | nil => exact ⟨start, rfl⟩
  | cons first rest ih =>
      obtain ⟨own, others⟩ := List.forall_mem_cons.mp all
      obtain ⟨found, found_eq⟩ := Option.isSome_iff_exists.mp own
      rw [List.foldlM_cons, found_eq]
      exact ih others _

/-! ## Gathered values -/

variable {value : String → Option V}

/-- Values that agree with others in all columns are gathered like these. -/
theorem gather_agree {W : Type} {other : String → Option W} {json : W → V} {columns : List String}
    (agree : ∀ column ∈ columns, value column = (other column).map json) :
    (Writer.gather value columns ∅).map (fun values name => values.lookup name) =
      (Writer.gather other columns ∅).map fun values name => (values.lookup name).map json := by
  have left := Writer.gather_cases value columns ∅
  have right := Writer.gather_cases other columns ∅
  cases left_eq : Writer.gather value columns ∅ with
  | none =>
      cases right_eq : Writer.gather other columns ∅ with
      | none => rfl
      | some values =>
          exfalso
          rw [left_eq] at left
          rw [right_eq] at right
          rcases left with ⟨-, rfl⟩ | ⟨column, member, absent⟩
          · cases right_eq
          · obtain ⟨there, -⟩ := (right column).1 member
            rw [agree column member, Option.map_eq_none_iff] at absent
            rw [absent] at there
            cases there
  | some values =>
      rw [left_eq] at left
      cases right_eq : Writer.gather other columns ∅ with
      | none =>
          exfalso
          rw [right_eq] at right
          rcases right with ⟨-, rfl⟩ | ⟨column, member, absent⟩
          · cases left_eq
          · obtain ⟨there, -⟩ := (left column).1 member
            rw [agree column member, absent] at there
            cases there
      | some others =>
          rw [right_eq] at right
          rw [Option.map_some, Option.map_some, Option.some.injEq]
          funext name
          by_cases member : name ∈ columns
          · rw [((left name).1 member).2, ((right name).1 member).2, agree name member]
          · rw [(left name).2 member, (right name).2 member]
            rfl

theorem gather_eq_none {columns : List String} {column : String} (member : column ∈ columns)
    (absent : value column = none) : Writer.gather value columns ∅ = none := by
  have cases := Writer.gather_cases value columns ∅
  cases found : Writer.gather value columns ∅ with
  | none => rfl
  | some values =>
      rw [found] at cases
      obtain ⟨there, -⟩ := (cases column).1 member
      rw [absent] at there
      cases there

theorem isSome_gather {columns : List String} (nonempty : columns ≠ [])
    (all : ∀ column ∈ columns, (value column).isSome) : (Writer.gather value columns ∅).isSome := by
  have cases := Writer.gather_cases value columns ∅
  cases found : Writer.gather value columns ∅ with
  | some values => rfl
  | none =>
      rw [found] at cases
      rcases cases with ⟨-, empty⟩ | ⟨column, member, absent⟩
      · exact absurd empty nonempty
      · have there := all column member
        rw [absent] at there
        cases there

/-! ## Reading the rows instead -/

/-- The value of a cell that is not null, whatever the sign of a zero. -/
def cellValue : PartitionCell → Option CellValue
  | .null => none
  | .boolean value => some (.scalar (.bool value))
  | .integer value => some (.scalar (.int value))
  | .float _ value => some (.float value)
  | .text value => some (.scalar (.string value))

theorem scalarToJsonValue_statistic (cell : PartitionCell) :
    (scalarToJsonValue cell).map JsonScalar.statistic = (cellValue cell).bind finiteStatistic := by
  cases cell with
  | float negative value =>
      rw [scalarToJsonValue, Option.map_map]
      rfl
  | _ => rfl

/-- A column of rows has the values of an array. -/
def Reads (rows : List R) : Option (PartitionColumn R) → Option ColumnArray → Prop
  | none, none => True
  | some (.unsupported _), some (.other _) => True
  | some (.supported _), some (.other _) => False
  | some (.supported cell), some array =>
      rows.filterMap (fun row => cellValue (cell row)) = array.values
  | _, _ => False

/-- What reading and writing again takes from a file: its rows, as rows and as columns. -/
structure Decoding (R : Type) where
  planner : RowGroupPlanner R
  rows : List R
  batch : HashMap String ColumnArray
  /-- Write a float as JSON and read it back. -/
  reparse : ℚ → ℚ
  reads : ∀ name, Reads rows (planner.columnByName name) (batch.lookup name)

namespace Decoding

variable (decoding : Decoding R)

/-- Reading the rows of a file and writing them as a row group records these statistics and
partition values. -/
structure Records (names : List String) (columns : HashMap String ArrayStats)
    (partitionValues : Option (HashMap String Statistic)) : Prop where
  columns : ∃ computed, computeRowGroupMeta decoding.reparse names decoding.batch = some computed ∧
    ∀ name, columns.lookup name = computed.lookup name
  partitionValues : (partitionValues.map fun values name => values.lookup name) =
    (decoding.planner.computePartitionValues decoding.rows).map fun values name =>
      (values.lookup name).map JsonScalar.statistic

/-- The columns are those of a file, and the statistics in the footer of the file are valid. -/
structure Decodes (file : ParquetFile) : Prop where
  columns : ∀ name, (decoding.batch.lookup name).isSome ↔ name ∈ file.schema.map Field.name
  valid : ∀ name stats array, file.metadata.statistics? name = some stats →
    decoding.batch.lookup name = some array → stats.Valid array

variable {decoding}

/-- The finite values of rows in a column are those of the array. -/
theorem finiteValues_eq {name : String} {array : ColumnArray}
    (found : decoding.batch.lookup name = some array) :
    (decoding.rows.filterMap (decoding.planner.jsonValue name)).map JsonScalar.statistic =
      finiteValues array := by
  have reads := decoding.reads name
  rw [found] at reads
  rcases column : decoding.planner.columnByName name with _ | (cell | dataType)
  · rw [column] at reads
    cases reads
  · have values : decoding.rows.filterMap (fun row => cellValue (cell row)) = array.values := by
      rw [column] at reads
      cases array with
      | other valid => cases reads
      | _ => exact reads
    rw [finiteValues, ← values, List.filterMap_filterMap, List.map_filterMap]
    apply List.filterMap_congr
    intro row _
    rw [RowGroupPlanner.jsonValue, column]
    exact scalarToJsonValue_statistic (cell row)
  · have unread : ∀ row ∈ decoding.rows, decoding.planner.jsonValue name row = none := by
      intro row _
      rw [RowGroupPlanner.jsonValue, column]
    rw [List.filterMap_eq_nil_iff.mpr unread]
    rw [column] at reads
    cases array with
    | other valid => rfl
    | _ => cases reads

theorem sharedValue_eq {name : String} {array : ColumnArray}
    (found : decoding.batch.lookup name = some array) :
    (decoding.planner.sharedValue decoding.rows name).map JsonScalar.statistic =
      soleValue (finiteValues array) := by
  rw [RowGroupPlanner.sharedValue_statistic, finiteValues_eq found]

theorem sharedValue_eq_none {name : String} (absent : decoding.batch.lookup name = none) :
    decoding.planner.sharedValue decoding.rows name = none := by
  have reads := decoding.reads name
  rw [absent] at reads
  rcases column : decoding.planner.columnByName name with _ | (cell | dataType)
  · have unread : ∀ row ∈ decoding.rows, decoding.planner.jsonValue name row = none := by
      intro row _
      rw [RowGroupPlanner.jsonValue, column]
    rw [RowGroupPlanner.sharedValue, RowGroupPlanner.distinctNonNullValues,
      List.filterMap_eq_nil_iff.mpr unread]
    rfl
  · rw [column] at reads
    cases reads
  · rw [column] at reads
    cases reads

end Decoding

/-! ## The condition -/

namespace Importer

variable (importer : Importer)

/-- Type of the last column of a name. -/
def dataType? (name : String) : Option DataType :=
  (importer.columns.reverse.find? fun field => field.name = name).map Field.dataType

/-- The statistics in the footer leave nothing out: those of each column are complete, and if every
partition column has one value, no partition column has nulls. -/
structure Complete (metadata : ParquetMetaData) (decoding : Decoding R) : Prop where
  columns : ∀ name dataType stats array, importer.dataType? name = some dataType →
    metadata.statistics? name = some stats → decoding.batch.lookup name = some array →
      stats.Complete decoding.reparse dataType array
  partitions : (∀ name ∈ decoding.planner.partitionBy,
      ∃ array, decoding.batch.lookup name = some array ∧ Single array) →
    ∀ name ∈ decoding.planner.partitionBy, ∀ array, decoding.batch.lookup name = some array →
      array.nullCount = 0

variable {importer}

theorem map_name_of_compatible {source : List Field}
    (compatible : importer.parquetSchemaCompatible source) :
    source.map Field.name = importer.columns.map Field.name := by
  obtain ⟨same_length, all⟩ := Bool.and_eq_true_iff.mp compatible
  apply List.ext_getElem
  · simpa using same_length
  · intro index in_source in_columns
    rw [List.length_map] at in_source in_columns
    have in_zip : (source[index], importer.columns[index]) ∈ source.zip importer.columns := by
      rw [← List.getElem_zip (h := by simp [in_source, in_columns])]
      exact List.getElem_mem _
    have fits := List.all_eq_true.mp all _ in_zip
    simp only [Bool.and_eq_true, decide_eq_true_eq] at fits
    rw [List.getElem_map, List.getElem_map, fits.1.1]

end Importer

namespace Importer

variable {importer : Importer} {decoding : Decoding R} {file : ParquetFile}
variable {columns : HashMap String ArrayStats}
variable {partitionValues : Option (HashMap String Statistic)}

/-- What is known of a file that is inserted as it is. -/
theorem facts_of_insertParquet
    (accepted : importer.insertParquet file = some (columns, partitionValues)) :
    file.schema.map Field.name = importer.columns.map Field.name ∧
      file.metadata.rowGroups.length = 1 ∧
      partitionValues = importer.derivePartitionValuesFromStats columns ∧
      importer.columns.foldlM (fun columns field =>
        (deriveColumnStats file.metadata field).map fun stats => columns.insert field.name stats)
          ∅ = some columns := by
  rw [insertParquet] at accepted
  split at accepted
  · cases accepted
  split at accepted
  · cases accepted
  split at accepted
  · cases accepted
  next compatible =>
  split at accepted
  · cases accepted
  next one =>
  split at accepted
  · cases accepted
  obtain ⟨derived, derived_eq, same⟩ := Option.bind_eq_some_iff.mp accepted
  obtain ⟨rfl, rfl⟩ := Prod.mk.inj (Option.some.inj same)
  exact ⟨map_name_of_compatible (by simpa using compatible), not_ne_iff.mp one, rfl, derived_eq⟩

/-- Columns of a file that is inserted as it is: nothing of them is there, or their type, their
statistics in the footer, and their values are. -/
theorem column_cases (accepted : importer.insertParquet file = some (columns, partitionValues))
    (decodes : decoding.Decodes file) (name : String) :
    (importer.dataType? name = none ∧ columns.lookup name = none ∧
        decoding.batch.lookup name = none) ∨
      ∃ dataType stats array, importer.dataType? name = some dataType ∧
        file.metadata.statistics? name = some stats ∧
        decoding.batch.lookup name = some array ∧ stats.Valid array ∧
        columns.lookup name = some (footerStats dataType stats) := by
  obtain ⟨names_eq, one, -, derived⟩ := facts_of_insertParquet accepted
  have lookup_eq := lookup_of_foldlM_insert derived name
  have in_batch := decodes.columns name
  rw [names_eq] at in_batch
  rw [dataType?]
  cases last : importer.columns.reverse.find? fun field => field.name = name with
  | none =>
      left
      rw [last] at lookup_eq
      refine ⟨rfl, lookup_eq, ?_⟩
      rw [← Option.not_isSome_iff_eq_none, in_batch, List.mem_map]
      rintro ⟨field, member, same⟩
      have differ := List.find?_eq_none.mp last field (List.mem_reverse.mpr member)
      simp [same] at differ
  | some field =>
      right
      rw [last] at lookup_eq
      have member := List.mem_reverse.mp (List.mem_of_find?_eq_some last)
      obtain rfl : field.name = name := by simpa using List.find?_some last
      obtain ⟨found, found_eq⟩ := Option.isSome_iff_exists.mp
        (isSome_of_foldlM_insert derived field member)
      obtain ⟨stats, stats_eq, rfl⟩ := ParquetMetaData.statistics?_of_deriveColumnStats one found_eq
      obtain ⟨array, array_eq⟩ := Option.isSome_iff_exists.mp
        (in_batch.mpr (List.mem_map_of_mem member))
      exact ⟨field.dataType, stats, array, rfl, stats_eq, array_eq,
        decodes.valid field.name stats array stats_eq array_eq, lookup_eq.trans found_eq⟩

/-- Reading the columns of the file records statistics for each. -/
theorem computed_columns (accepted : importer.insertParquet file = some (columns, partitionValues))
    (decodes : decoding.Decodes file) :
    ∃ computed, computeRowGroupMeta decoding.reparse (importer.columns.map Field.name)
        decoding.batch = some computed ∧
      ∀ name, computed.lookup name =
        (decoding.batch.lookup name).map (columnStats decoding.reparse) := by
  obtain ⟨names_eq, -, -, -⟩ := facts_of_insertParquet accepted
  have in_batch := decodes.columns
  rw [names_eq] at in_batch
  have unfolded : computeRowGroupMeta decoding.reparse (importer.columns.map Field.name)
      decoding.batch = (importer.columns.map Field.name).foldlM (fun values name =>
        ((decoding.batch.lookup name).map (columnStats decoding.reparse)).map fun found =>
          values.insert (id name) found) ∅ := by
    simp only [computeRowGroupMeta, Option.map_map]
    rfl
  have all : ∀ name ∈ importer.columns.map Field.name,
      ((decoding.batch.lookup name).map (columnStats decoding.reparse)).isSome := by
    intro name member
    rw [Option.isSome_map]
    exact (in_batch name).mpr member
  obtain ⟨computed, computed_eq⟩ := exists_foldlM_insert all ∅
  refine ⟨computed, unfolded.trans computed_eq, fun name => ?_⟩
  rw [lookup_of_foldlM_insert computed_eq name]
  split
  · next found last =>
      obtain rfl : found = name := by simpa using List.find?_some last
      rfl
  · next absent =>
      have outside : name ∉ importer.columns.map Field.name := by
        intro member
        have differ := List.find?_eq_none.mp absent name (List.mem_reverse.mpr member)
        simp at differ
      rw [← in_batch, Option.not_isSome_iff_eq_none] at outside
      rw [outside]
      rfl

/-- The column statistics are those of the rows exactly if the statistics of each column are
complete. -/
theorem columns_agree_iff (accepted : importer.insertParquet file = some (columns, partitionValues))
    (decodes : decoding.Decodes file) :
    (∃ computed, computeRowGroupMeta decoding.reparse (importer.columns.map Field.name)
        decoding.batch = some computed ∧ ∀ name, columns.lookup name = computed.lookup name) ↔
      ∀ name dataType stats array, importer.dataType? name = some dataType →
        file.metadata.statistics? name = some stats → decoding.batch.lookup name = some array →
          stats.Complete decoding.reparse dataType array := by
  obtain ⟨computed, computed_eq, lookup_eq⟩ := computed_columns accepted decodes
  constructor
  · rintro ⟨other, other_eq, same⟩ name dataType stats array typed described found
    obtain rfl := Option.some.inj (computed_eq.symm.trans other_eq)
    rcases column_cases accepted decodes name with ⟨untyped, -⟩ |
        ⟨_, _, _, typed', described', found', valid, recorded⟩
    · rw [untyped] at typed
      cases typed
    · obtain rfl := Option.some.inj (typed.symm.trans typed')
      obtain rfl := Option.some.inj (described.symm.trans described')
      obtain rfl := Option.some.inj (found.symm.trans found')
      have agree := same name
      rw [recorded, lookup_eq, found] at agree
      exact (footerStats_eq_iff valid).mp (Option.some.inj agree)
  · intro complete
    refine ⟨computed, computed_eq, fun name => ?_⟩
    rw [lookup_eq]
    rcases column_cases accepted decodes name with ⟨-, unrecorded, absent⟩ |
        ⟨dataType, stats, array, typed, described, found, valid, recorded⟩
    · rw [unrecorded, absent]
      rfl
    · rw [recorded, found, Option.map_some,
        (footerStats_eq_iff valid).mpr (complete name dataType stats array typed described found)]

theorem derivePartitionValuesFromStats_eq (columns : HashMap String ArrayStats) :
    importer.derivePartitionValuesFromStats columns =
      Writer.gather (fun name => (columns.lookup name).bind singleValue)
        (importer.partitionBy.getD []) ∅ := by
  rw [derivePartitionValuesFromStats]
  cases importer.partitionBy with
  | none => rfl
  | some partitionBy =>
      cases partitionBy with
      | nil => rfl
      | cons first rest => rfl

/-- Complete statistics show the one value of the rows in a column, unless the column has nulls. -/
theorem shown_cases (accepted : importer.insertParquet file = some (columns, partitionValues))
    (decodes : decoding.Decodes file)
    (complete : ∀ name dataType stats array, importer.dataType? name = some dataType →
      file.metadata.statistics? name = some stats → decoding.batch.lookup name = some array →
        stats.Complete decoding.reparse dataType array) (name : String) :
    (decoding.batch.lookup name = none ∧ (columns.lookup name).bind singleValue = none) ∨
      ∃ array, decoding.batch.lookup name = some array ∧
        (columns.lookup name).bind singleValue =
          if array.nullCount = 0 then
            (decoding.planner.sharedValue decoding.rows name).map JsonScalar.statistic
          else none := by
  rcases column_cases accepted decodes name with ⟨-, unrecorded, absent⟩ |
      ⟨dataType, stats, array, typed, described, found, valid, recorded⟩
  · exact .inl ⟨absent, by rw [unrecorded]; rfl⟩
  · have own := complete name dataType stats array typed described found
    refine .inr ⟨array, found, ?_⟩
    rw [recorded, Option.bind_some, (footerStats_eq_iff valid).mpr own,
      singleValue_columnStats valid own, Decoding.sharedValue_eq found]

/-- Where the column statistics are complete, the partition values are those of the rows exactly if
no partition column has nulls, or some partition column does not have one value. -/
theorem partitionValues_agree_iff
    (accepted : importer.insertParquet file = some (columns, partitionValues))
    (decodes : decoding.Decodes file)
    (partitions : decoding.planner.partitionBy = importer.partitionBy.getD [])
    (complete : ∀ name dataType stats array, importer.dataType? name = some dataType →
      file.metadata.statistics? name = some stats → decoding.batch.lookup name = some array →
        stats.Complete decoding.reparse dataType array) :
    (partitionValues.map fun values name => values.lookup name) =
        ((decoding.planner.computePartitionValues decoding.rows).map fun values name =>
          (values.lookup name).map JsonScalar.statistic) ↔
      ((∀ name ∈ decoding.planner.partitionBy,
          ∃ array, decoding.batch.lookup name = some array ∧ Single array) →
        ∀ name ∈ decoding.planner.partitionBy, ∀ array,
          decoding.batch.lookup name = some array → array.nullCount = 0) := by
  obtain ⟨-, -, rfl, -⟩ := facts_of_insertParquet accepted
  have shown := shown_cases accepted decodes complete
  rw [derivePartitionValuesFromStats_eq, ← partitions, RowGroupPlanner.computePartitionValues,
    RowGroupPlanner.partitionValuesFrom_eq_gather_sharedValue]
  by_cases single : ∀ name ∈ decoding.planner.partitionBy,
      ∃ array, decoding.batch.lookup name = some array ∧ Single array
  · constructor
    · intro same _ name member array found
      by_contra some_nulls
      have hidden : (columns.lookup name).bind singleValue = none := by
        rcases shown name with ⟨-, hidden⟩ | ⟨own, own_eq, shown_eq⟩
        · exact hidden
        · obtain rfl := Option.some.inj (own_eq.symm.trans found)
          rw [shown_eq, if_neg some_nulls]
      have shared : ∀ name ∈ decoding.planner.partitionBy,
          (decoding.planner.sharedValue decoding.rows name).isSome := by
        intro name member
        obtain ⟨array, found, one⟩ := single name member
        rw [← Option.isSome_map, Decoding.sharedValue_eq found, isSome_soleValue_iff]
        exact one
      have gathered := isSome_gather (List.ne_nil_of_mem member) shared
      rw [gather_eq_none member hidden, Option.map_none, eq_comm, Option.map_eq_none_iff] at same
      rw [same] at gathered
      cases gathered
    · intro told
      have no_nulls := told single
      apply gather_agree
      intro name member
      rcases shown name with ⟨absent, -⟩ | ⟨array, found, shown_eq⟩
      · obtain ⟨array, found, -⟩ := single name member
        rw [absent] at found
        cases found
      · rw [shown_eq, if_pos (no_nulls name member array found)]
  · obtain ⟨name, member, several⟩ : ∃ name ∈ decoding.planner.partitionBy,
        ¬∃ array, decoding.batch.lookup name = some array ∧ Single array := by
      simpa using single
    have unshared : decoding.planner.sharedValue decoding.rows name = none := by
      cases found : decoding.batch.lookup name with
      | none => exact Decoding.sharedValue_eq_none found
      | some array =>
          rw [← Option.not_isSome_iff_eq_none, ← Option.isSome_map, Decoding.sharedValue_eq found,
            isSome_soleValue_iff]
          exact fun one => several ⟨array, found, one⟩
    have hidden : (columns.lookup name).bind singleValue = none := by
      rcases shown name with ⟨-, hidden⟩ | ⟨array, -, shown_eq⟩
      · exact hidden
      · rw [shown_eq, unshared, Option.map_none, ite_self]
    rw [gather_eq_none member hidden, gather_eq_none member unshared]
    exact ⟨fun _ all => absurd all single, fun _ => rfl⟩

/-- A file that is inserted as it is gets the column statistics and partition values of its rows
exactly if the statistics in its footer leave nothing out. -/
theorem records_iff (accepted : importer.insertParquet file = some (columns, partitionValues))
    (decodes : decoding.Decodes file)
    (partitions : decoding.planner.partitionBy = importer.partitionBy.getD []) :
    decoding.Records (importer.columns.map Field.name) columns partitionValues ↔
      importer.Complete file.metadata decoding := by
  constructor
  · intro records
    have complete := (columns_agree_iff accepted decodes).mp records.columns
    exact ⟨complete, (partitionValues_agree_iff accepted decodes partitions complete).mp
      records.partitionValues⟩
  · intro complete
    exact ⟨(columns_agree_iff accepted decodes).mpr complete.columns,
      (partitionValues_agree_iff accepted decodes partitions complete.columns).mpr
        complete.partitions⟩

end Importer

/-! ## A column with one value -/

/-- A table with one column of integers, partitioned by it. -/
def oneColumn : Importer where
  columns := [{ name := "x", dataType := .int64, nullable := true }]
  partitionBy := some ["x"]
  encrypted := false

/-- A file whose least and greatest value are 3, and whose null count may be left out. -/
def threes (nullCount : Option Nat) : ParquetFile where
  length := 400
  schema := [{ name := "x", dataType := .int64, nullable := true }]
  metadata :=
    { leaves := ["x"]
      rowGroups := [[some (.int64
        { min := some 3
          max := some 3
          nullCount
          isMinValueExact := true
          isMaxValueExact := true })]]
      numRows := 2 }

/-- Rows that consist of one integer or null. -/
def integerRows (cells : List (Option Int)) : Decoding PartitionCell where
  planner := RowGroupPlanner.cells
  rows := cells.map fun cell => cell.elim .null .integer
  batch := (∅ : HashMap String ColumnArray).insert "x" (.integer cells)
  reparse := id
  reads name := by
    by_cases same : name = "x"
    · subst same
      have column : RowGroupPlanner.cells.columnByName "x" = some (.supported id) := rfl
      rw [AList.lookup_insert, column]
      show (cells.map _).filterMap _ = cells.reduceOption.map _
      rw [List.filterMap_map, List.reduceOption, List.map_filterMap]
      apply List.filterMap_congr
      intro cell _
      cases cell <;> rfl
    · have column : RowGroupPlanner.cells.columnByName name = none := if_neg same
      rw [AList.lookup_insert_ne same, column]
      exact trivial

theorem lookup_integerRows {cells : List (Option Int)} {name : String} {array : ColumnArray}
    (found : (integerRows cells).batch.lookup name = some array) :
    name = "x" ∧ array = .integer cells := by
  rw [integerRows] at found
  by_cases same : name = "x"
  · subst same
    rw [AList.lookup_insert] at found
    exact ⟨rfl, (Option.some.inj found).symm⟩
  · rw [AList.lookup_insert_ne same] at found
    cases found

theorem decodes_threes {cells : List (Option Int)} {nullCount : Option Nat}
    (bounds : extremes id cells.reduceOption = (some 3, some 3))
    (nulls : ∀ count, nullCount = some count → count = cells.countP Option.isNone) :
    (integerRows cells).Decodes (threes nullCount) := by
  constructor
  · intro name
    rw [integerRows]
    by_cases same : name = "x"
    · subst same
      rw [AList.lookup_insert]
      simp [threes]
    · rw [AList.lookup_insert_ne same]
      simp [threes, same]
  · intro name stats array described found
    obtain ⟨rfl, rfl⟩ := lookup_integerRows found
    obtain rfl := Option.some.inj described
    refine ⟨nulls, ?_, ?_⟩
    · rintro _ ⟨⟩
      rw [bounds]
      rfl
    · rintro _ ⟨⟩
      rw [bounds]
      rfl

namespace Importer

/-- What is recorded for the column, without reading the rows. -/
def threeStats : HashMap String ArrayStats :=
  (∅ : HashMap String ArrayStats).insert "x"
    { min := some (ofInt 3), max := some (ofInt 3), nulls := 0 }

def threeValues : HashMap String Statistic :=
  (∅ : HashMap String Statistic).insert "x" (ofInt 3)

theorem insertParquet_threes :
    oneColumn.insertParquet (threes none) = some (threeStats, some threeValues) :=
  rfl

/-- A file with two rows of one value gets the statistics and the partition value of its rows. -/
theorem records_iff_threes :
    (integerRows [some 3, some 3]).Records ["x"] threeStats (some threeValues) := by
  have decodes := @decodes_threes [some 3, some 3] none rfl nofun
  refine (records_iff insertParquet_threes decodes rfl).mpr ⟨?_, ?_⟩
  · intro name dataType stats array typed described found
    obtain ⟨rfl, rfl⟩ := lookup_integerRows found
    obtain rfl := Option.some.inj typed
    obtain rfl := Option.some.inj described
    refine ⟨fun _ => rfl, fun _ => ⟨rfl, ?_, ⟨3, rfl, trivial⟩, 3, rfl, trivial⟩⟩
    intro value member
    obtain rfl : value = 3 := by simpa using member
    exact ⟨by decide, by decide⟩
  · intro _ name _ array found
    obtain ⟨rfl, rfl⟩ := lookup_integerRows found
    rfl

/-- Without a null count a null goes unrecorded. -/
theorem not_records_uncountedNull :
    oneColumn.insertParquet (threes none) = some (threeStats, some threeValues) ∧
      (integerRows [some 3, none]).Decodes (threes none) ∧
        ¬(integerRows [some 3, none]).Records ["x"] threeStats (some threeValues) := by
  refine ⟨insertParquet_threes, decodes_threes rfl nofun, ?_⟩
  rintro ⟨⟨computed, computed_eq, same⟩, -⟩
  have read : computeRowGroupMeta id ["x"] (integerRows [some 3, none]).batch =
      some ((∅ : HashMap String ArrayStats).insert "x"
        { min := some (ofInt 3), max := some (ofInt 3), nulls := 1 }) := rfl
  obtain rfl := Option.some.inj (computed_eq.symm.trans read)
  have nulls := same "x"
  rw [threeStats, AList.lookup_insert, AList.lookup_insert] at nulls
  cases nulls

end Importer

end InsertParquet

end IcefallDB
