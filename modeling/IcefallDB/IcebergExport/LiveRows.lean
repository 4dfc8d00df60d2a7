import IcefallDB.ColumnBounds
import IcefallDB.IcebergExport.Bounds
import IcefallDB.Lib.Options
import Mathlib.Algebra.BigOperators.Ring.Finset

/-!
# Reading an exported snapshot

A reader of the exported metadata reads the rows of all data files, except those that it skips by
their bounds.  Deletion vectors are not exported.
-/

namespace IcefallDB

namespace Iceberg

open Json (utf8 utf8Decode)
open Skipping (Comparing)

/-! ## The reader -/

/-- The number that a JSON value is. -/
def number? : Json → Option Int
  | .num value => some value
  | _ => none

def items : Json → List Json
  | .arr items => items
  | _ => []

/-- The id and the type of the field of a name in a schema. -/
def fieldIn (schema : Json) (name : String) : Option (Int × SingleType) := do
  let fields ← member "fields" schema
  let field ← (items fields).find? fun field =>
    match member "name" field with
    | some (.str own) => own = name
    | _ => false
  let fieldId ← (member "id" field).bind number?
  let type ← (member "type" field).bind singleType
  some (fieldId, type)

/-- The id and the type of the field of a name in the current schema of a table. -/
def readerField (metadata : Json) (name : String) : Option (Int × SingleType) := do
  let current ← (member "current-schema-id" metadata).bind number?
  let schemas ← member "schemas" metadata
  let schema ← (items schemas).find? fun schema =>
    (member "schema-id" schema).bind number? = some current
  fieldIn schema name

/-- The bound of a field. -/
def bound (entries : List (Int32 × List UInt8)) (fieldId : Int) (type : SingleType) :
    Option SingleValue :=
  ((entries.find? fun entry => entry.1.toInt = fieldId).map Prod.snd).bind (decodeSingle type)

/-- A condition on a column: its value compares with a literal in some way. -/
structure Filter where
  column : String
  comparing : Comparing SingleValue

namespace Filter

variable {R : Type} (cell : String → R → Option SingleValue)

/-- A row satisfies the condition.  No condition holds of a null. -/
def keeps (filter : Filter) (row : R) : Bool :=
  match cell filter.column row with
  | none => false
  | some value => filter.comparing.holds value

/-- The bounds of a file do not exclude the condition. -/
def mayContain (metadata : Json) (filter : Filter) (file : DataFileRecord) : Bool :=
  match readerField metadata filter.column with
  | none => true
  | some (fieldId, type) =>
      filter.comparing.mayHold (bound file.lowerBounds fieldId type)
        (bound file.upperBounds fieldId type)

end Filter

section

variable {R : Type} (cell : String → R → Option SingleValue) (source : Source R) (table : String)

/-- The rows of the data file at a path. -/
def rowsAt (file : DataFileRecord) : List R :=
  match source.files.entries.find? fun entry => table ++ "/" ++ entry.1 = file.filePath with
  | some ⟨_, _, .data rows⟩ => rows
  | _ => []

/-- The rows of an exported snapshot that satisfy all conditions. -/
def readExport (exported : Export) (filters : List Filter) : List R :=
  Skipping.read (rowsAt source table) (Filter.keeps cell) (Filter.mayContain exported.metadata)
    (exported.manifest.map ManifestEntry.dataFile) filters

/-- An exported snapshot denotes some rows: a reader finds those among them that it looks for, and
the counts are their number. -/
structure Denotes (exported : Export) (live : List R) : Prop where
  rows : ∀ filters, (readExport cell source table exported filters).Perm
    (live.filter fun row => filters.all (Filter.keeps cell · row))
  counts : (exported.manifest.map fun entry => entry.dataFile.recordCount.toInt).sum = live.length
  total : ∀ entry ∈ exported.manifestList, entry.addedRowsCount = Int64.ofNat live.length

end

/-! ## Tables -/

variable {R : Type} (unicode : UnicodeTables) (cell : String → R → Option SingleValue)
  (source : Source R) (table : String)

/-- The type of a column as a reader sees it. -/
def Column.singleType (column : Column) : Option SingleType :=
  (column.icebergType unicode).toOption.bind Iceberg.singleType

/-- Columns have names and positive ids of their own. -/
structure Schema.Numbered (schema : Schema) : Prop where
  names : (schema.columns.map Column.name).Nodup
  ids : (schema.columns.map Column.fieldId).Nodup
  positive : ∀ column ∈ schema.columns, 0 < column.fieldId

/-- What a row group holds. -/
structure Group (R : Type) where
  rows : List R
  deleted : DeletionVector
  sidecar : Sidecar

namespace Group

/-- The rows that are not deleted. -/
def live (group : Group R) : List R :=
  liveRows group.deleted group.rows

/-- The values of a column. -/
def values (group : Group R) (name : String) : List SingleValue :=
  group.rows.filterMap (cell name)

end Group

/-- The files of a row group hold what they should: rows, deleted offsets, and a sidecar with the
number of rows and the least and the greatest values of the columns. -/
structure Stored (columns : List Column) (entry : RowGroupEntry) (group : Group R) : Prop where
  data : ∃ size, source.files.lookup entry.data = some (size, .data group.rows)
  deletions : match entry.deletes with
    | none => group.deleted = ∅
    | some path => ∃ size, source.files.lookup path = some (size, .deletions group.deleted)
  sidecar : ∃ size, source.files.lookup entry.metaFile = some (size, .sidecar group.sidecar)
  rows : group.sidecar.rows.toNat = group.rows.length
  small : group.rows.length < 2 ^ 63
  recorded : ∀ column ∈ columns, ∀ type, column.singleType unicode = some type →
    ∀ stats, group.sidecar.columns.lookup column.name = some stats →
      Recorded type stats (group.values cell column.name)

/-- No row of a row group is deleted, and no bound of a column is misread. -/
structure Group.Exportable (columns : List Column) (group : Group R) : Prop where
  whole : ∀ offset ∈ group.deleted, group.rows.length ≤ offset
  bounds : ∀ column ∈ columns, ∀ type, column.singleType unicode = some type →
    ∀ stats, group.sidecar.columns.lookup column.name = some stats →
      ¬ Misread type stats (group.values cell column.name)

/-! ## Columns -/

theorem fieldJson_name (fieldId : Int) (name : String) (type : Json) (nullable : Bool) :
    member "name" (fieldJson fieldId name type nullable) = some (.str name) := by
  simp [member, fieldJson, List.lookup]

theorem fieldJson_id (fieldId : Int) (name : String) (type : Json) (nullable : Bool) :
    member "id" (fieldJson fieldId name type nullable) = some (.num fieldId) := by
  simp [member, fieldJson, List.lookup]

theorem fieldJson_type (fieldId : Int) (name : String) (type : Json) (nullable : Bool) :
    member "type" (fieldJson fieldId name type nullable) = some type := by
  simp [member, fieldJson, List.lookup]

/-- The fields of a schema are its columns. -/
theorem find?_icebergColumns {columns : List Column} {index : Nat} {fields : List Json}
    (converted : icebergColumns unicode columns index = .ok fields)
    (positive : ∀ column ∈ columns, 0 < column.fieldId) (name : String) :
    ((fields.find? fun field =>
        match member "name" field with
        | some (.str own) => own = name
        | _ => false).bind fun field => do
      let fieldId ← (member "id" field).bind number?
      let type ← (member "type" field).bind singleType
      some (fieldId, type)) =
    (columns.find? fun column => column.name = name).bind fun column =>
      (column.singleType unicode).map fun type => (column.fieldId.toInt, type) := by
  induction columns generalizing index fields with
  | nil =>
      rw [icebergColumns] at converted
      cases converted
      rfl
  | cons column columns ih =>
      rw [List.forall_mem_cons] at positive
      rw [icebergColumns, if_pos positive.1] at converted
      obtain ⟨type, type_eq, others⟩ := Script.except_bind_eq_ok.mp converted
      obtain ⟨rest, rest_eq, same⟩ := Script.except_bind_eq_ok.mp others
      cases same
      rw [List.find?_cons, List.find?_cons, fieldJson_name]
      by_cases own : column.name = name
      · simp only [own, decide_true, Option.bind_some, fieldJson_id, fieldJson_type, number?]
        rw [Column.singleType, type_eq]
        cases found : singleType type <;> simp [Except.toOption, found]
      · simp only [own, decide_false]
        exact ih rest_eq positive.2

theorem readerField_eq {schema : Schema} {metadata : Json} {tableUuid location : String}
    {lastSequenceNumber currentSnapshotId : Int} {snapshots : List Json}
    {partitionSpec : Option Json} {lastPartitionId : Int} {sortOrder : Option Json}
    {schemaFieldIdsStart : Int32} {lastUpdatedMs : Int}
    (built : buildTableMetadata unicode schema tableUuid location lastSequenceNumber
      currentSnapshotId snapshots partitionSpec lastPartitionId sortOrder schemaFieldIdsStart
      lastUpdatedMs = .ok metadata)
    (positive : ∀ column ∈ schema.columns, 0 < column.fieldId) (name : String) :
    readerField metadata name =
      (schema.columns.find? fun column => column.name = name).bind fun column =>
        (column.singleType unicode).map fun type => (column.fieldId.toInt, type) := by
  obtain ⟨json, json_eq, same⟩ := Script.except_bind_eq_ok.mp built
  obtain rfl := Except.ok.inj same
  obtain ⟨fields, fields_eq, schema_eq⟩ := Script.except_bind_eq_ok.mp json_eq
  obtain rfl := Except.ok.inj schema_eq
  rw [← find?_icebergColumns unicode fields_eq positive name]
  generalize built_eq : Json.obj _ = metadata
  have current : member "current-schema-id" metadata =
      some (.num schema.schemaId.toInt64.toInt) := by
    rw [← built_eq]
    rfl
  have schemas : member "schemas" metadata = some (.arr [.obj [("type", .str "struct"),
      ("schema-id", .num schema.schemaId.toInt64.toInt), ("fields", .arr fields)]]) := by
    rw [← built_eq]
    rfl
  have own : member "schema-id" (.obj [("type", .str "struct"),
      ("schema-id", .num schema.schemaId.toInt64.toInt), ("fields", .arr fields)]) =
        some (.num schema.schemaId.toInt64.toInt) := rfl
  rw [readerField, current, schemas]
  simp only [Option.bind_eq_bind, Option.bind_some, number?, items, List.find?_cons, own,
    decide_true]
  rfl

theorem max_one {fieldId : Int32} (positive : 0 < fieldId) : max fieldId 1 = fieldId := by
  change (if fieldId ≤ 1 then 1 else fieldId) = fieldId
  split
  · next small =>
      rw [← Int32.toInt_inj]
      rw [Int32.le_iff_toInt_le] at small
      rw [Int32.lt_iff_toInt_lt] at positive
      have one : (1 : Int32).toInt = 1 := rfl
      have zero : (0 : Int32).toInt = 0 := rfl
      omega
  · rfl

/-- Bounds are recorded under the field ids of the columns. -/
theorem lookup_boundIds {schema : Schema} (numbered : schema.Numbered) {name : String}
    {fieldId : Int32} :
    (boundIds schema.columns).lookup name = some fieldId ↔
      ∃ column ∈ schema.columns, column.name = name ∧ column.fieldId = fieldId := by
  have distinct : ((schema.columns.map fun column => (column.name, max column.fieldId 1)).map
      Prod.fst).Nodup := by
    rw [List.map_map]
    exact numbered.names
  rw [boundIds, lookup_collect distinct, List.mem_map]
  constructor
  · rintro ⟨column, member, same⟩
    obtain ⟨name_eq, id_eq⟩ := Prod.mk.inj same
    rw [max_one (numbered.positive column member)] at id_eq
    exact ⟨column, member, name_eq, id_eq⟩
  · rintro ⟨column, member, rfl, rfl⟩
    refine ⟨column, member, ?_⟩
    rw [max_one (numbered.positive column member)]

/-! ## Data files -/

variable {unicode cell source table}

theorem rowsAt_eq {path : String} {size : UInt64} {rows : List R}
    (held : source.files.lookup path = some (size, .data rows)) {file : DataFileRecord}
    (named : file.filePath = table ++ "/" ++ path) : rowsAt source table file = rows := by
  have found : (source.files.entries.find? fun entry => table ++ "/" ++ entry.1 = file.filePath) =
      some ⟨path, size, .data rows⟩ := by
    have held_mem : (⟨path, size, .data rows⟩ : Sigma fun _ : String => UInt64 × Contents R) ∈
        source.files.entries := AList.mem_lookup_iff.mp held
    cases found : source.files.entries.find? fun entry =>
        table ++ "/" ++ entry.1 = file.filePath with
    | none =>
        have missed := List.find?_eq_none.mp found _ held_mem
        exact absurd (decide_eq_true named.symm) missed
    | some entry =>
        obtain ⟨own, contents⟩ := entry
        have same : table ++ "/" ++ own = file.filePath := by
          have holds := List.find?_some found
          exact of_decide_eq_true holds
        rw [named, String.ext_iff] at same
        simp only [String.toList_append] at same
        obtain rfl := String.ext (List.append_cancel_left same)
        have own_held : source.files.lookup own = some contents :=
          AList.mem_lookup_iff.mpr (List.mem_of_find?_eq_some found)
        obtain rfl := Option.some.inj (own_held.symm.trans held)
        rfl
  rw [rowsAt, found]

/-- The record of a data file tells what a row group holds. -/
structure Tells (source : Source R) (table : String) (columns : List Column)
    (file : DataFileRecord) (group : Group R) : Prop where
  rows : rowsAt source table file = group.rows
  count : file.recordCount.toInt = group.rows.length
  lower : ∀ column ∈ columns, ∀ type, bound file.lowerBounds column.fieldId.toInt type =
    (group.sidecar.columns.lookup column.name).bind fun stats => readBound type stats.min
  upper : ∀ column ∈ columns, ∀ type, bound file.upperBounds column.fieldId.toInt type =
    (group.sidecar.columns.lookup column.name).bind fun stats => readBound type stats.max

theorem bound_byFieldId {schema : Schema} (numbered : schema.Numbered) (sidecar : Sidecar)
    (statistic : ColumnStatistics → Option StatisticValue) {column : Column}
    (member : column ∈ schema.columns) (type : SingleType) :
    bound (mapToAvroArray (byFieldId (boundIds schema.columns)
        (fun stats => boundBytes (statistic stats)) sidecar.columnList)) column.fieldId.toInt type =
      (sidecar.columns.lookup column.name).bind fun stats => readBound type (statistic stats) := by
  have distinct : ∀ left right fieldId, (boundIds schema.columns).lookup left = some fieldId →
      (boundIds schema.columns).lookup right = some fieldId → left = right := by
    intro left right fieldId left_id right_id
    obtain ⟨one, one_mem, rfl, one_id⟩ := (lookup_boundIds numbered).mp left_id
    obtain ⟨other, other_mem, rfl, other_id⟩ := (lookup_boundIds numbered).mp right_id
    rw [List.inj_on_of_nodup_map numbered.ids one_mem other_mem (one_id.trans other_id.symm)]
  have known : (boundIds schema.columns).lookup column.name = some column.fieldId :=
    (lookup_boundIds numbered).mpr ⟨column, member, rfl, rfl⟩
  rw [bound, find?_mapToAvroArray, lookup_byFieldId distinct sidecar known, Option.bind_assoc]
  rfl

theorem tells_of_exportFile {schema : Schema} (numbered : schema.Numbered) {entry : RowGroupEntry}
    {group : Group R} (stored : Stored unicode cell source schema.columns entry group)
    {file : DataFile}
    (exported : source.exportFile table (boundIds schema.columns) entry = .ok file) :
    Tells source table schema.columns (buildDataFileValue file) group := by
  obtain ⟨size, data⟩ := stored.data
  obtain ⟨sidecar_size, sidecar⟩ := stored.sidecar
  rw [Source.exportFile, sidecar] at exported
  simp only [data] at exported
  obtain rfl := Except.ok.inj exported
  constructor
  · exact rowsAt_eq data rfl
  · change group.sidecar.rows.toInt64.toInt = _
    have small := stored.small
    rw [← stored.rows] at small ⊢
    rw [Int64.toInt, UInt64.toBitVec_toInt64]
    exact BitVec.toInt_eq_toNat_of_lt (by change 2 * group.sidecar.rows.toNat < 2 ^ 64; omega)
  · intro column member type
    exact bound_byFieldId numbered group.sidecar ColumnStatistics.min member type
  · intro column member type
    exact bound_byFieldId numbered group.sidecar ColumnStatistics.max member type

/-! ## Conditions -/

theorem Schema.Numbered.find?_name {schema : Schema} (numbered : schema.Numbered) {column : Column}
    (member : column ∈ schema.columns) :
    (schema.columns.find? fun other => other.name = column.name) = some column := by
  cases found : schema.columns.find? fun other => other.name = column.name with
  | none => exact absurd (decide_eq_true rfl) (List.find?_eq_none.mp found column member)
  | some other =>
      have holds := List.find?_some found
      rw [List.inj_on_of_nodup_map numbered.names (List.mem_of_find?_eq_some found) member
        (of_decide_eq_true holds)]

/-- No condition that a row of a file satisfies is excluded, exactly if no bound is misread. -/
theorem forall_mayContain_iff {schema : Schema} (numbered : schema.Numbered) {metadata : Json}
    (fields : ∀ name, readerField metadata name =
      (schema.columns.find? fun column => column.name = name).bind fun column =>
        (column.singleType unicode).map fun type => (column.fieldId.toInt, type))
    {entry : RowGroupEntry} {group : Group R}
    (stored : Stored unicode cell source schema.columns entry group) {file : DataFileRecord}
    (tells : Tells source table schema.columns file group) :
    (∀ filter : Filter, ∀ row ∈ group.rows, filter.keeps cell row = true →
      filter.mayContain metadata file = true) ↔
      ∀ column ∈ schema.columns, ∀ type, column.singleType unicode = some type →
        ∀ stats, group.sidecar.columns.lookup column.name = some stats →
          ¬ Misread type stats (group.values cell column.name) := by
  have field_eq : ∀ column ∈ schema.columns, ∀ type, column.singleType unicode = some type →
      readerField metadata column.name = some (column.fieldId.toInt, type) := by
    intro column member type type_eq
    rw [fields, numbered.find?_name member, Option.bind_some, type_eq]
    rfl
  constructor
  · intro never column member type type_eq stats stats_eq
    rw [← within_iff (stored.recorded column member type type_eq stats stats_eq)]
    intro value value_mem
    obtain ⟨row, row_mem, cell_eq⟩ := List.mem_filterMap.mp value_mem
    rw [← Comparing.forall_mayHold_iff]
    intro comparing holds
    have contained := never ⟨column.name, comparing⟩ row row_mem (by
      rw [Filter.keeps, cell_eq]
      exact holds)
    rw [Filter.mayContain, field_eq column member type type_eq] at contained
    simp only [tells.lower column member, tells.upper column member, stats_eq,
      Option.bind_some] at contained
    exact contained
  · intro unread filter row row_mem kept
    rw [Filter.mayContain]
    cases field : readerField metadata filter.column with
    | none => rfl
    | some field =>
        rw [fields] at field
        obtain ⟨column, found, rest⟩ := Option.bind_eq_some_iff.mp field
        obtain ⟨type, type_eq, rfl⟩ := Option.map_eq_some_iff.mp rest
        have member := List.mem_of_find?_eq_some found
        have name_eq : column.name = filter.column := by
          have holds := List.find?_some found
          exact of_decide_eq_true holds
        cases cell_eq : cell filter.column row with
        | none =>
            rw [Filter.keeps, cell_eq] at kept
            cases kept
        | some value =>
            rw [Filter.keeps, cell_eq] at kept
            simp only [tells.lower column member, tells.upper column member]
            cases stats_eq : group.sidecar.columns.lookup column.name with
            | none =>
                apply Comparing.mayHold_of_holds _ kept
                exact ⟨nofun, nofun⟩
            | some stats =>
                apply Comparing.mayHold_of_holds _ kept
                apply (within_iff (stored.recorded column member type type_eq stats stats_eq)).mpr
                  (unread column member type type_eq stats stats_eq)
                rw [name_eq]
                exact List.mem_filterMap.mpr ⟨row, row_mem, cell_eq⟩

theorem live_eq_rows_iff (group : Group R) :
    group.live = group.rows ↔ ∀ offset ∈ group.deleted, group.rows.length ≤ offset := by
  rw [Group.live, liveRows]
  constructor
  · intro same offset deleted
    by_contra beyond
    have inside : offset < group.rows.length := Nat.lt_of_not_le beyond
    have length_eq := congrArg List.length same
    rw [List.length_map, ← List.length_zipIdx (l := group.rows) (i := 0)] at length_eq
    have kept := List.filter_sublist.eq_of_length length_eq
    have present : (group.rows[offset], offset) ∈ group.rows.zipIdx :=
      List.mk_mem_zipIdx_iff_getElem?.mpr (List.getElem?_eq_getElem inside)
    have live := List.filter_eq_self.mp kept _ present
    exact of_decide_eq_true live deleted
  · intro whole
    rw [List.filter_eq_self.mpr, List.zipIdx_map_fst]
    intro row member
    apply decide_eq_true
    intro deleted
    have position := List.mk_mem_zipIdx_iff_getElem?.mp member
    have inside := (List.getElem?_eq_some_iff.mp position).1
    have beyond := whole _ deleted
    omega

theorem live_sublist (group : Group R) : group.live.Sublist group.rows := by
  have kept : (group.rows.zipIdx.filter fun row => row.2 ∉ group.deleted).Sublist
      group.rows.zipIdx := List.filter_sublist
  have mapped := kept.map Prod.fst
  rwa [List.zipIdx_map_fst] at mapped

/-! ## Exports -/

variable (unicode) in
/-- What an export that is accepted consists of. -/
structure Exports (source : Source R) (table : String) (schema : TableSchema) (manifest : Manifest)
    (exported : Export) : Prop where
  fields : (∀ column ∈ schema.columns, 0 < column.fieldId) → ∀ name,
    readerField exported.metadata name =
      (schema.columns.find? fun column => column.name = name).bind fun column =>
        (column.singleType unicode).map fun type => (column.fieldId.toInt, type)
  files : ∃ files, manifest.rowGroups.mapM (source.exportFile table (boundIds schema.columns)) =
    .ok files ∧ exported.manifest.map ManifestEntry.dataFile = files.map buildDataFileValue
  total : ∀ entry ∈ exported.manifestList, entry.addedRowsCount =
    Int64.ofInt (exported.manifest.map fun entry => entry.dataFile.recordCount.toInt).sum

theorem foldl_add_eq (counts : List Int64) (start : Int64) :
    counts.foldl (· + ·) start = start + Int64.ofInt (counts.map Int64.toInt).sum := by
  induction counts generalizing start with
  | nil => simp
  | cons count counts ih =>
      rw [List.foldl_cons, ih, List.map_cons, List.sum_cons, Int64.ofInt_add, Int64.ofInt_toInt,
        Int64.add_assoc]

theorem exports_of_exportTable {avro : List ManifestEntry → List UInt8}
    {tableUuid location : String} {now : Int} {snapshot : Option Nat} {schema : TableSchema}
    {manifest : Manifest} {exported : Export}
    (latest : source.latestSchema = some schema)
    (chosen : source.chooseManifest table schema snapshot = .ok manifest)
    (accepted : exportTable unicode avro source table tableUuid location now snapshot =
      .ok exported) : Exports unicode source table schema manifest exported := by
  rw [exportTable, latest] at accepted
  obtain ⟨own, own_eq, accepted⟩ := Script.except_bind_eq_ok.mp accepted
  obtain rfl := Except.ok.inj own_eq
  obtain ⟨_, -, accepted⟩ := Script.except_bind_eq_ok.mp accepted
  split at accepted
  · cases accepted
  · obtain ⟨other, other_eq, accepted⟩ := Script.except_bind_eq_ok.mp accepted
    obtain rfl := Except.ok.inj (chosen.symm.trans other_eq)
    obtain ⟨files, files_eq, accepted⟩ := Script.except_bind_eq_ok.mp accepted
    obtain ⟨metadata, metadata_eq, accepted⟩ := Script.except_bind_eq_ok.mp accepted
    obtain rfl := Except.ok.inj accepted
    constructor
    · intro positive name
      cases built : buildTableMetadata unicode schema.toSchema tableUuid location
          (Int64.ofNat manifest.sequence).toInt (Int64.ofNat manifest.sequence).toInt _ none 0 none
          (maxFieldId schema.columns) now with
      | error error =>
          rw [built] at metadata_eq
          cases metadata_eq
      | ok own =>
          rw [built] at metadata_eq
          obtain rfl := Except.ok.inj metadata_eq
          exact readerField_eq unicode built positive name
    · refine ⟨files, files_eq, ?_⟩
      rw [writeManifest, List.map_map]
      rfl
    · intro entry member
      obtain rfl := List.mem_singleton.mp member
      change (files.map DataFile.recordCount).foldl (· + ·) 0 = _
      rw [foldl_add_eq, Int64.zero_add, writeManifest, List.map_map, List.map_map]
      rfl

/-- Reading files through something that stands for them. -/
theorem read_map {File Stand Row Query : Type} {rows : File → List Row}
    {keeps : Query → Row → Bool} {mayContain : Query → File → Bool} (file : Stand → File)
    (stands : List Stand) (query : List Query) :
    Skipping.read rows keeps mayContain (stands.map file) query =
      Skipping.read (fun stand => rows (file stand)) keeps
        (fun condition stand => mayContain condition (file stand)) stands query := by
  rw [Skipping.read, Skipping.read, List.filter_map, List.flatMap_map]
  rfl

/-- An exported snapshot denotes its live rows exactly if no row is deleted and no bound misread. -/
theorem denotes_exportTable_iff {avro : List ManifestEntry → List UInt8}
    {tableUuid location : String} {now : Int} {snapshot : Option Nat} {schema : TableSchema}
    {manifest : Manifest} {exported : Export} (latest : source.latestSchema = some schema)
    (numbered : schema.Numbered)
    (chosen : source.chooseManifest table schema snapshot = .ok manifest) {groups : List (Group R)}
    (stored : List.Forall₂ (Stored unicode cell source schema.columns) manifest.rowGroups groups)
    (accepted : exportTable unicode avro source table tableUuid location now snapshot =
      .ok exported) :
    Denotes cell source table exported (groups.flatMap Group.live) ↔
      ∀ group ∈ groups, group.Exportable unicode cell schema.columns := by
  have exports := exports_of_exportTable latest chosen accepted
  have fields := exports.fields numbered.positive
  obtain ⟨files, files_eq, records_eq⟩ := exports.files
  have told : List.Forall₂ (fun record group =>
      Tells source table schema.columns record group ∧
        ∃ entry, Stored unicode cell source schema.columns entry group)
      (exported.manifest.map ManifestEntry.dataFile) groups := by
    rw [records_eq, List.forall₂_map_left_iff]
    apply (List.forall₂_of_mapM_eq_ok files_eq).through stored
    intro entry file group written held
    exact ⟨tells_of_exportFile numbered held written, entry, held⟩
  obtain ⟨length_eq, tells⟩ := List.forall₂_iff_zip.mp told
  -- every record stands beside the row group that it is about
  obtain ⟨stands, stands_eq⟩ : ∃ stands, stands =
    (exported.manifest.map ManifestEntry.dataFile).zip groups := ⟨_, rfl⟩
  have left_eq : exported.manifest.map ManifestEntry.dataFile = stands.map Prod.fst := by
    rw [stands_eq, List.map_fst_zip length_eq.le]
  have right_eq : groups = stands.map Prod.snd := by
    rw [stands_eq, List.map_snd_zip length_eq.ge]
  have each : ∀ stand ∈ stands, Tells source table schema.columns stand.1 stand.2 ∧
      ∃ entry, Stored unicode cell source schema.columns entry stand.2 := by
    intro stand member
    rw [stands_eq] at member
    exact tells member
  have parts : ∀ stand ∈ stands, stand.2.live.Sublist (rowsAt source table stand.1) := by
    intro stand member
    rw [(each stand member).1.rows]
    exact live_sublist stand.2
  have rows_iff : (∀ filters, (readExport cell source table exported filters).Perm
      ((groups.flatMap Group.live).filter fun row => filters.all (Filter.keeps cell · row))) ↔
      ∀ group ∈ groups, group.Exportable unicode cell schema.columns := by
    simp only [readExport, left_eq, read_map, right_eq, List.flatMap_map, List.forall_mem_map]
    rw [Skipping.forall_perm_read_iff parts]
    apply forall₂_congr
    intro stand member
    obtain ⟨tells, entry, stored⟩ := each stand member
    rw [tells.rows, live_eq_rows_iff, forall_mayContain_iff numbered fields stored tells]
    exact ⟨fun both => ⟨both.1, both.2⟩, fun both => ⟨both.whole, both.bounds⟩⟩
  constructor
  · intro denotes
    exact rows_iff.mp denotes.rows
  · intro exportable
    have counts : (exported.manifest.map fun entry => entry.dataFile.recordCount.toInt).sum =
        (groups.flatMap Group.live).length := by
      have counts_eq : (exported.manifest.map fun entry => entry.dataFile.recordCount.toInt) =
          stands.map fun stand => (stand.2.live.length : Int) := by
        have split : (exported.manifest.map fun entry => entry.dataFile.recordCount.toInt) =
            (stands.map Prod.fst).map fun record => record.recordCount.toInt := by
          rw [← left_eq, List.map_map]
          rfl
        rw [split, List.map_map]
        apply List.map_congr_left
        intro stand member
        rw [(live_eq_rows_iff stand.2).mpr (exportable stand.2 (by
          rw [right_eq]
          exact List.mem_map_of_mem member)).whole]
        exact (each stand member).1.count
      rw [counts_eq, right_eq, List.flatMap_map, List.length_flatMap, Nat.cast_list_sum,
        List.map_map]
      rfl
    refine ⟨rows_iff.mpr exportable, counts, fun entry member => ?_⟩
    rw [exports.total entry member, counts, Int64.ofInt_eq_ofNat]

/-! ## A table of numbers -/

/-- A table with one row group of the numbers one to three, some of them deleted. -/
def numbers (deletes : Option String) : Source Int where
  latestSchema := some ⟨⟨1, [⟨"id", "int64", false, 1⟩]⟩, none⟩
  latestManifest := some
    { sequence := 1
      schemaId := 1
      rowGroups := [⟨"rg.parquet", "rg.meta", 0, deletes, 0, none⟩] }
  manifests := ∅
  files := ((∅ : HashMap String (UInt64 × Contents Int)).insert "rg.parquet" (0, .data [1, 2, 3])
    |>.insert "rg.meta" (0, .sidecar ⟨3, (∅ : HashMap String ColumnStatistics).insert "id"
      ⟨some (.int 1), some (.int 3), 0⟩⟩)
    |>.insert "rg.del" (0, .deletions {0}))

def numberCell (name : String) (row : Int) : Option SingleValue :=
  if name = "id" then some (.integer row) else none

/-- The row group of such a table. -/
def numberGroup (deleted : DeletionVector) : Group Int :=
  ⟨[1, 2, 3], deleted, ⟨3, (∅ : HashMap String ColumnStatistics).insert "id"
    ⟨some (.int 1), some (.int 3), 0⟩⟩⟩

theorem values_numberGroup (deleted : DeletionVector) :
    (numberGroup deleted).values numberCell "id" = [.integer 1, .integer 2, .integer 3] :=
  rfl

theorem statistics_numberGroup {deleted : DeletionVector} {type : SingleType}
    {stats : ColumnStatistics}
    (type_eq : Column.singleType asciiTables ⟨"id", "int64", false, 1⟩ = some type)
    (stats_eq : (numberGroup deleted).sidecar.columns.lookup "id" = some stats) :
    type = .long ∧ stats = ⟨some (.int 1), some (.int 3), 0⟩ := by
  have long : Column.singleType asciiTables ⟨"id", "int64", false, 1⟩ = some .long := by
    decide +kernel
  have own : (numberGroup deleted).sidecar.columns.lookup "id" =
      some ⟨some (.int 1), some (.int 3), 0⟩ := rfl
  exact ⟨Option.some.inj (type_eq.symm.trans long), Option.some.inj (stats_eq.symm.trans own)⟩

theorem stored_numbers {deletes : Option String} {deleted : DeletionVector}
    (vector : deletes = none ∧ deleted = ∅ ∨ deletes = some "rg.del" ∧ deleted = {0}) :
    Stored asciiTables numberCell (numbers deletes) [⟨"id", "int64", false, 1⟩]
      ⟨"rg.parquet", "rg.meta", 0, deletes, 0, none⟩ (numberGroup deleted) where
  data := ⟨0, rfl⟩
  deletions := by
    rcases vector with ⟨rfl, rfl⟩ | ⟨rfl, rfl⟩
    · rfl
    · exact ⟨0, rfl⟩
  sidecar := ⟨0, rfl⟩
  rows := rfl
  small := show 3 < 2 ^ 63 by decide
  recorded := by
    intro column column_mem type type_eq stats stats_eq
    obtain rfl := List.mem_singleton.mp column_mem
    obtain ⟨rfl, rfl⟩ := statistics_numberGroup type_eq stats_eq
    rw [values_numberGroup]
    constructor
    · rintro statistic ⟨⟩
      exact .inr ⟨.integer 1, by decide, rfl, by decide⟩
    · rintro statistic ⟨⟩
      exact .inr ⟨.integer 3, by decide, rfl, by decide⟩

theorem denotes_numbers : ∃ exported,
    exportTable asciiTables (fun _ => []) (numbers none) "t" "" "" 0 none = .ok exported ∧
      Denotes numberCell (numbers none) "t" exported [1, 2, 3] := by
  have accepted : (exportTable asciiTables (fun _ => []) (numbers none) "t" "" "" 0
      none).toOption.isSome := by
    decide +kernel
  cases exported_eq : exportTable asciiTables (fun _ => []) (numbers none) "t" "" "" 0 none with
  | error error =>
      rw [exported_eq] at accepted
      cases accepted
  | ok exported =>
      have numbered : (⟨1, [⟨"id", "int64", false, 1⟩]⟩ : Schema).Numbered :=
        ⟨by decide, by decide, by decide⟩
      refine ⟨exported, rfl, (denotes_exportTable_iff rfl numbered rfl
        (.cons (stored_numbers (.inl ⟨rfl, rfl⟩)) .nil) exported_eq).mpr ?_⟩
      intro group group_mem
      obtain rfl := List.mem_singleton.mp group_mem
      refine ⟨nofun, ?_⟩
      intro column column_mem type type_eq stats stats_eq
      obtain rfl := List.mem_singleton.mp column_mem
      obtain ⟨rfl, rfl⟩ := statistics_numberGroup type_eq stats_eq
      rintro ⟨number, min_eq, length_eq⟩
      cases min_eq
      exact absurd length_eq (by decide)

/-- The first number is deleted, and is read from the exported metadata all the same. -/
theorem not_denotes_numbers : ∃ exported,
    exportTable asciiTables (fun _ => []) (numbers (some "rg.del")) "t" "" "" 0 none =
      .ok exported ∧
    Stored asciiTables numberCell (numbers (some "rg.del")) [⟨"id", "int64", false, 1⟩]
      ⟨"rg.parquet", "rg.meta", 0, some "rg.del", 0, none⟩ (numberGroup {0}) ∧
    (numberGroup {0}).live = [2, 3] ∧
    ¬ Denotes numberCell (numbers (some "rg.del")) "t" exported [2, 3] := by
  have reads : (exportTable asciiTables (fun _ => []) (numbers (some "rg.del")) "t" "" "" 0
      none).toOption.map (fun exported =>
        (readExport numberCell (numbers (some "rg.del")) "t" exported []).length) = some 3 := by
    decide +kernel
  cases exported_eq : exportTable asciiTables (fun _ => []) (numbers (some "rg.del")) "t" "" "" 0
      none with
  | error error =>
      rw [exported_eq] at reads
      cases reads
  | ok exported =>
      rw [exported_eq] at reads
      have length_eq :
          (readExport numberCell (numbers (some "rg.del")) "t" exported []).length = 3 :=
        Option.some.inj reads
      refine ⟨exported, rfl, stored_numbers (.inr ⟨rfl, rfl⟩), by decide, fun denotes => ?_⟩
      have same := (denotes.rows []).length_eq
      rw [length_eq] at same
      exact absurd same (by decide)

end Iceberg

end IcefallDB
