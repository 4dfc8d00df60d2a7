import IcefallDB.Lib.Json
import IcefallDB.Lib.Options
import IcefallDB.Lib.Script
import IcefallDB.TypeStrings.Printing
import Mathlib

/-!
# Exported schemas

The export writes the schema of a table as an Iceberg schema.  Columns keep the field ids of the
table, and what is nested in a type is numbered from one again at every level.
-/

namespace IcefallDB

namespace Iceberg

/-! ## Types -/

/-- The name of a type without parameters.  Unsigned integers have none. -/
def primitiveName : Primitive → Option String
  | .boolean => some "boolean"
  | .int8 | .int16 | .int32 => some "int"
  | .int64 => some "long"
  | .uint8 | .uint16 | .uint32 | .uint64 => none
  | .float32 => some "float"
  | .float64 => some "double"
  | .utf8 | .largeUtf8 => some "string"
  | .binary | .largeBinary => some "binary"

/-- A list of elements. -/
def listType (element : Json) (nullable : Bool) : Json :=
  .obj [("type", .str "list"), ("element-id", .num 1), ("element", element),
    ("element-required", .bool !nullable)]

/-- A field of a struct, or a column. -/
def fieldJson (id : Int) (name : String) (fieldType : Json) (nullable : Bool) : Json :=
  .obj [("id", .num id), ("name", .str name), ("type", fieldType), ("required", .bool !nullable)]

mutual

/-- The Iceberg type of an Arrow type. -/
def arrowTypeToIceberg : ArrowType → Option Json
  | .primitive primitive => (primitiveName primitive).map .str
  | .timestamp _ => some (.str "timestamp")
  | .fixedSizeBinary size => some (.obj [("type", .str "fixed"), ("length", .num size.toInt)])
  | .decimal128 precision scale =>
      some (.obj [("type", .str "decimal"), ("precision", .num precision.toNat),
        ("scale", .num scale.toInt)])
  | .list (.mk _ item nullable) => do
      let element ← arrowTypeToIceberg item
      some (listType element nullable)
  | .largeList (.mk _ item nullable) => do
      let element ← arrowTypeToIceberg item
      some (listType element nullable)
  | .struct fields => do
      let fields ← icebergFields fields 0
      some (.obj [("type", .str "struct"), ("fields", .arr fields)])
  | .map (.mk _ (.struct entries) _) _ => do
      let (key, _) ← icebergNamed "key" entries
      let (value, nullable) ← icebergNamed "value" entries
      some (.obj [("type", .str "map"), ("key-id", .num 1), ("key", key), ("value-id", .num 2),
        ("value", value), ("value-required", .bool !nullable)])
  | .map _ _ => none
  | .date32 => some (.str "date")
  | .date64 => some (.str "date")
  | .other _ => none

/-- The fields of a struct, numbered by their positions. -/
def icebergFields : List ArrowField → Nat → Option (List Json)
  | [], _ => some []
  | .mk name dataType nullable :: fields, index => do
      let fieldType ← arrowTypeToIceberg dataType
      let rest ← icebergFields fields (index + 1)
      some (fieldJson (index + 1 : Nat) name fieldType nullable :: rest)

/-- The type of the first field of a name, and whether it is nullable. -/
def icebergNamed (name : String) : List ArrowField → Option (Json × Bool)
  | [] => none
  | .mk own dataType nullable :: fields =>
      if own = name then do
        let fieldType ← arrowTypeToIceberg dataType
        some (fieldType, nullable)
      else icebergNamed name fields

end

/-! ## Schemas -/

/-- A column of a schema, with its type as text. -/
structure Column where
  name : String
  typeStr : String
  nullable : Bool
  fieldId : Int32

structure Schema where
  schemaId : UInt64
  columns : List Column

/-- A type without a counterpart in Iceberg. -/
inductive TypeNotSupported
  /-- The text is no type. -/
  | icefalldbType (column type : String)
  /-- The type is not exported. -/
  | arrowType (column : String) (dataType : ArrowType)

variable (unicode : UnicodeTables)

/-- The type of a column. -/
def Column.icebergType (column : Column) : Except TypeNotSupported Json :=
  match icefalldbTypeToArrow unicode column.typeStr with
  | none => .error (.icefalldbType column.name column.typeStr)
  | some dataType =>
      match arrowTypeToIceberg dataType with
      | none => .error (.arrowType column.name dataType)
      | some icebergType => .ok icebergType

/-- The columns of a schema.  A column without a field id gets its position. -/
def icebergColumns : List Column → Nat → Except TypeNotSupported (List Json)
  | [], _ => .ok []
  | column :: columns, index => do
      let fieldId := if 0 < column.fieldId then column.fieldId else Int32.ofNat (index + 1)
      let icebergType ← column.icebergType unicode
      let rest ← icebergColumns columns (index + 1)
      .ok (fieldJson fieldId.toInt column.name icebergType column.nullable :: rest)

/-- The Iceberg schema of a table. -/
def toIcebergSchema (schema : Schema) : Except TypeNotSupported Json := do
  let fields ← icebergColumns unicode schema.columns 0
  .ok (.obj [("type", .str "struct"), ("schema-id", .num schema.schemaId.toInt64.toInt),
    ("fields", .arr fields)])

/-- The field id after those of the columns. -/
def maxFieldId (columns : List Column) : Int32 :=
  ((columns.map fun column => max column.fieldId 1).max?).getD 0 + 1

/-- The metadata of a table with one schema. -/
def buildTableMetadata (schema : Schema) (tableUuid location : String)
    (lastSequenceNumber currentSnapshotId : Int) (snapshots : List Json)
    (partitionSpec : Option Json) (lastPartitionId : Int) (sortOrder : Option Json)
    (schemaFieldIdsStart : Int32) (lastUpdatedMs : Int) : Except TypeNotSupported Json := do
  let icebergSchema ← toIcebergSchema unicode schema
  let partitionSpecs :=
    match partitionSpec with
    | some spec => [spec]
    | none => [.obj [("spec-id", .num 0), ("fields", .arr [])]]
  let sortOrders :=
    match sortOrder with
    | some order => [order]
    | none => [.obj [("order-id", .num 0), ("fields", .arr [])]]
  .ok (.obj [("format-version", .num 2), ("table-uuid", .str tableUuid),
    ("location", .str location), ("last-sequence-number", .num lastSequenceNumber),
    ("last-updated-ms", .num lastUpdatedMs),
    ("last-column-id", .num (schemaFieldIdsStart - 1).toInt), ("schemas", .arr [icebergSchema]),
    ("current-schema-id", .num schema.schemaId.toInt64.toInt),
    ("partition-specs", .arr partitionSpecs),
    ("default-spec-id", .num 0), ("last-partition-id", .num lastPartitionId),
    ("sort-orders", .arr sortOrders), ("default-sort-order-id", .num 0), ("properties", .obj []),
    ("current-snapshot-id", .num currentSnapshotId), ("snapshots", .arr snapshots),
    ("snapshot-log", .arr []), ("metadata-log", .arr []),
    ("refs", .obj [("main",
      .obj [("snapshot-id", .num currentSnapshotId), ("type", .str "branch")])])])

/-- The value of a key of an object. -/
def member (key : String) : Json → Option Json
  | .obj entries => entries.lookup key
  | _ => none

/-! ## Ids -/

/-- The keys that ids stand behind. -/
def idKeys : List String := ["id", "element-id", "key-id", "value-id"]

mutual

/-- The ids in a schema: those of columns and fields, elements, keys and values. -/
def schemaIds : Json → List Int
  | .arr items => itemIds items
  | .obj entries => entryIds entries
  | _ => []

def itemIds : List Json → List Int
  | [] => []
  | item :: items => schemaIds item ++ itemIds items

def entryIds : List (String × Json) → List Int
  | [] => []
  | (key, .num id) :: entries => if key ∈ idKeys then id :: entryIds entries else entryIds entries
  | (_, value) :: entries => schemaIds value ++ entryIds entries

end

/-- The types that are nested in a type and get an id. -/
def children : ArrowType → List ArrowType
  | .list item => [item.dataType]
  | .largeList item => [item.dataType]
  | .struct fields => fields.map ArrowField.dataType
  | .map (.mk _ (.struct entries) _) _ =>
      ((entries.find? fun field => field.name = "key").toList ++
        (entries.find? fun field => field.name = "value").toList).map ArrowField.dataType
  | _ => []

/-! ## Ids of a type -/

theorem entryIds_id {key : String} (named : key ∈ idKeys) (id : Int)
    (entries : List (String × Json)) : entryIds ((key, .num id) :: entries) =
      id :: entryIds entries := by
  rw [entryIds, if_pos named]

/-- Behind any other key only the value has ids. -/
theorem entryIds_other {key : String} (other : key ∉ idKeys) (value : Json)
    (entries : List (String × Json)) :
    entryIds ((key, value) :: entries) = schemaIds value ++ entryIds entries := by
  cases value with
  | num id =>
      rw [entryIds, if_neg other]
      rfl
  | _ => rw [entryIds]; nofun

theorem entryIds_nil : entryIds [] = [] := by
  rw [entryIds]

theorem schemaIds_str (text : String) : schemaIds (.str text) = [] := by
  rw [schemaIds] <;> nofun

theorem schemaIds_bool (value : Bool) : schemaIds (.bool value) = [] := by
  rw [schemaIds] <;> nofun

theorem schemaIds_fieldJson (id : Int) (name : String) (type : Json) (nullable : Bool) :
    schemaIds (fieldJson id name type nullable) = id :: schemaIds type := by
  rw [fieldJson, schemaIds, entryIds_id (by simp [idKeys]), entryIds_other (by simp [idKeys]),
    entryIds_other (by simp [idKeys]), entryIds_other (by simp [idKeys]), entryIds_nil,
    schemaIds_str, schemaIds_bool, List.append_nil, List.append_nil, List.nil_append]

theorem schemaIds_listType (element : Json) (nullable : Bool) :
    schemaIds (listType element nullable) = 1 :: (schemaIds element ++ []) := by
  rw [listType, schemaIds, entryIds_other (by simp [idKeys]), entryIds_id (by simp [idKeys]),
    entryIds_other (by simp [idKeys]), entryIds_other (by simp [idKeys]), entryIds_nil,
    schemaIds_str, schemaIds_bool, List.append_nil, List.nil_append]

/-- Ids counted up over types, each followed by the ids in the type. -/
def numberedIds : Nat → List Json → List Int
  | _, [] => []
  | first, type :: types => (first : Int) :: (schemaIds type ++ numberedIds (first + 1) types)

theorem exists_icebergFields {fields : List ArrowField} {index : Nat} {items : List Json}
    (converted : icebergFields fields index = some items) :
    ∃ types, List.Forall₂ (fun child type => arrowTypeToIceberg child = some type)
      (fields.map ArrowField.dataType) types ∧ itemIds items = numberedIds (index + 1) types := by
  induction fields generalizing index items with
  | nil =>
      rw [icebergFields] at converted
      obtain rfl := Option.some.inj converted
      exact ⟨[], .nil, rfl⟩
  | cons field fields ih =>
      obtain ⟨name, dataType, nullable⟩ := field
      rw [icebergFields] at converted
      obtain ⟨type, type_eq, others⟩ := Option.bind_eq_some_iff.mp converted
      obtain ⟨rest, rest_eq, same⟩ := Option.bind_eq_some_iff.mp others
      obtain rfl := Option.some.inj same
      obtain ⟨types, related, ids_eq⟩ := ih rest_eq
      refine ⟨type :: types, .cons type_eq related, ?_⟩
      rw [itemIds, schemaIds_fieldJson, ids_eq, numberedIds, List.cons_append]

theorem exists_icebergNamed {name : String} {fields : List ArrowField} {type : Json}
    {nullable : Bool} (converted : icebergNamed name fields = some (type, nullable)) :
    ∃ field, (fields.find? fun field => field.name = name) = some field ∧
      arrowTypeToIceberg field.dataType = some type := by
  induction fields with
  | nil => cases converted
  | cons field fields ih =>
      obtain ⟨own, dataType, ownNullable⟩ := field
      rw [icebergNamed] at converted
      split at converted
      · next same =>
          obtain ⟨own_type, type_eq, pair⟩ := Option.bind_eq_some_iff.mp converted
          obtain ⟨rfl, -⟩ := Prod.mk.inj (Option.some.inj pair)
          exact ⟨_, List.find?_cons_of_pos (decide_eq_true same), type_eq⟩
      · next other =>
          obtain ⟨found, found_eq, type_eq⟩ := ih converted
          refine ⟨found, ?_, type_eq⟩
          rw [List.find?_cons_of_neg, found_eq]
          rw [decide_eq_true_eq]
          exact other

variable {dataType : ArrowType} {json : Json}

/-- The ids of a type count its children, and every child counts its own. -/
theorem exists_children (converted : arrowTypeToIceberg dataType = some json) :
    ∃ types, List.Forall₂ (fun child type => arrowTypeToIceberg child = some type)
      (children dataType) types ∧ schemaIds json = numberedIds 1 types := by
  cases dataType with
  | primitive primitive =>
      obtain ⟨name, -, rfl⟩ := Option.map_eq_some_iff.mp converted
      exact ⟨[], .nil, rfl⟩
  | timestamp zone =>
      obtain rfl := Option.some.inj converted
      exact ⟨[], .nil, rfl⟩
  | fixedSizeBinary size =>
      obtain rfl := Option.some.inj converted
      refine ⟨[], .nil, ?_⟩
      simp [schemaIds, entryIds, idKeys, numberedIds]
  | decimal128 precision scale =>
      obtain rfl := Option.some.inj converted
      refine ⟨[], .nil, ?_⟩
      simp [schemaIds, entryIds, idKeys, numberedIds]
  | list item =>
      obtain ⟨name, itemType, nullable⟩ := item
      rw [arrowTypeToIceberg] at converted
      obtain ⟨element, element_eq, same⟩ := Option.bind_eq_some_iff.mp converted
      obtain rfl := Option.some.inj same
      exact ⟨[element], .cons element_eq .nil, schemaIds_listType element nullable⟩
  | largeList item =>
      obtain ⟨name, itemType, nullable⟩ := item
      rw [arrowTypeToIceberg] at converted
      obtain ⟨element, element_eq, same⟩ := Option.bind_eq_some_iff.mp converted
      obtain rfl := Option.some.inj same
      exact ⟨[element], .cons element_eq .nil, schemaIds_listType element nullable⟩
  | struct fields =>
      rw [arrowTypeToIceberg] at converted
      obtain ⟨items, items_eq, same⟩ := Option.bind_eq_some_iff.mp converted
      obtain rfl := Option.some.inj same
      obtain ⟨types, related, ids_eq⟩ := exists_icebergFields items_eq
      refine ⟨types, related, ?_⟩
      simp [schemaIds, entryIds_other, entryIds_nil, idKeys, ids_eq]
  | map field sorted =>
      obtain ⟨name, entries, nullable⟩ := field
      cases entries with
      | struct entries =>
          rw [arrowTypeToIceberg] at converted
          obtain ⟨⟨key, keyNullable⟩, key_eq, others⟩ := Option.bind_eq_some_iff.mp converted
          obtain ⟨⟨value, valueNullable⟩, value_eq, same⟩ := Option.bind_eq_some_iff.mp others
          obtain rfl := Option.some.inj same
          obtain ⟨keyField, key_found, key_type⟩ := exists_icebergNamed key_eq
          obtain ⟨valueField, value_found, value_type⟩ := exists_icebergNamed value_eq
          refine ⟨[key, value], ?_, ?_⟩
          · rw [children, key_found, value_found]
            exact .cons key_type (.cons value_type .nil)
          · rw [schemaIds, entryIds_other (by simp [idKeys]), entryIds_id (by simp [idKeys]),
              entryIds_other (by simp [idKeys]), entryIds_id (by simp [idKeys]),
              entryIds_other (by simp [idKeys]), entryIds_other (by simp [idKeys]), entryIds_nil,
              schemaIds_str, schemaIds_bool, numberedIds, numberedIds, numberedIds,
              List.append_nil, List.nil_append]
            rfl
      | _ => cases converted
  | date32 =>
      obtain rfl := Option.some.inj converted
      exact ⟨[], .nil, rfl⟩
  | date64 =>
      obtain rfl := Option.some.inj converted
      exact ⟨[], .nil, rfl⟩
  | other debug => cases converted

theorem mem_numberedIds {types : List Json} {type : Json} (member : type ∈ types) {id : Int}
    (own : id ∈ schemaIds type) (first : Nat) : id ∈ numberedIds first types := by
  induction types generalizing first with
  | nil => cases member
  | cons head types ih =>
      rw [numberedIds]
      apply List.mem_cons_of_mem
      rcases List.mem_cons.mp member with rfl | later
      · exact List.mem_append_left _ own
      · exact List.mem_append_right _ (ih later (first + 1))

theorem numberedIds_of_flat {types : List Json} (flat : ∀ type ∈ types, schemaIds type = [])
    (first : Nat) :
    numberedIds first types = (List.range' first types.length).map Nat.cast := by
  induction types generalizing first with
  | nil => rfl
  | cons type types ih =>
      rw [numberedIds, flat type List.mem_cons_self, List.nil_append,
        ih (fun other later => flat other (List.mem_cons_of_mem type later)), List.length_cons,
        List.range'_succ, List.map_cons]

/-- A type has ids if it has children, and then the id one. -/
theorem schemaIds_cases (converted : arrowTypeToIceberg dataType = some json) :
    children dataType = [] ∧ schemaIds json = [] ∨
      children dataType ≠ [] ∧ ∃ others, schemaIds json = 1 :: others := by
  obtain ⟨types, related, ids_eq⟩ := exists_children converted
  rw [ids_eq]
  generalize children dataType = nested at related
  cases related with
  | nil => exact .inl ⟨rfl, rfl⟩
  | cons child_eq others => exact .inr ⟨List.cons_ne_nil _ _, _, rfl⟩

theorem flat_of_children {dataTypes : List ArrowType} {types : List Json}
    (related : List.Forall₂ (fun child type => arrowTypeToIceberg child = some type) dataTypes
      types)
    (flat : ∀ child ∈ dataTypes, children child = []) : ∀ type ∈ types, schemaIds type = [] := by
  intro type member
  obtain ⟨child, child_member, converted⟩ := related.exists_of_mem_right member
  rcases schemaIds_cases converted with ⟨-, none⟩ | ⟨some, -⟩
  · exact none
  · exact absurd (flat child child_member) some

/-- The ids of a type are distinct if no child of it has children. -/
theorem nodup_schemaIds_iff (converted : arrowTypeToIceberg dataType = some json) :
    (schemaIds json).Nodup ↔ ∀ child ∈ children dataType, children child = [] := by
  obtain ⟨types, related, ids_eq⟩ := exists_children converted
  rw [ids_eq]
  constructor
  · intro nodup child child_member
    obtain ⟨type, type_member, child_converted⟩ := related.exists_of_mem_left child_member
    rcases schemaIds_cases child_converted with ⟨none, -⟩ | ⟨-, others, child_ids⟩
    · exact none
    · have one : (1 : Int) ∈ schemaIds type := child_ids ▸ List.mem_cons_self
      cases types with
      | nil => cases type_member
      | cons head types =>
          rw [numberedIds, List.nodup_cons] at nodup
          refine absurd ?_ nodup.1
          rcases List.mem_cons.mp type_member with rfl | later
          · exact List.mem_append_left _ one
          · exact List.mem_append_right _ (mem_numberedIds later one _)
  · intro flat
    rw [numberedIds_of_flat (flat_of_children related flat)]
    exact List.Nodup.map (fun _ _ same => Int.ofNat.inj same) List.nodup_range'

/-- Below the children of a type there are no ids, if no child has children. -/
theorem schemaIds_of_flat (converted : arrowTypeToIceberg dataType = some json)
    (flat : ∀ child ∈ children dataType, children child = []) :
    schemaIds json = (List.range' 1 (children dataType).length).map Nat.cast := by
  obtain ⟨types, related, ids_eq⟩ := exists_children converted
  rw [ids_eq, numberedIds_of_flat (flat_of_children related flat), related.length_eq]

/-! ## Ids of a schema -/

/-- The types that are nested in the type of a column. -/
def Column.children (column : Column) : List ArrowType :=
  ((icefalldbTypeToArrow unicode column.typeStr).map Iceberg.children).getD []

/-- The ids below a column. -/
def Column.nestedIds (column : Column) : List Int :=
  match column.icebergType unicode with
  | .ok icebergType => schemaIds icebergType
  | .error _ => []

/-- One column at most has a nested type.  It has one level, and its ids from one on are free and
not above every field id. -/
structure LocalIdsFit (columns : List Column) : Prop where
  single : columns.Pairwise fun left right =>
    left.children unicode = [] ∨ right.children unicode = []
  flat : ∀ column ∈ columns, ∀ child ∈ column.children unicode, Iceberg.children child = []
  free : ∀ column ∈ columns, ∀ position < (column.children unicode).length, ∀ other ∈ columns,
    other.fieldId.toInt ≠ position + 1
  below : ∀ column ∈ columns, ∃ other ∈ columns,
    (column.children unicode).length ≤ other.fieldId.toInt

variable {unicode}

variable {column : Column}

theorem icebergType_eq_ok (converted : column.icebergType unicode = .ok json) :
    ∃ dataType, icefalldbTypeToArrow unicode column.typeStr = some dataType ∧
      arrowTypeToIceberg dataType = some json ∧
        column.children unicode = Iceberg.children dataType ∧
          column.nestedIds unicode = schemaIds json := by
  have nested : column.nestedIds unicode = schemaIds json := by
    rw [Column.nestedIds, converted]
  unfold Column.icebergType at converted
  split at converted
  · cases converted
  · next dataType parsed =>
      split at converted
      · cases converted
      · next icebergType iceberg =>
          obtain rfl := Except.ok.inj converted
          refine ⟨dataType, parsed, iceberg, ?_, nested⟩
          rw [Column.children, parsed]
          rfl

variable {columns : List Column}

/-- Every column is converted, with its field id if that is positive. -/
theorem itemIds_of_icebergColumns {index : Nat} {items : List Json}
    (positive : ∀ column ∈ columns, 0 < column.fieldId)
    (converted : icebergColumns unicode columns index = .ok items) :
    (∀ column ∈ columns, ∃ json, column.icebergType unicode = .ok json) ∧
      itemIds items =
        columns.flatMap fun column => column.fieldId.toInt :: column.nestedIds unicode := by
  induction columns generalizing index items with
  | nil =>
      obtain rfl := Except.ok.inj converted
      exact ⟨nofun, rfl⟩
  | cons column columns ih =>
      rw [icebergColumns] at converted
      obtain ⟨json, json_eq, others⟩ := Script.except_bind_eq_ok.mp converted
      obtain ⟨rest, rest_eq, same⟩ := Script.except_bind_eq_ok.mp others
      obtain rfl := Except.ok.inj same
      obtain ⟨all, ids_eq⟩ :=
        ih (fun other later => positive other (List.mem_cons_of_mem column later)) rest_eq
      constructor
      · intro other member
        rcases List.mem_cons.mp member with rfl | later
        · exact ⟨json, json_eq⟩
        · exact all other later
      · obtain ⟨-, -, -, -, nested⟩ := icebergType_eq_ok json_eq
        rw [if_pos (positive column List.mem_cons_self), itemIds, schemaIds_fieldJson, ids_eq,
          List.flatMap_cons, nested]

/-- The ids of an exported schema. -/
theorem schemaIds_toIcebergSchema {schema : Schema}
    (positive : ∀ column ∈ schema.columns, 0 < column.fieldId)
    (converted : toIcebergSchema unicode schema = .ok json) :
    (∀ column ∈ schema.columns, ∃ json, column.icebergType unicode = .ok json) ∧
      schemaIds json =
        schema.columns.flatMap fun column => column.fieldId.toInt :: column.nestedIds unicode := by
  obtain ⟨fields, fields_eq, same⟩ := Script.except_bind_eq_ok.mp converted
  obtain rfl := Except.ok.inj same
  obtain ⟨all, ids_eq⟩ := itemIds_of_icebergColumns positive fields_eq
  refine ⟨all, ?_⟩
  rw [schemaIds, entryIds_other (by simp [idKeys]), entryIds_other (by simp [idKeys]),
    entryIds_other (by simp [idKeys]), entryIds_nil, schemaIds_str, schemaIds, ids_eq,
    List.append_nil]
  rfl

/-- The ids below a column, by the types nested in its type. -/
theorem nestedIds_cases (converted : column.icebergType unicode = .ok json) :
    column.children unicode = [] ∧ column.nestedIds unicode = [] ∨
      column.children unicode ≠ [] ∧ 1 ∈ column.nestedIds unicode := by
  obtain ⟨dataType, -, iceberg, children_eq, nested_eq⟩ := icebergType_eq_ok converted
  rw [children_eq, nested_eq]
  rcases schemaIds_cases iceberg with ⟨none, no_ids⟩ | ⟨some, others, ids_eq⟩
  · exact .inl ⟨none, no_ids⟩
  · exact .inr ⟨some, ids_eq ▸ List.mem_cons_self⟩

theorem nodup_nestedIds_iff (converted : column.icebergType unicode = .ok json) :
    (column.nestedIds unicode).Nodup ↔
      ∀ child ∈ column.children unicode, Iceberg.children child = [] := by
  obtain ⟨dataType, -, iceberg, children_eq, nested_eq⟩ := icebergType_eq_ok converted
  rw [children_eq, nested_eq]
  exact nodup_schemaIds_iff iceberg

theorem mem_nestedIds_of_flat (converted : column.icebergType unicode = .ok json)
    (flat : ∀ child ∈ column.children unicode, Iceberg.children child = []) (id : Int) :
    id ∈ column.nestedIds unicode ↔
      ∃ position < (column.children unicode).length, (position : Int) + 1 = id := by
  obtain ⟨dataType, -, iceberg, children_eq, nested_eq⟩ := icebergType_eq_ok converted
  rw [children_eq] at flat ⊢
  rw [nested_eq, schemaIds_of_flat iceberg flat, List.mem_map]
  constructor
  · rintro ⟨number, member, rfl⟩
    rw [List.mem_range'_1] at member
    exact ⟨number - 1, by omega, by omega⟩
  · rintro ⟨position, inside, rfl⟩
    refine ⟨position + 1, ?_, Int.natCast_add position 1⟩
    rw [List.mem_range'_1]
    omega

theorem lawfulOrderMax : Std.LawfulOrderMax Int32 := by
  apply Std.LawfulOrderMax.of_max_le_iff
  · intro left right bound
    change (if left ≤ right then right else left) ≤ bound ↔ left ≤ bound ∧ right ≤ bound
    simp only [Int32.le_iff_toInt_le]
    split <;> omega
  · intro left right
    change (if left ≤ right then right else left) = left ∨
      (if left ≤ right then right else left) = right
    split
    · exact .inr rfl
    · exact .inl rfl

/-- The greatest field id is written as the last column id. -/
theorem exists_lastColumnId (positive : ∀ column ∈ columns, 0 < column.fieldId)
    (nonempty : columns ≠ []) :
    ∃ column ∈ columns, (maxFieldId columns - 1).toInt = column.fieldId.toInt ∧
      ∀ other ∈ columns, other.fieldId.toInt ≤ column.fieldId.toInt := by
  have own : columns.map (fun column => max column.fieldId 1) = columns.map Column.fieldId := by
    apply List.map_congr_left
    intro column member
    have least := Int32.lt_iff_toInt_lt.mp (positive column member)
    have zero : (0 : Int32).toInt = 0 := rfl
    have one : (1 : Int32).toInt = 1 := rfl
    change (if column.fieldId ≤ 1 then 1 else column.fieldId) = column.fieldId
    split
    · next small =>
        rw [Int32.le_iff_toInt_le] at small
        rw [← Int32.toInt_inj]
        omega
    · rfl
  have := lawfulOrderMax
  obtain ⟨greatest, greatest_eq⟩ :=
    Option.isSome_iff_exists.mp (List.isSome_max?_of_ne_nil (by simpa using nonempty :
      columns.map Column.fieldId ≠ []))
  obtain ⟨member, above⟩ := List.max?_eq_some_iff.mp greatest_eq
  obtain ⟨column, column_member, rfl⟩ := List.mem_map.mp member
  refine ⟨column, column_member, ?_, ?_⟩
  · rw [maxFieldId, own, greatest_eq, Option.getD_some, Int32.add_sub_cancel]
  · intro other other_member
    exact Int32.le_iff_toInt_le.mp (above _ (List.mem_map_of_mem other_member))

/-- The ids of columns and of what is nested in them are distinct if those below a column are few
and free. -/
theorem nodup_and_le_iff (positive : ∀ column ∈ columns, 0 < column.fieldId)
    (distinct : (columns.map Column.fieldId).Nodup)
    (converted : ∀ column ∈ columns, ∃ json, column.icebergType unicode = .ok json) :
    ((columns.flatMap fun column => column.fieldId.toInt :: column.nestedIds unicode).Nodup ∧
      ∀ id ∈ columns.flatMap fun column => column.fieldId.toInt :: column.nestedIds unicode,
        id ≤ (maxFieldId columns - 1).toInt) ↔ LocalIdsFit unicode columns := by
  rw [List.nodup_flatMap]
  constructor
  · rintro ⟨⟨each, apart⟩, bounded⟩
    have flat : ∀ column ∈ columns, ∀ child ∈ column.children unicode,
        Iceberg.children child = [] := by
      intro column member
      obtain ⟨json, json_eq⟩ := converted column member
      exact (nodup_nestedIds_iff json_eq).mp (List.nodup_cons.mp (each column member)).2
    have listed : ∀ column ∈ columns, ∀ position < (column.children unicode).length,
        (position : Int) + 1 ∈ column.nestedIds unicode := by
      intro column member position inside
      obtain ⟨json, json_eq⟩ := converted column member
      exact (mem_nestedIds_of_flat json_eq (flat column member) _).mpr ⟨position, inside, rfl⟩
    constructor
    · apply apart.imp_of_mem
      intro left right left_member right_member disjoint
      obtain ⟨_, left_eq⟩ := converted left left_member
      obtain ⟨_, right_eq⟩ := converted right right_member
      rcases nestedIds_cases left_eq with ⟨none, -⟩ | ⟨-, left_one⟩
      · exact .inl none
      · rcases nestedIds_cases right_eq with ⟨none, -⟩ | ⟨-, right_one⟩
        · exact .inr none
        · exact absurd (List.mem_cons_of_mem _ right_one)
            (disjoint (List.mem_cons_of_mem _ left_one))
    · exact flat
    · intro column member position inside other other_member same
      have below := listed column member position inside
      rw [← same] at below
      by_cases own : column = other
      · subst own
        exact (List.nodup_cons.mp (each column member)).1 below
      · have symmetric : Std.Symm (Function.onFun List.Disjoint fun column : Column =>
            column.fieldId.toInt :: column.nestedIds unicode) := ⟨fun _ _ => List.disjoint_symm⟩
        have disjoint := apart.forall member other_member own
        exact disjoint (List.mem_cons_of_mem _ below) List.mem_cons_self
    · intro column member
      obtain ⟨greatest, greatest_member, last_eq, above⟩ :=
        exists_lastColumnId positive (List.ne_nil_of_mem member)
      refine ⟨greatest, greatest_member, ?_⟩
      rw [← last_eq]
      cases length : (column.children unicode).length with
      | zero =>
          have own := bounded column.fieldId.toInt
            (List.mem_flatMap.mpr ⟨column, member, List.mem_cons_self⟩)
          have least := Int32.lt_iff_toInt_lt.mp (positive column member)
          have zero : (0 : Int32).toInt = 0 := rfl
          omega
      | succ count =>
          have last := listed column member count (by omega)
          have bound := bounded _
            (List.mem_flatMap.mpr ⟨column, member, List.mem_cons_of_mem _ last⟩)
          omega
  · intro fit
    have below : ∀ column ∈ columns, ∀ id ∈ column.nestedIds unicode,
        ∃ position < (column.children unicode).length, (position : Int) + 1 = id := by
      intro column member id nested
      obtain ⟨json, json_eq⟩ := converted column member
      exact (mem_nestedIds_of_flat json_eq (fit.flat column member) id).mp nested
    have free : ∀ column ∈ columns, ∀ other ∈ columns,
        other.fieldId.toInt ∉ column.nestedIds unicode := by
      intro column member other other_member nested
      obtain ⟨position, inside, same⟩ := below column member _ nested
      exact fit.free column member position inside other other_member same.symm
    refine ⟨⟨?_, ?_⟩, ?_⟩
    · intro column member
      obtain ⟨json, json_eq⟩ := converted column member
      rw [List.nodup_cons]
      exact ⟨free column member column member,
        (nodup_nestedIds_iff json_eq).mpr (fit.flat column member)⟩
    · apply (fit.single.and (List.pairwise_map.mp distinct)).imp_of_mem
      rintro left right left_member right_member ⟨single, other_id⟩
      rw [Function.onFun, List.disjoint_left]
      intro id left_id right_id
      rcases List.mem_cons.mp left_id with rfl | left_nested
      · rcases List.mem_cons.mp right_id with same | right_nested
        · exact other_id (Int32.toInt_inj.mp same)
        · exact free right right_member left left_member right_nested
      · rcases List.mem_cons.mp right_id with rfl | right_nested
        · exact free left left_member right right_member left_nested
        · obtain ⟨_, left_inside, -⟩ := below left left_member id left_nested
          obtain ⟨_, right_inside, -⟩ := below right right_member id right_nested
          rcases single with none | none
          · rw [none] at left_inside
            cases left_inside
          · rw [none] at right_inside
            cases right_inside
    · intro id id_member
      obtain ⟨column, member, own⟩ := List.mem_flatMap.mp id_member
      obtain ⟨greatest, greatest_member, last_eq, above⟩ :=
        exists_lastColumnId positive (List.ne_nil_of_mem member)
      rw [last_eq]
      rcases List.mem_cons.mp own with rfl | nested
      · exact above column member
      · obtain ⟨position, inside, rfl⟩ := below column member id nested
        obtain ⟨other, other_member, bound⟩ := fit.below column member
        have greater := above other other_member
        omega

/-- The ids of an exported schema are distinct, and none is above the last column id, if and only if
the ids below its columns are few and free. -/
theorem nodup_schemaIds_toIcebergSchema_iff {schema : Schema}
    (positive : ∀ column ∈ schema.columns, 0 < column.fieldId)
    (distinct : (schema.columns.map Column.fieldId).Nodup) {json metadata : Json}
    (converted : toIcebergSchema unicode schema = .ok json) {tableUuid location : String}
    {lastSequenceNumber currentSnapshotId lastPartitionId lastUpdatedMs : Int}
    {snapshots : List Json} {partitionSpec sortOrder : Option Json}
    (built : buildTableMetadata unicode schema tableUuid location lastSequenceNumber
      currentSnapshotId snapshots partitionSpec lastPartitionId sortOrder
      (maxFieldId schema.columns) lastUpdatedMs = .ok metadata) :
    ((schemaIds json).Nodup ∧ ∀ id ∈ schemaIds json, ∃ last,
      member "last-column-id" metadata = some (.num last) ∧ id ≤ last) ↔
      LocalIdsFit unicode schema.columns := by
  obtain ⟨all, ids_eq⟩ := schemaIds_toIcebergSchema positive converted
  have last_eq : member "last-column-id" metadata =
      some (.num (maxFieldId schema.columns - 1).toInt) := by
    obtain ⟨_, -, same⟩ := Script.except_bind_eq_ok.mp built
    obtain rfl := Except.ok.inj same
    rfl
  rw [← nodup_and_le_iff positive distinct all, ids_eq]
  apply and_congr_right'
  apply forall₂_congr
  intro id _
  rw [last_eq]
  simp

/-- Two columns of which the second is a list, with ids that leave the id one free. -/
theorem nodup_schemaIds_listColumn : ∃ schema json metadata,
    toIcebergSchema asciiTables schema = .ok json ∧
      buildTableMetadata asciiTables schema "" "" 1 1 [] none 0 none (maxFieldId schema.columns) 0 =
        .ok metadata ∧
      (schemaIds json).Nodup ∧ ∀ id ∈ schemaIds json, ∃ last,
        member "last-column-id" metadata = some (.num last) ∧ id ≤ last := by
  let plain : Column := ⟨"a", "int32", false, 5⟩
  let list : Column := ⟨"b", "list<utf8>", true, 7⟩
  have plain_children : plain.children asciiTables = [] :=
    List.isEmpty_iff.mp (by decide +kernel)
  have list_children : (list.children asciiTables).length = 1 ∧
      ∀ child ∈ list.children asciiTables, (children child).isEmpty = true := by
    decide +kernel
  have fit : LocalIdsFit asciiTables [plain, list] := by
    constructor
    · exact .cons (fun _ _ => .inl plain_children) (.cons nofun .nil)
    · simp only [List.forall_mem_cons, plain_children]
      exact ⟨nofun, fun child member => List.isEmpty_iff.mp (list_children.2 child member), nofun⟩
    · simp only [List.forall_mem_cons, plain_children, list_children.1, plain, list]
      decide
    · simp only [List.forall_mem_cons, plain_children, list_children.1]
      exact ⟨⟨plain, List.mem_cons_self, by decide⟩, ⟨plain, List.mem_cons_self, by decide⟩, nofun⟩
  have accepted : (toIcebergSchema asciiTables ⟨1, [plain, list]⟩).toOption.isSome := by
    decide +kernel
  cases converted : toIcebergSchema asciiTables ⟨1, [plain, list]⟩ with
  | error error =>
      rw [converted] at accepted
      cases accepted
  | ok json =>
      have built : ∃ metadata, buildTableMetadata asciiTables ⟨1, [plain, list]⟩ "" "" 1 1 [] none 0
          none (maxFieldId [plain, list]) 0 = .ok metadata := by
        rw [buildTableMetadata, converted]
        exact ⟨_, rfl⟩
      obtain ⟨metadata, built⟩ := built
      exact ⟨⟨1, [plain, list]⟩, json, metadata, converted, built,
        (nodup_schemaIds_toIcebergSchema_iff (by decide) (by decide) converted built).mpr fit⟩

/-- The element of a list has the id of the first column. -/
theorem not_nodup_schemaIds : ∃ json, toIcebergSchema asciiTables
    ⟨1, [⟨"a", "int32", false, 1⟩, ⟨"b", "list<utf8>", true, 2⟩]⟩ = .ok json ∧
      schemaIds json = [1, 2, 1] ∧ ¬ (schemaIds json).Nodup := by
  have ids : (toIcebergSchema asciiTables
      ⟨1, [⟨"a", "int32", false, 1⟩, ⟨"b", "list<utf8>", true, 2⟩]⟩).toOption.map schemaIds =
        some [1, 2, 1] := by
    decide +kernel
  cases converted : toIcebergSchema asciiTables
      ⟨1, [⟨"a", "int32", false, 1⟩, ⟨"b", "list<utf8>", true, 2⟩]⟩ with
  | error error =>
      rw [converted] at ids
      cases ids
  | ok json =>
      rw [converted] at ids
      have ids_eq : schemaIds json = [1, 2, 1] := Option.some.inj ids
      exact ⟨json, rfl, ids_eq, by rw [ids_eq]; decide⟩

end Iceberg

end IcefallDB
