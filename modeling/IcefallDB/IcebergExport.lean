import IcefallDB.IcebergSchema
import IcefallDB.Lib.Buffers
import IcefallDB.Lib.Conversion
import IcefallDB.Lib.JsonText
import IcefallDB.Lib.Skipping
import IcefallDB.Metadata.Checksum
import IcefallDB.Table.Files
import Mathlib.Data.Sum.Order

/-!
# Exported snapshots

The export writes Iceberg metadata for one snapshot of a table: its schema, and for every data file
an entry with counts and with the bounds of its columns, which are the statistics of the sidecar as
bytes.  A reader of the metadata skips the data files whose bounds exclude what it looks for.
-/

namespace IcefallDB

namespace Iceberg

open Json (utf8 utf8Decode)

/-! ## Single values -/

/-- A value of a column.  Dates, timestamps and unscaled decimals are integers. -/
inductive SingleValue
  | boolean (value : Bool)
  | integer (value : Int)
  | float (value : Extended)
  | text (value : String)
  | bytes (value : List Nat)
  deriving DecidableEq

namespace SingleValue

/-- The place of a value in an order of all values. -/
def place : SingleValue → Bool ⊕ₗ Int ⊕ₗ Extended ⊕ₗ String ⊕ₗ List Nat
  | boolean value => toLex (.inl value)
  | integer value => toLex (.inr (toLex (.inl value)))
  | float value => toLex (.inr (toLex (.inr (toLex (.inl value)))))
  | text value => toLex (.inr (toLex (.inr (toLex (.inr (toLex (.inl value)))))))
  | bytes value => toLex (.inr (toLex (.inr (toLex (.inr (toLex (.inr value)))))))

theorem place_injective : Function.Injective place := by
  intro left right same
  cases left <;> cases right <;> cases same <;> rfl

/-- Values of one type are in their usual order. -/
instance : LinearOrder SingleValue :=
  LinearOrder.lift' place place_injective

theorem boolean_le {left right : Bool} : boolean left ≤ boolean right ↔ left ≤ right := by
  change place (boolean left) ≤ place (boolean right) ↔ _
  rw [place, place, Sum.Lex.inl_le_inl_iff]

theorem integer_le {left right : Int} : integer left ≤ integer right ↔ left ≤ right := by
  change place (integer left) ≤ place (integer right) ↔ _
  rw [place, place, Sum.Lex.inr_le_inr_iff, Sum.Lex.inl_le_inl_iff]

theorem text_le {left right : String} : text left ≤ text right ↔ left ≤ right := by
  change place (text left) ≤ place (text right) ↔ _
  rw [place, place, Sum.Lex.inr_le_inr_iff, Sum.Lex.inr_le_inr_iff, Sum.Lex.inr_le_inr_iff,
    Sum.Lex.inl_le_inl_iff]

end SingleValue

/-- A type whose values can be bounds. -/
inductive SingleType
  | boolean | int | long | float | double | date | timestamp | string | binary | fixed | decimal
  deriving DecidableEq

/-- The type that the type of a field denotes. -/
def singleType : Json → Option SingleType
  | .str "boolean" => some .boolean
  | .str "int" => some .int
  | .str "long" => some .long
  | .str "float" => some .float
  | .str "double" => some .double
  | .str "date" => some .date
  | .str "timestamp" => some .timestamp
  | .str "string" => some .string
  | .str "binary" => some .binary
  | .obj entries =>
      match entries.lookup "type" with
      | some (.str "fixed") => some .fixed
      | some (.str "decimal") => some .decimal
      | _ => none
  | _ => none

/-- A number of some bits as a signed one. -/
def asSigned (width value : Nat) : Int :=
  if value < 2 ^ (width - 1) then value else value - 2 ^ width

/-- The float with the given bits, unless it is no number. -/
def floatOfBits (exponentBits fractionBits bits : Nat) : Option Extended :=
  let sign : ℚ := if bits / 2 ^ (exponentBits + fractionBits) % 2 = 0 then 1 else -1
  let exponent := bits / 2 ^ fractionBits % 2 ^ exponentBits
  let fraction := bits % 2 ^ fractionBits
  let bias : Int := 2 ^ (exponentBits - 1) - 1
  if exponent = 2 ^ exponentBits - 1 then
    if fraction ≠ 0 then none else some (if sign = 1 then ⊤ else ⊥)
  else if exponent = 0 then
    some (.finite (sign * fraction * 2 ^ (1 - bias - fractionBits)))
  else
    some (.finite (sign * (2 ^ fractionBits + fraction : Nat) *
      2 ^ ((exponent : Int) - bias - fractionBits)))

/-- The value that the bytes of a bound denote. -/
def decodeSingle (type : SingleType) (bytes : List UInt8) : Option SingleValue :=
  match type with
  | .boolean => if bytes.length = 1 then some (.boolean (leValue bytes ≠ 0)) else none
  | .int | .date =>
      if bytes.length = 4 then some (.integer (asSigned 32 (leValue bytes))) else none
  | .long | .timestamp =>
      if bytes.length = 8 then some (.integer (asSigned 64 (leValue bytes))) else none
  | .float =>
      if bytes.length = 4 then (floatOfBits 8 23 (leValue bytes)).map .float else none
  | .double =>
      if bytes.length = 8 then (floatOfBits 11 52 (leValue bytes)).map .float else none
  | .string => (utf8Decode bytes).map fun text => .text (String.ofList text)
  | .binary | .fixed => some (.bytes (bytes.map UInt8.toNat))
  | .decimal =>
      if bytes.isEmpty then none
      else some (.integer (asSigned (8 * bytes.length) (leValue bytes.reverse)))

/-! ## Data files -/

/-- A JSON value in the statistics of a sidecar.  A float is kept as the text it is written as. -/
inductive StatisticValue
  | bool (value : Bool)
  | int (value : Int)
  | float (text : String)
  | string (value : String)
  /-- An array or an object. -/
  | compound

/-- The bytes of a bound. -/
def boundBytes : Option StatisticValue → Option (List UInt8)
  | none => none
  | some (.bool value) => some [if value then 1 else 0]
  | some (.int value) => some (utf8 (toString value).toList)
  | some (.float text) => some (utf8 text.toList)
  | some (.string value) => some (utf8 value.toList)
  | some .compound => none

/-- Statistics of a column in a sidecar. -/
structure ColumnStatistics where
  min : Option StatisticValue
  max : Option StatisticValue
  nulls : UInt64

/-- What the export reads of a sidecar. -/
structure Sidecar where
  rows : UInt64
  columns : HashMap String ColumnStatistics

/-- A data file of a snapshot. -/
structure DataFile where
  content : Int32
  filePath : String
  fileFormat : String
  recordCount : Int64
  fileSizeInBytes : Int64
  columnSizes : HashMap Int32 Int64
  valueCounts : HashMap Int32 Int64
  nullValueCounts : HashMap Int32 Int64
  lowerBounds : HashMap Int32 (List UInt8)
  upperBounds : HashMap Int32 (List UInt8)

/-- A map with entries that are inserted one after the other. -/
def collect {κ ν : Type} [DecidableEq κ] (entries : List (κ × ν)) : HashMap κ ν :=
  entries.foldl (fun map entry => map.insert entry.1 entry.2) ∅

/-- The field id and the value of a column, if it has both. -/
def fieldEntry {ν : Type} (fieldIds : HashMap String Int32)
    (valueOf : ColumnStatistics → Option ν) (column : String × ColumnStatistics) :
    Option (Int32 × ν) := do
  let fieldId ← fieldIds.lookup column.1
  let value ← valueOf column.2
  some (fieldId, value)

/-- Values of columns by their field ids. -/
def byFieldId {ν : Type} (fieldIds : HashMap String Int32)
    (valueOf : ColumnStatistics → Option ν) (columns : List (String × ColumnStatistics)) :
    HashMap Int32 ν :=
  collect (columns.filterMap (fieldEntry fieldIds valueOf))

/-- The columns of a sidecar in the order in which they are iterated. -/
def Sidecar.columnList (sidecar : Sidecar) : List (String × ColumnStatistics) :=
  sidecar.columns.entries.map fun column => (column.1, column.2)

/-- The entry of a data file of some size. -/
def DataFile.fromIcefalldb (table dataPath : String) (fileSize : UInt64) (sidecar : Sidecar)
    (fieldIds : HashMap String Int32) : DataFile :=
  let columns := sidecar.columnList
  { content := 0
    filePath := table ++ "/" ++ dataPath
    fileFormat := "PARQUET"
    recordCount := sidecar.rows.toInt64
    fileSizeInBytes := fileSize.toInt64
    columnSizes := byFieldId fieldIds (fun _ => some 0) columns
    valueCounts := byFieldId fieldIds (fun _ => some sidecar.rows.toInt64) columns
    nullValueCounts := byFieldId fieldIds (fun stats => some stats.nulls.toInt64) columns
    lowerBounds := byFieldId fieldIds (fun stats => boundBytes stats.min) columns
    upperBounds := byFieldId fieldIds (fun stats => boundBytes stats.max) columns }

/-! ## Manifests -/

/-- The record of a data file in a manifest.  Maps are arrays that are sorted by their keys. -/
structure DataFileRecord where
  content : Int32
  filePath : String
  fileFormat : String
  recordCount : Int64
  fileSizeInBytes : Int64
  columnSizes : List (Int32 × Int64)
  valueCounts : List (Int32 × Int64)
  nullValueCounts : List (Int32 × Int64)
  lowerBounds : List (Int32 × List UInt8)
  upperBounds : List (Int32 × List UInt8)

/-- An entry of a manifest.  Sequence numbers are left to be inherited. -/
structure ManifestEntry where
  status : Int32
  snapshotId : Option Int64
  sequenceNumber : Option Int64
  fileSequenceNumber : Option Int64
  dataFile : DataFileRecord

/-- An entry of a manifest list. -/
structure ManifestListEntry where
  manifestPath : String
  manifestLength : Int64
  partitionSpecId : Int32
  content : Int32
  sequenceNumber : Int64
  minSequenceNumber : Int64
  addedSnapshotId : Int64
  addedFilesCount : Int32
  existingFilesCount : Int32
  deletedFilesCount : Int32
  addedRowsCount : Int64
  existingRowsCount : Int64
  deletedRowsCount : Int64

/-- A map as an array. -/
def mapToAvroArray {ν : Type} (map : HashMap Int32 ν) : List (Int32 × ν) :=
  (map.entries.map fun entry => (entry.1, entry.2)).mergeSort fun left right => left.1 ≤ right.1

def buildDataFileValue (file : DataFile) : DataFileRecord :=
  { content := file.content
    filePath := file.filePath
    fileFormat := file.fileFormat
    recordCount := file.recordCount
    fileSizeInBytes := file.fileSizeInBytes
    columnSizes := mapToAvroArray file.columnSizes
    valueCounts := mapToAvroArray file.valueCounts
    nullValueCounts := mapToAvroArray file.nullValueCounts
    lowerBounds := mapToAvroArray file.lowerBounds
    upperBounds := mapToAvroArray file.upperBounds }

def buildManifestEntryValue (snapshotId : Int64) (file : DataFile) : ManifestEntry :=
  { status := 1
    snapshotId := some snapshotId
    sequenceNumber := none
    fileSequenceNumber := none
    dataFile := buildDataFileValue file }

/-- The entries of a manifest, which is encoded by the Avro writer. -/
def writeManifest (snapshotId : Int64) (files : List DataFile) : List ManifestEntry :=
  files.map (buildManifestEntryValue snapshotId)

/-- The snapshot in the metadata of a table. -/
def buildSnapshot (snapshotId sequenceNumber : Int64) (schemaId : UInt64)
    (manifestListPath : String) (addedFiles : Int32) (addedRows : Int64) (timestampMs : Int) :
    Json :=
  .obj [("snapshot-id", .num snapshotId.toInt), ("sequence-number", .num sequenceNumber.toInt),
    ("timestamp-ms", .num timestampMs),
    ("summary", .obj [("operation", .str "append"), ("added-files-size", .str "0"),
      ("added-data-files", .str (toString addedFiles.toInt)),
      ("added-records", .str (toString addedRows.toInt))]),
    ("manifest-list", .str manifestListPath), ("schema-id", .num schemaId.toInt64.toInt)]

/-! ## Export -/

/-- Decoded contents of a file of a table with rows of type `R`. -/
inductive Contents (R : Type)
  | data (rows : List R)
  | sidecar (contents : Sidecar)
  | deletions (offsets : DeletionVector)

/-- The schema of a table. -/
structure TableSchema extends Schema where
  partitionBy : Option (List String)

/-- What the export finds of a table: what the catalog has loaded, manifests, and files with their
sizes. -/
structure Source (R : Type) where
  latestSchema : Option TableSchema
  latestManifest : Option Manifest
  manifests : HashMap Nat Manifest
  files : HashMap String (UInt64 × Contents R)

inductive ExportError
  | noSchema
  | unsupportedType (type : String)
  | unsupportedColumn (column type : String)
  | partitioned
  | notFound (path : String)
  | serialization (path : String)
  | checksumMismatch (path : String)
  | sequenceMismatch (requested found : Nat)
  | schemaMismatch (expected path : String)
  | manifestNotFound (table : String)
  | conversion (error : TypeNotSupported)

/-- What is written for a snapshot. -/
structure Export where
  metadata : Json
  manifestList : List ManifestListEntry
  manifest : List ManifestEntry

section

variable {R : Type} (unicode : UnicodeTables)

/-- The type of a column has a counterpart in Iceberg. -/
def checkColumn (column : Column) : Except ExportError Unit :=
  match icefalldbTypeToArrow unicode column.typeStr with
  | none => .error (.unsupportedType column.typeStr)
  | some dataType =>
      match arrowTypeToIceberg dataType with
      | none => .error (.unsupportedColumn column.name column.typeStr)
      | some _ => .ok ()

namespace Source

variable (source : Source R) (table : String)

/-- The manifest of a snapshot, or the latest one. -/
def chooseManifest (schema : TableSchema) : Option Nat → Except ExportError Manifest
  | some sequence => do
      let path := table ++ "/" ++ Manifest.filename sequence
      match source.manifests.lookup sequence with
      | none => .error (.notFound path)
      | some manifest =>
          if !manifest.verifyChecksum then .error (.checksumMismatch path)
          else if manifest.sequence ≠ sequence then
            .error (.sequenceMismatch sequence manifest.sequence)
          else if manifest.schemaId ≠ schema.schemaId.toNat then
            .error (.schemaMismatch (toString schema.schemaId.toNat) path)
          else .ok manifest
  | none =>
      match source.latestManifest with
      | none => .error (.manifestNotFound table)
      | some manifest => .ok manifest

/-- The entry of the data file of a row group. -/
def exportFile (fieldIds : HashMap String Int32) (entry : RowGroupEntry) :
    Except ExportError DataFile :=
  match source.files.lookup entry.metaFile with
  | none => .error (.notFound (table ++ "/" ++ entry.metaFile))
  | some (_, .sidecar sidecar) =>
      match source.files.lookup entry.data with
      | none => .error (.notFound (table ++ "/" ++ entry.data))
      | some (size, _) => .ok (DataFile.fromIcefalldb table entry.data size sidecar fieldIds)
  | some _ => .error (.serialization (table ++ "/" ++ entry.metaFile))

end Source

/-- The field ids that bounds are recorded under. -/
def boundIds (columns : List Column) : HashMap String Int32 :=
  collect (columns.map fun column => (column.name, max column.fieldId 1))

/-- Export a snapshot of a table. -/
def exportTable (avro : List ManifestEntry → List UInt8) (source : Source R)
    (table tableUuid location : String) (now : Int) (snapshot : Option Nat) :
    Except ExportError Export := do
  let schema ←
    match source.latestSchema with
    | none => .error .noSchema
    | some schema => .ok schema
  let _ ← schema.columns.mapM (checkColumn unicode)
  if (schema.partitionBy.map fun columns => !columns.isEmpty).getD false then
    .error .partitioned
  else do
    let manifest ← source.chooseManifest table schema snapshot
    let sequence := Int64.ofNat manifest.sequence
    let dataFiles ←
      manifest.rowGroups.mapM (source.exportFile table (boundIds schema.columns))
    let totalRows := (dataFiles.map DataFile.recordCount).foldl (· + ·) 0
    let entries := writeManifest sequence dataFiles
    let manifestListEntry : ManifestListEntry :=
      { manifestPath := "metadata/" ++ toString sequence.toInt ++ "-manifest.avro"
        manifestLength := Int64.ofNat (avro entries).length
        partitionSpecId := 0
        content := 0
        sequenceNumber := sequence
        minSequenceNumber := sequence
        addedSnapshotId := sequence
        addedFilesCount := Int32.ofNat dataFiles.length
        existingFilesCount := 0
        deletedFilesCount := 0
        addedRowsCount := totalRows
        existingRowsCount := 0
        deletedRowsCount := 0 }
    let snapshotJson := buildSnapshot sequence sequence schema.schemaId
      ("metadata/" ++ toString sequence.toInt ++ "-manifests.avro") (Int32.ofNat dataFiles.length)
      totalRows now
    let metadata ← (buildTableMetadata unicode schema.toSchema tableUuid location sequence.toInt
      sequence.toInt [snapshotJson] none 0 none (maxFieldId schema.columns) now).mapError
        .conversion
    .ok { metadata, manifestList := [manifestListEntry], manifest := entries }

end

end Iceberg

end IcefallDB
