import IcefallDB.Writer.Planning
import IcefallDB.Lib.JsonText

/-!
# Statistics from Parquet footers

A Parquet file that fits a table is copied into it without reading its rows.  The statistics of the
new row group and its partition values then come from the footer of the file.  They are those of the
rows only if the footer says enough: it may leave out null counts and bounds, and shorten the bounds
of texts.
-/

namespace IcefallDB

open ColumnBounds

namespace InsertParquet

/-! ## Parquet files -/

/-- Arrow type of a column. -/
inductive DataType
  | boolean
  | int8
  | int16
  | int32
  | int64
  | uint8
  | uint16
  | uint32
  | uint64
  | float32
  | float64
  | utf8
  | largeUtf8
  /-- Microseconds without a time zone. -/
  | timestamp
  /-- A type without statistics, for bytes or nested values. -/
  | other (name : String)
  deriving DecidableEq

/-- A column of a schema. -/
structure Field where
  name : String
  dataType : DataType
  nullable : Bool

/-- Statistics of a column chunk with values of type `α`. -/
structure ValueStatistics (α : Type) where
  min : Option α
  max : Option α
  nullCount : Option Nat
  isMinValueExact : Bool
  isMaxValueExact : Bool

/-- Statistics of a column chunk, by the type in which its values are stored. -/
inductive Statistics
  | boolean (stats : ValueStatistics Bool)
  | int32 (stats : ValueStatistics Int32)
  | int64 (stats : ValueStatistics Int64)
  | float (stats : ValueStatistics FloatValue)
  | double (stats : ValueStatistics FloatValue)
  | byteArray (stats : ValueStatistics (List UInt8))
  /-- Integers of 96 bits, or byte arrays of a fixed length. -/
  | other (nullCount : Option Nat)

def Statistics.nullCount : Statistics → Option Nat
  | .boolean stats => stats.nullCount
  | .int32 stats => stats.nullCount
  | .int64 stats => stats.nullCount
  | .float stats | .double stats => stats.nullCount
  | .byteArray stats => stats.nullCount
  | .other nullCount => nullCount

/-- Footer of a Parquet file. -/
structure ParquetMetaData where
  /-- Names of the leaf columns. -/
  leaves : List String
  /-- Statistics of the column chunks of each row group, where they are there. -/
  rowGroups : List (List (Option Statistics))
  numRows : Nat

/-- A Parquet file to insert. -/
structure ParquetFile where
  /-- Number of bytes. -/
  length : Nat
  schema : List Field
  metadata : ParquetMetaData

/-- The part of a writer that derives statistics from footers.  Writers of schemas with unknown
types are not opened. -/
structure Importer where
  columns : List Field
  partitionBy : Option (List String)
  encrypted : Bool

/-! ## Bounds as JSON values -/

/-- A 32-bit integer as an integer of the type of the column. -/
def castInt32 : DataType → Option (Int32 → Int)
  | .int8 => some fun value => value.toInt8.toInt
  | .int16 => some fun value => value.toInt16.toInt
  | .int32 => some fun value => value.toInt
  | .uint8 => some fun value => value.toUInt32.toUInt8.toNat
  | .uint16 => some fun value => value.toUInt32.toUInt16.toNat
  | .uint32 => some fun value => value.toUInt32.toNat
  | _ => none

/-- A 64-bit integer as an integer of the type of the column. -/
def castInt64 : DataType → Option (Int64 → Int)
  | .int64 | .timestamp => some fun value => value.toInt
  | .uint64 => some fun value => value.toUInt64.toNat
  | _ => none

/-- Both bounds as JSON values. -/
def ValueStatistics.toJson {α : Type} (stats : ValueStatistics α) (json : α → Option Statistic) :
    Option Statistic × Option Statistic :=
  (stats.min.bind json, stats.max.bind json)

/-- The JSON value of an integer. -/
def ofInt (value : Int) : Statistic := .scalar (.int value)

/-- The JSON value of a text. -/
def ofText (text : String) : Statistic := .scalar (.string text)

/-- The JSON value of a float, if it is finite. -/
def ofFloat (value : FloatValue) : Option Statistic := value.finite?.map .float

/-- The JSON value of bytes, if they are a text. -/
def ofUtf8 (bytes : List UInt8) : Option Statistic :=
  (Json.utf8Decode bytes).map fun text => ofText (String.ofList text)

/-- Bounds of a column chunk as JSON values, if they are there and fit the type of the column. -/
def parquetStatsToJson : DataType → Statistics → Option Statistic × Option Statistic
  | .boolean, .boolean stats => stats.toJson fun value => some (.scalar (.bool value))
  | dataType, .int32 stats =>
      match castInt32 dataType with
      | some cast => stats.toJson fun value => some (ofInt (cast value))
      | none => (none, none)
  | dataType, .int64 stats =>
      match castInt64 dataType with
      | some cast => stats.toJson fun value => some (ofInt (cast value))
      | none => (none, none)
  | .float32, .float stats => stats.toJson ofFloat
  | .float64, .double stats => stats.toJson ofFloat
  | .utf8, .byteArray stats | .largeUtf8, .byteArray stats => stats.toJson ofUtf8
  | _, _ => (none, none)

/-- Compare two bounds of one column. -/
def jsonCmp : Statistic → Statistic → Option Ordering
  | .scalar (.bool left), .scalar (.bool right) => some (compare left right)
  | .scalar (.int left), .scalar (.int right) => some (compare left right)
  | .scalar (.string left), .scalar (.string right) => some (compare left right)
  | .float left, .float right => some (compare left right)
  | _, _ => none

def minJson : Option Statistic → Option Statistic → Option Statistic
  | some left, some right => if jsonCmp left right = some .gt then some right else some left
  | some left, none => some left
  | none, right => right

def maxJson : Option Statistic → Option Statistic → Option Statistic
  | some left, some right => if jsonCmp left right = some .lt then some right else some left
  | some left, none => some left
  | none, right => right

/-! ## Statistics from the footer -/

def isSupportedFooterStatType : DataType → Bool
  | .other _ => false
  | _ => true

/-- Statistics of a leaf column over some row groups, after those of the row groups before.  There
are none if a column chunk has none. -/
def mergeStatistics (dataType : DataType) (leaf : Nat) :
    List (List (Option Statistics)) → ArrayStats → Option ArrayStats
  | [], merged => some merged
  | chunks :: rowGroups, merged => do
      let stats ← chunks[leaf]?.join
      let bounds := parquetStatsToJson dataType stats
      mergeStatistics dataType leaf rowGroups
        { min := minJson merged.min bounds.1
          max := maxJson merged.max bounds.2
          nulls := merged.nulls + stats.nullCount.getD 0 }

/-- Statistics of a column from the footer. -/
def deriveColumnStats (metadata : ParquetMetaData) (field : Field) : Option ArrayStats :=
  if isSupportedFooterStatType field.dataType then do
    let leaf ← metadata.leaves.idxOf? field.name
    mergeStatistics field.dataType leaf metadata.rowGroups { min := none, max := none, nulls := 0 }
  else none

/-- The one value that statistics show. -/
def singleValue (stats : ArrayStats) : Option Statistic :=
  if stats.nulls = 0 ∧ stats.min = stats.max then stats.min else none

namespace Importer

variable (importer : Importer)

/-- Partition values, if every partition column has one value and no nulls. -/
def derivePartitionValuesFromStats (columns : HashMap String ArrayStats) :
    Option (HashMap String Statistic) := do
  let partitionBy ← importer.partitionBy
  if partitionBy.isEmpty then none
  else Writer.gather (fun name => (columns.lookup name).bind singleValue) partitionBy ∅

/-- Statistics of the columns and partition values.  No column is encrypted. -/
def deriveFooterStats (metadata : ParquetMetaData) :
    Option (HashMap String ArrayStats × Option (HashMap String Statistic)) := do
  let columns ← importer.columns.foldlM (fun columns field =>
    (deriveColumnStats metadata field).map fun stats => columns.insert field.name stats) ∅
  some (columns, importer.derivePartitionValuesFromStats columns)

/-- The columns of a file are those of the table, and have nulls only where the table may. -/
def parquetSchemaCompatible (source : List Field) : Bool :=
  source.length = importer.columns.length &&
    (source.zip importer.columns).all fun (own, field) =>
      own.name = field.name && own.dataType = field.dataType && (!own.nullable || field.nullable)

/-- Statistics of the columns and partition values with which a file is inserted as it is, or none
if its rows have to be read and written again. -/
def insertParquet (file : ParquetFile) :
    Option (HashMap String ArrayStats × Option (HashMap String Statistic)) :=
  if importer.encrypted then none
  else if file.length = 0 then none
  else if !importer.parquetSchemaCompatible file.schema then none
  else if file.metadata.rowGroups.length ≠ 1 then none
  else if file.metadata.numRows = 0 then none
  else importer.deriveFooterStats file.metadata

end Importer

/-! ## Values and statistics of a column -/

/-- The JSON value of a value of a column, if it is finite. -/
def finiteStatistic : CellValue → Option Statistic
  | .scalar value => some (.scalar value)
  | .float value => ofFloat value

/-- The finite values of a column. -/
def finiteValues (array : ColumnArray) : List Statistic :=
  array.values.filterMap finiteStatistic

/-- Bounds, where they are there, are the least and the greatest value as it is stored. -/
structure ValueStatistics.Exact {α β : Type} (stats : ValueStatistics β) (stored : α → β)
    (extremes : Option α × Option α) : Prop where
  min : ∀ bound, stats.min = some bound → extremes.1.map stored = some bound
  max : ∀ bound, stats.max = some bound → extremes.2.map stored = some bound

/-- Bounds of texts, where they are there, bound the bytes of all texts, and are those of a text if
they are flagged exact. -/
structure ValueStatistics.BoundsTexts (stats : ValueStatistics (List UInt8)) (texts : List String) :
    Prop where
  nonempty : (stats.min.isSome ∨ stats.max.isSome) → texts ≠ []
  min : ∀ bound, stats.min = some bound → ∀ text ∈ texts, ¬Json.utf8 text.toList < bound
  max : ∀ bound, stats.max = some bound → ∀ text ∈ texts, ¬bound < Json.utf8 text.toList
  min_exact : stats.isMinValueExact → ∀ bound, stats.min = some bound →
    ∃ text ∈ texts, bound = Json.utf8 text.toList
  max_exact : stats.isMaxValueExact → ∀ bound, stats.max = some bound →
    ∃ text ∈ texts, bound = Json.utf8 text.toList

namespace Statistics

/-- Bounds are valid for a column.  Bounds of floats leave out what is no number. -/
def ValidBounds : Statistics → ColumnArray → Prop
  | .boolean stats, .boolean values => stats.Exact id (extremes id values.reduceOption)
  | .int32 stats, .integer values => stats.Exact Int32.ofInt (extremes id values.reduceOption)
  | .int64 stats, .integer values => stats.Exact Int64.ofInt (extremes id values.reduceOption)
  | .float stats, .float32 values | .double stats, .float64 values =>
      stats.Exact id (extremes FloatValue.rank (values.reduceOption.filter (· ≠ .nan)))
  | .byteArray stats, .text values => stats.BoundsTexts values.reduceOption
  | .other _, _ => True
  | _, _ => False

/-- Statistics are valid for a column.  Those that are there are right. -/
structure Valid (stats : Statistics) (array : ColumnArray) : Prop where
  nulls : ∀ count, stats.nullCount = some count → count = array.nullCount
  bounds : stats.ValidBounds array

end Statistics

/-- Both bounds are there and have a property. -/
structure ValueStatistics.Bounded {α : Type} (stats : ValueStatistics α) (property : α → Prop) :
    Prop where
  min : ∃ bound, stats.min = some bound ∧ property bound
  max : ∃ bound, stats.max = some bound ∧ property bound

/-- The type has the integer. -/
def InRange : DataType → Int → Prop
  | .int8, value => -2 ^ 7 ≤ value ∧ value < 2 ^ 7
  | .int16, value => -2 ^ 15 ≤ value ∧ value < 2 ^ 15
  | .int32, value => -2 ^ 31 ≤ value ∧ value < 2 ^ 31
  | .int64, value | .timestamp, value => -2 ^ 63 ≤ value ∧ value < 2 ^ 63
  | .uint8, value => 0 ≤ value ∧ value < 2 ^ 8
  | .uint16, value => 0 ≤ value ∧ value < 2 ^ 16
  | .uint32, value => 0 ≤ value ∧ value < 2 ^ 32
  | .uint64, value => 0 ≤ value ∧ value < 2 ^ 64
  | _, _ => False

namespace Statistics

variable (reparse : ℚ → ℚ)

/-- The bounds of a column are there, stored as its type is, and say enough: those of floats are
finite and read back from JSON as they are, and those of texts are whole texts of the column. -/
def Tells : DataType → Statistics → ColumnArray → Prop
  | .boolean, .boolean stats, .boolean _ => stats.Bounded fun _ => True
  | dataType, .int32 stats, .integer values =>
      (castInt32 dataType).isSome ∧ (∀ value ∈ values.reduceOption, InRange dataType value) ∧
        stats.Bounded fun _ => True
  | dataType, .int64 stats, .integer values =>
      (castInt64 dataType).isSome ∧ (∀ value ∈ values.reduceOption, InRange dataType value) ∧
        stats.Bounded fun _ => True
  | .float32, .float stats, .float32 _ | .float64, .double stats, .float64 _ =>
      stats.Bounded fun bound => ∃ value, bound = .number (.finite value) ∧ reparse value = value
  | .utf8, .byteArray stats, .text values | .largeUtf8, .byteArray stats, .text values =>
      stats.Bounded fun bound => ∃ text ∈ values.reduceOption, bound = Json.utf8 text.toList
  | _, _, _ => False

/-- Statistics leave nothing out: the null count only where there are no nulls, and the bounds only
where there is no finite value. -/
structure Complete (dataType : DataType) (stats : Statistics) (array : ColumnArray) : Prop where
  nulls : stats.nullCount = none → array.nullCount = 0
  bounds : finiteValues array ≠ [] → stats.Tells reparse dataType array

end Statistics

end InsertParquet

end IcefallDB
