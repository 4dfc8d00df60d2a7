import IcefallDB.Lib.Digits
import Mathlib

/-!
# Type strings

A schema stores the types of its columns as text.  A printer writes the Arrow type of a column, and a
recursive-descent parser reads it back.
-/

namespace IcefallDB

/-! ## Arrow types -/

/-- Types without parameters. -/
inductive Primitive
  | int8
  | int16
  | int32
  | int64
  | uint8
  | uint16
  | uint32
  | uint64
  | float32
  | float64
  | boolean
  | utf8
  | largeUtf8
  | binary
  | largeBinary
  deriving DecidableEq

mutual

/-- Arrow types.  Those that have no text of their own are printed for debugging. -/
inductive ArrowType
  | primitive (primitive : Primitive)
  /-- Microseconds. -/
  | timestamp (zone : Option String)
  | fixedSizeBinary (size : Int32)
  | decimal128 (precision : UInt8) (scale : Int8)
  | list (item : ArrowField)
  | largeList (item : ArrowField)
  | struct (fields : List ArrowField)
  | map (entries : ArrowField) (sorted : Bool)
  | date32
  | date64
  | other (debug : String)

inductive ArrowField
  | mk (name : String) (dataType : ArrowType) (nullable : Bool)

end

namespace ArrowField

def name : ArrowField → String
  | mk name _ _ => name

def dataType : ArrowField → ArrowType
  | mk _ dataType _ => dataType

def nullable : ArrowField → Bool
  | mk _ _ nullable => nullable

end ArrowField

/-! ## Printing -/

/-- The name of a type without parameters. -/
def Primitive.word : Primitive → String
  | int8 => "int8"
  | int16 => "int16"
  | int32 => "int32"
  | int64 => "int64"
  | uint8 => "uint8"
  | uint16 => "uint16"
  | uint32 => "uint32"
  | uint64 => "uint64"
  | float32 => "float32"
  | float64 => "float64"
  | boolean => "bool"
  | utf8 => "utf8"
  | largeUtf8 => "large_utf8"
  | binary => "binary"
  | largeBinary => "large_binary"

/-- An integer in decimal. -/
def showInt (value : Int) : List Char :=
  (toString value).toList

mutual

/-- The text of a type. -/
def ArrowType.render : ArrowType → List Char
  | .primitive primitive => primitive.word.toList
  | .timestamp _ => "timestamp[us]".toList
  | .fixedSizeBinary size => "fixed_size_binary(".toList ++ (showInt size.toInt ++ [')'])
  | .decimal128 precision scale =>
      "decimal128(".toList ++ (showInt precision.toNat ++ ',' :: (showInt scale.toInt ++ [')']))
  | .list item => "list<".toList ++ (item.render ++ ['>'])
  | .largeList item => "large_list<".toList ++ (item.render ++ ['>'])
  | .struct fields => "struct<".toList ++ (renderFields fields ++ ['>'])
  | .map (.mk _ (.struct entries) _) _ =>
      "map<".toList ++
        ((renderNamed "key" entries).getD "utf8".toList ++
          ',' :: ((renderNamed "value" entries).getD "utf8".toList ++ ['>']))
  | .map _ _ => "map<utf8,utf8>".toList
  | .date32 => "Date32".toList
  | .date64 => "Date64".toList
  | .other debug => debug.toList

/-- The text of the type of a field. -/
def ArrowField.render : ArrowField → List Char
  | .mk _ dataType _ => dataType.render

/-- The fields of a struct with their names, separated by commas. -/
def renderFields : List ArrowField → List Char
  | [] => []
  | [field] => field.name.toList ++ ": ".toList ++ field.render
  | field :: fields =>
      field.name.toList ++ ": ".toList ++ field.render ++ ", ".toList ++ renderFields fields

/-- The text of the type of the first field of a name. -/
def renderNamed (name : String) : List ArrowField → Option (List Char)
  | [] => none
  | field :: fields => if field.name = name then some field.render else renderNamed name fields

end

/-- The text of a type. -/
def arrowTypeToIcefalldb (dataType : ArrowType) : String :=
  String.ofList dataType.render

/-! ## Characters -/

/-- White space according to Unicode. -/
def isWhitespace (c : Char) : Bool :=
  (9 ≤ c.toNat && c.toNat ≤ 13) || c.toNat = 32 || c.toNat = 0x85 || c.toNat = 0xa0 ||
    c.toNat = 0x1680 || (0x2000 ≤ c.toNat && c.toNat ≤ 0x200a) || c.toNat = 0x2028 ||
    c.toNat = 0x2029 || c.toNat = 0x202f || c.toNat = 0x205f || c.toNat = 0x3000

/-- The letters and numbers of Unicode. -/
structure UnicodeTables where
  isAlphabetic : Char → Bool
  isNumeric : Char → Bool
  ascii_alphabetic : ∀ c : Char, c.toNat < 128 → isAlphabetic c = c.isAlpha
  ascii_numeric : ∀ c : Char, c.toNat < 128 → isNumeric c = c.isDigit
  not_whitespace : ∀ c, isAlphabetic c = true ∨ isNumeric c = true → isWhitespace c = false

namespace UnicodeTables

variable (unicode : UnicodeTables)

/-- A character that a name starts with. -/
def startsName (c : Char) : Bool :=
  unicode.isAlphabetic c || c = '_'

/-- A character that a name goes on with. -/
def continuesName (c : Char) : Bool :=
  unicode.isAlphabetic c || unicode.isNumeric c || c = '_'

end UnicodeTables

/-! ## Parsing -/

/-- What the first word of a type stands for. -/
inductive TypeHead
  | plain (dataType : ArrowType)
  | list
  | largeList
  | struct
  | map
  | decimal128
  | fixedSizeBinary

/-- The words that types start with. -/
def typeWords : List (String × TypeHead) :=
  [("int8", .plain (.primitive .int8)),
    ("int16", .plain (.primitive .int16)),
    ("int32", .plain (.primitive .int32)),
    ("int64", .plain (.primitive .int64)),
    ("uint8", .plain (.primitive .uint8)),
    ("uint16", .plain (.primitive .uint16)),
    ("uint32", .plain (.primitive .uint32)),
    ("uint64", .plain (.primitive .uint64)),
    ("float32", .plain (.primitive .float32)),
    ("float64", .plain (.primitive .float64)),
    ("utf8", .plain (.primitive .utf8)),
    ("string", .plain (.primitive .utf8)),
    ("large_utf8", .plain (.primitive .largeUtf8)),
    ("binary", .plain (.primitive .binary)),
    ("large_binary", .plain (.primitive .largeBinary)),
    ("bool", .plain (.primitive .boolean)),
    ("timestamp", .plain (.timestamp none)),
    ("list", .list),
    ("large_list", .largeList),
    ("struct", .struct),
    ("map", .map),
    ("decimal128", .decimal128),
    ("fixed_size_binary", .fixedSizeBinary)]

/-- What a word stands for. -/
def typeHead (word : List Char) : Option TypeHead :=
  typeWords.lookup (String.ofList word)

namespace TypeParser

variable (unicode : UnicodeTables)

/-- The text behind its leading white space. -/
def skipWs (input : List Char) : List Char :=
  input.dropWhile isWhitespace

/-- The text behind a character, if it is there. -/
def expect (expected : Char) (input : List Char) : Option (List Char) :=
  match skipWs input with
  | c :: rest => if c = expected then some rest else none
  | [] => none

/-- The name of a field, and the text behind it. -/
def parseFieldName (input : List Char) : Option (List Char × List Char) :=
  match skipWs input with
  | [] => none
  | c :: rest =>
      if unicode.startsName c then
        some ((c :: rest).takeWhile unicode.continuesName,
          (c :: rest).dropWhile unicode.continuesName)
      else none

/-- The text behind a resolution in brackets, if there is one. -/
def parseResolution (input : List Char) : Option (List Char) :=
  match skipWs input with
  | '[' :: inner =>
      match inner.dropWhile fun c => c ≠ ']' with
      | [] => none
      | _ :: rest =>
          if inner.takeWhile (fun c => c ≠ ']') = "us".toList then some rest else none
  | rest => some rest

/-- The first word of a type, and the text behind it. -/
def parseWord (input : List Char) : Option (List Char × List Char) := do
  let (word, rest) ← parseFieldName unicode input
  if word = "timestamp".toList then do
    let rest ← parseResolution rest
    some (word, rest)
  else some (word, rest)

/-- A number of 64 bits, and the text behind it. -/
def parseUsize (input : List Char) : Option (Nat × List Char) := do
  let input := skipWs input
  let value ← parseDigits (input.takeWhile Char.isDigit)
  if value < 2 ^ 64 then some (value, input.dropWhile Char.isDigit) else none

/-- The entries of a map. -/
def mapEntries (key value : ArrowType) : ArrowField :=
  .mk "entries" (.struct [.mk "key" key false, .mk "value" value true]) false

mutual

/-- A type, and the text behind it.  The fuel bounds the number of nested calls. -/
def parseType : Nat → List Char → Option (ArrowType × List Char)
  | 0, _ => none
  | fuel + 1, input => do
      let (word, rest) ← parseWord unicode input
      let rest := skipWs rest
      match ← typeHead word with
      | .plain dataType => some (dataType, rest)
      | .list => do
          let rest ← expect '<' rest
          let (item, rest) ← parseType fuel rest
          let rest ← expect '>' rest
          some (.list (.mk "item" item true), rest)
      | .largeList => do
          let rest ← expect '<' rest
          let (item, rest) ← parseType fuel rest
          let rest ← expect '>' rest
          some (.largeList (.mk "item" item true), rest)
      | .struct => do
          let rest ← expect '<' rest
          let (fields, rest) ← parseStructFields fuel rest
          let rest ← expect '>' rest
          some (.struct fields, rest)
      | .map => do
          let rest ← expect '<' rest
          let (key, rest) ← parseType fuel rest
          let rest ← expect ',' rest
          let (value, rest) ← parseType fuel rest
          let rest ← expect '>' rest
          some (.map (mapEntries key value) false, rest)
      | .decimal128 => do
          let rest ← expect '(' rest
          let (precision, rest) ← parseUsize rest
          let rest ← expect ',' rest
          let (scale, rest) ← parseUsize rest
          let rest ← expect ')' rest
          some (.decimal128 (UInt8.ofNat precision) (Int8.ofNat scale), rest)
      | .fixedSizeBinary => do
          let rest ← expect '(' rest
          let (size, rest) ← parseUsize rest
          let rest ← expect ')' rest
          some (.fixedSizeBinary (Int32.ofNat size), rest)

/-- The fields of a struct up to its closing bracket, and the text from there. -/
def parseStructFields : Nat → List Char → Option (List ArrowField × List Char)
  | 0, _ => none
  | fuel + 1, input =>
      match skipWs input with
      | '>' :: rest => some ([], '>' :: rest)
      | rest => do
          let (name, rest) ← parseFieldName unicode rest
          let rest ← expect ':' rest
          let (dataType, rest) ← parseType fuel rest
          let field : ArrowField := .mk (String.ofList name) dataType true
          match skipWs rest with
          | ',' :: rest => do
              let (fields, rest) ← parseStructFields fuel rest
              some (field :: fields, rest)
          | '>' :: rest => some ([field], '>' :: rest)
          | _ => none

end

end TypeParser

/-- A text without leading and trailing white space. -/
def trim (input : List Char) : List Char :=
  ((input.dropWhile isWhitespace).reverse.dropWhile isWhitespace).reverse

/-- The type that a text stands for. -/
def icefalldbTypeToArrow (unicode : UnicodeTables) (typeStr : String) : Option ArrowType :=
  let input := trim typeStr.toList
  (TypeParser.parseType unicode (input.length + 1) input).map Prod.fst

end IcefallDB
