import IcefallDB.Lib.FloatFormat
import Mathlib.Data.String.Basic

/-!
# Removing casts from filter predicates

A comparison of a cast column with a literal is rewritten to compare the column itself with the
literal cast to the type of the column.
-/

namespace IcefallDB

namespace SimplifyCastPredicates

/-! ## Expressions -/

/-- Data types. -/
inductive DataType
  | float64 | float32 | int64 | int32 | int16 | int8 | utf8 | largeUtf8 | boolean
  | other (name : String)
  deriving DecidableEq

/-- Data of a value that is not null. -/
inductive Datum
  | number (value : Extended)
  | text (value : String)
  | bool (value : Bool)
  | other (value : String)

/-- A nullable value of a type. -/
structure ScalarValue where
  dataType : DataType
  value : Option Datum

/-- A reference to a column. -/
structure Column where
  relation : Option String
  name : String
  deriving DecidableEq

/-- Columns with their types. -/
abbrev Schema : Type :=
  List (Column × DataType)

/-- The values of a row. -/
abbrev Row : Type :=
  Column → Option Datum

/-- Binary operators. -/
inductive Operator
  | eq | lt | ltEq | gt | gtEq
  | other (name : String)

/-- Expressions.  What the rule does not look into is a function of the row, which may fail. -/
inductive Expr
  | column (column : Column)
  | literal (value : ScalarValue)
  | cast (expr : Expr) (dataType : DataType)
  | binaryExpr (left : Expr) (op : Operator) (right : Expr)
  | other (value : Row → Option ScalarValue)

/-! ## Values -/

/-- Single precision. -/
def binary32 : FloatFormat where
  precision := 24
  minExponent := -126
  maxExponent := 127

/-- Double precision. -/
def binary64 : FloatFormat where
  precision := 53
  minExponent := -1022
  maxExponent := 1023

/-- Numbers of a type; only the types that the rule rewrites have any here. -/
def DataType.numbers : DataType → Set Extended
  | .float64 => binary64.values
  | .float32 => binary32.values
  | .int64 => integersOf 64
  | .int32 => integersOf 32
  | .int16 => integersOf 16
  | .int8 => integersOf 8
  | _ => ∅

/-- Convert a number, if it fits. -/
def DataType.fromNumber : DataType → Extended → Option Extended
  | .float64, value => some (binary64.round value)
  | .float32, value => some (binary32.round value)
  | .int64, value => toInteger 64 value
  | .int32, value => toInteger 32 value
  | .int16, value => toInteger 16 value
  | .int8, value => toInteger 8 value
  | _, _ => none

/-- The type has numbers. -/
def DataType.isNumeric : DataType → Bool
  | .float64 | .float32 | .int64 | .int32 | .int16 | .int8 => true
  | _ => false

/-- The type is one of text. -/
def DataType.isText : DataType → Bool
  | .utf8 | .largeUtf8 => true
  | _ => false

/-- The type is one of floats. -/
def DataType.isFloat : DataType → Bool
  | .float64 | .float32 => true
  | _ => false

/-- A value belongs to a type. -/
def Datum.HasType : Datum → DataType → Prop
  | .number value, dataType => value ∈ dataType.numbers
  | .text _, dataType => dataType.isText = true
  | .bool _, dataType => dataType = .boolean
  | .other _, dataType => ∃ name, dataType = .other name

/-- What the engine does with other types and operators. -/
structure Engine where
  /-- Casts between types that are not both numeric or both text. -/
  cast : DataType → Datum → DataType → Option Datum
  /-- Comparison of values of other types. -/
  compare : Datum → Datum → Ordering
  compare_swap : ∀ left right, compare left right = (compare right left).swap
  /-- Operators that are not comparisons. -/
  apply : String → Option ScalarValue → Option ScalarValue → Option ScalarValue

/-- Cast a value, if this does not fail. -/
def Engine.castDatum (engine : Engine) (source : DataType) (datum : Datum) (target : DataType) :
    Option Datum :=
  match datum with
  | .number value =>
      if target.isNumeric then (target.fromNumber value).map .number
      else engine.cast source datum target
  | .text value => if target.isText then some (.text value) else engine.cast source datum target
  | _ => engine.cast source datum target

/-- Cast a value; null stays null. -/
def Engine.castTo (engine : Engine) (scalar : ScalarValue) (target : DataType) :
    Option ScalarValue :=
  match scalar.value with
  | none => some { dataType := target, value := none }
  | some datum => (engine.castDatum scalar.dataType datum target).map fun datum =>
      { dataType := target, value := some datum }

/-- Compare values of a type. -/
def Engine.compareData (engine : Engine) : Datum → Datum → Ordering
  | .number left, .number right => Ord.compare left right
  | .text left, .text right => Ord.compare left right
  | left, right => engine.compare left right

/-- The orderings for which a comparison is true. -/
def Operator.comparison : Operator → Option (Ordering → Bool)
  | .eq => some fun ordering => ordering = .eq
  | .lt => some fun ordering => ordering = .lt
  | .ltEq => some fun ordering => ordering ≠ .gt
  | .gt => some fun ordering => ordering = .gt
  | .gtEq => some fun ordering => ordering ≠ .lt
  | .other _ => none

/-- Value of a comparison: it fails on different types and is null if a side is. -/
def Engine.compareValues (engine : Engine) (holds : Ordering → Bool) (left right : ScalarValue) :
    Option ScalarValue :=
  if left.dataType = right.dataType then
    some { dataType := .boolean
           value := match left.value, right.value with
             | some left, some right => some (.bool (holds (engine.compareData left right)))
             | _, _ => none }
  else none

/-- Type of the first field of a name. -/
def fieldWithName (schema : Schema) (name : String) : Option DataType :=
  (schema.find? fun field => field.1.name = name).map Prod.snd

/-- Type of a column. -/
def columnType (schema : Schema) (column : Column) : Option DataType :=
  match column.relation with
  | some _ => schema.lookup column
  | none => fieldWithName schema column.name

/-- Value of an expression on a row, if it does not fail. -/
def Expr.evaluate (engine : Engine) (schema : Schema) (row : Row) : Expr → Option ScalarValue
  | .column reference => (columnType schema reference).map fun dataType =>
      { dataType, value := row reference }
  | .literal value => some value
  | .cast expr dataType => (expr.evaluate engine schema row).bind fun value =>
      engine.castTo value dataType
  | .binaryExpr left op right =>
      match op.comparison, op with
      | some holds, _ => (left.evaluate engine schema row).bind fun first =>
          (right.evaluate engine schema row).bind (engine.compareValues holds first)
      | none, .other name =>
          engine.apply name (left.evaluate engine schema row) (right.evaluate engine schema row)
      | none, _ => none
  | .other value => value row

/-! ## The rule -/

/-- The column and the type of a cast of a column that is found in the schema. -/
def castColumn (schema : Schema) : Expr → Option (Column × DataType)
  | .cast (.column column) target =>
      if (fieldWithName schema column.name).isSome then some (column, target) else none
  | _ => none

/-- The value of a literal. -/
def extractLiteral : Expr → Option ScalarValue
  | .literal value => some value
  | _ => none

/-- Literals of the first type may be cast to columns of the second.  Floats are not cast to
integers. -/
def isCompatible (literal source : DataType) : Bool :=
  literal.isNumeric && source.isFloat ||
    literal.isNumeric && !literal.isFloat && source.isNumeric && !source.isFloat ||
      literal.isText && source.isText

/-- Cast a literal to the type of a column. -/
def castLiteralToSource (engine : Engine) (value : ScalarValue) (source : DataType) :
    Option ScalarValue :=
  if isCompatible value.dataType source then engine.castTo value source else none

/-- A comparison of a cast column with a literal, with the type that is found for the column and the
literal cast to it. -/
structure CastComparison where
  column : Column
  target : DataType
  literal : ScalarValue
  source : DataType
  castLiteral : ScalarValue

/-- Recognise a comparison of a cast column with a literal. -/
def castComparison (engine : Engine) (schema : Schema) (cast literal : Expr) :
    Option CastComparison := do
  let (column, target) ← castColumn schema cast
  let literal ← extractLiteral literal
  let source ← fieldWithName schema column.name
  let castLiteral ← castLiteralToSource engine literal source
  some { column, target, literal, source, castLiteral }

/-- The literal is on the right, with a cast column on the left. -/
def literalOnRight (schema : Schema) (left right : Expr) : Bool :=
  (castColumn schema left).isSome && (extractLiteral right).isSome

/-- Rewrite a comparison of a cast column with a literal. -/
def simplifyCastComparison (engine : Engine) (schema : Schema) (left : Expr) (op : Operator)
    (right : Expr) : Option Expr :=
  if op.comparison.isNone then none
  else if literalOnRight schema left right then
    (castComparison engine schema left right).map fun found =>
      .binaryExpr (.column found.column) op (.literal found.castLiteral)
  else
    (castComparison engine schema right left).map fun found =>
      .binaryExpr (.literal found.castLiteral) op (.column found.column)

/-- Rewrite the comparisons of a predicate, if there are any to rewrite. -/
def simplifyCastPredicates (engine : Engine) (schema : Schema) : Expr → Option Expr
  | .binaryExpr left op right =>
      match simplifyCastPredicates engine schema left, simplifyCastPredicates engine schema right with
      | some newLeft, newRight => some (.binaryExpr newLeft op (newRight.getD right))
      | none, some newRight => some (.binaryExpr left op newRight)
      | none, none => simplifyCastComparison engine schema left op right
  | _ => none

end SimplifyCastPredicates

end IcefallDB
