import IcefallDB.AggCache
import IcefallDB.Lib.Groups
import Mathlib.Data.List.Lex
import Mathlib.Order.Fin.Basic

/-!
# Streaming group-by

A group-by over an input that is sorted by the group key.  The operator keeps one running state per
group, and emits the groups below the first key of each batch before it takes in the batch.  Keys
are compared by their row encoding.
-/

namespace IcefallDB

/-! ## Columns -/

/-- Widths of integer columns. -/
inductive IntWidth
  | w8 | w16 | w32 | w64
  deriving DecidableEq

/-- Number of bits of an integer. -/
def IntWidth.bits : IntWidth → Nat
  | .w8 => 8
  | .w16 => 16
  | .w32 => 32
  | .w64 => 64

/-- Data types of columns. -/
inductive DataType
  | int (width : IntWidth)
  | uint (width : IntWidth)
  | float32
  | float64
  | other (name : String)
  deriving DecidableEq

/-- Arithmetic of 64-bit floating-point numbers with conversions. -/
class FloatCasts (F : Type) extends Double F, Div F where
  /-- Round an integer to a 64-bit number. -/
  ofInt : Int → F
  /-- Round an integer to a 32-bit number. -/
  ofIntSingle : Int → F
  /-- Truncate to an integer, and to the nearer bound outside them. -/
  saturate (low high : Int) : F → Int

/-- An expression over the input rows, by its data type. -/
inductive ColumnExpr (R F : Type)
  | int (width : IntWidth) (value : R → Option Int)
  | uint (width : IntWidth) (value : R → Option Nat)
  | float32 (value : R → Option F)
  | float64 (value : R → Option F)
  | other (name : String) (isValid : R → Bool)

namespace ColumnExpr

variable {R F : Type}

/-- The value of a row is not null. -/
def isValid : ColumnExpr R F → R → Bool
  | .int _ value, row => (value row).isSome
  | .uint _ value, row => (value row).isSome
  | .float32 value, row | .float64 value, row => (value row).isSome
  | .other _ isValid, row => isValid row

end ColumnExpr

/-- A column of the output, at one row. -/
inductive OutputValue (F : Type)
  | int (width : IntWidth) (value : Option Int)
  | uint (width : IntWidth) (value : Option Nat)
  | float32 (value : Option F)
  | float64 (value : Option F)
  deriving DecidableEq

/-- Aggregates of the streaming group-by. -/
inductive AggType
  | count | sum | avg
  deriving DecidableEq

/-- An aggregate expression and the type of its output column. -/
structure AggrExpr (R F : Type) where
  aggType : AggType
  input : ColumnExpr R F
  outputType : DataType

/-- An encoded row; encodings are compared byte by byte. -/
abbrev RowBytes : Type :=
  List (Fin 256)

/-- Group-by aggregate for inputs that are already sorted by the group key. -/
structure StreamingGroupByExec (K R F : Type) where
  groupKey : R → K
  /-- Row encoding of the group key. -/
  encode : K → RowBytes
  aggrExprs : List (AggrExpr R F)

namespace StreamingGroupBy

variable {K R F : Type}

/-! ## Accumulators -/

/-- Running sums of one aggregate. -/
inductive Accumulator (F : Type)
  | count
  | i128 (value : Option Int)
  | u128 (value : Option Nat)
  | f64 (value : Option F)

/-- The accumulator of an aggregate. -/
def Accumulator.new (input : ColumnExpr R F) : AggType → Except String (Accumulator F)
  | .count => .ok .count
  | .sum | .avg =>
      match input with
      | .int _ _ => .ok (.i128 none)
      | .uint _ _ => .ok (.u128 none)
      | .float32 _ | .float64 _ => .ok (.f64 none)
      | .other name _ => .error ("unsupported numeric type for streaming aggregation: " ++ name)

/-- Running state of one aggregate within one group. -/
structure PerAggState (F : Type) where
  count : Int
  accumulator : Accumulator F

/-- Running state of a group, with its key. -/
structure GroupState (K F : Type) where
  perAgg : List (PerAggState F)
  keyScalars : K

/-- State kept between batches. -/
structure StreamingState (K F : Type) where
  groups : SortedMap (RowBytes) (GroupState K F)
  /-- The groups below this key have been emitted. -/
  drainedUpTo : Option (RowBytes)
  pending : List (List (K × List (OutputValue F)))
  doneReading : Bool

/-- Addition in 64 signed bits. -/
def addI64 (left right : Int) : Int :=
  (left + right).bmod (2 ^ 64)

/-- Addition in 128 signed bits. -/
def addI128 (left right : Int) : Int :=
  (left + right).bmod (2 ^ 128)

/-- Addition in 128 unsigned bits. -/
def addU128 (left right : Nat) : Nat :=
  (left + right) % 2 ^ 128

section Updates

variable [FloatCasts F]

/-- Convert the value of a row to a 64-bit float. -/
def extractF64 (input : ColumnExpr R F) (row : R) : Option F :=
  match input with
  | .int _ value => (value row).map FloatCasts.ofInt
  | .uint _ value => (value row).map fun value => FloatCasts.ofInt (value : Int)
  | .float32 value | .float64 value => value row
  | .other _ _ => none

/-- Add the value of a row, which is not null, to a running sum. -/
def accumulate (input : ColumnExpr R F) (row : R) : Accumulator F → Except String (Accumulator F)
  | .i128 total =>
      match input with
      | .int _ value => .ok (.i128 ((value row).map fun value => addI128 (total.getD 0) value))
      | _ => .error "expected signed integer array"
  | .u128 total =>
      match input with
      | .uint _ value => .ok (.u128 ((value row).map fun value => addU128 (total.getD 0) value))
      | _ => .error "expected unsigned integer array"
  | .f64 total =>
      match extractF64 input row with
      | some value => .ok (.f64 (some (total.getD 0 + value)))
      | none => .error "unsupported numeric type for streaming aggregation"
  | .count =>
      .error "streaming group-by internal error: Count accumulator used for Sum/Avg"

/-- Take the value of a row into the state of an aggregate. -/
def updatePerAggState (agg : AggrExpr R F) (state : PerAggState F) (row : R) :
    Except String (PerAggState F) :=
  if agg.input.isValid row then
    match agg.aggType with
    | .count => .ok { state with count := addI64 state.count 1 }
    | .sum => do
        let accumulator ← accumulate agg.input row state.accumulator
        .ok { state with accumulator }
    | .avg => do
        let accumulator ← accumulate agg.input row state.accumulator
        .ok { count := addI64 state.count 1, accumulator }
  else .ok state

/-! ## Output -/

/-- Convert a signed sum to the output type. -/
def buildI128Output (value : Option Int) : DataType → Except String (OutputValue F)
  | .int width => .ok (.int width (value.map fun value => value.bmod (2 ^ width.bits)))
  | .float32 => .ok (.float32 (value.map FloatCasts.ofIntSingle))
  | .float64 => .ok (.float64 (value.map FloatCasts.ofInt))
  | _ => .error "unsupported SUM output type"

/-- Convert an unsigned sum to the output type. -/
def buildU128Output (value : Option Nat) : DataType → Except String (OutputValue F)
  | .uint width => .ok (.uint width (value.map fun value => value % 2 ^ width.bits))
  | .float32 => .ok (.float32 (value.map fun value => FloatCasts.ofIntSingle (value : Int)))
  | .float64 => .ok (.float64 (value.map fun value => FloatCasts.ofInt (value : Int)))
  | _ => .error "unsupported SUM output type"

/-- Convert a float sum to the output type. -/
def buildF64Output (value : Option F) : DataType → Except String (OutputValue F)
  | .float64 => .ok (.float64 value)
  | .float32 => .ok (.float32 (value.map Double.toSingle))
  | .int width => .ok (.int width (value.map
      (FloatCasts.saturate (-(2 ^ (width.bits - 1))) (2 ^ (width.bits - 1) - 1))))
  | .uint width => .ok (.uint width (value.map fun value =>
      (FloatCasts.saturate 0 (2 ^ width.bits - 1) value).toNat))
  | .other _ => .error "unsupported SUM output type"

/-- Output of a sum. -/
def buildSum (agg : AggrExpr R F) (state : PerAggState F) : Except String (OutputValue F) :=
  match agg.input, state.accumulator with
  | .int _ _, .i128 value => buildI128Output value agg.outputType
  | .int _ _, _ => .error "streaming group-by internal error: expected I128 accumulator"
  | .uint _ _, .u128 value => buildU128Output value agg.outputType
  | .uint _ _, _ => .error "streaming group-by internal error: expected U128 accumulator"
  | .float32 _, .f64 value | .float64 _, .f64 value => buildF64Output value agg.outputType
  | .float32 _, _ | .float64 _, _ =>
      .error "streaming group-by internal error: expected F64 accumulator"
  | .other name _, _ => .error ("unsupported SUM input type: " ++ name)

/-- Divide the running sum of a group by its count. -/
def avgValue (state : PerAggState F) : Except String (Option F) :=
  if state.count > 0 then
    match state.accumulator with
    | .i128 (some sum) => .ok (some (FloatCasts.ofInt sum / FloatCasts.ofInt state.count))
    | .u128 (some sum) => .ok (some (FloatCasts.ofInt (sum : Int) / FloatCasts.ofInt state.count))
    | .f64 (some sum) => .ok (some (sum / FloatCasts.ofInt state.count))
    | .i128 none | .u128 none | .f64 none =>
        .error "streaming group-by internal error: empty accumulator with non-zero count"
    | .count => .error "streaming group-by internal error: Count accumulator used for Avg"
  else .ok none

/-- Output of an average. -/
def buildAvg (agg : AggrExpr R F) (state : PerAggState F) : Except String (OutputValue F) := do
  let value ← avgValue state
  match agg.outputType with
  | .float64 => .ok (.float64 value)
  | .float32 => .ok (.float32 (value.map Double.toSingle))
  | _ => .error "unsupported AVG output type"

/-- Output of an aggregate. -/
def buildAgg (agg : AggrExpr R F) (state : PerAggState F) : Except String (OutputValue F) :=
  match agg.aggType with
  | .count =>
      -- The column of counts has 64 signed bits, and must fit the schema.
      if agg.outputType = .int .w64 then .ok (.int .w64 (some state.count))
      else .error "column types must match schema types"
  | .sum => buildSum agg state
  | .avg => buildAvg agg state

/-- The output row of a group. -/
def buildRow (exec : StreamingGroupByExec K R F) (group : GroupState K F) :
    Except String (K × List (OutputValue F)) := do
  let values ← (exec.aggrExprs.zip group.perAgg).mapM fun agg => buildAgg agg.1 agg.2
  .ok (group.keyScalars, values)

/-- The output batch of some completed groups. -/
def buildOutputBatch (exec : StreamingGroupByExec K R F)
    (groups : List (RowBytes × GroupState K F)) :
    Except String (List (K × List (OutputValue F))) :=
  groups.mapM fun group => buildRow exec group.2

/-! ## Batches -/

/-- Emit the groups below a key. -/
def drainGroupsLt (exec : StreamingGroupByExec K R F) (threshold : RowBytes)
    (state : StreamingState K F) : Except String (StreamingState K F) :=
  let split := state.groups.splitOff threshold
  if split.1.entries.isEmpty then .ok { state with groups := split.2 }
  else do
    let batch ← buildOutputBatch exec split.1.entries
    .ok { state with groups := split.2, pending := batch :: state.pending }

/-- Emit the groups that are left. -/
def flushRemaining (exec : StreamingGroupByExec K R F) (state : StreamingState K F) :
    Except String (StreamingState K F) :=
  if state.groups.entries.isEmpty then .ok state
  else do
    let batch ← buildOutputBatch exec state.groups.entries
    .ok { state with groups := ∅, pending := batch :: state.pending }

/-- State of a group without rows. -/
def newGroup (exec : StreamingGroupByExec K R F) (row : R) : Except String (GroupState K F) := do
  let perAgg ← exec.aggrExprs.mapM fun agg => do
    let accumulator ← Accumulator.new agg.input agg.aggType
    .ok ({ count := 0, accumulator } : PerAggState F)
  .ok { perAgg, keyScalars := exec.groupKey row }

/-- Take a row into its group. -/
def updateGroup (exec : StreamingGroupByExec K R F) (group : GroupState K F) (row : R) :
    Except String (GroupState K F) := do
  let perAgg ← (exec.aggrExprs.zip group.perAgg).mapM fun agg => updatePerAggState agg.1 agg.2 row
  .ok { group with perAgg }

/-- Take a row into the groups. -/
def processRow (exec : StreamingGroupByExec K R F)
    (groups : SortedMap (RowBytes) (GroupState K F)) (row : R) :
    Except String (SortedMap (RowBytes) (GroupState K F)) := do
  let key := exec.encode (exec.groupKey row)
  let groups ←
    match groups.lookup key with
    | some _ => .ok groups
    | none => do
        let group ← newGroup exec row
        .ok (groups.insert key group)
  match groups.lookup key with
  | none => .error "streaming group-by internal error: group state missing after insertion"
  | some group => do
      let group ← updateGroup exec group row
      .ok (groups.insert key group)

/-- Check that a batch does not begin below what has been emitted, and emit the groups that are
complete. -/
def drainCompleted (exec : StreamingGroupByExec K R F) (firstKey : RowBytes)
    (state : StreamingState K F) : Except String (StreamingState K F) :=
  match state.drainedUpTo with
  | some drained =>
      if firstKey < drained then .error "StreamingGroupByExec input is not sorted by group key"
      else if drained < firstKey then do
        let state ← drainGroupsLt exec firstKey state
        .ok { state with drainedUpTo := some firstKey }
      else .ok state
  | none => .ok { state with drainedUpTo := some firstKey }

/-- Emit the groups that a batch completes, and take its rows in. -/
def processBatch (exec : StreamingGroupByExec K R F) (batch : List R)
    (state : StreamingState K F) : Except String (StreamingState K F) :=
  match batch with
  | [] => .ok state
  | first :: _ => do
      let state ← drainCompleted exec (exec.encode (exec.groupKey first)) state
      let groups ← batch.foldlM (processRow exec) state.groups
      .ok { state with groups }

/-- The output of a run, from the results of reading the input.  Pending batches go out before the
next read. -/
def unfold (exec : StreamingGroupByExec K R F) :
    List (Option (List R)) → StreamingState K F →
      Except String (List (List (K × List (OutputValue F))))
  | reads, state =>
      if state.doneReading then .ok state.pending
      else
        match reads with
        | [] => .ok state.pending
        | some batch :: reads => do
            let next ← processBatch exec batch { state with pending := [] }
            let rest ← unfold exec reads next
            .ok (state.pending ++ rest)
        | none :: reads => do
            let next ← flushRemaining exec { state with pending := [] }
            let rest ← unfold exec reads { next with doneReading := true }
            .ok (state.pending ++ rest)

/-- The output of a partition of the input. -/
def execute (exec : StreamingGroupByExec K R F) (batches : List (List R)) :
    Except String (List (List (K × List (OutputValue F)))) :=
  unfold exec (batches.map some ++ [none])
    { groups := ∅, drainedUpTo := none, pending := [], doneReading := false }

end Updates

end StreamingGroupBy

end IcefallDB
