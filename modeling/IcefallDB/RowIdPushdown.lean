import IcefallDB.Lib.Limits
import IcefallDB.ScanSelection.Cover

/-!
# Pushing row ids into a scan

A filter on the row id above a scan names the row ids it asks for.  The rule gives the scan a
selection of the rows that have one of them, by their row-id segments, and keeps the filter.
-/

namespace IcefallDB

namespace RowIdPushdown

open ScanSelection RowSelector

/-! ## Filters on the row id -/

/-- Values of literals and of expressions. -/
inductive PredicateValue
  | null
  | bool (value : Bool)
  | uint64 (value : Nat)
  | int64 (value : Int)
  | other (name : String)
  deriving DecidableEq

/-- Expressions over a row of a scan.  What the rule does not look into is a function of the row. -/
inductive PhysicalExpr (ρ : Type)
  | rowId
  | literal (value : PredicateValue)
  | eq (left right : PhysicalExpr ρ)
  | or (left right : PhysicalExpr ρ)
  | inList (negated : Bool) (expr : PhysicalExpr ρ) (list : List PredicateValue)
  | other (value : ρ → PredicateValue)

variable {ρ : Type}

/-- A number of 64 bits. -/
def number : PredicateValue → Option Int
  | .uint64 value => some value
  | .int64 value => some value
  | _ => none

/-- SQL equality; the comparison of values that are not numbers is left open. -/
def equals (left right : PredicateValue) : PredicateValue :=
  match number left, number right with
  | some left, some right => .bool (left = right)
  | _, _ => if left = .null ∨ right = .null then .null else .bool (left = right)

/-- SQL disjunction. -/
def disjunction : PredicateValue → PredicateValue → PredicateValue
  | .bool true, _ | _, .bool true => .bool true
  | .bool false, .bool false => .bool false
  | _, _ => .null

/-- SQL negation. -/
def negation : PredicateValue → PredicateValue
  | .bool value => .bool !value
  | _ => .null

/-- Value of an expression on a row. -/
def PhysicalExpr.evaluate (rowId : ρ → Nat) (row : ρ) : PhysicalExpr ρ → PredicateValue
  | .rowId => .uint64 (rowId row)
  | .literal value => value
  | .eq left right => equals (left.evaluate rowId row) (right.evaluate rowId row)
  | .or left right => disjunction (left.evaluate rowId row) (right.evaluate rowId row)
  | .inList negated expr list =>
      let member := list.foldr
        (fun item found => disjunction (equals (expr.evaluate rowId row) item) found) (.bool false)
      if negated then negation member else member
  | .other value => value row

/-- The expression is the row-id column. -/
def PhysicalExpr.isRowIdColumn : PhysicalExpr ρ → Bool
  | .rowId => true
  | _ => false

/-- The number of a literal that can be a row id. -/
def valueToU64 : PredicateValue → Option Nat
  | .uint64 value => some value
  | .int64 value => if 0 ≤ value then some value.toNat else none
  | _ => none

/-- The number of an expression that is a literal. -/
def litToU64 : PhysicalExpr ρ → Option Nat
  | .literal value => valueToU64 value
  | _ => none

/-- The row ids that a filter asks for, if it consists of nothing else. -/
def collectRowIdTargets : PhysicalExpr ρ → Option (Finset Nat)
  | .or left right => do
      let first ← collectRowIdTargets left
      let second ← collectRowIdTargets right
      some (first ∪ second)
  | .eq left right =>
      match left.isRowIdColumn, litToU64 right with
      | true, some value => some {value}
      | _, _ =>
          match right.isRowIdColumn, litToU64 left with
          | true, some value => some {value}
          | _, _ => none
  | .inList negated expr list =>
      if negated || !expr.isRowIdColumn then none
      else (list.mapM valueToU64).map List.toFinset
  | _ => none

/-! ## Selecting row ids -/

/-- The runs so far, the run that is open and the number of rows gone through. -/
structure RunState where
  selectors : List RowSelector
  runSelect : Nat
  runSkip : Nat
  phys : Nat

/-- Go through the row with a row id. -/
def targetStep (targets : Finset Nat) (state : RunState) (id : Nat) : RunState :=
  if id ∈ targets then
    { selectors :=
        if 0 < state.runSkip then state.selectors ++ [skipRows state.runSkip] else state.selectors
      runSelect := state.runSelect + 1
      runSkip := 0
      phys := state.phys + 1 }
  else
    { selectors :=
        if 0 < state.runSelect then state.selectors ++ [select state.runSelect]
        else state.selectors
      runSelect := 0
      runSkip := state.runSkip + 1
      phys := state.phys + 1 }

/-- Go through the row ids, as far as there are rows. -/
def targetRuns (targets : Finset Nat) (total : Nat) : RunState → List Nat → RunState
  | state, [] => state
  | state, id :: ids =>
      if total ≤ state.phys then state else targetRuns targets total (targetStep targets state id) ids

/-- The runs of rows with and without a targeted row id; rows without a row id are skipped. -/
def targetSelectors (rowIds : List RowIdSegment) (targets : Finset Nat) (total : Nat) :
    List RowSelector :=
  let state := targetRuns targets total
    { selectors := [], runSelect := 0, runSkip := 0, phys := 0 } (expandWrapping rowIds)
  state.selectors ++ (if 0 < state.runSelect then [select state.runSelect] else []) ++
    (if 0 < state.runSkip then [skipRows state.runSkip] else []) ++
      if state.phys < total then [skipRows (total - state.phys)] else []

/-- A selection of the rows with a targeted row id. -/
def rowIdSetToRowSelection (lib : RowSelections) (rowIds : List RowIdSegment)
    (targets : Finset Nat) (total : Nat) : lib.Selection :=
  lib.ofSelectors (targetSelectors rowIds targets total)

/-! ## Plans -/

/-- A scan with the limit that each partition stops at, and its pushed filters as a function of the
physical row. -/
structure Scan (lib : RowSelections) where
  partitions : List (ScanSelection.ScanPartition lib)
  keep : PlannedRowGroup × Nat → Bool
  limit : Option Nat

variable {lib : RowSelections}

/-- Read only rows with a targeted row id, one partition per row group. -/
def Scan.withRowIdTargets (scan : Scan lib) (targets : Finset Nat) : Scan lib :=
  { scan with
    partitions := (plannedRowGroups scan.partitions).map fun rowGroup =>
      { rowGroup
        rowSelection := some (rowIdSetToRowSelection lib rowGroup.sidecar.rowIds targets
          rowGroup.sidecar.rows) } }

/-- Rows of a partition: with pseudo-columns in the output the limit is below the filters. -/
def Scan.partitionRows (scan : Scan lib) (vectors : String → DeletionVector)
    (partition : ScanSelection.ScanPartition lib) : List (PlannedRowGroup × Nat) :=
  (Limits.upTo scan.limit (selectedRows vectors partition)).filter scan.keep

/-- Rows of a scan. -/
def Scan.rows (scan : Scan lib) (vectors : String → DeletionVector) :
    List (PlannedRowGroup × Nat) :=
  scan.partitions.flatMap (scan.partitionRows vectors)

/-- The row id that a scan gives to a row, a sum of 64 bits; a row without one gets 0. -/
def synthesizedRowId (row : PlannedRowGroup × Nat) : Nat :=
  (rowIdAtOffset row.1.sidecar.rowIds row.2).getD 0 % 2 ^ 64

/-- A scan below operators that change nothing but the partitions. -/
inductive Plan (lib : RowSelections)
  | scan (scan : Scan lib)
  | repartition (input : Plan lib)
  | coalescePartitions (input : Plan lib)
  | cooperative (input : Plan lib)
  | other (rows : List (PlannedRowGroup × Nat))

/-- Rows of a plan. -/
def Plan.rows (vectors : String → DeletionVector) : Plan lib → List (PlannedRowGroup × Nat)
  | .scan source => source.rows vectors
  | .repartition input | .coalescePartitions input | .cooperative input => input.rows vectors
  | .other rows => rows

/-- Rebuild the scan of a plan with row-id targets, if there is one below. -/
def rewriteScanWithTargets (targets : Finset Nat) : Plan lib → Option (Plan lib)
  | .scan source => some (.scan (source.withRowIdTargets targets))
  | .repartition input => (rewriteScanWithTargets targets input).map .repartition
  | .coalescePartitions input => (rewriteScanWithTargets targets input).map .coalescePartitions
  | .cooperative input => (rewriteScanWithTargets targets input).map .cooperative
  | .other _ => none

/-- A filter above a plan. -/
structure FilterExec (lib : RowSelections) where
  predicate : PhysicalExpr (PlannedRowGroup × Nat)
  input : Plan lib

/-- Rows for which the filter is true. -/
def FilterExec.rows (filter : FilterExec lib) (vectors : String → DeletionVector) :
    List (PlannedRowGroup × Nat) :=
  (filter.input.rows vectors).filter fun row =>
    filter.predicate.evaluate synthesizedRowId row = .bool true

/-- Push the row ids of a filter into the scan below it. -/
def optimize (filter : FilterExec lib) : FilterExec lib :=
  match collectRowIdTargets filter.predicate with
  | none => filter
  | some targets =>
      if targets = ∅ then filter
      else
        match rewriteScanWithTargets targets filter.input with
        | some input => { filter with input }
        | none => filter

end RowIdPushdown

end IcefallDB
