import IcefallDB.IndexSelector
import IcefallDB.ScanExec.Offsets
import IcefallDB.Writer.Mutate
import Mathlib.Data.Finset.Sort

/-!
# Locating rows

A DELETE or an UPDATE locates the live rows that satisfy its predicate.  If a secondary index can
answer the predicate, the row ids that it gives are turned into offsets with the row-id segments of
the fragments; otherwise a scan returns the row ids and the addresses of the rows.
-/

namespace IcefallDB

/-- The planned row groups of a table with their contents, and the deletion vectors in the table. -/
structure LocateTable where
  /-- Names of the data columns. -/
  names : List String
  groups : List (PlannedRowGroup × List (DataRow IndexValue))
  vectors : String → DeletionVector

/-- How the engine compares two values. -/
abbrev EqualityEngine : Type :=
  IndexValue → IndexValue → Option Bool

/-! ## Locating by an index -/

/-- What locating needs of a row group. -/
structure FragLocate where
  fragmentId : Nat
  rowIds : List RowIdSegment
  deletes : Option String
  deletedCount : Nat

/-- The offset of a row id in the segments from a base on.  The end of a range is a sum of 64 bits,
and offsets have 32 bits. -/
def offsetFrom (rowId : Nat) : Nat → List RowIdSegment → Option Nat
  | _, [] => none
  | base, .range start count :: segments =>
      if start ≤ rowId ∧ rowId < (start + count) % 2 ^ 64 then
        some ((base + (rowId - start)) % 2 ^ 32)
      else offsetFrom rowId (base + count) segments
  | base, .sorted ids :: segments =>
      match ids.findIdx? fun id => id = rowId with
      | some position => some ((base + position) % 2 ^ 32)
      | none => offsetFrom rowId (base + ids.length) segments

/-- The offset of a row id in a fragment. -/
def offsetOfRowId (segments : List RowIdSegment) (rowId : Nat) : Option Nat :=
  offsetFrom rowId 0 segments

namespace LocateTable

/-- Read the deletion vector of a fragment with deleted rows, unless it has been read. -/
def cacheDeletions (vectors : String → DeletionVector) (frag : FragLocate)
    (cache : HashMap Nat DeletionVector) : HashMap Nat DeletionVector :=
  match frag.deletes with
  | some path =>
      if 0 < frag.deletedCount ∧ cache.lookup frag.fragmentId = none then
        cache.insert frag.fragmentId (vectors path)
      else cache
  | none => cache

/-- The deletion vector that has been read has an offset. -/
def isDeleted (cache : HashMap Nat DeletionVector) (frag : FragLocate) (offset : Nat) : Bool :=
  match cache.lookup frag.fragmentId with
  | some deletions => offset ∈ deletions
  | none => false

/-- Deletion vectors that have been read, and the live locations of a row id so far. -/
structure ProbeState where
  cache : HashMap Nat DeletionVector
  live : Option MatchLoc
  liveCount : Nat

/-- Look for a row id in a fragment. -/
def probeFragment (vectors : String → DeletionVector) (rowId : Nat) (state : ProbeState)
    (frag : FragLocate) : ProbeState :=
  match offsetOfRowId frag.rowIds rowId with
  | none => state
  | some offset =>
      let cache := cacheDeletions vectors frag state.cache
      if isDeleted cache frag offset then { state with cache }
      else
        { cache
          live := some { fragmentId := frag.fragmentId, offset, rowId }
          liveCount := state.liveCount + 1 }

/-- Look for a row id in all fragments. -/
def locateRowId (vectors : String → DeletionVector) (frags : List FragLocate)
    (cache : HashMap Nat DeletionVector) (rowId : Nat) : ProbeState :=
  frags.foldl (probeFragment vectors rowId) { cache, live := none, liveCount := 0 }

/-- Look for row ids, unless one of them is live twice. -/
def locateRowIds (vectors : String → DeletionVector) (frags : List FragLocate) :
    HashMap Nat DeletionVector → List Nat → Option (List MatchLoc)
  | _, [] => some []
  | cache, rowId :: rowIds =>
      let state := locateRowId vectors frags cache rowId
      match state.liveCount with
      | 0 => locateRowIds vectors frags state.cache rowIds
      | 1 => (locateRowIds vectors frags state.cache rowIds).map (state.live.toList ++ ·)
      | _ => none

variable (table : LocateTable)

/-- The fragments of a table. -/
def frags : List FragLocate :=
  table.groups.map fun group =>
    { fragmentId := group.1.entry.fragmentId
      rowIds := group.1.sidecar.rowIds
      deletes := group.1.entry.deletes
      deletedCount := group.1.entry.deletedCount }

/-- Locate rows by the first index that answers a predicate.  Row ids are taken in some order. -/
def tryLocateByIndex (indexes : List SnapshotIndex) (predicate : PredicateExpr) :
    Option (List MatchLoc) := do
  let rowIds ← indexes.findSome? fun index => IndexSelector.indexEqualityLookup index predicate
  locateRowIds table.vectors table.frags ∅ (rowIds.sort (· ≤ ·))

/-! ## Locating by a scan -/

/-- The data cells of a row. -/
def cells (row : DataRow IndexValue) : List IndexValue :=
  (List.range table.names.length).map row

/-- The value of an operand on a row. -/
def operand (cells : List IndexValue) : OperandExpr → IndexValue
  | .column name => cells[table.names.idxOf name]?.getD .null
  | .literal value => value
  | .other value => value cells

/-- SQL disjunction. -/
def disjunction : Option Bool → Option Bool → Option Bool
  | some true, _ | _, some true => some true
  | some false, some false => some false
  | _, _ => none

/-- The truth of a predicate on a row. -/
def evaluate (engine : EqualityEngine) (cells : List IndexValue) : PredicateExpr → Option Bool
  | .eq left right => engine (table.operand cells left) (table.operand cells right)
  | .inList expr list negated =>
      let found := list.foldr (fun item found =>
        disjunction (engine (table.operand cells expr) (table.operand cells item)) found)
        (some false)
      if negated then found.map not else found
  | .other holds => holds cells

/-- A predicate as a filter of a scan. -/
def predicateFilter (engine : EqualityEngine) (predicate : PredicateExpr) :
    ScanFilter IndexValue where
  columns := List.range table.names.length
  test row := table.evaluate engine (table.cells row) predicate
  reads first second same := by
    have cells : table.cells first = table.cells second := List.map_congr_left same
    rw [cells]

/-- The row groups with their contents. -/
def rowGroups : List (ScanRowGroup IndexValue) :=
  table.groups.map fun group => ScanSelection.contents table.vectors group.1 group.2

/-- The scan for the row ids and addresses of the rows that satisfy a predicate.  Row groups that
pruning leaves out have no such rows.  Row ids and addresses have 64 bits. -/
def locateScan (splits : Option (Nat → Nat)) (engine : EqualityEngine) (predicate : PredicateExpr) :
    ScanExec IndexValue Unit where
  schema :=
    { width := table.names.length
      dataType := fun _ => ()
      number := fun number => .uint64 (number % 2 ^ 64)
      absent := .null }
  partitions := splitRowGroups splits table.rowGroups
  columns := [table.names.length, table.names.length + 1]
  filters := [table.predicateFilter engine predicate]
  limit := none

/-- The location in a line of the scan. -/
def decodeLine : List IndexValue → Option MatchLoc
  | [.uint64 rowId, .uint64 address] =>
      some { fragmentId := address >>> 32, offset := address &&& 0xFFFFFFFF, rowId }
  | _ => none

/-- Locate rows by a scan. -/
def locateByScan (splits : Option (Nat → Nat)) (engine : EqualityEngine)
    (predicate : PredicateExpr) : Option (List MatchLoc) :=
  (table.locateScan splits engine predicate).execute.bind fun lines => lines.mapM decodeLine

/-- Locate rows: by an index, or else by a scan. -/
def locateMatches (indexes : List SnapshotIndex) (splits : Option (Nat → Nat))
    (engine : EqualityEngine) (predicate : PredicateExpr) : Option (List MatchLoc) :=
  (table.tryLocateByIndex indexes predicate).or (table.locateByScan splits engine predicate)

end LocateTable

end IcefallDB
