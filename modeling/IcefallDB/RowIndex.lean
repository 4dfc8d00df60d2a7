import IcefallDB.Writer
import Mathlib.Data.List.Sort

/-!
# The row index

Row ids are addressed through segments of consecutive ids at consecutive offsets of one fragment.
A generation of the index is a base with deltas on top of it; the newest layer that contains a row
id decides where it lives.
-/

namespace IcefallDB

/-! ## Row ids of a fragment -/

/-- Row ids of a segment, in order. -/
def segmentIds : RowIdSegment → List Nat
  | .range start count => List.range' start count
  | .sorted ids => ids

/-- Row ids of the physical rows of a fragment. -/
def expand (segments : List RowIdSegment) : List Nat :=
  segments.flatMap segmentIds

/-- Row ids that a walk over a segment yields.  The end of a range is a sum of 64 bits, and a range
that ends before it starts yields nothing. -/
def segmentIdsWrapping : RowIdSegment → List Nat
  | .range start count => List.range' start ((start + count) % 2 ^ 64 - start)
  | .sorted ids => ids

/-- Row ids that a walk over the segments of a fragment yields. -/
def expandWrapping (segments : List RowIdSegment) : List Nat :=
  segments.flatMap segmentIdsWrapping

/-- Row ids end within 64 bits. -/
def RowIdSegment.EndsWithin64 : RowIdSegment → Prop
  | .range start count => start + count < 2 ^ 64
  | .sorted _ => True

instance : DecidablePred RowIdSegment.EndsWithin64
  | .range _ _ => inferInstanceAs (Decidable (_ < _))
  | .sorted _ => .isTrue trivial

theorem expandWrapping_eq {segments : List RowIdSegment}
    (ends : ∀ segment ∈ segments, segment.EndsWithin64) :
    expandWrapping segments = expand segments := by
  apply List.flatMap_congr
  intro segment member
  cases segment with
  | range start count =>
      have fits : start + count < 2 ^ 64 := ends _ member
      rw [segmentIdsWrapping, segmentIds, Nat.mod_eq_of_lt fits, Nat.add_sub_cancel_left]
  | sorted ids => rfl

/-- A row id with its fragment and physical offset. -/
abbrev Address : Type :=
  Nat × Nat × Nat

/-! ## Address segments -/

/-- The segment of a single row. -/
def AddrSegment.single (row : Address) : AddrSegment :=
  { startRowId := row.1, fragmentId := row.2.1, startOffset := row.2.2, len := 1 }

/-- The row continues the segment. -/
def AddrSegment.Extends (segment : AddrSegment) (row : Address) : Prop :=
  segment.fragmentId = row.2.1 ∧ segment.startRowId + segment.len = row.1 ∧
    segment.startOffset + segment.len = row.2.2

instance (segment : AddrSegment) (row : Address) : Decidable (segment.Extends row) :=
  inferInstanceAs (Decidable (_ ∧ _ ∧ _))

/-- Add a row to segments: to the last one if the row continues it. -/
def extendSegments (segments : List AddrSegment) (row : Address) : List AddrSegment :=
  match segments.getLast? with
  | none => [AddrSegment.single row]
  | some last =>
      if last.Extends row then segments.dropLast ++ [{ last with len := last.len + 1 }]
      else segments ++ [AddrSegment.single row]

/-- Segments of consecutive rows. -/
def coalesce (rows : List Address) : List AddrSegment :=
  rows.foldl extendSegments []

/-- Segments as a row-index file stores them, by ascending row id. -/
def sortSegments (segments : List AddrSegment) : List AddrSegment :=
  segments.insertionSort fun left right => left.startRowId ≤ right.startRowId

/-- The largest 64-bit number. -/
abbrev u64Max : Nat :=
  2 ^ 64 - 1

/-- Where a row id lives according to sorted segments.  The end of a segment is cut off at the
largest row id, which is therefore in no segment. -/
def lookupInBase (segments : List AddrSegment) (rowId : Nat) : Option (Nat × Nat) :=
  match (segments.takeWhile fun segment => segment.startRowId ≤ rowId).getLast? with
  | none => none
  | some segment =>
      if rowId < min (segment.startRowId + segment.len) u64Max then
        some (segment.fragmentId, segment.startOffset + (rowId - segment.startRowId))
      else none

/-- The layers of a row-index generation. -/
structure AddressMap where
  base : List AddrSegment := []
  /-- Deltas, oldest first. -/
  deltas : List (List AddrSegment) := []

namespace AddressMap

/-- Where a row id lives according to the newest layer that contains it. -/
def lookup (map : AddressMap) (rowId : Nat) : Option (Nat × Nat) :=
  (map.deltas.reverse.findSome? fun delta => lookupInBase delta rowId).or
    (lookupInBase map.base rowId)

end AddressMap

section Programs

variable {R : Type}

/-- Read a row-index file. -/
def readRowIndex (path : String) : TableProgram R (List AddrSegment) := do
  match ← readFile path with
  | .rowIndex segments => pure segments
  | _ => Script.fail (.other "rowindex: bad magic bytes")

/-- Open the layers of a generation. -/
def AddressMap.load (generation : RowIndexRef) : TableProgram R AddressMap := do
  let base ← Script.collect readRowIndex generation.base.toList
  let deltas ← Script.collect readRowIndex generation.deltas
  pure { base := base.flatten, deltas }

/-- The live rows of a row group with their addresses, in physical order.  The counter of offsets
has 32 bits. -/
def liveAddresses (fragmentId : Nat) (rowIds : List Nat) (deletions : DeletionVector) :
    List Address :=
  (rowIds.zipIdx.filter fun row => row.2 % 2 ^ 32 ∉ deletions).map
    fun row => (row.1, fragmentId, row.2 % 2 ^ 32)

/-- The deletion vector of a row group; it is empty if there is none. -/
def readEntryDeletions (entry : RowGroupEntry) : TableProgram R DeletionVector :=
  match entry.deletes with
  | some path => readDeletions path
  | none => pure ∅

/-- Read the live rows of a row group. -/
def readLiveAddresses (entry : RowGroupEntry) : TableProgram R (List Address) := do
  let sidecar ← readSidecar entry.metaFile
  let deletions ← readEntryDeletions entry
  pure (liveAddresses entry.fragmentId (expandWrapping sidecar.rowIds) deletions)

/-- A row id that two consecutive rows of a sorted list share. -/
def firstDuplicate : List Address → Option Nat
  | first :: second :: rest =>
      if first.1 = second.1 then some first.1 else firstDuplicate (second :: rest)
  | _ => none

/-- Row-index segments of the live rows of a manifest.  It is an error if a row id is live twice. -/
def deriveBase (manifest : Manifest) : TableProgram R (List AddrSegment) := do
  let live ← Script.collect readLiveAddresses manifest.rowGroups
  let sorted := live.flatten.insertionSort fun left right => left.1 ≤ right.1
  match firstDuplicate sorted with
  | some rowId =>
      Script.fail (.other ("derive_base: row_id " ++ toString rowId
        ++ " appears more than once in the live set — data corruption or missing tombstone"))
  | none => pure (coalesce sorted)

/-- Write a fresh row-index base for a manifest.  Returns the new generation. -/
def rebuildRowIndex (manifest : Manifest) : TableProgram R RowIndexRef := do
  let segments ← deriveBase manifest
  Script.emit (.write (rowIndexBasePath manifest.sequence) (.rowIndex (sortSegments segments)))
  pure { base := some (rowIndexBasePath manifest.sequence), deltas := [] }

end Programs

end IcefallDB
