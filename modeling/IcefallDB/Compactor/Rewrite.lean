import IcefallDB.RowIndex

/-!
# Rewriting rows

The pure part of a compaction: the live rows of the input fragments and their row ids travel side
by side through filtering, ordering and the cutting into output row groups, and the row ids of each
output row group are encoded as segments.
-/

namespace IcefallDB

variable {R : Type}

/-! ## Row-id segments -/

/-- Ranges of the contiguous runs of increasing row ids, after a run that is still open. -/
def rangeSegments (start count : Nat) : List Nat → List RowIdSegment
  | [] => [.range start count]
  | id :: ids =>
      if id = start + count then rangeSegments start (count + 1) ids
      else .range start count :: rangeSegments id 1 ids

/-- Segments of a list of row ids: ranges if the ids increase, else a single literal segment. -/
def idsToSegments : List Nat → List RowIdSegment
  | [] => []
  | id :: ids =>
      if List.IsChain (· < ·) (id :: ids) then rangeSegments id 1 ids
      else [.sorted (id :: ids)]

/-! ## Live rows -/

/-- Offsets in a batch of the rows that a deletion vector leaves. -/
def liveOffsets (deletions : DeletionVector) (physicalOffset count : Nat) : List Nat :=
  (List.range count).filter fun offset => physicalOffset + offset ∉ deletions

/-- Rows of a batch that a deletion vector leaves, with their row ids.  The code looks up the row id
of every live row if there is a deletion vector, and panics if there are not enough of them. -/
def filterLiveRows (deletions : Option DeletionVector) (rows : List R) (ids : List Nat)
    (physicalOffset : Nat) : Option (List R × List Nat) :=
  match deletions with
  | none => some (rows, ids)
  | some deletions => do
      let live := liveOffsets deletions physicalOffset rows.length
      let survivingIds ← live.mapM fun offset => ids[offset]?
      some (live.filterMap fun offset => rows[offset]?, survivingIds)

/-- Row ids of a batch.  A fragment without row ids has none; the slice panics if it starts behind
the row ids of the fragment. -/
def batchIds (fragmentIds : List Nat) (physicalOffset count : Nat) : Option (List Nat) :=
  if fragmentIds.isEmpty then some []
  else if physicalOffset > fragmentIds.length then none
  else some ((fragmentIds.drop physicalOffset).take count)

/-- Live rows of the batches of a fragment, batch by batch, and their row ids, unless the code
panics. -/
def liveBatches (deletions : Option DeletionVector) (fragmentIds : List Nat) :
    Nat → List (List R) → Option (List (List R) × List Nat)
  | _, [] => some ([], [])
  | physicalOffset, batch :: batches => do
      let ids ← batchIds fragmentIds physicalOffset batch.length
      let (liveBatch, liveIds) ← filterLiveRows deletions batch ids physicalOffset
      let (laterBatches, laterIds) ← liveBatches deletions fragmentIds
        (physicalOffset + batch.length) batches
      some (if liveBatch.isEmpty then (laterBatches, laterIds)
        else (liveBatch :: laterBatches, liveIds ++ laterIds))

/-- Indices of a list of row ids, by ascending row id. -/
def idPermutation (ids : List Nat) : List Nat :=
  (ids.zipIdx.insertionSort fun left right => left.1 ≤ right.1).map Prod.snd

/-- Bring live rows into the order of their row ids, unless sort keys ask for another one. -/
def orderLiveRows (sortKeys : List String) (batches : List (List R)) (ids : List Nat) :
    List (List R) × List Nat :=
  if sortKeys.isEmpty && !ids.isEmpty then
    let permutation := idPermutation ids
    if permutation = List.range ids.length then (batches, ids)
    else
      ([permutation.filterMap fun index => batches.flatten[index]?],
        permutation.filterMap fun index => ids[index]?)
  else (batches, ids)

/-! ## Cutting rows into row groups -/

/-- Batches waiting for the next output row group. -/
structure StreamingRowGroupBuilder (R : Type) where
  targetRows : Nat
  targetBytes : Nat
  current : List (List R) := []
  currentRows : Nat := 0
  currentBytes : Nat := 0

namespace StreamingRowGroupBuilder

/-- A target is reached. -/
def isFull (builder : StreamingRowGroupBuilder R) : Bool :=
  builder.currentRows ≥ builder.targetRows || builder.currentBytes ≥ builder.targetBytes

/-- The builder with nothing waiting. -/
def reset (builder : StreamingRowGroupBuilder R) : StreamingRowGroupBuilder R :=
  { builder with current := [], currentRows := 0, currentBytes := 0 }

/-- Let rows wait. -/
def push (builder : StreamingRowGroupBuilder R) (rows : List R) (bytesPerRow : Nat) :
    StreamingRowGroupBuilder R :=
  { builder with
    current := builder.current ++ [rows]
    currentRows := builder.currentRows + rows.length
    currentBytes := builder.currentBytes + rows.length * bytesPerRow }

/-- Quotient, or nothing when the divisor is zero. -/
def checkedDiv (dividend divisor : Nat) : Option Nat :=
  if divisor = 0 then none else some (dividend / divisor)

/-- The next batch does not fit behind what is waiting. -/
def overflows (builder : StreamingRowGroupBuilder R) (rows : List R) (bytesPerRow : Nat) : Bool :=
  !builder.current.isEmpty &&
    (builder.currentRows + rows.length > builder.targetRows ||
      builder.currentBytes + rows.length * bytesPerRow > builder.targetBytes)

/-- How many rows of the next batch fill the waiting row group. -/
def fillCount (builder : StreamingRowGroupBuilder R) (rows : List R) (bytesPerRow : Nat) : Nat :=
  let rowsToHitRowTarget := builder.targetRows - builder.currentRows
  let rowsToHitByteTarget :=
    (checkedDiv (builder.targetBytes - builder.currentBytes) bytesPerRow).getD rows.length
  min (max (min rowsToHitRowTarget rowsToHitByteTarget) 1) rows.length

/-- Rows per row group of an oversized batch. -/
def rowsPerGroup (builder : StreamingRowGroupBuilder R) (bytesPerRow : Nat) : Nat :=
  match checkedDiv builder.targetBytes bytesPerRow with
  | some rowsForBytes => max (min builder.targetRows rowsForBytes) 1
  | none => builder.targetRows

/-- Slice full row groups off an oversized batch.  Returns them and the remainder.  The loop of the
code does not end when the size of a row group is zero. -/
def sliceOversized (size : Nat) : Nat → List R → Option (List (List R) × List R)
  | 0, rows => if rows.length > size then none else some ([], rows)
  | fuel + 1, rows =>
      if rows.length > size then do
        let (slices, rest) ← sliceOversized size fuel (rows.drop size)
        some (rows.take size :: slices, rest)
      else some ([], rows)

/-- Add a batch of some memory size.  Returns the row groups that are complete. -/
def add (builder : StreamingRowGroupBuilder R) (memorySize : List R → Nat) (batch : List R) :
    Option (List (List R) × StreamingRowGroupBuilder R) :=
  if batch.isEmpty then some ([], builder)
  else do
    let bytesPerRow := memorySize batch / batch.length
    let overflowing := builder.overflows batch bytesPerRow
    let filled := if overflowing then builder.fillCount batch bytesPerRow else 0
    let flushed := if overflowing then [(builder.current ++ [batch.take filled]).flatten] else []
    let builder := if overflowing then builder.reset else builder
    let (slices, rest) ← sliceOversized (builder.rowsPerGroup bytesPerRow) batch.length
      (batch.drop filled)
    some (flushed ++ slices, if rest.isEmpty then builder else builder.push rest bytesPerRow)

/-- Hand over what is waiting, if anything. -/
def flush (builder : StreamingRowGroupBuilder R) :
    Option (List R) × StreamingRowGroupBuilder R :=
  (if builder.currentRows = 0 then none else some builder.current.flatten, builder.reset)

end StreamingRowGroupBuilder

/-- Output row groups of batches, in the order they are flushed. -/
def streamChunks (memorySize : List R → Nat) :
    StreamingRowGroupBuilder R → List (List R) → Option (List (List R))
  | builder, [] => some builder.flush.1.toList
  | builder, batch :: batches => do
      let (flushed, builder) ← builder.add memorySize batch
      if builder.isFull then do
        let (full, builder) := builder.flush
        let later ← streamChunks memorySize builder batches
        some (flushed ++ full.toList ++ later)
      else do
        let later ← streamChunks memorySize builder batches
        some (flushed ++ later)

/-- Hand the row ids out to the output row groups, in order. -/
def assignRowIds : List Nat → List (List R) → List (List R × List Nat)
  | _, [] => []
  | ids, chunk :: chunks =>
      (chunk, ids.take chunk.length) :: assignRowIds (ids.drop chunk.length) chunks

end IcefallDB
