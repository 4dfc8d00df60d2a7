import IcefallDB.Compactor.Rewrite

/-!
# Cutting rows into row groups

Rows pass through the builder in order.  Between two batches the builder holds fewer rows and bytes
than its targets, so what waits is filled up to the target before the rest of the next batch is
sliced.  Slices of no rows are cut forever.
-/

namespace IcefallDB

variable {R : Type}

namespace StreamingRowGroupBuilder

variable {builder : StreamingRowGroupBuilder R} {bytesPerRow : Nat} {batch : List R}

/-! ## One batch -/

/-- The builder counts what is waiting, and what is waiting reaches neither target. -/
structure Waiting (builder : StreamingRowGroupBuilder R) : Prop where
  counted : builder.currentRows = builder.current.flatten.length
  below : builder.current ≠ [] →
    builder.currentRows < builder.targetRows ∧ builder.currentBytes < builder.targetBytes

/-- Rows of the largest row group. -/
abbrev limit (builder : StreamingRowGroupBuilder R) : Nat :=
  max builder.targetRows 1

theorem waiting_reset (builder : StreamingRowGroupBuilder R) : builder.reset.Waiting := by
  constructor
  · rfl
  · intro nonempty
    exact absurd rfl nonempty

theorem rowsPerGroup_le (builder : StreamingRowGroupBuilder R) (bytesPerRow : Nat) :
    builder.rowsPerGroup bytesPerRow ≤ builder.limit := by
  unfold rowsPerGroup limit
  split
  · omega
  · exact Nat.le_max_left _ _

theorem rowsPerGroup_eq_zero_iff :
    builder.rowsPerGroup bytesPerRow = 0 ↔ builder.targetRows = 0 ∧ bytesPerRow = 0 := by
  unfold rowsPerGroup checkedDiv
  by_cases zero : bytesPerRow = 0
  · simp [zero]
  · simp only [if_neg zero]
    omega

variable {rows : List R}

/-- Slices of some rows end, lose nothing and are not longer than asked for. -/
theorem exists_sliceOversized {size : Nat} (positive : 0 < size) {fuel : Nat}
    (enough : rows.length ≤ fuel) :
    ∃ slices rest, sliceOversized size fuel rows = some (slices, rest) ∧
      slices.flatten ++ rest = rows ∧ (∀ slice ∈ slices, slice.length ≤ size) ∧
      rest.length ≤ size := by
  induction fuel generalizing rows with
  | zero => exact ⟨[], rows, if_neg (by omega), rfl, nofun, by omega⟩
  | succ fuel ih =>
      rw [sliceOversized]
      by_cases oversized : rows.length > size
      · have shorter : (rows.drop size).length ≤ fuel := by
          rw [List.length_drop]
          omega
        obtain ⟨slices, rest, sliced, same, bounded, last⟩ := ih shorter
        refine ⟨rows.take size :: slices, rest, ?_, ?_, ?_, last⟩
        · rw [if_pos oversized, sliced]
          rfl
        · rw [List.flatten_cons, List.append_assoc, same, List.take_append_drop]
        · rintro slice (_ | ⟨_, member⟩)
          · exact List.length_take_le _ _
          · exact bounded slice member
      · exact ⟨[], rows, if_neg oversized, rfl, nofun, by omega⟩

/-- Slices of no rows do not end, however long they are cut. -/
theorem sliceOversized_zero (fuel : Nat) (nonempty : rows ≠ []) :
    sliceOversized 0 fuel rows = none := by
  have some_rows := List.length_pos_iff.mpr nonempty
  induction fuel with
  | zero => exact if_pos some_rows
  | succ fuel ih =>
      rw [sliceOversized, if_pos some_rows, List.drop_zero, ih]
      rfl

theorem sliceOversized_of_le {size fuel : Nat} (fits : rows.length ≤ size) :
    sliceOversized size fuel rows = some ([], rows) := by
  cases fuel with
  | zero => exact if_neg (Nat.not_lt.mpr fits)
  | succ fuel => exact if_neg (Nat.not_lt.mpr fits)

/-- A batch that fits behind what is waiting is not sliced. -/
theorem length_le_rowsPerGroup (nonempty : builder.current ≠ [])
    (fits : builder.overflows batch bytesPerRow = false) :
    builder.currentRows + batch.length ≤ builder.targetRows ∧
      batch.length ≤ builder.rowsPerGroup bytesPerRow := by
  have filled : builder.current.isEmpty = false := by simpa using nonempty
  simp only [overflows, filled, Bool.not_false, Bool.true_and, Bool.or_eq_false_iff,
    decide_eq_false_iff_not, gt_iff_lt, not_lt] at fits
  obtain ⟨rows, bytes⟩ := fits
  refine ⟨rows, ?_⟩
  unfold rowsPerGroup checkedDiv
  by_cases zero : bytesPerRow = 0
  · simp only [if_pos zero]
    omega
  · simp only [if_neg zero]
    have quotient : batch.length ≤ builder.targetBytes / bytesPerRow := by
      apply (Nat.le_div_iff_mul_le (Nat.pos_of_ne_zero zero)).mpr
      omega
    omega

/-- Filling up what is waiting does not pass the target of rows. -/
theorem fillCount_le (waiting : builder.Waiting)
    (overflowing : builder.overflows batch bytesPerRow = true) :
    builder.currentRows + builder.fillCount batch bytesPerRow ≤ builder.targetRows := by
  have nonempty : builder.current ≠ [] := by
    rintro empty
    simp [overflows, empty] at overflowing
  have below := (waiting.below nonempty).1
  unfold fillCount
  dsimp only
  omega

/-- What a builder holds after what is left of a batch has joined it. -/
def join (builder : StreamingRowGroupBuilder R) (rest : List R) (bytesPerRow : Nat) :
    StreamingRowGroupBuilder R :=
  if rest.isEmpty then builder else builder.push rest bytesPerRow

theorem flatten_join (builder : StreamingRowGroupBuilder R) (rest : List R) (bytesPerRow : Nat) :
    (builder.join rest bytesPerRow).current.flatten = builder.current.flatten ++ rest := by
  cases rest with
  | nil => exact (List.append_nil _).symm
  | cons row rows => simp [join, push]

theorem counted_join (counted : builder.currentRows = builder.current.flatten.length)
    (rest : List R) (bytesPerRow : Nat) :
    (builder.join rest bytesPerRow).currentRows =
      (builder.join rest bytesPerRow).current.flatten.length := by
  rw [flatten_join, List.length_append, ← counted]
  cases rest with
  | nil => rfl
  | cons row rows => rfl

@[simp]
theorem targetRows_join (builder : StreamingRowGroupBuilder R) (rest : List R)
    (bytesPerRow : Nat) : (builder.join rest bytesPerRow).targetRows = builder.targetRows := by
  unfold join
  split <;> rfl

/-- A batch was added: row groups of at most the target of rows are complete, and the rows of the
batch follow the ones that were waiting. -/
structure Added (builder : StreamingRowGroupBuilder R) (batch : List R)
    (flushed : List (List R)) (next : StreamingRowGroupBuilder R) : Prop where
  targetRows : next.targetRows = builder.targetRows
  counted : next.currentRows = next.current.flatten.length
  room : next.currentRows ≤ builder.limit
  rows : flushed.flatten ++ next.current.flatten = builder.current.flatten ++ batch
  bounded : ∀ chunk ∈ flushed, chunk.length ≤ builder.limit

/-- Batches of rows without bytes need a target of rows. -/
abbrev Sliceable (targetRows : Nat) (memorySize : List R → Nat) (batch : List R) : Prop :=
  targetRows = 0 → batch ≠ [] → batch.length ≤ memorySize batch

variable {memorySize : List R → Nat}

theorem rowsPerGroup_pos (sliceable : Sliceable builder.targetRows memorySize batch)
    (nonempty : batch ≠ []) : 0 < builder.rowsPerGroup (memorySize batch / batch.length) := by
  apply Nat.pos_of_ne_zero
  intro zero
  obtain ⟨noRows, noBytes⟩ := rowsPerGroup_eq_zero_iff.mp zero
  have large := sliceable noRows nonempty
  have positive := List.length_pos_iff.mpr nonempty
  have quotient := Nat.div_pos large positive
  omega

/-- Without rows waiting, a batch is sliced, and the remainder waits. -/
theorem added_join (empty : builder.current = []) (counted : builder.currentRows = 0)
    {slices : List (List R)} {rest : List R} (same : slices.flatten ++ rest = rows)
    (bounded : ∀ slice ∈ slices, slice.length ≤ builder.rowsPerGroup bytesPerRow)
    (last : rest.length ≤ builder.rowsPerGroup bytesPerRow) :
    builder.Added rows slices (builder.join rest bytesPerRow) := by
  have small := builder.rowsPerGroup_le bytesPerRow
  have waiting : (builder.join rest bytesPerRow).current.flatten = rest := by
    rw [flatten_join, empty]
    rfl
  have counts := counted_join
    (by rw [counted, empty]; rfl : builder.currentRows = builder.current.flatten.length) rest
    bytesPerRow
  constructor
  · exact targetRows_join builder rest bytesPerRow
  · exact counts
  · rw [counts, waiting]
    exact last.trans small
  · rw [waiting, empty]
    exact same
  · exact fun slice member => (bounded slice member).trans small

/-- Adding a batch ends. -/
theorem exists_add (waiting : builder.Waiting)
    (sliceable : Sliceable builder.targetRows memorySize batch) :
    ∃ flushed next, builder.add memorySize batch = some (flushed, next) ∧
      builder.Added batch flushed next := by
  by_cases empty : batch = []
  · subst empty
    refine ⟨[], builder, rfl, rfl, waiting.counted, ?_, ?_, nofun⟩
    · by_cases nothing : builder.current = []
      · rw [waiting.counted, nothing]
        exact Nat.zero_le _
      · exact (waiting.below nothing).1.le.trans (Nat.le_max_left _ _)
    · rw [List.append_nil]
      rfl
  · have positive := rowsPerGroup_pos sliceable empty
    have some_rows : ¬batch.isEmpty = true := by simpa using empty
    generalize bytes : memorySize batch / batch.length = bytesPerRow at positive
    by_cases overflowing : builder.overflows batch bytesPerRow = true
    · generalize count : builder.fillCount batch bytesPerRow = filled
      have within := fillCount_le waiting overflowing
      have shorter : (batch.drop filled).length ≤ batch.length := by
        rw [List.length_drop]
        omega
      obtain ⟨slices, rest, sliced, same, bounded, last⟩ :=
        exists_sliceOversized positive shorter
      have later : builder.reset.Added (batch.drop filled) slices
          (builder.reset.join rest bytesPerRow) := added_join rfl rfl same bounded last
      refine ⟨(builder.current ++ [batch.take filled]).flatten :: slices,
        builder.reset.join rest bytesPerRow, ?_, later.targetRows, later.counted, later.room,
        ?_, ?_⟩
      · rw [add, if_neg some_rows, bytes]
        simp only [if_pos overflowing, count]
        have sized : builder.reset.rowsPerGroup bytesPerRow = builder.rowsPerGroup bytesPerRow :=
          rfl
        rw [sized, sliced]
        rfl
      · have rows := later.rows
        have nothing : builder.reset.current.flatten = [] := rfl
        rw [nothing, List.nil_append] at rows
        rw [List.flatten_cons, List.append_assoc, rows, List.flatten_append,
          List.flatten_singleton, List.append_assoc, List.take_append_drop]
      · rintro chunk (_ | ⟨_, member⟩)
        · rw [List.flatten_append, List.length_append, ← waiting.counted, List.flatten_singleton,
            List.length_take]
          rw [count] at within
          have := Nat.le_max_left builder.targetRows 1
          unfold limit
          omega
        · exact later.bounded chunk member
    · have added : ∀ {slices rest}, sliceOversized (builder.rowsPerGroup bytesPerRow) batch.length
          batch = some (slices, rest) →
            builder.add memorySize batch = some (slices, builder.join rest bytesPerRow) := by
        intro slices rest sliced
        rw [add, if_neg some_rows, bytes]
        simp only [if_neg overflowing, List.drop_zero, sliced, Option.bind_eq_bind,
          Option.bind_some, List.nil_append]
        rfl
      by_cases nothing : builder.current = []
      · have zero : builder.currentRows = 0 := by
          rw [waiting.counted, nothing]
          rfl
        obtain ⟨slices, rest, sliced, same, bounded, last⟩ :=
          exists_sliceOversized positive (Nat.le_refl batch.length)
        exact ⟨slices, _, added sliced, added_join nothing zero same bounded last⟩
      · obtain ⟨fits, short⟩ := length_le_rowsPerGroup nothing
          (by simpa using overflowing : builder.overflows batch bytesPerRow = false)
        have counts := counted_join waiting.counted batch bytesPerRow
        refine ⟨[], _, added (sliceOversized_of_le short), ?_, counts, ?_, ?_, nofun⟩
        · exact targetRows_join ..
        · rw [counts, flatten_join, List.length_append, ← waiting.counted]
          exact fits.trans (Nat.le_max_left _ _)
        · rw [flatten_join]
          rfl

/-- Without a target of rows, rows without bytes are sliced forever. -/
theorem add_eq_none (nothing : builder.current = [])
    (stuck : ¬Sliceable builder.targetRows memorySize batch) :
    builder.add memorySize batch = none := by
  simp only [Sliceable, not_forall, Nat.not_le] at stuck
  obtain ⟨noRows, nonempty, small⟩ := stuck
  have noBytes : memorySize batch / batch.length = 0 := Nat.div_eq_of_lt small
  have overflowing : builder.overflows batch 0 = false := by
    simp [overflows, nothing]
  have size : builder.rowsPerGroup 0 = 0 := rowsPerGroup_eq_zero_iff.mpr ⟨noRows, rfl⟩
  rw [add, if_neg (by simpa using nonempty), noBytes]
  simp only [overflowing, Bool.false_eq_true, if_false, List.drop_zero, size,
    sliceOversized_zero _ nonempty]
  rfl

theorem Added.waiting {flushed : List (List R)} {next : StreamingRowGroupBuilder R}
    (added : builder.Added batch flushed next) (short : next.isFull = false) : next.Waiting := by
  constructor
  · exact added.counted
  · intro _
    simpa [isFull] using short

/-- What is waiting is flushed as one row group, if it is anything. -/
theorem flatten_flush (counted : builder.currentRows = builder.current.flatten.length) :
    builder.flush.1.toList.flatten = builder.current.flatten ∧
      ∀ chunk ∈ builder.flush.1.toList, chunk.length = builder.currentRows := by
  rw [flush]
  by_cases zero : builder.currentRows = 0
  · rw [if_pos zero]
    rw [zero] at counted
    exact ⟨(List.length_eq_zero_iff.mp counted.symm).symm, nofun⟩
  · rw [if_neg zero]
    constructor
    · exact List.append_nil _
    · intro chunk member
      rw [List.mem_singleton.mp member]
      exact counted.symm

end StreamingRowGroupBuilder

open StreamingRowGroupBuilder

/-! ## All batches -/

section

variable {memorySize : List R → Nat} {builder : StreamingRowGroupBuilder R}

theorem streamChunks_cons {batch : List R} {flushed : List (List R)}
    {next : StreamingRowGroupBuilder R}
    (added : builder.add memorySize batch = some (flushed, next)) (batches : List (List R)) :
    streamChunks memorySize builder (batch :: batches) =
      if next.isFull then
        (streamChunks memorySize next.reset batches).map fun later =>
          flushed ++ next.flush.1.toList ++ later
      else (streamChunks memorySize next batches).map fun later => flushed ++ later := by
  rw [streamChunks, added, Option.bind_eq_bind, Option.bind_some]
  by_cases full : next.isFull
  · simp only [if_pos full]
    exact (Option.map_eq_bind ..).symm
  · simp only [if_neg full]
    exact (Option.map_eq_bind ..).symm

/-- All batches are cut into row groups of at most the target of rows, in order. -/
theorem exists_streamChunks (waiting : builder.Waiting) {batches : List (List R)}
    (sliceable : ∀ batch ∈ batches, Sliceable builder.targetRows memorySize batch) :
    ∃ chunks, streamChunks memorySize builder batches = some chunks ∧
      chunks.flatten = builder.current.flatten ++ batches.flatten ∧
      ∀ chunk ∈ chunks, chunk.length ≤ builder.limit := by
  induction batches generalizing builder with
  | nil =>
      obtain ⟨flat, lengths⟩ := flatten_flush waiting.counted
      refine ⟨_, rfl, ?_, fun chunk member => ?_⟩
      · rw [flat]
        exact (List.append_nil _).symm
      · rw [lengths chunk member]
        by_cases nothing : builder.current = []
        · rw [waiting.counted, nothing]
          exact Nat.zero_le _
        · exact (waiting.below nothing).1.le.trans (Nat.le_max_left _ _)
  | cons batch batches ih =>
      obtain ⟨first, others⟩ := List.forall_mem_cons.mp sliceable
      obtain ⟨flushed, next, ran, added⟩ := exists_add waiting first
      rw [streamChunks_cons ran]
      have same_limit : next.limit = builder.limit := by
        rw [limit, added.targetRows]
      rw [← added.targetRows] at others
      by_cases full : next.isFull = true
      · obtain ⟨later, streamed, flat, lengths⟩ := ih next.waiting_reset others
        obtain ⟨whole, sizes⟩ := flatten_flush added.counted
        refine ⟨flushed ++ next.flush.1.toList ++ later, ?_, ?_, ?_⟩
        · rw [if_pos full, streamed]
          rfl
        · have nothing : next.reset.current.flatten = [] := rfl
          rw [List.flatten_append, List.flatten_append, flat, nothing, List.nil_append, whole,
            added.rows, List.flatten_cons, List.append_assoc]
        · intro chunk member
          rcases List.mem_append.mp member with early | late
          · rcases List.mem_append.mp early with complete | flushedLast
            · exact added.bounded chunk complete
            · rw [sizes chunk flushedLast]
              exact added.room
          · rw [← same_limit]
            exact lengths chunk late
      · obtain ⟨later, streamed, flat, lengths⟩ := ih (added.waiting (by simpa using full)) others
        refine ⟨flushed ++ later, ?_, ?_, ?_⟩
        · rw [if_neg full, streamed]
          rfl
        · rw [List.flatten_append, flat, ← List.append_assoc, added.rows, List.flatten_cons,
            List.append_assoc]
        · intro chunk member
          rcases List.mem_append.mp member with complete | late
          · exact added.bounded chunk complete
          · rw [← same_limit]
            exact lengths chunk late

/-- Cutting ends only if all batches can be sliced. -/
theorem sliceable_of_streamChunks (waiting : builder.Waiting) {batches : List (List R)}
    {chunks : List (List R)} (streamed : streamChunks memorySize builder batches = some chunks) :
    ∀ batch ∈ batches, Sliceable builder.targetRows memorySize batch := by
  induction batches generalizing builder chunks with
  | nil => nofun
  | cons batch batches ih =>
      by_cases first : Sliceable builder.targetRows memorySize batch
      · obtain ⟨flushed, next, ran, added⟩ := exists_add waiting first
        rw [streamChunks_cons ran] at streamed
        rw [List.forall_mem_cons]
        refine ⟨first, ?_⟩
        rw [← added.targetRows]
        by_cases full : next.isFull = true
        · rw [if_pos full] at streamed
          obtain ⟨later, rest, -⟩ := Option.map_eq_some_iff.mp streamed
          have after := ih next.waiting_reset rest
          exact after
        · rw [if_neg full] at streamed
          obtain ⟨later, rest, -⟩ := Option.map_eq_some_iff.mp streamed
          exact ih (added.waiting (by simpa using full)) rest
      · have nothing : builder.current = [] := by
          by_contra nonempty
          apply first
          intro zero
          have below := (waiting.below nonempty).1
          omega
        rw [streamChunks, add_eq_none nothing first] at streamed
        cases streamed

end

/-! ## Row ids -/

/-- Row ids and how many of them have been handed out. -/
structure RowIdAccumulator where
  all : List Nat := []
  cursor : Nat := 0

namespace RowIdAccumulator

/-- Append row ids. -/
def push (accumulator : RowIdAccumulator) (ids : List Nat) : RowIdAccumulator :=
  { accumulator with all := accumulator.all ++ ids }

/-- Hand out the next row ids. -/
def take (accumulator : RowIdAccumulator) (n : Nat) : List Nat × RowIdAccumulator :=
  let stop := min (accumulator.cursor + n) accumulator.all.length
  ((accumulator.all.drop accumulator.cursor).take (stop - accumulator.cursor),
    { accumulator with cursor := stop })

/-- Hand out row ids for row groups one after the other. -/
def takeAll : RowIdAccumulator → List (List R) → List (List Nat)
  | _, [] => []
  | accumulator, chunk :: chunks =>
      let (ids, accumulator) := accumulator.take chunk.length
      ids :: takeAll accumulator chunks

theorem takeAll_cons (accumulator : RowIdAccumulator) (chunk : List R) (chunks : List (List R)) :
    accumulator.takeAll (chunk :: chunks) =
      (accumulator.take chunk.length).1 :: (accumulator.take chunk.length).2.takeAll chunks :=
  rfl

theorem take_eq {accumulator : RowIdAccumulator}
    (inside : accumulator.cursor ≤ accumulator.all.length) (n : Nat) :
    (accumulator.take n).1 = (accumulator.all.drop accumulator.cursor).take n ∧
      (accumulator.take n).2.all.drop (accumulator.take n).2.cursor =
        (accumulator.all.drop accumulator.cursor).drop n ∧
      (accumulator.take n).2.cursor ≤ (accumulator.take n).2.all.length := by
  unfold take
  dsimp only
  by_cases short : accumulator.cursor + n ≤ accumulator.all.length
  · rw [Nat.min_eq_left short, Nat.add_sub_cancel_left, List.drop_drop]
    exact ⟨rfl, rfl, short⟩
  · rw [Nat.min_eq_right (Nat.le_of_not_le short), List.drop_drop, List.drop_length,
      List.drop_eq_nil_of_le (Nat.le_of_not_le short)]
    refine ⟨?_, rfl, le_rfl⟩
    rw [List.take_of_length_le (by rw [List.length_drop]),
      List.take_of_length_le (by rw [List.length_drop]; omega)]

/-- Row groups get the row ids of their rows, where the row ids are those of the rows in order. -/
theorem takeAll_eq (rowIdOf : R → Nat) (chunks : List (List R)) {accumulator : RowIdAccumulator}
    (inside : accumulator.cursor ≤ accumulator.all.length)
    (ids : accumulator.all.drop accumulator.cursor = chunks.flatten.map rowIdOf) :
    accumulator.takeAll chunks = chunks.map (List.map rowIdOf) := by
  induction chunks generalizing accumulator with
  | nil => rfl
  | cons chunk chunks ih =>
      obtain ⟨taken, rest, within⟩ := take_eq inside chunk.length
      rw [List.flatten_cons, List.map_append] at ids
      have length : (chunk.map rowIdOf).length = chunk.length := List.length_map ..
      rw [ids, List.take_left' length] at taken
      rw [ids, List.drop_left' length] at rest
      rw [takeAll_cons, List.map_cons, taken]
      exact congrArg _ (ih within rest)

end RowIdAccumulator

/-! ## Streaming -/

/-- Batches are cut into row groups with the row ids of their rows. -/
structure Streamed (memorySize : List R → Nat) (targetRows targetBytes : Nat)
    (batches : List (List R)) (rowIdOf : R → Nat) (chunks : List (List R)) : Prop where
  streamed : streamChunks memorySize { targetRows, targetBytes } batches = some chunks
  rows : chunks.flatten = batches.flatten
  bounded : ∀ chunk ∈ chunks, chunk.length ≤ max targetRows 1
  rowIds : (RowIdAccumulator.push {} (batches.flatten.map rowIdOf)).takeAll chunks =
    chunks.map (List.map rowIdOf)

/-- Batches are cut into row groups just if there is a target of rows or no batch is so small that
its rows count as having no bytes. -/
theorem exists_streamed_iff (memorySize : List R → Nat) (targetRows targetBytes : Nat)
    (batches : List (List R)) (rowIdOf : R → Nat) :
    (∃ chunks, Streamed memorySize targetRows targetBytes batches rowIdOf chunks) ↔
      ∀ batch ∈ batches, targetRows = 0 → batch ≠ [] → batch.length ≤ memorySize batch := by
  have waiting : Waiting ({ targetRows, targetBytes } : StreamingRowGroupBuilder R) :=
    ⟨rfl, fun nonempty => absurd rfl nonempty⟩
  constructor
  · rintro ⟨chunks, streamed⟩
    exact sliceable_of_streamChunks waiting streamed.streamed
  · intro sliceable
    obtain ⟨chunks, streamed, rows, bounded⟩ := exists_streamChunks waiting sliceable
    have flat : chunks.flatten = batches.flatten := rows
    refine ⟨chunks, streamed, flat, bounded, ?_⟩
    apply RowIdAccumulator.takeAll_eq rowIdOf chunks (Nat.zero_le _)
    rw [flat]
    rfl

namespace Flags

/-- The bytes of a column of flags, with the records around it. -/
def memorySize (flags : List Bool) : Nat :=
  flags.length / 8 + 200

theorem exists_streamed_iff_flags : ∃ chunks,
    Streamed memorySize 2 1000 [[true, false, true], [], [false, false]] Bool.toNat chunks :=
  (exists_streamed_iff memorySize 2 1000 _ Bool.toNat).mpr (by decide)

/-- Without a target of rows, many flags are sliced forever. -/
theorem not_exists_streamed_flags : ¬∃ chunks,
    Streamed memorySize 0 1000 [List.replicate 10000 true] Bool.toNat chunks := by
  rintro ⟨chunks, streamed⟩
  have stuck : ¬Sliceable 0 memorySize (List.replicate 10000 true) := by
    intro sliceable
    have large := sliceable rfl (List.ne_nil_of_length_pos (by rw [List.length_replicate]; omega))
    rw [memorySize, List.length_replicate] at large
    omega
  have ends := streamed.streamed
  rw [streamChunks, add_eq_none rfl stuck] at ends
  cases ends

end Flags

end IcefallDB
