import IcefallDB.Compactor
import IcefallDB.Compactor.Streaming
import IcefallDB.Lib.Options

/-!
# Rows that a compaction keeps

Fragments that are older than row ids have none, and a compaction handles them next to fragments
that have them.  The row ids of the live rows drive both the filter and the order of the output, so
a compaction panics or loses rows where there are not enough of them.
-/

namespace IcefallDB

variable {R : Type}

/-! ## Filtering batches -/

/-- The elements from an offset on that a deletion vector leaves. -/
def liveFrom {α : Type} (deletions : DeletionVector) (offset : Nat) (list : List α) : List α :=
  ((list.zipIdx offset).filter fun element => element.2 ∉ deletions).map Prod.fst

variable {α : Type} (deletions : DeletionVector)

theorem liveFrom_zero (list : List α) : liveFrom deletions 0 list = liveRows deletions list := rfl

variable (offset : Nat)

theorem liveFrom_cons (element : α) (list : List α) : liveFrom deletions offset (element :: list) =
      if offset ∈ deletions then liveFrom deletions (offset + 1) list
      else element :: liveFrom deletions (offset + 1) list := by
  by_cases deleted : offset ∈ deletions <;> simp [liveFrom, deleted]

theorem liveFrom_append (left right : List α) : liveFrom deletions offset (left ++ right) =
      liveFrom deletions offset left ++ liveFrom deletions (offset + left.length) right := by
  simp [liveFrom, List.zipIdx_append]

@[simp]
theorem liveFrom_empty (list : List α) : liveFrom ∅ offset list = list := by
  simp [liveFrom, List.zipIdx_map_fst]

/-- What is left has the same length in lists of the same length. -/
theorem length_liveFrom {β : Type} {left : List α} {right : List β}
    (same : left.length = right.length) :
    (liveFrom deletions offset left).length = (liveFrom deletions offset right).length := by
  induction left generalizing offset right with
  | nil =>
      obtain rfl := List.length_eq_zero_iff.mp same.symm
      rfl
  | cons element left ih =>
      cases right with
      | nil => cases same
      | cons other right =>
          have shorter : left.length = right.length := Nat.succ.inj same
          rw [liveFrom_cons, liveFrom_cons]
          split
          · exact ih (offset + 1) shorter
          · rw [List.length_cons, List.length_cons, ih (offset + 1) shorter]

theorem liveOffsets_succ (count : Nat) :
    liveOffsets deletions offset (count + 1) =
      if offset ∈ deletions then (liveOffsets deletions (offset + 1) count).map (· + 1)
      else 0 :: (liveOffsets deletions (offset + 1) count).map (· + 1) := by
  have shift : ((List.range count).map Nat.succ).filter (fun index => offset + index ∉ deletions) =
      (liveOffsets deletions (offset + 1) count).map (· + 1) := by
    rw [List.filter_map, liveOffsets]
    congr 1
    apply List.filter_congr
    intro index _
    simp [Nat.add_assoc, Nat.add_comm 1]
  rw [liveOffsets, List.range_succ_eq_map, List.filter_cons, shift]
  by_cases deleted : offset ∈ deletions <;> simp [deleted]

/-- Looking elements up at the live offsets finds the live ones. -/
theorem filterMap_liveOffsets (list : List α) :
    (liveOffsets deletions offset list.length).filterMap (fun index =>
      list[index]?) = liveFrom deletions offset list := by
  induction list generalizing offset with
  | nil => rfl
  | cons element list ih =>
      rw [List.length_cons, liveOffsets_succ, liveFrom_cons, ← ih (offset + 1)]
      split
      · rw [List.filterMap_map]
        rfl
      · rw [List.filterMap_cons, List.getElem?_cons_zero, List.filterMap_map]
        rfl

theorem lt_of_mem_liveOffsets {deletions : DeletionVector} {offset count index : Nat}
    (member : index ∈ liveOffsets deletions offset count) : index < count :=
  List.mem_range.mp (List.mem_filter.mp member).1

variable {ids : List Nat}

/-- With a row id for every row, filtering a batch does not panic. -/
theorem filterLiveRows_eq (deletions : Option DeletionVector) {rows : List R}
    (same : ids.length = rows.length) (offset : Nat) :
    filterLiveRows deletions rows ids offset =
      some (liveFrom (deletions.getD ∅) offset rows, liveFrom (deletions.getD ∅) offset ids) := by
  cases deletions with
  | none => simp [filterLiveRows]
  | some deletions =>
      have found : ∀ index ∈ liveOffsets deletions offset rows.length, (ids[index]?).isSome := by
        intro index member
        rw [← same] at member
        simp [lt_of_mem_liveOffsets member]
      rw [filterLiveRows, List.mapM_eq_some_filterMap found, Option.bind_eq_bind, Option.bind_some,
        filterMap_liveOffsets, ← same, filterMap_liveOffsets]
      rfl

/-- Without row ids, filtering a batch by a deletion vector panics unless nothing is left. -/
theorem filterLiveRows_nil (rows : List R) (offset : Nat) :
    filterLiveRows (some deletions) rows [] offset =
      if liveFrom deletions offset rows = [] then some ([], []) else none := by
  have found := filterMap_liveOffsets deletions offset rows
  rw [filterLiveRows, ← found]
  cases live : liveOffsets deletions offset rows.length with
  | nil => rfl
  | cons index rest =>
      have member : index ∈ liveOffsets deletions offset rows.length := by
        rw [live]
        exact List.mem_cons_self
      have inside := lt_of_mem_liveOffsets member
      simp [List.getElem?_eq_getElem inside]

/-! ## Reading a fragment -/

/-- A fragment as a compaction reads it: its batches, the row ids of its rows, unless it is older
than row ids, and its deletion vector, if it has one. -/
structure SourceFragment (R : Type) where
  batches : List (List R)
  ids : List Nat
  deletions : Option DeletionVector
  complete : ids = [] ∨ ids.length = batches.flatten.length

namespace SourceFragment

/-- The live rows. -/
def live (fragment : SourceFragment R) : List R :=
  liveRows (fragment.deletions.getD ∅) fragment.batches.flatten

/-- The row ids of the live rows. -/
def liveIds (fragment : SourceFragment R) : List Nat :=
  liveRows (fragment.deletions.getD ∅) fragment.ids

/-- Reading the live rows and their row ids, unless it panics. -/
def read (fragment : SourceFragment R) : Option (List (List R) × List Nat) :=
  liveBatches fragment.deletions fragment.ids 0 fragment.batches

end SourceFragment

variable {batches : List (List R)}

/-- Reading one batch and then the others. -/
theorem liveBatches_cons {deletions : Option DeletionVector} {fragmentIds : List Nat} {offset : Nat}
    {batch rows : List R} {later : List (List R)} {rowIds laterIds : List Nat}
    (sliced : batchIds fragmentIds offset batch.length = some ids)
    (filtered : filterLiveRows deletions batch ids offset = some (rows, rowIds))
    (read : liveBatches deletions fragmentIds (offset + batch.length) batches =
      some (later, laterIds)) :
    liveBatches deletions fragmentIds offset (batch :: batches) =
      some (if rows.isEmpty then (later, laterIds) else (rows :: later, rowIds ++ laterIds)) := by
  simp only [liveBatches, sliced, filtered, read, Option.bind_eq_bind, Option.bind_some]

/-- With a row id for every row, reading does not panic and finds the live rows. -/
theorem liveBatches_of_ids (deletions : Option DeletionVector) (annotated : ids ≠ []) {offset : Nat}
    (same : (ids.drop offset).length = batches.flatten.length) (inside : offset ≤ ids.length) :
    ∃ kept, liveBatches deletions ids offset batches =
        some (kept, liveFrom (deletions.getD ∅) offset (ids.drop offset)) ∧
      kept.flatten = liveFrom (deletions.getD ∅) offset batches.flatten := by
  induction batches generalizing offset with
  | nil =>
      have nothing : ids.drop offset = [] := List.length_eq_zero_iff.mp same
      exact ⟨[], by rw [nothing]; rfl, rfl⟩
  | cons batch batches ih =>
      rw [List.flatten_cons, List.length_append] at same
      have taken : ((ids.drop offset).take batch.length).length = batch.length := by
        rw [List.length_take]
        omega
      have rest : (ids.drop (offset + batch.length)).length = batches.flatten.length := by
        rw [← List.drop_drop, List.length_drop]
        omega
      rw [List.length_drop] at same
      obtain ⟨kept, read, flat⟩ := ih rest (by omega)
      have split : ids.drop offset =
          (ids.drop offset).take batch.length ++ ids.drop (offset + batch.length) := by
        rw [← List.drop_drop, List.take_append_drop]
      have ids_eq : batchIds ids offset batch.length =
          some ((ids.drop offset).take batch.length) := by
        rw [batchIds, if_neg (by simpa using annotated), if_neg (by omega)]
      have live_ids := liveFrom_append (deletions.getD ∅) offset
        ((ids.drop offset).take batch.length) (ids.drop (offset + batch.length))
      rw [← split, taken] at live_ids
      rw [liveBatches_cons ids_eq (filterLiveRows_eq deletions taken offset) read, List.flatten_cons,
        liveFrom_append, ← flat, live_ids]
      cases live : liveFrom (deletions.getD ∅) offset batch with
      | nil =>
          have no_ids := length_liveFrom (deletions.getD ∅) offset taken
          rw [live, List.length_nil, List.length_eq_zero_iff] at no_ids
          exact ⟨kept, by simp [no_ids], rfl⟩
      | cons row rows => exact ⟨(row :: rows) :: kept, by simp, by simp⟩

/-- Without row ids and without a deletion vector, reading finds all rows. -/
theorem liveBatches_nil (batches : List (List R)) (offset : Nat) :
    ∃ kept, liveBatches none [] offset batches = some (kept, []) ∧
      kept.flatten = batches.flatten := by
  induction batches generalizing offset with
  | nil => exact ⟨[], rfl, rfl⟩
  | cons batch batches ih =>
      obtain ⟨kept, read, flat⟩ := ih (offset + batch.length)
      have unfiltered : filterLiveRows none batch [] offset = some (batch, []) := rfl
      rw [liveBatches_cons rfl unfiltered read, List.flatten_cons, ← flat]
      cases batch with
      | nil => exact ⟨kept, rfl, rfl⟩
      | cons row rows => exact ⟨(row :: rows) :: kept, rfl, rfl⟩

/-- Without row ids but with a deletion vector, reading panics unless no row is live. -/
theorem liveBatches_nil_some (batches : List (List R)) (offset : Nat) :
    liveBatches (some deletions) [] offset batches =
      if liveFrom deletions offset batches.flatten = [] then some ([], []) else none := by
  induction batches generalizing offset with
  | nil => rfl
  | cons batch batches ih =>
      have filtered := filterLiveRows_nil deletions batch offset
      have read := ih (offset + batch.length)
      rw [List.flatten_cons, liveFrom_append]
      by_cases none_live : liveFrom deletions offset batch = []
      · rw [if_pos none_live] at filtered
        rw [none_live, List.nil_append]
        split
        · next none_later =>
            rw [if_pos none_later] at read
            exact liveBatches_cons rfl filtered read
        · next later =>
            rw [if_neg later] at read
            simp [liveBatches, batchIds, read]
      · rw [if_neg none_live] at filtered
        rw [if_neg fun both => none_live (List.append_eq_nil_iff.mp both).1]
        simp [liveBatches, batchIds, filtered]

/-! ## Row groups with row ids -/

theorem map_fst_assignRowIds (ids : List Nat) (chunks : List (List R)) :
    (assignRowIds ids chunks).map Prod.fst = chunks := by
  induction chunks generalizing ids with
  | nil => rfl
  | cons chunk chunks ih => rw [assignRowIds, List.map_cons, ih]

/-! ## Ordering by row ids -/

theorem idPermutation_perm (ids : List Nat) :
    (idPermutation ids).Perm (List.range ids.length) := by
  have sorted := (List.perm_insertionSort (fun left right : Nat × Nat => left.1 ≤ right.1)
    ids.zipIdx).map Prod.snd
  rwa [List.zipIdx_map_snd, ← List.range_eq_range'] at sorted

/-- Sorting row ids moves nothing exactly when they are in order. -/
theorem idPermutation_eq_range :
    idPermutation ids = List.range ids.length ↔ ids.Pairwise (· ≤ ·) := by
  have pairs : ids.zipIdx.Pairwise (fun left right : Nat × Nat => left.1 ≤ right.1) ↔
      ids.Pairwise (· ≤ ·) := by
    have mapped := List.pairwise_map (f := Prod.fst) (R := (· ≤ · : Nat → Nat → Prop))
      (l := ids.zipIdx)
    rw [List.zipIdx_map_fst] at mapped
    exact mapped.symm
  have indices : ids.zipIdx.map Prod.snd = List.range ids.length := by
    rw [List.zipIdx_map_snd, List.range_eq_range']
  constructor
  · intro same
    have perm := List.perm_insertionSort (fun left right : Nat × Nat => left.1 ≤ right.1) ids.zipIdx
    have distinct : (ids.zipIdx.map Prod.snd).Nodup := indices ▸ List.nodup_range
    have unmoved : ids.zipIdx.insertionSort (fun left right => left.1 ≤ right.1) = ids.zipIdx := by
      apply List.ext_getElem perm.length_eq
      intro index left right
      have member := perm.mem_iff.mp (List.getElem_mem left)
      apply List.inj_on_of_nodup_map distinct member (List.getElem_mem right)
      have positions := congrArg (fun list => list[index]?) (same.trans indices.symm)
      simp only [idPermutation, List.getElem?_map, List.getElem?_eq_getElem left,
        List.getElem?_eq_getElem right, Option.map_some, Option.some.injEq] at positions
      exact positions
    rw [← pairs, ← unmoved]
    exact List.pairwise_insertionSort _ _
  · intro ordered
    rw [idPermutation, (pairs.mpr ordered).insertionSort_eq, indices]

theorem filterMap_range {list : List α} {count : Nat} (inside : count ≤ list.length) :
    (List.range count).filterMap (fun index => list[index]?) = list.take count := by
  induction count with
  | zero => rfl
  | succ count ih =>
      rw [List.range_succ, List.filterMap_append, ih (by omega), List.take_add_one]
      simp [List.getElem?_eq_getElem (by omega : count < list.length)]

/-- Ordering rows keeps all of them exactly when there is a row id for each, or nothing moves. -/
theorem orderLiveRows_perm (sortKeys : List String) (fewer : ids.length ≤ batches.flatten.length) :
    (orderLiveRows sortKeys batches ids).1.flatten.Subperm batches.flatten ∧
      ((orderLiveRows sortKeys batches ids).1.flatten.length = batches.flatten.length ↔
        (sortKeys = [] → ids.length = batches.flatten.length ∨ ids.Pairwise (· ≤ ·))) := by
  by_cases keyed : sortKeys = []
  · by_cases ordered : ids.Pairwise (· ≤ ·)
    · have unmoved : (orderLiveRows sortKeys batches ids).1 = batches := by
        rw [orderLiveRows]
        simp only [idPermutation_eq_range.mpr ordered, if_true]
        split <;> rfl
      rw [unmoved]
      exact ⟨List.Subperm.refl _, by simp [ordered]⟩
    · have some_ids : ids.isEmpty = false := by
        cases ids with
        | nil => exact absurd List.Pairwise.nil ordered
        | cons id ids => rfl
      have moved : (orderLiveRows sortKeys batches ids).1.flatten =
          (idPermutation ids).filterMap fun index => batches.flatten[index]? := by
        have unsorted : ¬idPermutation ids = List.range ids.length :=
          fun same => ordered (idPermutation_eq_range.mp same)
        rw [orderLiveRows]
        simp [keyed, some_ids, unsorted]
      have taken := (idPermutation_perm ids).filterMap fun index => batches.flatten[index]?
      rw [filterMap_range fewer, ← moved] at taken
      constructor
      · exact taken.subperm.trans (List.take_sublist _ _).subperm
      · rw [taken.length_eq, List.length_take]
        simp only [keyed, ordered, or_false, forall_const]
        omega
  · have unmoved : (orderLiveRows sortKeys batches ids).1 = batches := by
      rw [orderLiveRows, if_neg]
      simp [keyed]
    rw [unmoved]
    exact ⟨List.Subperm.refl _, by simp [keyed]⟩

/-! ## Rewriting a table -/

namespace Compactor

variable {compactor : Compactor R}

/-- The output row groups of a partition, unless the compaction panics. -/
def rewrite (compactor : Compactor R) (group : List (SourceFragment R)) :
    Option (List (List R × List Nat)) := do
  let read ← group.mapM SourceFragment.read
  compactor.chunksOf (read.flatMap Prod.fst) (read.flatMap Prod.snd)

/-- The live rows of fragments. -/
def liveOf (group : List (SourceFragment R)) : List R :=
  group.flatMap SourceFragment.live

/-- A compaction of a table of partitions ends without a panic, and its output row groups hold the
live rows of the table. -/
def Preserves (compactor : Compactor R) (partitions : List (List (SourceFragment R))) : Prop :=
  ∃ outputs, partitions.mapM compactor.rewrite = some outputs ∧
    ((outputs.flatten.map Prod.fst).flatten).Perm (partitions.flatMap liveOf)

/-- When a partition is rewritten without a loss: no live row of a fragment without row ids is read
through a deletion vector; and unless the output is sorted by keys, there is no live row without a
row id, or the row ids of the other live rows are in order. -/
structure Preservable (compactor : Compactor R) (group : List (SourceFragment R)) : Prop where
  readable : ∀ fragment ∈ group, fragment.ids = [] → fragment.deletions.isSome → fragment.live = []
  ordered : compactor.options.sortKeys = [] →
    (∀ fragment ∈ group, fragment.ids = [] → fragment.live = []) ∨
      (group.flatMap SourceFragment.liveIds).Pairwise (· ≤ ·)

theorem read_eq (fragment : SourceFragment R)
    (readable : fragment.ids = [] → fragment.deletions.isSome → fragment.live = []) :
    ∃ kept, fragment.read = some (kept, fragment.liveIds) ∧ kept.flatten = fragment.live := by
  obtain ⟨batches, ids, deletions, complete⟩ := fragment
  by_cases annotated : ids = []
  · subst annotated
    cases deletions with
    | none =>
        obtain ⟨kept, read, flat⟩ := liveBatches_nil batches 0
        refine ⟨kept, ?_, ?_⟩
        · simpa [SourceFragment.read, SourceFragment.liveIds] using read
        · simpa [SourceFragment.live] using flat
    | some deletions =>
        have nothing : liveRows deletions batches.flatten = [] := readable rfl rfl
        refine ⟨[], ?_, nothing.symm⟩
        have read := liveBatches_nil_some deletions batches 0
        rw [liveFrom_zero, if_pos nothing] at read
        exact read
  · have same := complete.resolve_left annotated
    exact liveBatches_of_ids deletions annotated (by simpa using same) (Nat.zero_le _)

theorem read_eq_none {fragment : SourceFragment R} (legacy : fragment.ids = [])
    (deleted : fragment.deletions.isSome) (some_live : fragment.live ≠ []) :
    fragment.read = none := by
  obtain ⟨batches, ids, deletions, complete⟩ := fragment
  obtain ⟨deletions, rfl⟩ := Option.isSome_iff_exists.mp deleted
  obtain rfl : ids = [] := legacy
  have some_row : ¬liveRows deletions batches.flatten = [] := some_live
  have read := liveBatches_nil_some deletions batches 0
  rw [liveFrom_zero, if_neg some_row] at read
  exact read

theorem length_liveIds (fragment : SourceFragment R) :
    fragment.liveIds.length ≤ fragment.live.length ∧
      (fragment.liveIds.length = fragment.live.length ↔ fragment.ids = [] → fragment.live = []) := by
  rcases fragment.complete with legacy | same
  · have no_ids : fragment.liveIds = [] := by
      rw [SourceFragment.liveIds, legacy]
      rfl
    rw [no_ids, List.length_nil]
    refine ⟨Nat.zero_le _, ?_⟩
    constructor
    · intro zero _
      exact List.length_eq_zero_iff.mp zero.symm
    · intro none_live
      rw [none_live legacy]
      rfl
  · have equal : fragment.liveIds.length = fragment.live.length :=
      length_liveFrom (fragment.deletions.getD ∅) 0 same
    refine ⟨equal.le, ?_⟩
    simp only [equal, true_iff]
    intro legacy
    rw [legacy, List.length_nil] at same
    rw [SourceFragment.live, List.length_eq_zero_iff.mp same.symm]
    rfl

theorem length_flatMap_liveIds (group : List (SourceFragment R)) :
    (group.flatMap SourceFragment.liveIds).length ≤ (liveOf group).length ∧
      ((group.flatMap SourceFragment.liveIds).length = (liveOf group).length ↔
        ∀ fragment ∈ group, fragment.ids = [] → fragment.live = []) := by
  induction group with
  | nil => simp [liveOf]
  | cons fragment group ih =>
      obtain ⟨first_le, first_iff⟩ := length_liveIds fragment
      obtain ⟨rest_le, rest_iff⟩ := ih
      rw [liveOf] at rest_le rest_iff ⊢
      rw [List.flatMap_cons, List.flatMap_cons, List.length_append, List.length_append,
        List.forall_mem_cons, ← first_iff, ← rest_iff]
      omega

variable {group : List (SourceFragment R)}

/-- Reading a partition whose fragments can be read. -/
theorem exists_read
    (readable : ∀ fragment ∈ group, fragment.ids = [] → fragment.deletions.isSome →
      fragment.live = []) :
    ∃ read, group.mapM SourceFragment.read = some read ∧
      (read.flatMap Prod.fst).flatten = liveOf group ∧
      read.flatMap Prod.snd = group.flatMap SourceFragment.liveIds := by
  induction group with
  | nil => exact ⟨[], rfl, rfl, rfl⟩
  | cons fragment group ih =>
      rw [List.forall_mem_cons] at readable
      obtain ⟨kept, first, flat⟩ := read_eq fragment readable.1
      obtain ⟨read, rest, flat_rest, ids_rest⟩ := ih readable.2
      refine ⟨(kept, fragment.liveIds) :: read, ?_, ?_, ?_⟩
      · rw [List.mapM_cons, first, rest]
        rfl
      · rw [List.flatMap_cons, List.flatten_append, flat, flat_rest]
        rfl
      · rw [List.flatMap_cons, ids_rest]
        rfl

/-- Rewriting a partition that can be read ends with a part of its live rows: with all of them
exactly when the order by row ids covers them. -/
theorem exists_rewrite (targets : 0 < compactor.targetRows)
    (readable : ∀ fragment ∈ group, fragment.ids = [] → fragment.deletions.isSome →
      fragment.live = []) :
    ∃ chunks, compactor.rewrite group = some chunks ∧
      (chunks.map Prod.fst).flatten.Subperm (liveOf group) ∧
      ((chunks.map Prod.fst).flatten.length = (liveOf group).length ↔
        Preservable compactor group) := by
  obtain ⟨read, read_eq, flat, ids⟩ := exists_read readable
  obtain ⟨fewer, all_ids⟩ := length_flatMap_liveIds group
  rw [← flat, ← ids] at fewer all_ids
  obtain ⟨part, whole⟩ := orderLiveRows_perm compactor.options.sortKeys fewer
  have waiting : StreamingRowGroupBuilder.Waiting
      (⟨compactor.targetRows, compactor.targetBytes, [], 0, 0⟩ : StreamingRowGroupBuilder R) :=
    ⟨rfl, fun nonempty => absurd rfl nonempty⟩
  have sliceable : ∀ batch ∈ (orderLiveRows compactor.options.sortKeys (read.flatMap Prod.fst)
      (read.flatMap Prod.snd)).1, StreamingRowGroupBuilder.Sliceable compactor.targetRows
        compactor.kernel.memorySize batch :=
    fun _ _ zero => absurd zero (Nat.ne_of_gt targets)
  obtain ⟨chunks, streamed, rows, -⟩ := exists_streamChunks waiting sliceable
  rw [List.flatten_nil, List.nil_append] at rows
  refine ⟨assignRowIds (orderLiveRows compactor.options.sortKeys (read.flatMap Prod.fst)
    (read.flatMap Prod.snd)).2 chunks, ?_, ?_, ?_⟩
  · rw [rewrite, read_eq, Option.bind_eq_bind, Option.bind_some, chunksOf]
    simp only [streamed, Option.bind_eq_bind, Option.bind_some]
  · rw [map_fst_assignRowIds, ← flat, rows]
    exact part
  · rw [map_fst_assignRowIds, rows, ← flat, whole, all_ids, ids]
    exact ⟨fun ordered => ⟨readable, ordered⟩, Preservable.ordered⟩

/-- A fragment that cannot be read stops the compaction. -/
theorem readable_of_rewrite {chunks : List (List R × List Nat)}
    (rewritten : compactor.rewrite group = some chunks) :
    ∀ fragment ∈ group, fragment.ids = [] → fragment.deletions.isSome → fragment.live = [] := by
  intro fragment member legacy deleted
  obtain ⟨read, read_eq, -⟩ := Option.bind_eq_some_iff.mp rewritten
  by_contra some_live
  have found := List.isSome_mapM.mp (Option.isSome_iff_exists.mpr ⟨read, read_eq⟩) fragment member
  rw [read_eq_none legacy deleted some_live] at found
  cases found

/-- The output row groups hold live rows only, each at most as often as the table. -/
theorem length_outputs_le (targets : 0 < compactor.targetRows)
    {partitions : List (List (SourceFragment R))} {outputs : List (List (List R × List Nat))}
    (rewritten : partitions.mapM compactor.rewrite = some outputs) :
    (outputs.flatten.map Prod.fst).flatten.length ≤ (partitions.flatMap liveOf).length := by
  induction partitions generalizing outputs with
  | nil =>
      obtain rfl := Option.some.inj rewritten
      exact Nat.le_refl 0
  | cons group partitions ih =>
      rw [List.mapM_cons] at rewritten
      obtain ⟨chunks, first, rewritten⟩ := Option.bind_eq_some_iff.mp rewritten
      obtain ⟨later, rest, same⟩ := Option.bind_eq_some_iff.mp rewritten
      obtain rfl := Option.some.inj same
      obtain ⟨known, again, part, -⟩ := exists_rewrite targets (readable_of_rewrite first)
      obtain rfl := Option.some.inj (again.symm.trans first)
      have shorter := part.length_le
      have rest_le := ih rest
      rw [List.flatten_cons, List.map_append, List.flatten_append, List.flatMap_cons,
        List.length_append, List.length_append]
      omega

/-- A compaction of a table ends without a panic and keeps the live rows exactly when every
partition can be rewritten without a loss. -/
theorem preserves_iff (targets : 0 < compactor.targetRows)
    (partitions : List (List (SourceFragment R))) :
    Preserves compactor partitions ↔ ∀ group ∈ partitions, Preservable compactor group := by
  induction partitions with
  | nil => simp [Preserves]
  | cons group partitions ih =>
      rw [List.forall_mem_cons, ← ih]
      constructor
      · rintro ⟨outputs, rewritten, perm⟩
        rw [List.mapM_cons] at rewritten
        obtain ⟨chunks, first, rewritten⟩ := Option.bind_eq_some_iff.mp rewritten
        obtain ⟨later, rest, same⟩ := Option.bind_eq_some_iff.mp rewritten
        obtain rfl := Option.some.inj same
        obtain ⟨known, again, part, whole⟩ := exists_rewrite targets (readable_of_rewrite first)
        obtain rfl := Option.some.inj (again.symm.trans first)
        have shorter := part.length_le
        have rest_le := length_outputs_le targets rest
        have lengths := perm.length_eq
        rw [List.flatten_cons, List.map_append, List.flatten_append, List.flatMap_cons] at perm
        rw [List.flatten_cons, List.map_append, List.flatten_append, List.flatMap_cons,
          List.length_append, List.length_append] at lengths
        have all : (known.map Prod.fst).flatten.length = (liveOf group).length := by omega
        have first_perm := part.perm_of_length_le all.ge
        constructor
        · exact whole.mp all
        · refine ⟨later, rest, ?_⟩
          exact (List.perm_append_left_iff _).mp ((first_perm.symm.append_right _).trans perm)
      · rintro ⟨preservable, later, rest, perm⟩
        obtain ⟨chunks, first, part, whole⟩ := exists_rewrite targets preservable.readable
        refine ⟨chunks :: later, ?_, ?_⟩
        · rw [List.mapM_cons, first, rest]
          rfl
        · rw [List.flatten_cons, List.map_append, List.flatten_append, List.flatMap_cons]
          exact (part.perm_of_length_le (whole.mpr preservable).ge).append perm

/-! ## The program -/

/-- The files of a planned row group are read as a fragment. -/
structure Reads (compactor : Compactor R) (storage : TableStorage R) (planned : PlannedRowGroup)
    (fragment : SourceFragment R) : Prop where
  deletions : readPlannedDeletions planned storage = ([], .ok fragment.deletions)
  rows : Reader.readRowGroup compactor.kernel planned storage = ([], .ok fragment.batches.flatten)
  batches : compactor.kernel.batches fragment.batches.flatten = fragment.batches
  ids : expand planned.sidecar.rowIds = fragment.ids

variable {storage : TableStorage R}

theorem bind_of_panic {β : Type} {first : TableProgram R α} {next : α → TableProgram R β}
    (panics : first storage = ([], .error .diverges)) :
    (first >>= next) storage = ([], .error .diverges) := by
  simp [Bind.bind, Script.andThen, panics]

theorem readLive_eq {planned : PlannedRowGroup} {fragment : SourceFragment R}
    (reads : compactor.Reads storage planned fragment) :
    compactor.readLive planned storage =
      match fragment.read with
      | some live => ([], .ok (live, fragment.batches.flatten.length))
      | none => ([], .error .diverges) := by
  rw [readLive, Script.bind_of_silent reads.deletions, Script.bind_of_silent reads.rows,
    reads.batches, reads.ids]
  cases read : fragment.read with
  | some live =>
      rw [SourceFragment.read] at read
      rw [read]
      rfl
  | none =>
      rw [SourceFragment.read] at read
      rw [read]
      rfl

/-- Reading the fragments of a partition. -/
theorem collect_readLive {group : List PlannedRowGroup} {fragments : List (SourceFragment R)}
    (reads : List.Forall₂ (compactor.Reads storage) group fragments) :
    match fragments.mapM SourceFragment.read with
    | some live => ∃ counted, Script.collect compactor.readLive group storage = ([], .ok counted) ∧
        counted.map Prod.fst = live ∧
        counted.map Prod.snd = fragments.map fun fragment => fragment.batches.flatten.length
    | none => Script.collect compactor.readLive group storage = ([], .error .diverges) := by
  induction reads with
  | nil => exact ⟨[], rfl, rfl, rfl⟩
  | @cons planned fragment group fragments first _ ih =>
      have head := readLive_eq first
      rw [List.mapM_cons]
      cases read : fragment.read with
      | none =>
          rw [read] at head
          exact bind_of_panic head
      | some live =>
          rw [read] at head
          cases rest : fragments.mapM SourceFragment.read with
          | none =>
              rw [rest] at ih
              change (compactor.readLive planned >>= _) storage = _
              rw [Script.bind_of_silent head]
              exact bind_of_panic ih
          | some later =>
              rw [rest] at ih
              obtain ⟨counted, collected, rows_eq, counts_eq⟩ := ih
              refine ⟨(live, fragment.batches.flatten.length) :: counted, ?_, ?_, ?_⟩
              · change (compactor.readLive planned >>= _) storage = _
                rw [Script.bind_of_silent head, Script.bind_of_silent collected]
                rfl
              · rw [List.map_cons, rows_eq]
              · rw [List.map_cons, List.map_cons, counts_eq]

/-- The program stages the output row groups of the partition, or panics before that. -/
theorem rewriteGroup_eq (choices : Choices R) (schema : Schema) (state : StagingState)
    {group : List PlannedRowGroup} {fragments : List (SourceFragment R)}
    (reads : List.Forall₂ (compactor.Reads storage) group fragments) :
    compactor.rewriteGroup choices schema state group storage =
      match compactor.rewrite fragments with
      | none => ([], .error .diverges)
      | some chunks =>
          Script.fold
            (compactor.stageChunk choices schema (group.head?.bind PlannedRowGroup.partitionValues))
            { state with inputRows := state.inputRows +
                (fragments.map fun fragment => fragment.batches.flatten.length).sum }
            chunks storage := by
  have live := collect_readLive reads
  rw [rewrite]
  cases read : fragments.mapM SourceFragment.read with
  | none =>
      rw [read] at live
      exact bind_of_panic live
  | some found =>
      rw [read] at live
      obtain ⟨counted, collected, rfl, counts_eq⟩ := live
      rw [rewriteGroup, Script.bind_of_silent collected, ← counts_eq, Option.bind_eq_bind,
        Option.bind_some, List.flatMap_map, List.flatMap_map]
      cases compactor.chunksOf (counted.flatMap fun fragment => fragment.1.1)
          (counted.flatMap fun fragment => fragment.1.2) with
      | none => rfl
      | some chunks => rfl

/-! ## A table with a fragment that is older than row ids -/

/-- A compactor with default options. -/
def integers : Compactor Int where
  table := "numbers"
  options := {}
  schema := Integers.writer.schema
  columns := ["id"]
  localRoot := true
  kernel := Integers.kernel

/-- A fragment without row ids. -/
def legacy : SourceFragment Int where
  batches := [[10, 20]]
  ids := []
  deletions := none
  complete := .inl rfl

/-- A fragment whose rows have moved past each other. -/
def updated : SourceFragment Int where
  batches := [[30, 40]]
  ids := [1, 0]
  deletions := none
  complete := .inr rfl

/-- Row ids out of order next to rows without row ids lose rows. -/
theorem updated_loses : integers.rewrite [legacy, updated] = some [([20, 10], [0, 1])] ∧
    liveOf [legacy, updated] = [10, 20, 30, 40] ∧ ¬Preserves integers [[legacy, updated]] := by
  have rewritten : integers.rewrite [legacy, updated] = some [([20, 10], [0, 1])] := by
    decide +kernel
  have rows : liveOf [legacy, updated] = [10, 20, 30, 40] := by decide
  refine ⟨rewritten, rows, ?_⟩
  rintro ⟨outputs, all, perm⟩
  rw [List.mapM_cons, rewritten] at all
  obtain rfl := Option.some.inj all
  have lengths := perm.length_eq
  rw [List.flatMap_cons, rows] at lengths
  cases lengths

/-- Row ids in order next to rows without row ids lose nothing. -/
theorem ordered_preserved : Preserves integers
    [[legacy, { updated with ids := [0, 1], complete := .inr rfl }]] := by
  apply (preserves_iff (by decide) _).mpr
  intro group member
  obtain rfl := List.mem_singleton.mp member
  constructor
  · decide
  · intro _
    right
    decide

end Compactor

end IcefallDB
