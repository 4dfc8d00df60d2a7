import IcefallDB.Compactor.Rewrite
import IcefallDB.Lib.Buffers
import IcefallDB.Lib.Options
import IcefallDB.Pruning
import Mathlib.Data.Finset.Sort

/-!
# Segments of row ids

Row ids of a fragment are stored as ranges and as literal lists.  A compaction encodes the row ids
of its outputs in this way, and a scan for some row ids drops the row groups whose segments have
none of them.
-/

namespace IcefallDB

/-! ## Encoding -/

/-- `rangeSegments` with sums of 64 bits. -/
def rangeSegmentsChecked (start count : Nat) : List Nat → Except Fault (List RowIdSegment)
  | [] => .ok [.range start count]
  | id :: ids => do
      let next ← Fault.add 64 start count
      if id = next then do
        let longer ← Fault.add 64 count 1
        rangeSegmentsChecked start longer ids
      else do
        let later ← rangeSegmentsChecked id 1 ids
        .ok (.range start count :: later)

/-- `idsToSegments` with sums of 64 bits. -/
def idsToSegmentsChecked : List Nat → Except Fault (List RowIdSegment)
  | [] => .ok []
  | id :: ids =>
      if List.IsChain (· < ·) (id :: ids) then rangeSegmentsChecked id 1 ids
      else .ok [.sorted (id :: ids)]

/-- `segmentIds` with sums of 64 bits. -/
def segmentIdsChecked : RowIdSegment → Except Fault (List Nat)
  | .range start count => do
      let stop ← Fault.add 64 start count
      .ok (List.range' start (stop - start))
  | .sorted ids => .ok ids

/-- `expand` with sums of 64 bits. -/
def expandChecked (segments : List RowIdSegment) : Except Fault (List Nat) := do
  let ids ← segments.mapM segmentIdsChecked
  .ok ids.flatten

/-- Each row id is one more than the row id before it. -/
def Gapless (ids : List Nat) : Prop :=
  ids.IsChain fun left right => right = left + 1

@[simp]
theorem expand_cons (segment : RowIdSegment) (segments : List RowIdSegment) :
    expand (segment :: segments) = segmentIds segment ++ expand segments :=
  List.flatMap_cons

/-- The open run comes first, then the row ids. -/
theorem expand_rangeSegments (start count : Nat) (ids : List Nat) :
    expand (rangeSegments start count ids) = List.range' start count ++ ids := by
  induction ids generalizing start count with
  | nil =>
      rw [rangeSegments, expand_cons]
      rfl
  | cons id ids ih =>
      rw [rangeSegments]
      split
      · next continues =>
          rw [ih, List.range'_1_concat, continues, List.append_assoc, List.singleton_append]
      · rw [expand_cons, ih]
        rfl

theorem expand_idsToSegments (ids : List Nat) : expand (idsToSegments ids) = ids := by
  cases ids with
  | nil => rfl
  | cons id ids =>
      rw [idsToSegments]
      split
      · rw [expand_rangeSegments]
        rfl
      · rw [expand_cons]
        exact List.append_nil _

variable {start count : Nat} {ids : List Nat}

/-- Ranges of small row ids end within 64 bits. -/
theorem endsWithin64_of_mem_rangeSegments (ends : start + count < 2 ^ 64)
    (small : ∀ id ∈ ids, id < u64Max) :
    ∀ segment ∈ rangeSegments start count ids, segment.EndsWithin64 := by
  induction ids generalizing start count with
  | nil =>
      intro segment member
      rw [List.mem_singleton.mp member]
      exact ends
  | cons id ids ih =>
      have below : id < 2 ^ 64 - 1 := small id List.mem_cons_self
      have later := fun other member => small other (List.mem_cons_of_mem id member)
      intro segment member
      rw [rangeSegments] at member
      split at member
      · next continues => exact ih (by omega) later segment member
      · rcases List.mem_cons.mp member with rfl | member
        · exact ends
        · exact ih (by omega) later segment member

theorem endsWithin64_of_mem_idsToSegments (small : ∀ id ∈ ids, id < u64Max) :
    ∀ segment ∈ idsToSegments ids, segment.EndsWithin64 := by
  cases ids with
  | nil => nofun
  | cons id ids =>
      have below : id < 2 ^ 64 - 1 := small id List.mem_cons_self
      intro segment member
      rw [idsToSegments] at member
      split at member
      · exact endsWithin64_of_mem_rangeSegments (by omega)
          (fun other later => small other (List.mem_cons_of_mem id later)) segment member
      · rw [List.mem_singleton.mp member]
        trivial

/-- No sum overflows while runs of small row ids are collected. -/
theorem rangeSegmentsChecked_eq (ends : start + count < 2 ^ 64) (small : ∀ id ∈ ids, id < u64Max) :
    rangeSegmentsChecked start count ids = .ok (rangeSegments start count ids) := by
  induction ids generalizing start count with
  | nil => rfl
  | cons id ids ih =>
      have below : id < 2 ^ 64 - 1 := small id List.mem_cons_self
      have later := fun other member => small other (List.mem_cons_of_mem id member)
      rw [rangeSegmentsChecked, Fault.add_eq ends, Fault.ok_bind, rangeSegments]
      split
      · next continues =>
          rw [Fault.add_eq (by omega), Fault.ok_bind, ih (by omega) later]
      · rw [ih (by omega) later, Fault.ok_bind]

theorem idsToSegmentsChecked_eq (small : ∀ id ∈ ids, id < u64Max) :
    idsToSegmentsChecked ids = .ok (idsToSegments ids) := by
  cases ids with
  | nil => rfl
  | cons id ids =>
      have below : id < 2 ^ 64 - 1 := small id List.mem_cons_self
      rw [idsToSegmentsChecked, idsToSegments]
      split
      · exact rangeSegmentsChecked_eq (by omega) fun other member =>
          small other (List.mem_cons_of_mem id member)
      · rfl

variable {segment : RowIdSegment}

theorem segmentIdsChecked_eq (ends : segment.EndsWithin64) :
    segmentIdsChecked segment = .ok (segmentIds segment) := by
  cases segment with
  | range start count =>
      rw [segmentIdsChecked, Fault.add_eq ends, Fault.ok_bind, Nat.add_sub_cancel_left]
      rfl
  | sorted ids => rfl

variable {segments : List RowIdSegment}

theorem expandChecked_eq (ends : ∀ segment ∈ segments, segment.EndsWithin64) :
    expandChecked segments = .ok (expand segments) := by
  rw [expandChecked,
    List.mapM_eq_ok fun segment member => segmentIdsChecked_eq (ends segment member),
    Fault.ok_bind, expand, List.flatMap_def]

/-- Row ids without gaps continue the open run to their end. -/
theorem rangeSegments_of_gapless (gapless : Gapless ids)
    (continues : ∀ id ∈ ids.head?, id = start + count) :
    rangeSegments start count ids = [.range start (count + ids.length)] := by
  induction ids generalizing count with
  | nil => rfl
  | cons id ids ih =>
      have here : id = start + count := continues id rfl
      have next : ∀ other ∈ ids.head?, other = start + (count + 1) := by
        intro other found
        have step := (List.isChain_cons.mp gapless).1 other found
        omega
      rw [rangeSegments, if_pos here, ih (List.isChain_cons.mp gapless).2 next, List.length_cons,
        Nat.add_assoc, Nat.add_comm 1]

theorem idsToSegments_of_gapless {id : Nat} (gapless : Gapless (id :: ids)) :
    idsToSegments (id :: ids) = [.range id (id :: ids).length] := by
  have increasing : List.IsChain (· < ·) (id :: ids) := by
    apply List.IsChain.imp _ gapless
    intro left right step
    omega
  obtain ⟨step, rest⟩ := List.isChain_cons.mp gapless
  rw [idsToSegments, if_pos increasing, rangeSegments_of_gapless rest step, List.length_cons,
    Nat.add_comm 1]

/-- Small row ids are encoded and read back without overflow, in order.  Without gaps they are one
range, and every range ends within 64 bits. -/
theorem expandChecked_idsToSegmentsChecked {ids : List Nat} (small : ∀ id ∈ ids, id < u64Max) :
    ∃ segments, idsToSegmentsChecked ids = .ok segments ∧ expandChecked segments = .ok ids ∧
      (∀ first rest, ids = first :: rest → Gapless ids → segments = [.range first ids.length]) ∧
      ∀ start count, RowIdSegment.range start count ∈ segments → start + count < 2 ^ 64 := by
  have ends := endsWithin64_of_mem_idsToSegments small
  refine ⟨idsToSegments ids, idsToSegmentsChecked_eq small, ?_, ?_, ?_⟩
  · rw [expandChecked_eq ends, expand_idsToSegments]
  · rintro first rest rfl gapless
    exact idsToSegments_of_gapless gapless
  · intro start count member
    exact ends _ member

theorem expandChecked_idsToSegmentsChecked_runs :
    ∃ segments, idsToSegmentsChecked [7, 8, 9, 20] = .ok segments ∧
      expandChecked segments = .ok [7, 8, 9, 20] ∧
      (∀ first rest, [7, 8, 9, 20] = first :: rest → Gapless [7, 8, 9, 20] →
        segments = [.range first 4]) ∧
      ∀ start count, RowIdSegment.range start count ∈ segments → start + count < 2 ^ 64 :=
  expandChecked_idsToSegmentsChecked (by decide)

/-! ## Selecting row groups -/

namespace Pruning

/-- Sums that overflow stop the program, or wrap around. -/
inductive OverflowChecks
  | on
  | off

/-- A sum of 64 bits. -/
def OverflowChecks.add : OverflowChecks → Nat → Nat → Except Fault Nat
  | .on, left, right => Fault.add 64 left right
  | .off, left, right => .ok ((left + right) % 2 ^ 64)

/-- The number of leading elements that satisfy a test. -/
def partitionPoint (sorted : List Nat) (test : Nat → Bool) : Nat :=
  (sorted.takeWhile test).length

/-- The first row id from the start on is below the end. -/
def overlaps (sorted : List Nat) (start endExclusive : Nat) : Bool :=
  match sorted[partitionPoint sorted fun id => id < start]? with
  | some id => id < endExclusive
  | none => false

/-- A segment has one of the row ids. -/
def segmentOverlaps (checks : OverflowChecks) (sorted : List Nat) :
    RowIdSegment → Except Fault Bool
  | .range start count => do
      let endExclusive ← checks.add start count
      .ok (overlaps sorted start endExclusive)
  | .sorted ids => .ok (ids.any fun id => id ∈ sorted)

/-- A row group has no row ids or one of the given ones. -/
def retainsGroup (checks : OverflowChecks) (sorted : List Nat) (group : PlannedRowGroup) :
    Except Fault Bool :=
  if group.sidecar.rowIds.isEmpty then .ok true
  else group.sidecar.rowIds.anyM (segmentOverlaps checks sorted)

/-- The row groups that have no row ids or one of the given ones. -/
def retainOverlapping (checks : OverflowChecks) (sorted : List Nat) :
    List PlannedRowGroup → Except Fault (List PlannedRowGroup)
  | [] => .ok []
  | group :: groups => do
      let keep ← retainsGroup checks sorted group
      let rest ← retainOverlapping checks sorted groups
      .ok (if keep then group :: rest else rest)

/-- Drop the row groups that have none of the row ids. -/
def ScanPlan.retainRowGroupsByRowIds (checks : OverflowChecks) (rowIds : Finset Nat)
    (plan : ScanPlan) : Except Fault ScanPlan := do
  let sorted := rowIds.sort (· ≤ ·)
  let rowGroups ← retainOverlapping checks sorted plan.rowGroups
  .ok { plan with rowGroups }

/-- A segment has one of the row ids. -/
def Hits (rowIds : Finset Nat) (segment : RowIdSegment) : Prop :=
  ∃ rowId ∈ rowIds, rowId ∈ segmentIds segment

instance (rowIds : Finset Nat) : DecidablePred (Hits rowIds) :=
  fun segment => inferInstanceAs (Decidable (∃ rowId ∈ rowIds, rowId ∈ segmentIds segment))

/-- A row group has no row ids or one of the given ones. -/
def Wanted (rowIds : Finset Nat) (group : PlannedRowGroup) : Prop :=
  group.sidecar.rowIds = [] ∨ ∃ segment ∈ group.sidecar.rowIds, Hits rowIds segment

instance (rowIds : Finset Nat) : DecidablePred (Wanted rowIds) :=
  fun _ => inferInstanceAs (Decidable (_ ∨ _))

/-- The plan with the row groups that a scan for the row ids has to read. -/
def ScanPlan.wanted (rowIds : Finset Nat) (plan : ScanPlan) : ScanPlan :=
  { plan with rowGroups := plan.rowGroups.filter fun group => Wanted rowIds group }

/-- The numbers of a segment have 64 bits. -/
def IsU64 : RowIdSegment → Prop
  | .range start count => start < 2 ^ 64 ∧ count < 2 ^ 64
  | .sorted ids => ∀ id ∈ ids, id < 2 ^ 64

/-- No range that ends beyond 64 bits is in the way.  With checks none comes before the first
segment that has one of the row ids; without, it is not the only segment that has one. -/
def Searchable (rowIds : Finset Nat) : OverflowChecks → List RowIdSegment → Prop
  | .on, [] => True
  | .on, segment :: segments =>
      segment.EndsWithin64 ∧ (Hits rowIds segment ∨ Searchable rowIds .on segments)
  | .off, segments =>
      (∃ segment ∈ segments, Hits rowIds segment) →
        ∃ segment ∈ segments, segment.EndsWithin64 ∧ Hits rowIds segment

variable {sorted : List Nat}

/-- The search finds the least row id from the start on. -/
theorem overlaps_eq_true_iff (ascending : sorted.Pairwise (· ≤ ·)) {endExclusive : Nat} :
    overlaps sorted start endExclusive = true ↔
      ∃ rowId ∈ sorted, start ≤ rowId ∧ rowId < endExclusive := by
  induction sorted with
  | nil => simp [overlaps]
  | cons first rest ih =>
      obtain ⟨least, ascending⟩ := List.pairwise_cons.mp ascending
      by_cases before : first < start
      · have skipped : overlaps (first :: rest) start endExclusive =
            overlaps rest start endExclusive := by
          simp [overlaps, partitionPoint, before]
        rw [skipped, ih ascending, List.exists_mem_cons_iff]
        constructor
        · exact Or.inr
        · rintro (⟨inside, -⟩ | found)
          · omega
          · exact found
      · have here :
            overlaps (first :: rest) start endExclusive = decide (first < endExclusive) := by
          simp [overlaps, partitionPoint, before]
        rw [here, decide_eq_true_iff]
        constructor
        · intro below
          exact ⟨first, List.mem_cons_self, Nat.le_of_not_lt before, below⟩
        · rintro ⟨rowId, member, -, below⟩
          rcases List.mem_cons.mp member with rfl | later
          · exact below
          · exact Nat.lt_of_le_of_lt (least rowId later) below

variable {rowIds : Finset Nat}

/-- The search of a range finds the row ids up to the end that it is given. -/
theorem overlaps_sort_eq_true_iff {endExclusive : Nat} :
    overlaps (rowIds.sort (· ≤ ·)) start endExclusive = true ↔
      ∃ rowId ∈ rowIds, start ≤ rowId ∧ rowId < endExclusive := by
  rw [overlaps_eq_true_iff (Finset.pairwise_sort rowIds (· ≤ ·))]
  simp only [Finset.mem_sort]

theorem hits_range_iff :
    Hits rowIds (.range start count) ↔ ∃ rowId ∈ rowIds, start ≤ rowId ∧ rowId < start + count := by
  simp only [Hits, segmentIds, List.mem_range'_1]

/-- A segment that ends within 64 bits is searched exactly. -/
theorem segmentOverlaps_eq (checks : OverflowChecks) (ends : segment.EndsWithin64) :
    segmentOverlaps checks (rowIds.sort (· ≤ ·)) segment = .ok (decide (Hits rowIds segment)) := by
  cases segment with
  | range start count =>
      have sum : checks.add start count = .ok (start + count) := by
        cases checks with
        | on => exact Fault.add_eq ends
        | off => exact congrArg Except.ok (Nat.mod_eq_of_lt ends)
      rw [segmentOverlaps, sum, Fault.ok_bind, Except.ok.injEq, Bool.eq_iff_iff,
        overlaps_sort_eq_true_iff, decide_eq_true_iff, hits_range_iff]
  | sorted ids =>
      rw [segmentOverlaps, Except.ok.injEq, Bool.eq_iff_iff, List.any_eq_true, decide_eq_true_iff]
      simp only [decide_eq_true_eq, Finset.mem_sort, Hits, segmentIds]
      exact exists_congr fun _ => and_comm

/-- The end of a range beyond 64 bits cannot be computed with checks. -/
theorem segmentOverlaps_on (beyond : ¬segment.EndsWithin64) (sorted : List Nat) :
    segmentOverlaps .on sorted segment = .error .overflow := by
  cases segment with
  | range start count =>
      have sum : OverflowChecks.on.add start count = .error .overflow := if_neg beyond
      rw [segmentOverlaps, sum, Fault.error_bind]
  | sorted ids => exact absurd trivial beyond

/-- Without checks a range beyond 64 bits ends before it starts. -/
theorem segmentOverlaps_off (fits : IsU64 segment) (beyond : ¬segment.EndsWithin64) :
    segmentOverlaps .off (rowIds.sort (· ≤ ·)) segment = .ok false := by
  cases segment with
  | range start count =>
      obtain ⟨start_lt, count_lt⟩ := fits
      have high : 2 ^ 64 ≤ start + count := Nat.le_of_not_lt beyond
      have wrapped : (start + count) % 2 ^ 64 ≤ start := by
        rw [Nat.mod_eq_sub_mod high, Nat.mod_eq_of_lt (by omega)]
        omega
      rw [segmentOverlaps, OverflowChecks.add, Fault.ok_bind, Except.ok.injEq,
        Bool.eq_false_iff, ne_eq, overlaps_sort_eq_true_iff]
      rintro ⟨rowId, -, above, below⟩
      omega
  | sorted ids => exact absurd trivial beyond

/-- A search that no element stops. -/
theorem anyM_eq_ok {α : Type} {test : α → Except Fault Bool} {result : α → Bool} {list : List α}
    (all : ∀ element ∈ list, test element = .ok (result element)) :
    list.anyM test = .ok (list.any result) := by
  induction list with
  | nil => rfl
  | cons element list ih =>
      rw [List.anyM, all element List.mem_cons_self, Fault.ok_bind, List.any_cons]
      cases result element with
      | true => rfl
      | false =>
          rw [Bool.false_or]
          exact ih fun other member => all other (List.mem_cons_of_mem element member)

/-- The search of segments with checks. -/
theorem anyM_on_iff :
    segments.anyM (segmentOverlaps .on (rowIds.sort (· ≤ ·))) =
        .ok (decide (∃ segment ∈ segments, Hits rowIds segment)) ↔
      Searchable rowIds .on segments := by
  induction segments with
  | nil => exact iff_of_true rfl trivial
  | cons segment segments ih =>
      by_cases ends : segment.EndsWithin64
      · rw [List.anyM, segmentOverlaps_eq .on ends, Fault.ok_bind, Searchable]
        simp only [List.exists_mem_cons_iff]
        by_cases hit : Hits rowIds segment
        · simp only [hit, ends, decide_true, true_or, and_self, iff_true]
          rfl
        · simp only [hit, ends, decide_false, false_or, true_and]
          exact ih
      · rw [List.anyM, segmentOverlaps_on ends, Fault.error_bind, Searchable]
        simp [ends]

/-- The search of segments without checks. -/
theorem anyM_off_iff (fits : ∀ segment ∈ segments, IsU64 segment) :
    segments.anyM (segmentOverlaps .off (rowIds.sort (· ≤ ·))) =
        .ok (decide (∃ segment ∈ segments, Hits rowIds segment)) ↔
      Searchable rowIds .off segments := by
  have each : ∀ segment ∈ segments, segmentOverlaps .off (rowIds.sort (· ≤ ·)) segment =
      .ok (decide (segment.EndsWithin64 ∧ Hits rowIds segment)) := by
    intro segment member
    by_cases ends : segment.EndsWithin64
    · rw [segmentOverlaps_eq .off ends]
      simp only [ends, true_and]
    · rw [segmentOverlaps_off (fits segment member) ends]
      simp only [ends, false_and, decide_false]
  rw [anyM_eq_ok each, Except.ok.injEq, Bool.eq_iff_iff, List.any_eq_true, decide_eq_true_iff,
    Searchable]
  simp only [decide_eq_true_eq]
  constructor
  · intro same found
    exact same.mpr found
  · intro searchable
    exact ⟨fun ⟨segment, member, _, hit⟩ => ⟨segment, member, hit⟩, searchable⟩

variable {group : PlannedRowGroup}

/-- A row group is judged rightly if its segments can be searched. -/
theorem retainsGroup_eq_iff {checks : OverflowChecks}
    (fits : ∀ segment ∈ group.sidecar.rowIds, IsU64 segment) :
    retainsGroup checks (rowIds.sort (· ≤ ·)) group = .ok (decide (Wanted rowIds group)) ↔
      Searchable rowIds checks group.sidecar.rowIds := by
  cases segments_eq : group.sidecar.rowIds with
  | nil =>
      rw [retainsGroup, segments_eq]
      cases checks with
      | on => simp [Wanted, segments_eq, Searchable]
      | off => simp [Wanted, segments_eq, Searchable]
  | cons segment segments =>
      have wanted : Wanted rowIds group ↔ ∃ own ∈ segment :: segments, Hits rowIds own := by
        rw [Wanted, segments_eq]
        exact or_iff_right (List.cons_ne_nil _ _)
      rw [segments_eq] at fits
      rw [retainsGroup, segments_eq, if_neg (by simp), decide_eq_decide.mpr wanted]
      cases checks with
      | on => exact anyM_on_iff
      | off => exact anyM_off_iff fits

variable {groups : List PlannedRowGroup}

/-- The row group in front is judged, then the others. -/
theorem retainOverlapping_cons_eq_ok_iff {checks : OverflowChecks} {kept : List PlannedRowGroup} :
    retainOverlapping checks sorted (group :: groups) = .ok kept ↔
      ∃ keep rest, retainsGroup checks sorted group = .ok keep ∧
        retainOverlapping checks sorted groups = .ok rest ∧
          (if keep then group :: rest else rest) = kept := by
  rw [retainOverlapping]
  constructor
  · intro retained
    obtain ⟨keep, judged, retained⟩ := Script.except_bind_eq_ok.mp retained
    obtain ⟨rest, others, same⟩ := Script.except_bind_eq_ok.mp retained
    exact ⟨keep, rest, judged, others, Except.ok.inj same⟩
  · rintro ⟨keep, rest, judged, others, rfl⟩
    rw [judged, Fault.ok_bind, others, Fault.ok_bind]

/-- A row group that is left has been judged so. -/
theorem retainsGroup_of_mem {checks : OverflowChecks} {kept : List PlannedRowGroup}
    (retained : retainOverlapping checks sorted groups = .ok kept) (member : group ∈ kept) :
    retainsGroup checks sorted group = .ok true := by
  induction groups generalizing kept with
  | nil =>
      obtain rfl := Except.ok.inj retained
      cases member
  | cons first groups ih =>
      obtain ⟨keep, rest, judged, others, rfl⟩ := retainOverlapping_cons_eq_ok_iff.mp retained
      cases keep with
      | false => exact ih others member
      | true =>
          rcases List.mem_cons.mp member with rfl | later
          · exact judged
          · exact ih others later

/-- The row groups that are left are those wanted just if each is judged rightly. -/
theorem retainOverlapping_eq_iff {checks : OverflowChecks} :
    retainOverlapping checks sorted groups = .ok (groups.filter fun group => Wanted rowIds group) ↔
      ∀ group ∈ groups,
        retainsGroup checks sorted group = .ok (decide (Wanted rowIds group)) := by
  induction groups with
  | nil => exact iff_of_true rfl nofun
  | cons group groups ih =>
      rw [retainOverlapping_cons_eq_ok_iff, List.forall_mem_cons, ← ih, List.filter_cons]
      constructor
      · rintro ⟨keep, rest, judged, others, kept⟩
        cases keep with
        | true =>
            by_cases wanted : Wanted rowIds group
            · simp only [wanted, decide_true, if_true, List.cons.injEq, true_and] at kept ⊢
              exact ⟨judged, kept ▸ others⟩
            · simp only [wanted, decide_false, Bool.false_eq_true, if_false, if_true] at kept
              have member : group ∈ groups.filter fun own => Wanted rowIds own :=
                kept ▸ List.mem_cons_self
              exact absurd (decide_eq_true_iff.mp (List.mem_filter.mp member).2) wanted
        | false =>
            by_cases wanted : Wanted rowIds group
            · simp only [wanted, decide_true, Bool.false_eq_true, if_false, if_true] at kept
              have again := retainsGroup_of_mem others (kept ▸ List.mem_cons_self)
              rw [judged] at again
              cases again
            · simp only [wanted, decide_false, Bool.false_eq_true, if_false] at kept ⊢
              exact ⟨judged, kept ▸ others⟩
      · rintro ⟨judged, others⟩
        exact ⟨_, _, judged, others, rfl⟩

/-- The row groups that are left are those wanted if the segments of each can be searched. -/
theorem retainOverlapping_sort_eq_iff {checks : OverflowChecks}
    (fits : ∀ group ∈ groups, ∀ segment ∈ group.sidecar.rowIds, IsU64 segment) :
    retainOverlapping checks (rowIds.sort (· ≤ ·)) groups =
        .ok (groups.filter fun group => Wanted rowIds group) ↔
      ∀ group ∈ groups, Searchable rowIds checks group.sidecar.rowIds := by
  rw [retainOverlapping_eq_iff]
  exact forall₂_congr fun group member => retainsGroup_eq_iff (fits group member)

theorem ScanPlan.retainRowGroupsByRowIds_eq_ok_iff {checks : OverflowChecks}
    {plan kept : ScanPlan} :
    plan.retainRowGroupsByRowIds checks rowIds = .ok kept ↔
      ∃ rowGroups, retainOverlapping checks (rowIds.sort (· ≤ ·)) plan.rowGroups = .ok rowGroups ∧
        { plan with rowGroups } = kept := by
  rw [retainRowGroupsByRowIds, Script.except_bind_eq_ok]
  simp only [Except.ok.injEq]

/-- The row groups that are left are those with one of the row ids, and those without row ids, just
if the segments of each can be searched. -/
theorem ScanPlan.retainRowGroupsByRowIds_eq_iff (checks : OverflowChecks) (rowIds : Finset Nat)
    (plan : ScanPlan)
    (fits : ∀ group ∈ plan.rowGroups, ∀ segment ∈ group.sidecar.rowIds, IsU64 segment) :
    plan.retainRowGroupsByRowIds checks rowIds = .ok (plan.wanted rowIds) ↔
      ∀ group ∈ plan.rowGroups, Searchable rowIds checks group.sidecar.rowIds := by
  rw [← retainOverlapping_sort_eq_iff fits, retainRowGroupsByRowIds_eq_ok_iff]
  constructor
  · rintro ⟨rowGroups, retained, same⟩
    have same_groups : rowGroups = (plan.wanted rowIds).rowGroups :=
      congrArg ScanPlan.rowGroups same
    rw [retained, same_groups, wanted]
  · intro retained
    exact ⟨_, retained, rfl⟩

/-- A row group with some segments. -/
def groupOf (segments : List RowIdSegment) : PlannedRowGroup where
  snapshot := 1
  entry := { data := "rg.parquet", metaFile := "rg.meta" }
  sidecar :=
    { rowGroup := "rg", schemaId := 1, rows := 1, columns := ∅, columnOffsets := none, sort := none
      rowIds := segments, checksum := "", metaChecksum := "" }
  partitionValues := none

/-- A plan with one row group for each list of segments. -/
def planOf (groups : List (List RowIdSegment)) : ScanPlan where
  table := "t"
  schema :=
    { schemaId := 1, partitionBy := none, rowGroupTargetRows := 1, rowGroupTargetBytes := 1
      sort := none }
  rowGroups := groups.map groupOf

/-- A range, an unordered list, and no row ids. -/
def mixedPlan : ScanPlan :=
  planOf [[.range 20 5], [.sorted [30, 10]], []]

theorem retainRowGroupsByRowIds_mixedPlan :
    mixedPlan.retainRowGroupsByRowIds .on {10, 24} = .ok (mixedPlan.wanted {10, 24}) ↔
      ∀ group ∈ mixedPlan.rowGroups, Searchable {10, 24} .on group.sidecar.rowIds :=
  mixedPlan.retainRowGroupsByRowIds_eq_iff .on {10, 24} (by
    simp [mixedPlan, planOf, groupOf, IsU64])

/-- The range of the largest row id. -/
def lastRange : RowIdSegment :=
  .range (2 ^ 64 - 1) 1

/-- Without checks no row id is found in the range of the largest one. -/
theorem retainRowGroupsByRowIds_lastRange :
    (planOf [[lastRange]]).retainRowGroupsByRowIds .off {2 ^ 64 - 1} = .ok (planOf []) := by
  have searched :
      segmentOverlaps .off (Finset.sort {2 ^ 64 - 1} (· ≤ ·)) lastRange = .ok false := by
    apply segmentOverlaps_off
    · simp [lastRange, IsU64]
    · simp [lastRange, RowIdSegment.EndsWithin64]
  apply ScanPlan.retainRowGroupsByRowIds_eq_ok_iff.mpr
  refine ⟨[], retainOverlapping_cons_eq_ok_iff.mpr ⟨false, [], ?_, rfl, rfl⟩, rfl⟩
  change [lastRange].anyM _ = _
  rw [List.anyM, searched]
  rfl

/-- With checks the range of the largest row id stops the program, and without checks its row group
is lost. -/
theorem not_retainRowGroupsByRowIds_eq :
    ¬∃ checks, ∀ (rowIds : Finset Nat) (plan : ScanPlan),
      (∀ group ∈ plan.rowGroups, ∀ segment ∈ group.sidecar.rowIds, IsU64 segment) →
        plan.retainRowGroupsByRowIds checks rowIds = .ok (plan.wanted rowIds) := by
  rintro ⟨checks, exact_plan⟩
  have fits : ∀ group ∈ (planOf [[lastRange]]).rowGroups, ∀ segment ∈ group.sidecar.rowIds,
      IsU64 segment := by
    simp [planOf, groupOf, lastRange, IsU64]
  have retained := exact_plan {2 ^ 64 - 1} (planOf [[lastRange]]) fits
  cases checks with
  | on =>
      have stopped : (planOf [[lastRange]]).retainRowGroupsByRowIds .on {2 ^ 64 - 1} =
          .error .overflow := rfl
      rw [stopped] at retained
      cases retained
  | off =>
      rw [retainRowGroupsByRowIds_lastRange] at retained
      have same : (planOf []).rowGroups = ((planOf [[lastRange]]).wanted {2 ^ 64 - 1}).rowGroups :=
        congrArg ScanPlan.rowGroups (Except.ok.inj retained)
      have wanted : Wanted {2 ^ 64 - 1} (groupOf [lastRange]) := by
        simp [Wanted, groupOf, lastRange, hits_range_iff]
      have member : groupOf [lastRange] ∈ (planOf []).rowGroups := by
        rw [same]
        exact List.mem_filter.mpr ⟨List.mem_cons_self, decide_eq_true wanted⟩
      cases member

end Pruning

end IcefallDB
