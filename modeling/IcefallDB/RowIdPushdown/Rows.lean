import IcefallDB.RowIdPushdown
import IcefallDB.ScanExec.Offsets

/-!
# Rows of a scan with pushed row ids

The selection of a row group finds row ids by position in the segments, and a plain scan looks the
id of each row up at its offset.  They differ on rows without an id, which the scan gives id 0, on
ranges that end beyond 64 bits, which the selection passes over, and on which rows a limit below the
filter leaves.
-/

namespace IcefallDB

namespace RowIdPushdown

open ScanSelection RowSelector RowSelection

variable {lib : RowSelections} {vectors : String → DeletionVector}

/-! ## Filters -/

section Filters

variable {ρ : Type} {rowId : ρ → Nat} {row : ρ}

variable {value : PredicateValue}

theorem number_of_valueToU64 {id : Nat} (found : valueToU64 value = some id) :
    number value = some (id : Int) := by
  cases value with
  | uint64 value =>
      cases found
      rfl
  | int64 value =>
      rw [valueToU64] at found
      split at found
      · next nonneg =>
          cases found
          rw [number, Int.toNat_of_nonneg nonneg]
      · cases found
  | null | bool _ | other _ => cases found

theorem equals_rowId {id : Nat} (found : valueToU64 value = some id) (other : Nat) :
    equals (.uint64 other) value = .bool (other = id) := by
  rw [equals, number_of_valueToU64 found]
  simp [number]

theorem equals_rowId_right {id : Nat} (found : valueToU64 value = some id) (other : Nat) :
    equals value (.uint64 other) = .bool (other = id) := by
  rw [equals, number_of_valueToU64 found]
  simp [number, eq_comm]

theorem disjunction_bool (left right : Bool) :
    disjunction (.bool left) (.bool right) = .bool (left || right) := by
  cases left <;> cases right <;> rfl

theorem isRowIdColumn_iff {expr : PhysicalExpr ρ} : expr.isRowIdColumn = true ↔ expr = .rowId := by
  cases expr <;> simp [PhysicalExpr.isRowIdColumn]

theorem litToU64_eq_some {expr : PhysicalExpr ρ} {id : Nat} (found : litToU64 expr = some id) :
    ∃ value, expr = .literal value ∧ valueToU64 value = some id := by
  cases expr with
  | literal value => exact ⟨value, rfl, found⟩
  | _ => cases found

/-- A comparison that is recognised compares the row id with a literal. -/
theorem collect_eq {left right : PhysicalExpr ρ} {targets : Finset Nat}
    (collected : collectRowIdTargets (.eq left right) = some targets) :
    ∃ id value, targets = {id} ∧ valueToU64 value = some id ∧
      (left = .rowId ∧ right = .literal value ∨ left = .literal value ∧ right = .rowId) := by
  rw [collectRowIdTargets] at collected
  split at collected
  · next id column literal =>
      cases collected
      obtain ⟨value, rfl, found⟩ := litToU64_eq_some literal
      exact ⟨id, value, rfl, found, .inl ⟨isRowIdColumn_iff.mp column, rfl⟩⟩
  · split at collected
    · next id column literal =>
        cases collected
        obtain ⟨value, rfl, found⟩ := litToU64_eq_some literal
        exact ⟨id, value, rfl, found, .inr ⟨rfl, isRowIdColumn_iff.mp column⟩⟩
    · cases collected

/-- Membership in a list of literals. -/
theorem foldr_equals {list : List PredicateValue} {ids : List Nat}
    (found : list.mapM valueToU64 = some ids) (id : Nat) :
    list.foldr (fun item found => disjunction (equals (.uint64 id) item) found) (.bool false) =
      .bool (id ∈ ids) := by
  induction list generalizing ids with
  | nil =>
      cases found
      rfl
  | cons item list ih =>
      rw [List.mapM_cons] at found
      simp only [Option.bind_eq_bind, Option.bind_eq_some_iff, Option.pure_def,
        Option.some.injEq] at found
      obtain ⟨first, first_eq, rest, rest_eq, rfl⟩ := found
      rw [List.foldr_cons, ih rest_eq, equals_rowId first_eq, disjunction_bool]
      simp [List.mem_cons]

/-- A filter that is recognised is true exactly of the rows with a targeted id. -/
theorem evaluate_of_collect {predicate : PhysicalExpr ρ} {targets : Finset Nat}
    (collected : collectRowIdTargets predicate = some targets) :
    predicate.evaluate rowId row = .bool (rowId row ∈ targets) := by
  induction predicate generalizing targets with
  | or left right left_ih right_ih =>
      rw [collectRowIdTargets] at collected
      simp only [Option.bind_eq_bind, Option.bind_eq_some_iff, Option.some.injEq] at collected
      obtain ⟨first, first_eq, second, second_eq, rfl⟩ := collected
      rw [PhysicalExpr.evaluate, left_ih first_eq, right_ih second_eq, disjunction_bool]
      simp [Finset.mem_union]
  | eq left right =>
      obtain ⟨id, value, rfl, found, shapes⟩ := collect_eq collected
      rcases shapes with ⟨rfl, rfl⟩ | ⟨rfl, rfl⟩
      · simp only [PhysicalExpr.evaluate, equals_rowId found, Finset.mem_singleton]
      · simp only [PhysicalExpr.evaluate, equals_rowId_right found, Finset.mem_singleton]
  | inList negated expr list =>
      rw [collectRowIdTargets] at collected
      split at collected
      · cases collected
      · next shape =>
          rw [Bool.or_eq_true, not_or, Bool.not_eq_true, Bool.not_eq_true,
            Bool.not_eq_false'] at shape
          obtain ⟨rfl, column⟩ := shape
          obtain rfl := isRowIdColumn_iff.mp column
          obtain ⟨ids, found, rfl⟩ := Option.map_eq_some_iff.mp collected
          simp only [PhysicalExpr.evaluate, foldr_equals found, Bool.false_eq_true, if_false,
            List.mem_toFinset]
  | rowId | literal _ | other _ => cases collected

end Filters

/-! ## Selections -/

/-- The row at an offset has a targeted row id. -/
def isTargeted (targets : Finset Nat) (rowGroup : PlannedRowGroup) (offset : Nat) : Bool :=
  (expandWrapping rowGroup.sidecar.rowIds)[offset]?.any (· ∈ targets)

/-- Flags of the rows gone through. -/
def RunState.flags (state : RunState) : List Bool :=
  RowSelection.flags state.selectors ++
    (List.replicate state.runSelect true ++ List.replicate state.runSkip false)

/-- At most one run is open. -/
def RunState.OneRun (state : RunState) : Prop :=
  state.runSelect = 0 ∨ state.runSkip = 0

theorem targetStep_spec (targets : Finset Nat) {state : RunState} (oneRun : state.OneRun)
    (id : Nat) :
    (targetStep targets state id).OneRun ∧
      (targetStep targets state id).flags = state.flags ++ [decide (id ∈ targets)] ∧
      (targetStep targets state id).phys = state.phys + 1 := by
  rw [targetStep]
  split
  · next targeted =>
      refine ⟨.inr rfl, ?_, rfl⟩
      rcases oneRun with closed | closed
      · by_cases skipped : 0 < state.runSkip
        · simp [RunState.flags, closed, skipped, targeted]
        · simp [RunState.flags, closed, Nat.eq_zero_of_not_pos skipped, targeted]
      · simp [RunState.flags, closed, targeted, List.replicate_succ']
  · next other =>
      refine ⟨.inl rfl, ?_, rfl⟩
      rcases oneRun with closed | closed
      · simp [RunState.flags, closed, other, List.replicate_succ']
      · by_cases selected : 0 < state.runSelect
        · simp [RunState.flags, closed, selected, other]
        · simp [RunState.flags, closed, Nat.eq_zero_of_not_pos selected, other]

theorem targetRuns_spec (targets : Finset Nat) (total : Nat) (ids : List Nat) {state : RunState}
    (oneRun : state.OneRun) (length : state.flags.length = state.phys) :
    (targetRuns targets total state ids).flags =
        state.flags ++ (ids.take (total - state.phys)).map (fun id => decide (id ∈ targets)) ∧
      (targetRuns targets total state ids).OneRun ∧
      (targetRuns targets total state ids).flags.length =
        (targetRuns targets total state ids).phys := by
  induction ids generalizing state with
  | nil => exact ⟨by simp [targetRuns], oneRun, length⟩
  | cons id ids ih =>
      rw [targetRuns]
      split
      · next beyond => exact ⟨by simp [Nat.sub_eq_zero_of_le beyond], oneRun, length⟩
      · next inside =>
          obtain ⟨kept, flags_eq, phys_eq⟩ := targetStep_spec targets oneRun id
          have next_length : (targetStep targets state id).flags.length =
              (targetStep targets state id).phys := by
            rw [flags_eq, phys_eq, List.length_append, length, List.length_singleton]
          obtain ⟨rest_eq, rest⟩ := ih kept next_length
          refine ⟨?_, rest⟩
          have more : total - state.phys = total - (state.phys + 1) + 1 := by omega
          rw [rest_eq, flags_eq, phys_eq, more, List.take_succ_cons, List.map_cons,
            List.append_assoc]
          rfl

/-- Ids by position, with a flag for each row. -/
theorem map_range_getElem? (ids : List Nat) (targets : Finset Nat) (total : Nat) :
    (List.range total).map (fun offset => ids[offset]?.any (· ∈ targets)) =
      (ids.take total).map (fun id => decide (id ∈ targets)) ++
        List.replicate (total - (ids.take total).length) false := by
  apply List.ext_getElem
  · simp only [List.length_map, List.length_range, List.length_append, List.length_replicate,
      List.length_take]
    omega
  · intro offset left right
    rw [List.length_map, List.length_range] at left
    simp only [List.getElem_map, List.getElem_range, List.getElem_append, List.length_map,
      List.length_take, List.getElem_replicate, List.getElem_take]
    split
    · next inside =>
        have found : offset < ids.length := by omega
        simp [List.getElem?_eq_getElem found]
    · next outside =>
        have missing : ids.length ≤ offset := by omega
        simp [List.getElem?_eq_none missing]

/-- The selection has the rows whose id is targeted. -/
theorem flags_rowIdSetToRowSelection (rowGroup : PlannedRowGroup) (targets : Finset Nat) :
    lib.flags (rowIdSetToRowSelection lib rowGroup.sidecar.rowIds targets
        rowGroup.sidecar.rows) =
      (List.range rowGroup.sidecar.rows).map (isTargeted targets rowGroup) := by
  obtain ⟨flags_eq, oneRun, length⟩ := targetRuns_spec targets rowGroup.sidecar.rows
    (expandWrapping rowGroup.sidecar.rowIds)
    (show ({ selectors := [], runSelect := 0, runSkip := 0, phys := 0 } : RunState).OneRun
      from .inl rfl) rfl
  rw [RowSelections.flags, rowIdSetToRowSelection, lib.flags_ofSelectors, targetSelectors]
  generalize targetRuns targets rowGroup.sidecar.rows
    { selectors := [], runSelect := 0, runSkip := 0, phys := 0 }
    (expandWrapping rowGroup.sidecar.rowIds) = state at flags_eq oneRun length ⊢
  have last_runs : RowSelection.flags (state.selectors ++
      (if 0 < state.runSelect then [select state.runSelect] else []) ++
      (if 0 < state.runSkip then [skipRows state.runSkip] else [])) = state.flags := by
    have selects : RowSelection.flags (if 0 < state.runSelect then [select state.runSelect]
        else []) = List.replicate state.runSelect true := by
      split
      · simp
      · next none_open => rw [Nat.eq_zero_of_not_pos none_open, flags_nil, List.replicate_zero]
    have skips : RowSelection.flags (if 0 < state.runSkip then [skipRows state.runSkip]
        else []) = List.replicate state.runSkip false := by
      split
      · simp
      · next none_open => rw [Nat.eq_zero_of_not_pos none_open, flags_nil, List.replicate_zero]
    rw [flags_append, flags_append, selects, skips, RunState.flags, List.append_assoc]
  have tail : RowSelection.flags (if state.phys < rowGroup.sidecar.rows then
      [skipRows (rowGroup.sidecar.rows - state.phys)] else []) =
        List.replicate (rowGroup.sidecar.rows - state.phys) false := by
    split
    · simp
    · next complete =>
        rw [Nat.sub_eq_zero_of_le (not_lt.mp complete), flags_nil, List.replicate_zero]
  have start : ({ selectors := [], runSelect := 0, runSkip := 0, phys := 0 } : RunState).flags =
      [] := rfl
  rw [start, List.nil_append, Nat.sub_zero] at flags_eq
  rw [flags_append, last_runs, tail, ← length, flags_eq, List.length_map]
  exact (map_range_getElem? _ targets _).symm

/-! ## Slices -/

/-- Number of slices of each row group. -/
def sliceCounts (share : Nat → Nat → Nat → Nat) (rowGroups : List PlannedRowGroup)
    (targetPartitions : Nat) (allowIntraSplit : Bool) : List Nat :=
  if isSplit rowGroups targetPartitions allowIntraSplit then
    splitCounts share rowGroups (max targetPartitions 1)
  else rowGroups.map fun _ => 1

/-- First offset and length of slices that follow each other. -/
def boundsFrom : Nat → List Nat → List (Nat × Nat)
  | _, [] => []
  | offset, chunk :: chunks =>
      if chunk = 0 then boundsFrom offset chunks
      else (offset, chunk) :: boundsFrom (offset + chunk) chunks

/-- First offset and length of the slices of a row group. -/
def sliceBounds (rows count : Nat) : List (Nat × Nat) :=
  if count = 1 then [(0, rows)] else boundsFrom 0 (sliceLengths rows count)

/-- Every offset lies in a slice, and only in one. -/
theorem boundsFrom_spec (chunks : List Nat) (offset : Nat) :
    (∀ row, offset ≤ row → row < offset + chunks.sum →
      ∃ bound ∈ boundsFrom offset chunks, bound.1 ≤ row ∧ row < bound.1 + bound.2) ∧
    (∀ bound ∈ boundsFrom offset chunks, offset ≤ bound.1 ∧
      bound.1 + bound.2 ≤ offset + chunks.sum) ∧
    ∀ first ∈ boundsFrom offset chunks, ∀ second ∈ boundsFrom offset chunks, ∀ row,
      first.1 ≤ row → row < first.1 + first.2 → second.1 ≤ row → row < second.1 + second.2 →
        first = second := by
  induction chunks generalizing offset with
  | nil =>
      refine ⟨fun row above below => ?_, nofun, nofun⟩
      rw [List.sum_nil] at below
      omega
  | cons chunk chunks ih =>
      rw [boundsFrom, List.sum_cons]
      split
      · next empty =>
          subst empty
          rw [Nat.zero_add]
          exact ih offset
      · obtain ⟨covers, inside, unique⟩ := ih (offset + chunk)
        refine ⟨fun row above below => ?_, fun bound member => ?_, ?_⟩
        · by_cases here : row < offset + chunk
          · exact ⟨(offset, chunk), List.mem_cons_self, above, here⟩
          · obtain ⟨bound, member, contains⟩ := covers row (by omega) (by omega)
            exact ⟨bound, List.mem_cons_of_mem _ member, contains⟩
        · rcases List.mem_cons.mp member with rfl | later
          · exact ⟨le_rfl, by dsimp only; omega⟩
          · have := inside bound later
            omega
        · intro first first_mem second second_mem row low high low' high'
          rcases List.mem_cons.mp first_mem with rfl | first_later
          · rcases List.mem_cons.mp second_mem with rfl | second_later
            · rfl
            · have := inside second second_later
              dsimp only at low high
              omega
          · rcases List.mem_cons.mp second_mem with rfl | second_later
            · have := inside first first_later
              dsimp only at low' high'
              omega
            · exact unique first first_later second second_later row low high low' high'

variable {count : Nat}

theorem exists_sliceBounds {rows row : Nat} (positive : 0 < count) (inside : row < rows) :
    ∃ bound ∈ sliceBounds rows count, bound.1 ≤ row ∧ row < bound.1 + bound.2 := by
  rw [sliceBounds]
  split
  · exact ⟨(0, rows), List.mem_singleton_self _, Nat.zero_le row, by dsimp only; omega⟩
  · have sum := sum_sliceLengths rows positive
    exact (boundsFrom_spec _ 0).1 row (Nat.zero_le row) (by omega)

theorem sliceBounds_unique {rows row : Nat} {first second : Nat × Nat}
    (first_mem : first ∈ sliceBounds rows count) (second_mem : second ∈ sliceBounds rows count)
    (in_first : first.1 ≤ row ∧ row < first.1 + first.2)
    (in_second : second.1 ≤ row ∧ row < second.1 + second.2) : first = second := by
  rw [sliceBounds] at first_mem second_mem
  split at first_mem
  · next whole =>
      rw [if_pos whole] at second_mem
      exact (List.mem_singleton.mp first_mem).trans (List.mem_singleton.mp second_mem).symm
  · next cutting =>
      rw [if_neg cutting] at second_mem
      exact (boundsFrom_spec _ 0).2.2 first first_mem second second_mem row in_first.1 in_first.2
        in_second.1 in_second.2

theorem sliceBounds_le {rows : Nat} (positive : 0 < count) {bound : Nat × Nat}
    (member : bound ∈ sliceBounds rows count) : bound.1 + bound.2 ≤ rows := by
  rw [sliceBounds] at member
  split at member
  · rw [List.mem_singleton.mp member, Nat.zero_add]
  · have inside := ((boundsFrom_spec _ 0).2.1 bound member).2
    rw [sum_sliceLengths rows positive] at inside
    omega

variable (lib) in
/-- What the partitions of a row group read, slice by slice. -/
theorem map_selectedRows_cut (vectors : String → DeletionVector) (rowGroup : PlannedRowGroup)
    (positive : 0 < count) :
    (cut lib rowGroup count).map (selectedRows vectors) =
      (sliceBounds rowGroup.sidecar.rows count).map fun bound =>
        ((List.range' bound.1 bound.2).filter (isRead vectors rowGroup)).map
          fun offset => (rowGroup, offset) := by
  have slices : ∀ (chunks : List Nat) (offset : Nat),
      offset + chunks.sum ≤ rowGroup.sidecar.rows →
      (sliceFrom lib rowGroup offset chunks).map (selectedRows vectors) =
        (boundsFrom offset chunks).map fun bound =>
          ((List.range' bound.1 bound.2).filter (isRead vectors rowGroup)).map
            fun offset => (rowGroup, offset) := by
    intro chunks
    induction chunks with
    | nil => exact fun _ _ => rfl
    | cons chunk chunks ih =>
        intro offset inside
        rw [List.sum_cons] at inside
        rw [sliceFrom, boundsFrom]
        split
        · exact ih offset (by omega)
        · have first : offset + chunk ≤ rowGroup.sidecar.rows := by omega
          rw [List.map_cons, List.map_cons, ih (offset + chunk) (by omega), selectedRows,
            livePhysicalOffsets_eq (flags_sliceSelection first), filter_range_interval first]
  rw [cut, sliceBounds]
  split
  · rw [List.map_singleton, List.map_singleton, selectedRows_whole,
      ScanSelection.readRows,
      List.range_eq_range']
  · have sum := sum_sliceLengths rowGroup.sidecar.rows positive
    exact slices _ 0 (by omega)

variable (lib) in
theorem map_whole_eq (rowGroups : List PlannedRowGroup) :
    rowGroups.map (fun rowGroup => ({ rowGroup, rowSelection := none } :
        ScanSelection.ScanPartition lib)) =
      (rowGroups.zip (rowGroups.map fun _ => 1)).flatMap fun group => cut lib group.1 group.2 := by
  induction rowGroups with
  | nil => rfl
  | cons rowGroup rowGroups ih =>
      rw [List.map_cons, List.map_cons, List.zip_cons_cons, List.flatMap_cons, ih]
      rfl

variable (lib) in
/-- The partitions of a scan, row group by row group. -/
theorem splitRowGroups_eq {share : Nat → Nat → Nat → Nat}
    (positive : ∀ rows total desired, 1 ≤ share rows total desired)
    (rowGroups : List PlannedRowGroup) (targetPartitions : Nat) (allowIntraSplit : Bool) :
    (sliceCounts share rowGroups targetPartitions allowIntraSplit).length = rowGroups.length ∧
    (∀ count ∈ sliceCounts share rowGroups targetPartitions allowIntraSplit, 0 < count) ∧
    ScanSelection.splitRowGroups lib share rowGroups targetPartitions allowIntraSplit =
      (rowGroups.zip (sliceCounts share rowGroups targetPartitions allowIntraSplit)).flatMap
        fun group => cut lib group.1 group.2 := by
  rw [sliceCounts, ScanSelection.splitRowGroups]
  split
  · next splits =>
      have spec := splitCounts_spec positive rowGroups (max targetPartitions 1)
      have nonempty := flatMap_cut_ne_nil lib spec.1 spec.2 (totalRows_pos splits)
      simp only [List.isEmpty_iff, nonempty, if_false]
      exact ⟨spec.1, spec.2, trivial⟩
  · constructor
    · exact List.length_map _
    · constructor
      · intro count member
        obtain ⟨-, -, rfl⟩ := List.mem_map.mp member
        exact Nat.one_pos
      · exact map_whole_eq lib rowGroups

/-- Slices of row groups with different coordinates are reported as these row groups, except for
empty ones that are cut. -/
theorem foldl_cut_of_distinct {groups : List (PlannedRowGroup × Nat)}
    (positive : ∀ group ∈ groups, 0 < group.2) (reported : List PlannedRowGroup)
    (distinct : (reported ++ groups.map Prod.fst).Pairwise fun left right =>
      ¬ SameCoordinates left right) :
    (groups.flatMap fun group => cut lib group.1 group.2).foldl reportPartition reported =
      reported ++ (groups.filter fun group => group.2 = 1 ∨ group.1.sidecar.rows ≠ 0).map
        Prod.fst := by
  induction groups generalizing reported with
  | nil => simp
  | cons group groups ih =>
      have rest_pos : ∀ other ∈ groups, 0 < other.2 := fun other member =>
        positive other (.tail _ member)
      rw [List.flatMap_cons, List.foldl_append, foldl_cut _ _ (positive group List.mem_cons_self)]
      have differs : ¬ ∃ last ∈ reported.getLast?, SameCoordinates last group.1 := by
        rintro ⟨last, found, same⟩
        have before := List.mem_of_getLast? found
        exact (List.pairwise_append.mp distinct).2.2 last before group.1
          (by simp) same
      split
      · next dropped =>
          have empty := dropped.2.resolve_right differs
          have smaller : (reported ++ groups.map Prod.fst).Pairwise fun left right =>
              ¬ SameCoordinates left right := by
            apply List.Pairwise.sublist _ distinct
            exact (List.sublist_cons_self ..).append_left reported
          rw [ih rest_pos reported smaller, List.filter_cons_of_neg]
          simp [dropped.1, empty]
      · next kept =>
          have counted : group.2 = 1 ∨ group.1.sidecar.rows ≠ 0 := by
            by_contra neither
            rw [not_or, not_not] at neither
            exact kept ⟨neither.1, .inl neither.2⟩
          rw [ih rest_pos (reported ++ [group.1]) (by simpa using distinct),
            List.filter_cons_of_pos (by simpa using counted), List.map_cons, List.append_assoc,
            List.singleton_append]

/-! ## Limits -/

/-- A row with some rows before it is within a limit. -/
def Within (limit : Option Nat) (before : Nat) : Prop :=
  ∀ bound ∈ limit, before < bound

@[simp]
theorem within_none (before : Nat) : Within none before :=
  nofun

theorem mem_take_append_cons {α : Type} {before rest : List α} {row : α} (fresh : row ∉ before)
    (bound : Nat) : row ∈ (before ++ row :: rest).take bound ↔ before.length < bound := by
  rw [List.take_append, List.mem_append]
  constructor
  · intro found
    by_contra beyond
    rcases found with early | late
    · exact fresh (List.mem_of_mem_take early)
    · rw [Nat.sub_eq_zero_of_le (not_lt.mp beyond), List.take_zero] at late
      cases late
  · intro inside
    obtain ⟨more, more_eq⟩ := Nat.exists_eq_add_of_lt inside
    right
    rw [more_eq, show before.length + more + 1 - before.length = more + 1 by omega,
      List.take_succ_cons]
    exact List.mem_cons_self

variable {offset : Nat}

/-- A row of an interval is among the first ones that satisfy a predicate. -/
theorem mem_upTo_filter {limit : Option Nat} {start length : Nat} (p : Nat → Bool) :
    offset ∈ Limits.upTo limit ((List.range' start length).filter p) ↔
      (start ≤ offset ∧ offset < start + length) ∧ p offset = true ∧
        Within limit ((List.range' start (offset - start)).countP p) := by
  cases limit with
  | none => simp [List.mem_range'_1, and_assoc]
  | some bound =>
      rw [Limits.upTo_some]
      by_cases member : offset ∈ (List.range' start length).filter p
      · obtain ⟨inside, holds⟩ := List.mem_filter.mp member
        rw [List.mem_range'_1] at inside
        have pieces : List.range' start length =
            List.range' start (offset - start) ++
              offset :: List.range' (offset + 1) (start + length - offset - 1) := by
          have joined := List.range'_append_1 (s := start) (m := offset - start)
            (n := start + length - offset - 1 + 1)
          rw [show start + (offset - start) = offset by omega,
            show offset - start + (start + length - offset - 1 + 1) = length by omega,
            List.range'_succ] at joined
          exact joined.symm
        have fresh : offset ∉ (List.range' start (offset - start)).filter p := by
          intro early
          have := List.mem_range'_1.mp (List.mem_filter.mp early).1
          omega
        rw [pieces, List.filter_append, List.filter_cons_of_pos holds, mem_take_append_cons fresh,
          ← List.countP_eq_length_filter]
        simp [Within, inside.1, inside.2, holds]
      · constructor
        · intro taken
          exact absurd (List.mem_of_mem_take taken) member
        · intro ⟨inside, holds, _⟩
          exact absurd (List.mem_filter.mpr ⟨List.mem_range'_1.mpr inside, holds⟩) member

/-! ## Rows of both plans -/

/-- Row groups of which no two have the same coordinates. -/
def Distinct (rowGroups : List PlannedRowGroup) : Prop :=
  rowGroups.Pairwise fun left right => ¬ SameCoordinates left right

theorem nodup_flatMap_readRows {rowGroups : List PlannedRowGroup} (distinct : Distinct rowGroups) :
    (rowGroups.flatMap (ScanSelection.readRows vectors)).Nodup := by
  apply List.nodup_flatMap.mpr
  constructor
  · intro rowGroup _
    apply List.Nodup.map _ (List.nodup_range.filter _)
    exact fun _ _ same => congrArg Prod.snd same
  · apply List.Pairwise.imp _ distinct
    intro left right different row in_left in_right
    obtain ⟨_, -, rfl⟩ := List.mem_map.mp in_left
    obtain ⟨_, -, same⟩ := List.mem_map.mp in_right
    obtain rfl : right = left := congrArg Prod.fst same
    exact different (sameCoordinates_refl right)

theorem mem_rows {scan : Scan lib} {row : PlannedRowGroup × Nat} :
    row ∈ scan.rows vectors ↔
      ∃ rows ∈ scan.partitions.map (selectedRows vectors),
        row ∈ Limits.upTo scan.limit rows ∧ scan.keep row = true := by
  simp only [Scan.rows, Scan.partitionRows, List.mem_flatMap, List.mem_filter, List.mem_map,
    exists_exists_and_eq_and]

theorem rows_sublist (scan : Scan lib) :
    (scan.rows vectors).Sublist (scan.partitions.flatMap (selectedRows vectors)) := by
  rw [Scan.rows]
  induction scan.partitions with
  | nil => exact List.Sublist.refl _
  | cons partition partitions ih =>
      have first : (scan.partitionRows vectors partition).Sublist (selectedRows vectors partition) :=
        List.filter_sublist.trans (Limits.upTo_sublist scan.limit _)
      rw [List.flatMap_cons, List.flatMap_cons]
      exact first.append ih

/-- A scan of some row groups. -/
structure Reads (share : Nat → Nat → Nat → Nat) (rowGroups : List PlannedRowGroup)
    (targetPartitions : Nat) (allowIntraSplit : Bool) (scan : Scan lib) : Prop where
  positive : ∀ rows total desired, 1 ≤ share rows total desired
  distinct : Distinct rowGroups
  partitions : scan.partitions =
    ScanSelection.splitRowGroups lib share rowGroups targetPartitions allowIntraSplit

section Scans

variable {share : Nat → Nat → Nat → Nat} {rowGroups : List PlannedRowGroup}
  {targetPartitions : Nat} {allowIntraSplit : Bool} {scan : Scan lib}

variable (vectors) in
theorem Reads.nodup (reads : Reads share rowGroups targetPartitions allowIntraSplit scan) :
    (scan.rows vectors).Nodup := by
  apply (rows_sublist scan).nodup
  rw [reads.partitions, flatMap_selectedRows reads.positive]
  exact nodup_flatMap_readRows reads.distinct

variable {rowGroup : PlannedRowGroup}

/-- Each row of a slice up to the limit is in the scan. -/
theorem Reads.mem_rows_iff (reads : Reads share rowGroups targetPartitions allowIntraSplit scan) :
    (rowGroup, offset) ∈ scan.rows vectors ↔
      ∃ count, (rowGroup, count) ∈
          rowGroups.zip (sliceCounts share rowGroups targetPartitions allowIntraSplit) ∧
        ∃ bound ∈ sliceBounds rowGroup.sidecar.rows count,
          (bound.1 ≤ offset ∧ offset < bound.1 + bound.2) ∧
            isRead vectors rowGroup offset = true ∧
            Within scan.limit ((List.range' bound.1 (offset - bound.1)).countP
              (isRead vectors rowGroup)) ∧ scan.keep (rowGroup, offset) = true := by
  obtain ⟨-, counts_pos, split⟩ :=
    splitRowGroups_eq lib reads.positive rowGroups targetPartitions allowIntraSplit
  rw [mem_rows, reads.partitions, split, List.map_flatMap]
  constructor
  · intro ⟨rows, from_partition, taken, kept⟩
    obtain ⟨⟨other, count⟩, in_zip, from_cut⟩ := List.mem_flatMap.mp from_partition
    rw [map_selectedRows_cut lib vectors other (counts_pos count (List.of_mem_zip in_zip).2)]
      at from_cut
    obtain ⟨bound, in_slices, rfl⟩ := List.mem_map.mp from_cut
    rw [Limits.upTo_map] at taken
    obtain ⟨_, first, same⟩ := List.mem_map.mp taken
    obtain ⟨rfl, rfl⟩ := Prod.mk.inj same
    obtain ⟨inside, read, within⟩ := (mem_upTo_filter _).mp first
    exact ⟨count, in_zip, bound, in_slices, inside, read, within, kept⟩
  · intro ⟨count, in_zip, bound, in_slices, inside, read, within, kept⟩
    have from_cut := List.mem_map_of_mem (f := fun bound : Nat × Nat =>
      ((List.range' bound.1 bound.2).filter (isRead vectors rowGroup)).map
        fun offset => (rowGroup, offset)) in_slices
    rw [← map_selectedRows_cut lib vectors rowGroup
      (counts_pos count (List.of_mem_zip in_zip).2)] at from_cut
    have first := (mem_upTo_filter _).mpr ⟨inside, read, within⟩
    apply Exists.intro
    constructor
    · exact List.mem_flatMap.mpr ⟨(rowGroup, count), in_zip, from_cut⟩
    · constructor
      · rw [Limits.upTo_map]
        exact List.mem_map_of_mem first
      · exact kept

theorem Reads.count_unique (reads : Reads share rowGroups targetPartitions allowIntraSplit scan)
    {other : Nat}
    (in_zip : (rowGroup, count) ∈
      rowGroups.zip (sliceCounts share rowGroups targetPartitions allowIntraSplit))
    (other_in_zip : (rowGroup, other) ∈
      rowGroups.zip (sliceCounts share rowGroups targetPartitions allowIntraSplit)) :
    other = count := by
  have length := (splitRowGroups_eq lib reads.positive rowGroups targetPartitions
    allowIntraSplit).1
  have nodup : rowGroups.Nodup := by
    apply List.Pairwise.imp _ reads.distinct
    rintro left _ different rfl
    exact different (sameCoordinates_refl left)
  have groups_eq : (rowGroups.zip (sliceCounts share rowGroups targetPartitions
      allowIntraSplit)).map Prod.fst = rowGroups := List.map_fst_zip length.ge
  rw [← groups_eq] at nodup
  exact congrArg Prod.snd (List.inj_on_of_nodup_map nodup other_in_zip in_zip rfl)

/-- The rows of a slice that are in the scan. -/
theorem Reads.mem_rows_slice (reads : Reads share rowGroups targetPartitions allowIntraSplit scan)
    {bound : Nat × Nat}
    (in_zip : (rowGroup, count) ∈
      rowGroups.zip (sliceCounts share rowGroups targetPartitions allowIntraSplit))
    (in_slices : bound ∈ sliceBounds rowGroup.sidecar.rows count)
    (inside : bound.1 ≤ offset ∧ offset < bound.1 + bound.2) :
    (rowGroup, offset) ∈ scan.rows vectors ↔
      isRead vectors rowGroup offset = true ∧
        Within scan.limit ((List.range' bound.1 (offset - bound.1)).countP
          (isRead vectors rowGroup)) ∧ scan.keep (rowGroup, offset) = true := by
  rw [reads.mem_rows_iff]
  constructor
  · intro ⟨other, other_in_zip, other_bound, other_in_slices, other_inside, rest⟩
    obtain rfl := reads.count_unique in_zip other_in_zip
    obtain rfl := sliceBounds_unique in_slices other_in_slices inside other_inside
    exact rest
  · intro rest
    exact ⟨count, in_zip, bound, in_slices, inside, rest⟩

/-- Row groups that are reported: all but empty ones that are cut. -/
theorem Reads.plannedRowGroups_eq
    (reads : Reads share rowGroups targetPartitions allowIntraSplit scan) :
    plannedRowGroups scan.partitions =
      ((rowGroups.zip (sliceCounts share rowGroups targetPartitions allowIntraSplit)).filter
        fun group => group.2 = 1 ∨ group.1.sidecar.rows ≠ 0).map Prod.fst := by
  obtain ⟨length, counts_pos, split⟩ :=
    splitRowGroups_eq lib reads.positive rowGroups targetPartitions allowIntraSplit
  have fst_eq : (rowGroups.zip (sliceCounts share rowGroups targetPartitions
      allowIntraSplit)).map Prod.fst = rowGroups := List.map_fst_zip length.ge
  rw [plannedRowGroups, reads.partitions, split, foldl_cut_of_distinct _ [], List.nil_append]
  · rw [List.nil_append, fst_eq]
    exact reads.distinct
  · intro group member
    exact counts_pos group.2 (List.of_mem_zip member).2

theorem Reads.plannedRowGroups_sublist
    (reads : Reads share rowGroups targetPartitions allowIntraSplit scan) :
    (plannedRowGroups scan.partitions).Sublist rowGroups := by
  have length := (splitRowGroups_eq lib reads.positive rowGroups targetPartitions
    allowIntraSplit).1
  have reported := (List.filter_sublist (p := fun group : PlannedRowGroup × Nat =>
    decide (group.2 = 1 ∨ group.1.sidecar.rows ≠ 0))
      (l := rowGroups.zip (sliceCounts share rowGroups targetPartitions allowIntraSplit))).map
        Prod.fst
  rw [List.map_fst_zip length.ge] at reported
  rw [reads.plannedRowGroups_eq]
  exact reported

theorem Reads.mem_plannedRowGroups
    (reads : Reads share rowGroups targetPartitions allowIntraSplit scan)
    (nonempty : rowGroup.sidecar.rows ≠ 0) :
    rowGroup ∈ plannedRowGroups scan.partitions ↔
      ∃ count, (rowGroup, count) ∈
        rowGroups.zip (sliceCounts share rowGroups targetPartitions allowIntraSplit) := by
  rw [reads.plannedRowGroups_eq, List.mem_map]
  constructor
  · intro ⟨⟨other, count⟩, reported, same⟩
    cases same
    exact ⟨count, (List.mem_filter.mp reported).1⟩
  · intro ⟨count, member⟩
    exact ⟨(rowGroup, count), List.mem_filter.mpr ⟨member, by simp [nonempty]⟩, rfl⟩

/-- A row group with pushed row ids reads the targeted rows that are not skipped as deleted. -/
theorem selectedRows_targets (targets : Finset Nat) (rowGroup : PlannedRowGroup) :
    selectedRows vectors ({ rowGroup, rowSelection := some (rowIdSetToRowSelection lib
        rowGroup.sidecar.rowIds targets rowGroup.sidecar.rows) } :
          ScanSelection.ScanPartition lib) =
      ((List.range rowGroup.sidecar.rows).filter fun offset =>
        isTargeted targets rowGroup offset && isRead vectors rowGroup offset).map
          fun offset => (rowGroup, offset) := by
  rw [selectedRows, livePhysicalOffsets_eq (flags_rowIdSetToRowSelection rowGroup targets)]

theorem mem_withRowIdTargets {targets : Finset Nat} :
    (rowGroup, offset) ∈ (scan.withRowIdTargets targets).rows vectors ↔
      rowGroup ∈ plannedRowGroups scan.partitions ∧ offset < rowGroup.sidecar.rows ∧
        (isTargeted targets rowGroup offset = true ∧ isRead vectors rowGroup offset = true) ∧
          Within scan.limit ((List.range offset).countP fun before =>
            isTargeted targets rowGroup before && isRead vectors rowGroup before) ∧
          scan.keep (rowGroup, offset) = true := by
  have first_iff : offset ∈ Limits.upTo scan.limit
      ((List.range' 0 rowGroup.sidecar.rows).filter fun before =>
        isTargeted targets rowGroup before && isRead vectors rowGroup before) ↔
      (0 ≤ offset ∧ offset < 0 + rowGroup.sidecar.rows) ∧ _ := mem_upTo_filter _
  rw [← List.range_eq_range', Nat.sub_zero, ← List.range_eq_range', Nat.zero_add,
    Bool.and_eq_true] at first_iff
  simp only [mem_rows, Scan.withRowIdTargets, List.map_map, List.mem_map, Function.comp_apply,
    selectedRows_targets, exists_exists_and_eq_and, Limits.upTo_map]
  constructor
  · intro ⟨other, planned, ⟨_, first, same⟩, kept⟩
    obtain ⟨rfl, rfl⟩ := Prod.mk.inj same
    obtain ⟨⟨-, below⟩, chosen, within⟩ := first_iff.mp first
    exact ⟨planned, below, chosen, within, kept⟩
  · intro ⟨planned, below, chosen, within, kept⟩
    have first := first_iff.mpr ⟨⟨Nat.zero_le offset, below⟩, chosen, within⟩
    exact ⟨rowGroup, planned, ⟨offset, first, rfl⟩, kept⟩

variable (vectors) in
theorem Reads.nodup_withRowIdTargets
    (reads : Reads share rowGroups targetPartitions allowIntraSplit scan) (targets : Finset Nat) :
    ((scan.withRowIdTargets targets).rows vectors).Nodup := by
  have all : ((plannedRowGroups scan.partitions).flatMap
      (ScanSelection.readRows vectors)).Nodup :=
    nodup_flatMap_readRows (reads.distinct.sublist reads.plannedRowGroups_sublist)
  apply (rows_sublist _).nodup
  apply List.Sublist.nodup _ all
  simp only [Scan.withRowIdTargets, List.flatMap_map, selectedRows_targets]
  induction plannedRowGroups scan.partitions with
  | nil => exact List.Sublist.refl _
  | cons rowGroup planned ih =>
      rw [List.flatMap_cons, List.flatMap_cons]
      apply List.Sublist.append _ ih
      apply List.Sublist.map
      rw [← List.filter_filter]
      exact List.filter_sublist

/-- Where row ids have 64 bits, a row without an id is not targeted, and a row with one exactly if
its id is. -/
theorem isTargeted_iff {targets : Finset Nat}
    (ends : ∀ segment ∈ rowGroup.sidecar.rowIds, segment.EndsWithin64)
    (small : ∀ id ∈ expand rowGroup.sidecar.rowIds, id < 2 ^ 64) :
    isTargeted targets rowGroup offset = true ↔
      synthesizedRowId (rowGroup, offset) ∈ targets ∧
        offset < (expand rowGroup.sidecar.rowIds).length := by
  rw [isTargeted, expandWrapping_eq ends, synthesizedRowId, rowIdAtOffset_eq]
  by_cases found : offset < (expand rowGroup.sidecar.rowIds).length
  · rw [List.getElem?_eq_getElem found, Option.getD_some,
      Nat.mod_eq_of_lt (small _ (List.getElem_mem found))]
    simp [found]
  · simp [found]

/-- A row that is asked for is left by the limit in a slice exactly if it is targeted and left by
the limit among the targeted rows of its row group. -/
def AgreesAt (vectors : String → DeletionVector) (targets : Finset Nat) (limit : Option Nat)
    (rowGroup : PlannedRowGroup) (start offset : Nat) : Prop :=
  Within limit ((List.range' start (offset - start)).countP (isRead vectors rowGroup)) ↔
    isTargeted targets rowGroup offset = true ∧
      Within limit ((List.range offset).countP fun before =>
        isTargeted targets rowGroup before && isRead vectors rowGroup before)

/-- The row-id selection agrees with the filter on every row that is read and asked for. -/
def SelectionAgrees (vectors : String → DeletionVector) (targets : Finset Nat)
    (groups : List (PlannedRowGroup × Nat)) (keep : PlannedRowGroup × Nat → Bool)
    (limit : Option Nat) : Prop :=
  ∀ group ∈ groups, ∀ bound ∈ sliceBounds group.1.sidecar.rows group.2, ∀ offset,
    bound.1 ≤ offset → offset < bound.1 + bound.2 → isRead vectors group.1 offset = true →
      keep (group.1, offset) = true → synthesizedRowId (group.1, offset) ∈ targets →
        AgreesAt vectors targets limit group.1 bound.1 offset

/-- Filtered, both scans have the same rows exactly if they agree on every row. -/
theorem Reads.perm_withRowIdTargets_iff
    (reads : Reads share rowGroups targetPartitions allowIntraSplit scan) (targets : Finset Nat) :
    (((scan.withRowIdTargets targets).rows vectors).filter fun row =>
        synthesizedRowId row ∈ targets).Perm
      ((scan.rows vectors).filter fun row => synthesizedRowId row ∈ targets) ↔
      SelectionAgrees vectors targets
        (rowGroups.zip (sliceCounts share rowGroups targetPartitions allowIntraSplit)) scan.keep
        scan.limit := by
  have same_iff := List.perm_ext_iff_of_nodup
    ((reads.nodup_withRowIdTargets vectors targets).filter fun row =>
      synthesizedRowId row ∈ targets)
    ((reads.nodup vectors).filter fun row => synthesizedRowId row ∈ targets)
  obtain ⟨length, counts_pos, -⟩ :=
    splitRowGroups_eq lib reads.positive rowGroups targetPartitions allowIntraSplit
  rw [same_iff]
  simp only [List.mem_filter, decide_eq_true_eq]
  constructor
  · intro same ⟨rowGroup, count⟩ in_zip bound in_slices offset above below read kept targeted
    have inside := sliceBounds_le (counts_pos count (List.of_mem_zip in_zip).2) in_slices
    dsimp only at inside
    have planned : rowGroup ∈ plannedRowGroups scan.partitions :=
      (reads.mem_plannedRowGroups (by omega)).mpr ⟨count, in_zip⟩
    have here := same (rowGroup, offset)
    rw [mem_withRowIdTargets, reads.mem_rows_slice in_zip in_slices ⟨above, below⟩] at here
    have inside_rows : offset < rowGroup.sidecar.rows := by omega
    simp only [planned, inside_rows, read, kept, targeted, true_and, and_true] at here
    exact here.symm
  · intro agrees ⟨rowGroup, offset⟩
    apply and_congr_left
    intro targeted
    constructor
    · intro pushed
      obtain ⟨planned, below, ⟨chosen, read⟩, within, kept⟩ := mem_withRowIdTargets.mp pushed
      obtain ⟨count, in_zip⟩ := (reads.mem_plannedRowGroups (by omega)).mp planned
      obtain ⟨bound, in_slices, inside⟩ :=
        exists_sliceBounds (counts_pos count (List.of_mem_zip in_zip).2) below
      have agree := agrees _ in_zip bound in_slices offset inside.1 inside.2 read kept targeted
      apply (reads.mem_rows_slice in_zip in_slices inside).mpr
      exact ⟨read, agree.mpr ⟨chosen, within⟩, kept⟩
    · intro plain
      obtain ⟨count, in_zip, bound, in_slices, inside, read, within, kept⟩ :=
        reads.mem_rows_iff.mp plain
      have agree := agrees _ in_zip bound in_slices offset inside.1 inside.2 read kept targeted
      have le := sliceBounds_le (counts_pos count (List.of_mem_zip in_zip).2) in_slices
      obtain ⟨chosen, first⟩ := agree.mp within
      apply mem_withRowIdTargets.mpr
      constructor
      · exact (reads.mem_plannedRowGroups (by omega)).mpr ⟨count, in_zip⟩
      · exact ⟨by omega, ⟨chosen, read⟩, first, kept⟩

end Scans

/-! ## The rule -/

/-- The scan below operators that change nothing but the partitions. -/
def Plan.scanBelow : Plan lib → Option (Scan lib)
  | .scan source => some source
  | .repartition input | .coalescePartitions input | .cooperative input => input.scanBelow
  | .other _ => none

theorem Plan.rows_eq_scanBelow {plan : Plan lib} {source : Scan lib}
    (found : plan.scanBelow = some source) : plan.rows vectors = source.rows vectors := by
  induction plan with
  | scan other =>
      cases found
      rfl
  | repartition input ih | coalescePartitions input ih | cooperative input ih => exact ih found
  | other rows => cases found

variable (vectors) in
theorem rewriteScanWithTargets_of_scanBelow {plan : Plan lib} {source : Scan lib}
    (found : plan.scanBelow = some source) (targets : Finset Nat) :
    ∃ rewritten, rewriteScanWithTargets targets plan = some rewritten ∧
      rewritten.rows vectors = (source.withRowIdTargets targets).rows vectors := by
  induction plan with
  | scan other =>
      cases found
      exact ⟨_, rfl, rfl⟩
  | repartition input ih | coalescePartitions input ih | cooperative input ih =>
      obtain ⟨rewritten, rewritten_eq, same⟩ := ih found
      rw [rewriteScanWithTargets, rewritten_eq]
      exact ⟨_, rfl, same⟩
  | other rows => cases found

/-- The rule keeps the rows of a filter above a scan exactly if the filter is not recognised, or
every row that the scan reads and the filter asks for is targeted and is left by the limit in both
scans or in neither. -/
theorem optimize_keepsRows_iff {share : Nat → Nat → Nat → Nat}
    {rowGroups : List PlannedRowGroup} {targetPartitions : Nat} {allowIntraSplit : Bool}
    {source : Scan lib} {filter : FilterExec lib} (vectors : String → DeletionVector)
    (reads : Reads share rowGroups targetPartitions allowIntraSplit source)
    (above : filter.input.scanBelow = some source) :
    ((optimize filter).rows vectors).Perm (filter.rows vectors) ↔
      ∀ targets, collectRowIdTargets filter.predicate = some targets →
        SelectionAgrees vectors targets
          (rowGroups.zip (sliceCounts share rowGroups targetPartitions allowIntraSplit))
          source.keep source.limit := by
  rw [optimize]
  cases collected : collectRowIdTargets filter.predicate with
  | none => simp
  | some targets =>
      have rows_eq : ∀ input : Plan lib, ({ filter with input } : FilterExec lib).rows vectors =
          (input.rows vectors).filter fun row => synthesizedRowId row ∈ targets := by
        intro input
        simp only [FilterExec.rows, evaluate_of_collect collected, PredicateValue.bool.injEq,
          decide_eq_true_eq]
      simp only [Option.some.injEq, forall_eq']
      split
      · next empty =>
          subst empty
          constructor
          · intro _ group _ bound _ offset _ _ _ _ targeted
            exact absurd targeted (Finset.notMem_empty _)
          · intro _
            exact List.Perm.refl _
      · obtain ⟨rewritten, rewritten_eq, same⟩ :=
          rewriteScanWithTargets_of_scanBelow vectors above targets
        have plain := rows_eq filter.input
        rw [Plan.rows_eq_scanBelow above] at plain
        rw [rewritten_eq, ← reads.perm_withRowIdTargets_iff targets, plain]
        simp only [rows_eq, same]

end RowIdPushdown

/-! ## Concrete filters -/

namespace Integers

open RowIdPushdown

/-- A filter on row ids above a scan of a row group of three rows. -/
def rowIdFilter (deletes : Option String) (rowIds : List RowIdSegment)
    (predicate : PhysicalExpr (PlannedRowGroup × Nat)) : FilterExec RowSelections.shortest where
  predicate := predicate
  input := .repartition (.scan
    { partitions := ScanSelection.splitRowGroups RowSelections.shortest roundedShare
        [scannedGroup 1 3 deletes rowIds] 4 true
      keep := fun _ => true
      limit := none })

/-- In a row group without row ids all rows have the id 0 in a scan, and none if it is pushed. -/
theorem not_keepsRows_legacy :
    ¬ ((optimize (rowIdFilter none [] (.eq .rowId (.literal (.int64 0))))).rows
        (fun _ => ∅)).Perm
      ((rowIdFilter none [] (.eq .rowId (.literal (.int64 0)))).rows fun _ => ∅) := by
  intro perm
  exact absurd perm.length_eq (by decide)

/-- Two of the rows 5 to 7 are asked for; the first is deleted. -/
theorem keepsRows_range :
    ((optimize (rowIdFilter (some "deletes") [.range 5 3]
        (.inList false .rowId [.int64 5, .uint64 6]))).rows (fun _ => {0})).Perm
      ((rowIdFilter (some "deletes") [.range 5 3]
        (.inList false .rowId [.int64 5, .uint64 6])).rows fun _ => {0}) := by
  have reads : Reads roundedShare [scannedGroup 1 3 (some "deletes") [.range 5 3]] 4 true
      ({ partitions := ScanSelection.splitRowGroups RowSelections.shortest roundedShare
            [scannedGroup 1 3 (some "deletes") [.range 5 3]] 4 true
         keep := fun _ => true
         limit := none } : RowIdPushdown.Scan RowSelections.shortest) :=
    ⟨one_le_roundedShare, List.pairwise_singleton _ _, rfl⟩
  apply (optimize_keepsRows_iff (fun _ => {0}) reads rfl).mpr
  intro targets _ group in_zip bound in_slices offset _ below _ _ asked
  obtain rfl := List.mem_singleton.mp in_zip
  obtain rfl := List.mem_singleton.mp in_slices
  -- as many ids as rows
  have found : offset < (expand [.range 5 3]).length := below
  have targeted : isTargeted targets (scannedGroup 1 3 (some "deletes") [.range 5 3]) offset =
      true := (isTargeted_iff (by decide) (by decide)).mpr ⟨asked, found⟩
  exact iff_of_true (within_none _) ⟨targeted, within_none _⟩

end Integers

end IcefallDB
