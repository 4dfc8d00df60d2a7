import IcefallDB.ColumnBounds
import IcefallDB.Lib.RowSelection
import IcefallDB.MetadataAggregate.Answers
import Mathlib

/-!
# Least and greatest live values

The aggregate sidecar also records which rows hold the least and the greatest value of an integer
column.  After deletions the recorded bounds of the column are still used, unless the row that holds
one is deleted: then the live rows are read.
-/

namespace IcefallDB

variable {R F : Type}

/-! ## Offsets of extrema -/

inductive ExtremumKind
  | min | max
  deriving DecidableEq

namespace ExtremumKind

/-- A value comes before another one. -/
def Beats (value held : Int) : ExtremumKind → Prop
  | .min => value < held
  | .max => held < value

instance (value held : Int) (kind : ExtremumKind) : Decidable (kind.Beats value held) :=
  match kind with
  | .min => inferInstanceAs (Decidable (value < held))
  | .max => inferInstanceAs (Decidable (held < value))

/-- The value that comes first. -/
def choose (kind : ExtremumKind) (held value : Int) : Int :=
  if kind.Beats value held then value else held

/-- A bound in the statistics of a column. -/
def bound (stats : ColumnStats) : ExtremumKind → Option Scalar
  | .min => stats.min
  | .max => stats.max

/-- A value is one of some values, and no other one comes before it. -/
def IsExtreme (kind : ExtremumKind) (values : List Int) (value : Int) : Prop :=
  value ∈ values ∧ ∀ other ∈ values, ¬kind.Beats other value

end ExtremumKind

/-- Aggregates of a column, with the offsets of the rows that hold the extrema.  Older sidecars have
no offsets. -/
structure TrackedAgg (F : Type) extends ColAgg F where
  minOff : Option Nat
  maxOff : Option Nat

/-- The offset of the row that holds an extremum. -/
def TrackedAgg.offset (agg : TrackedAgg F) : ExtremumKind → Option Nat
  | .min => agg.minOff
  | .max => agg.maxOff

/-- Aggregates of the live values of a column, with the extrema that are known. -/
structure LiveAgg (F : Type) extends TrackedAgg F where
  liveMin : Option Scalar
  liveMax : Option Scalar

/-- The extremum that is reported. -/
def LiveAgg.extremum (agg : LiveAgg F) : ExtremumKind → Option Scalar
  | .min => agg.liveMin
  | .max => agg.liveMax

namespace AggCache

/-- Take in a cell: the first row of an extremum is kept.  Offsets have 32 bits. -/
def trackStep (kind : ExtremumKind) (held : Option (Int × Nat)) (cell : Option Int × Nat) :
    Option (Int × Nat) :=
  match cell.1, held with
  | none, _ => held
  | some value, none => some (value, cell.2 % 2 ^ 32)
  | some value, some (first, offset) =>
      if kind.Beats value first then some (value, cell.2 % 2 ^ 32) else some (first, offset)

/-- The offset of the first row that holds an extremum. -/
def extremumOffset (kind : ExtremumKind) (values : List (Option Int)) : Option Nat :=
  (values.zipIdx.foldl (trackStep kind) none).map Prod.snd

/-- Aggregates of an integer column with the offsets of its extrema, unless an operation overflows. -/
def computeTrackedIntCol (values : List (Option Int)) : Option (TrackedAgg F) :=
  (computeSignedIntCol values).map fun agg =>
    { toColAgg := agg
      minOff := extremumOffset .min values
      maxOff := extremumOffset .max values }

/-- Subtract the contribution of deleted rows.  The offsets stay as they are. -/
def retractTracked [Double F] (full : TrackedAgg F) (deleted : ColAgg F) : Option (TrackedAgg F) :=
  (retractCol full.toColAgg deleted).map fun agg =>
    { toColAgg := agg, minOff := full.minOff, maxOff := full.maxOff }

/-! ## Extrema of the live rows -/

/-- The row that holds an extremum is deleted.  If its offset is not known, it seems to be live. -/
def extremumDeleted (agg : TrackedAgg F) (deletions : DeletionVector) (kind : ExtremumKind) : Bool :=
  match agg.offset kind with
  | some offset => offset ∈ deletions
  | none => false

/-- Runs of the rows between some deleted offsets, from a position on. -/
def survivorSelectors (total : Nat) : Nat → List Nat → List RowSelector
  | position, [] =>
      if position < total then [RowSelector.select (total - position)] else []
  | position, offset :: offsets =>
      (if position < offset then [RowSelector.select (offset - position)] else []) ++
        RowSelector.skipRows 1 :: survivorSelectors total (offset + 1) offsets

/-- The rows that are selected. -/
def readSelection (selectors : List RowSelector) (rows : List R) : List R :=
  (RowSelection.offsetsFrom 0 selectors).filterMap fun offset => rows[offset]?

/-- Take in a value. -/
def foldExtremum (kind : ExtremumKind) (current : Option Int) (value : Int) : Option Int :=
  some (match current with
    | none => value
    | some held => kind.choose held value)

/-- An integer as a JSON number.  Negative ones have none. -/
def extremumJson (value : Int) : Option Scalar :=
  if 0 ≤ value ∧ value < 2 ^ 64 then some (.int value) else none

/-- Find an extremum of the live rows by reading them; `none` if the file cannot be read. -/
def scopedRecomputeExtremum (kernel : NumericKernel R F) (storage : TableStorage R)
    (entry : RowGroupEntry) (deletions : DeletionVector) (totalRows : Nat) (name : String)
    (kind : ExtremumKind) : Option (Option Scalar) :=
  let selectors := survivorSelectors totalRows 0 (deletions.sort (· ≤ ·))
  if selectors.isEmpty then some none
  else
    match storage.files.lookup entry.data with
    | some (.data rows) =>
        (kernel.columns.lookup name).map fun column =>
          match kernel.array name column (readSelection selectors rows) with
          | .ints values =>
              (values.reduceOption.foldl (foldExtremum kind) none).bind extremumJson
          | .floats _ => none
    | _ => none

/-- An extremum of the live rows of a column: the recorded bound, unless its row is deleted. -/
def resolveExtremum (kernel : NumericKernel R F) (storage : TableStorage R) (entry : RowGroupEntry)
    (deletions : DeletionVector) (sidecar : RowGroupMeta) (name : String) (agg : TrackedAgg F)
    (kind : ExtremumKind) : Option Scalar :=
  if extremumDeleted agg deletions kind then
    (scopedRecomputeExtremum kernel storage entry deletions sidecar.rows name kind).getD none
  else (sidecar.columns.lookup name).bind kind.bound

/-- Resolve both extrema of the columns that are not floats. -/
def resolveLiveExtrema (kernel : NumericKernel R F) (storage : TableStorage R)
    (entry : RowGroupEntry) (deletions : DeletionVector) (sidecar : RowGroupMeta)
    (live : HashMap String (TrackedAgg F)) : HashMap String (LiveAgg F) :=
  HashMap.filterMap (fun name agg =>
    match agg.sum with
    | .float _ => some { toTrackedAgg := agg, liveMin := none, liveMax := none }
    | .int _ | .null =>
        let resolve := resolveExtremum kernel storage entry deletions sidecar name agg
        some { toTrackedAgg := agg, liveMin := resolve .min, liveMax := resolve .max }) live

/-! ## Reading live rows -/

theorem flags_gap (position next : Nat) :
    RowSelection.flags (if position < next then [RowSelector.select (next - position)] else []) =
      List.replicate (next - position) true := by
  split
  · simp
  · next behind =>
      rw [Nat.sub_eq_zero_of_le (Nat.not_lt.mp behind)]
      rfl

/-- The runs have a flag for each row, set where the row is not deleted. -/
theorem flags_survivorSelectors {total position : Nat} {offsets : List Nat}
    (sorted : offsets.Pairwise (· < ·)) (above : ∀ offset ∈ offsets, position ≤ offset)
    (below : ∀ offset ∈ offsets, offset < total) :
    RowSelection.flags (survivorSelectors total position offsets) =
      (List.range' position (total - position)).map fun row => decide (row ∉ offsets) := by
  induction offsets generalizing position with
  | nil =>
      rw [survivorSelectors, flags_gap]
      simp
  | cons offset offsets ih =>
      obtain ⟨later, sorted⟩ := List.pairwise_cons.mp sorted
      have position_le := above offset List.mem_cons_self
      have offset_lt := below offset List.mem_cons_self
      have rest := ih sorted (fun next member => later next member)
        (fun next member => below next (List.mem_cons_of_mem _ member))
      have split : List.range' position (total - position) =
          List.range' position (offset - position) ++
            offset :: List.range' (offset + 1) (total - (offset + 1)) := by
        have length : total - position = (offset - position) + (total - (offset + 1) + 1) := by omega
        have start : position + (offset - position) = offset := by omega
        rw [length, ← List.range'_append_1, start, List.range'_succ]
      have before : (List.range' position (offset - position)).map
          (fun row => decide (row ∉ offset :: offsets)) = List.replicate (offset - position) true := by
        rw [List.eq_replicate_iff]
        constructor
        · rw [List.length_map, List.length_range']
        · intro flag member
          obtain ⟨row, row_mem, rfl⟩ := List.mem_map.mp member
          have row_lt := (List.mem_range'_1.mp row_mem).2
          rw [decide_eq_true_eq, List.mem_cons, not_or]
          constructor
          · omega
          · intro listed
            have less := later row listed
            omega
      have after : (List.range' (offset + 1) (total - (offset + 1))).map
          (fun row => decide (row ∉ offset :: offsets)) =
            (List.range' (offset + 1) (total - (offset + 1))).map
              fun row => decide (row ∉ offsets) := by
        apply List.map_congr_left
        intro row member
        have offset_lt := (List.mem_range'_1.mp member).1
        rw [decide_eq_decide, List.mem_cons, not_or, and_iff_right]
        omega
      rw [survivorSelectors, RowSelection.flags_append, flags_gap, RowSelection.flags_cons, rest,
        split, List.map_append, List.map_cons, before, after]
      simp

theorem getElem?_of_mem_zipIdx {rows : List R} {row : R × Nat} (member : row ∈ rows.zipIdx) :
    rows[row.2]? = some row.1 :=
  List.mem_zipIdx_iff_getElem?.mp member

/-- Reading the rows at some offsets. -/
theorem filterMap_getElem?_filter (rows : List R) (p : Nat → Bool) :
    ((List.range rows.length).filter p).filterMap (fun offset => rows[offset]?) =
      (rows.zipIdx.filter fun row => p row.2).map Prod.fst := by
  have offsets : List.range rows.length = rows.zipIdx.map Prod.snd := by
    rw [List.zipIdx_map_snd, List.range_eq_range']
  rw [offsets, List.filter_map, List.filterMap_map, ← List.filterMap_eq_map]
  apply List.filterMap_congr
  intro row member
  exact getElem?_of_mem_zipIdx (List.mem_of_mem_filter member)

/-- The live rows are selected. -/
theorem readSelection_survivorSelectors {deletions : DeletionVector} {rows : List R}
    (inside : ∀ offset ∈ deletions, offset < rows.length) :
    readSelection (survivorSelectors rows.length 0 (deletions.sort (· ≤ ·))) rows =
      liveRows deletions rows := by
  have flags := @flags_survivorSelectors rows.length 0 _ deletions.sortedLT_sort.pairwise
    (fun _ _ => Nat.zero_le _) fun offset member => inside offset ((Finset.mem_sort _).mp member)
  rw [Nat.sub_zero, ← List.range_eq_range'] at flags
  rw [readSelection, RowSelection.offsets_eq_filter flags, filterMap_getElem?_filter, liveRows]
  simp only [Finset.mem_sort]

end AggCache

/-! ## Extrema -/

namespace ExtremumKind

variable {kind : ExtremumKind} {values : List Int}

theorem not_beats_self (kind : ExtremumKind) (value : Int) : ¬kind.Beats value value := by
  cases kind <;> exact lt_irrefl value

variable {first second : Int}

theorem not_beats_trans {third : Int} (left : ¬kind.Beats first second)
    (right : ¬kind.Beats second third) : ¬kind.Beats first third := by
  cases kind <;> simp only [Beats] at left right ⊢ <;> omega

theorem not_beats_of_beats (beats : kind.Beats first second) : ¬kind.Beats second first := by
  cases kind <;> simp only [Beats] at beats ⊢ <;> omega

theorem eq_of_not_beats (left : ¬kind.Beats first second) (right : ¬kind.Beats second first) :
    first = second := by
  cases kind <;> simp only [Beats] at left right <;> omega

/-- There is only one extremum. -/
theorem IsExtreme.unique (left : kind.IsExtreme values first) (right : kind.IsExtreme values second) :
    first = second :=
  eq_of_not_beats (right.2 first left.1) (left.2 second right.1)

/-- An extremum that is among some of the values is theirs. -/
theorem IsExtreme.of_subset {value : Int} {some_values : List Int} (extreme : kind.IsExtreme values value)
    (inside : some_values ⊆ values) (member : value ∈ some_values) :
    kind.IsExtreme some_values value :=
  ⟨member, fun other other_mem => extreme.2 other (inside other_mem)⟩

/-- The extremum with one more value. -/
theorem IsExtreme.append {value : Int} (extreme : kind.IsExtreme values value) (next : Int) :
    kind.IsExtreme (values ++ [next]) (kind.choose value next) := by
  rw [choose]
  split
  · next beats =>
      refine ⟨List.mem_append_right _ (List.mem_singleton_self next), ?_⟩
      intro other member
      rcases List.mem_append.mp member with earlier | last
      · exact not_beats_trans (extreme.2 other earlier) (not_beats_of_beats beats)
      · rw [List.mem_singleton.mp last]
        exact not_beats_self kind next
  · next behind =>
      refine ⟨List.mem_append_left _ extreme.1, ?_⟩
      intro other member
      rcases List.mem_append.mp member with earlier | last
      · exact extreme.2 other earlier
      · rw [List.mem_singleton.mp last]
        exact behind

theorem isExtreme_singleton (kind : ExtremumKind) (value : Int) : kind.IsExtreme [value] value := by
  refine ⟨List.mem_singleton_self value, ?_⟩
  intro other member
  rw [List.mem_singleton.mp member]
  exact not_beats_self kind value

end ExtremumKind

namespace AggCache

/-- Folding over values finds the extremum, if there are any. -/
theorem foldl_foldExtremum (kind : ExtremumKind) (values : List Int) :
    (values = [] ∧ values.foldl (foldExtremum kind) none = none) ∨
      ∃ value, values.foldl (foldExtremum kind) none = some value ∧ kind.IsExtreme values value := by
  induction values using List.reverseRecOn with
  | nil => exact .inl ⟨rfl, rfl⟩
  | append_singleton values next ih =>
      right
      rw [List.foldl_append, List.foldl_cons, List.foldl_nil]
      rcases ih with ⟨rfl, found⟩ | ⟨value, found, extreme⟩
      · rw [found]
        exact ⟨next, rfl, kind.isExtreme_singleton next⟩
      · rw [found]
        exact ⟨_, rfl, extreme.append next⟩

/-- An offset is that of a row that holds the extremum. -/
theorem foldl_trackStep (kind : ExtremumKind) (values : List (Option Int)) :
    (values.reduceOption = [] ∧ values.zipIdx.foldl (trackStep kind) none = none) ∨
      ∃ value index, values.zipIdx.foldl (trackStep kind) none = some (value, index % 2 ^ 32) ∧
        values[index]? = some (some value) ∧ kind.IsExtreme values.reduceOption value := by
  induction values using List.reverseRecOn with
  | nil => exact .inl ⟨rfl, rfl⟩
  | append_singleton values next ih =>
      have last : [next].zipIdx (0 + values.length) = [(next, values.length)] := by
        rw [Nat.zero_add]
        rfl
      have kept : ∀ (index : Nat) (value : Int), values[index]? = some (some value) →
          (values ++ [next])[index]? = some (some value) := by
        intro index value found
        rw [List.getElem?_append_left (List.getElem?_eq_some_iff.mp found).1]
        exact found
      rw [List.zipIdx_append, List.foldl_append, last, List.foldl_cons, List.foldl_nil]
      cases next with
      | none =>
          rw [List.reduceOption_append, List.reduceOption_singleton, Option.toList_none,
            List.append_nil]
          rcases ih with ⟨empty, nothing⟩ | ⟨value, index, found, here, extreme⟩
          · exact .inl ⟨empty, nothing⟩
          · exact .inr ⟨value, index, found, kept index value here, extreme⟩
      | some next =>
          right
          have here : (values ++ [some next])[values.length]? = some (some next) :=
            List.getElem?_concat_length
          rw [List.reduceOption_append, List.reduceOption_singleton, Option.toList_some]
          rcases ih with ⟨empty, nothing⟩ | ⟨value, index, found, earlier, extreme⟩
          · rw [empty, nothing]
            exact ⟨next, values.length, rfl, here, kind.isExtreme_singleton next⟩
          · have extreme := extreme.append next
            rw [ExtremumKind.choose] at extreme
            have step : trackStep kind (some (value, index % 2 ^ 32)) (some next, values.length) =
                if kind.Beats next value then some (next, values.length % 2 ^ 32)
                else some (value, index % 2 ^ 32) := rfl
            rw [found, step]
            by_cases beats : kind.Beats next value
            · rw [if_pos beats] at extreme
              exact ⟨next, values.length, if_pos beats, here, extreme⟩
            · rw [if_neg beats] at extreme
              exact ⟨value, index, if_neg beats, kept index value earlier, extreme⟩

end AggCache

/-! ## Reported extrema -/

/-- Statistics of the values of an integer column. -/
def ColumnStats.ofInts (values : List (Option Int)) : ColumnStats :=
  { min := (ColumnBounds.extremes id values.reduceOption).1.map .int
    max := (ColumnBounds.extremes id values.reduceOption).2.map .int
    nulls := values.countP Option.isNone }

/-- A recorded bound is the extremum of the values. -/
theorem ColumnStats.isExtreme_bound {kind : ExtremumKind} {values : List (Option Int)} {json : Scalar}
    (recorded : kind.bound (ColumnStats.ofInts values) = some json) :
    ∃ value, json = .int value ∧ kind.IsExtreme values.reduceOption value := by
  cases kind with
  | min =>
      obtain ⟨value, found, rfl⟩ := Option.map_eq_some_iff.mp recorded
      refine ⟨value, rfl, List.argmin_mem found, ?_⟩
      intro other member
      exact (List.le_of_mem_argmin member found).not_gt
  | max =>
      obtain ⟨value, found, rfl⟩ := Option.map_eq_some_iff.mp recorded
      refine ⟨value, rfl, List.argmax_mem found, ?_⟩
      intro other member
      exact (List.le_of_mem_argmax member found).not_gt

/-- The bound of some values is recorded. -/
theorem ColumnStats.isSome_bound (kind : ExtremumKind) {values : List (Option Int)}
    (some_value : values.reduceOption ≠ []) :
    (kind.bound (ColumnStats.ofInts values)).isSome := by
  cases kind with
  | min =>
      rw [ExtremumKind.bound, ofInts, Option.isSome_map, Option.isSome_iff_ne_none]
      exact fun nothing => some_value (List.argmin_eq_none.mp nothing)
  | max =>
      rw [ExtremumKind.bound, ofInts, Option.isSome_map, Option.isSome_iff_ne_none]
      exact fun nothing => some_value (List.argmax_eq_none.mp nothing)

namespace AggCache

section

variable {kernel : NumericKernel R F} {storage : TableStorage R} {entry : RowGroupEntry}
  {fragment : PhysicalFragment R} {sidecar : RowGroupMeta} {name : String}

/-- The reported value is the extremum of the live values of a column. -/
def RightExtremum (kernel : NumericKernel R F) (name : String) (fragment : PhysicalFragment R)
    (kind : ExtremumKind) (reported : Option Scalar) : Prop :=
  ∀ json, reported = some json →
    ∃ value, json = .int value ∧ kind.IsExtreme (ints kernel name fragment.live) value

/-- When an extremum is right: it is not reported, or read from the live rows, or one of these holds
the extremum of all rows. -/
def ExtremumRightWhen (kernel : NumericKernel R F) (sidecar : RowGroupMeta) (name : String)
    (fragment : PhysicalFragment R) (agg : TrackedAgg F) (kind : ExtremumKind) : Prop :=
  (∃ sum, agg.sum = .float sum) ∨ sidecar.columns.lookup name = none ∨
    (∃ offset ∈ fragment.deleted, agg.offset kind = some offset) ∨
      ∀ value, kind.IsExtreme (ints kernel name fragment.rows) value →
        value ∈ ints kernel name fragment.live

/-- Reading the live rows finds their extremum. -/
theorem rightExtremum_scopedRecompute (integer : kernel.IsInteger name)
    (data : storage.files.lookup entry.data = some (.data fragment.rows)) (kind : ExtremumKind) :
    RightExtremum kernel name fragment kind
      ((scopedRecomputeExtremum kernel storage entry fragment.deleted fragment.rows.length name
        kind).getD none) := by
  intro json reported
  obtain ⟨column, column_eq, not_float⟩ := integer
  have live := readSelection_survivorSelectors fragment.inside
  rw [scopedRecomputeExtremum] at reported
  simp only [data, column_eq, MetadataAggregate.array_of_ne_float not_float, live,
    Option.map_some] at reported
  split at reported
  · cases reported
  · obtain ⟨value, found, json_eq⟩ := Option.bind_eq_some_iff.mp reported
    rw [extremumJson] at json_eq
    split at json_eq
    · obtain rfl := Option.some.inj json_eq
      rcases foldl_foldExtremum kind (ints kernel name fragment.live) with ⟨-, nothing⟩ | other
      · rw [ints, PhysicalFragment.live, found] at nothing
        cases nothing
      · obtain ⟨own, own_eq, extreme⟩ := other
        rw [ints, PhysicalFragment.live, found] at own_eq
        rw [Option.some.inj own_eq]
        exact ⟨own, rfl, extreme⟩
    · cases json_eq

theorem ints_live_subset :
    ints kernel name fragment.live ⊆ ints kernel name fragment.rows := by
  intro value member
  exact (perm_ints kernel name fragment.deleted fragment.rows).mem_iff.mpr
    (List.mem_append_right _ member)

/-- Recorded bounds are right where a live row holds the extremum of all rows. -/
theorem rightExtremum_bound_iff {kind : ExtremumKind} :
    RightExtremum kernel name fragment kind
        (kind.bound (ColumnStats.ofInts (fragment.rows.map (kernel.intValue name)))) ↔
      ∀ value, kind.IsExtreme (ints kernel name fragment.rows) value →
        value ∈ ints kernel name fragment.live := by
  constructor
  · intro right value extreme
    have recorded := ColumnStats.isSome_bound kind (List.ne_nil_of_mem extreme.1)
    obtain ⟨json, json_eq⟩ := Option.isSome_iff_exists.mp recorded
    obtain ⟨own, rfl, own_extreme⟩ := ColumnStats.isExtreme_bound json_eq
    obtain ⟨live, same, live_extreme⟩ := right _ json_eq
    obtain rfl := Scalar.int.inj same
    rw [extreme.unique own_extreme]
    exact live_extreme.1
  · intro held json json_eq
    obtain ⟨value, rfl, extreme⟩ := ColumnStats.isExtreme_bound json_eq
    exact ⟨value, rfl, extreme.of_subset ints_live_subset (held value extreme)⟩

/-- Retraction leaves the offsets that were computed for the whole column. -/
theorem offset_of_retractTracked [Double F] {values : List (Option Int)} {full agg : TrackedAgg F}
    (computed : computeTrackedIntCol values = some full) {deleted : ColAgg F}
    (retracted : retractTracked full deleted = some agg) (kind : ExtremumKind) :
    agg.offset kind = extremumOffset kind values := by
  obtain ⟨col, -, rfl⟩ := Option.map_eq_some_iff.mp computed
  obtain ⟨left, -, rfl⟩ := Option.map_eq_some_iff.mp retracted
  cases kind <;> rfl

/-- Extrema with computed offsets are right: the row of the offset holds the extremum. -/
theorem extremumRightWhen_of_computed [Double F] {full agg : TrackedAgg F}
    (few : fragment.rows.length ≤ 2 ^ 32)
    (computed : computeTrackedIntCol (fragment.rows.map (kernel.intValue name)) = some full)
    {deleted : ColAgg F} (retracted : retractTracked full deleted = some agg)
    (kind : ExtremumKind) : ExtremumRightWhen kernel sidecar name fragment agg kind := by
  have recorded := offset_of_retractTracked computed retracted kind
  right; right
  rcases foldl_trackStep kind (fragment.rows.map (kernel.intValue name)) with
    ⟨empty, -⟩ | ⟨value, index, found, here, extreme⟩
  · right
    intro value held
    have member := held.1
    rw [ints, empty] at member
    cases member
  · obtain ⟨row, row_eq, value_eq⟩ : ∃ row, fragment.rows[index]? = some row ∧
        kernel.intValue name row = some value := by
      rw [List.getElem?_map, Option.map_eq_some_iff] at here
      exact here
    have below : index < 2 ^ 32 :=
      (List.getElem?_eq_some_iff.mp row_eq).1.trans_le few
    rw [extremumOffset, found, Option.map_some, Nat.mod_eq_of_lt below] at recorded
    by_cases deleted : index ∈ fragment.deleted
    · exact .inl ⟨index, deleted, recorded⟩
    · right
      intro other held
      obtain rfl := held.unique extreme
      rw [ints, List.reduceOption_mem_iff, List.mem_map]
      refine ⟨row, ?_, value_eq⟩
      rw [PhysicalFragment.live, liveRows, List.mem_map]
      refine ⟨(row, index), ?_, rfl⟩
      rw [List.mem_filter, List.mem_zipIdx_iff_getElem?]
      exact ⟨row_eq, by simpa using deleted⟩

theorem extremumDeleted_iff {agg : TrackedAgg F} {deletions : DeletionVector}
    {kind : ExtremumKind} : extremumDeleted agg deletions kind = true ↔
      ∃ offset ∈ deletions, agg.offset kind = some offset := by
  unfold extremumDeleted
  split
  · next offset offset_eq => simp [offset_eq]
  · next nothing => simp [nothing]

/-- What is resolved for a column that is no float. -/
theorem rightExtremum_resolve_iff (integer : kernel.IsInteger name)
    (data : storage.files.lookup entry.data = some (.data fragment.rows))
    (rows : sidecar.rows = fragment.rows.length)
    (stats : ∀ stats, sidecar.columns.lookup name = some stats →
      stats = .ofInts (fragment.rows.map (kernel.intValue name)))
    {agg : TrackedAgg F} (not_float : ∀ sum, agg.sum ≠ .float sum) (kind : ExtremumKind) :
    RightExtremum kernel name fragment kind
        (resolveExtremum kernel storage entry fragment.deleted sidecar name agg kind) ↔
      ExtremumRightWhen kernel sidecar name fragment agg kind := by
  rw [resolveExtremum]
  by_cases deleted : extremumDeleted agg fragment.deleted kind = true
  · rw [if_pos deleted, rows]
    apply iff_of_true
    · exact rightExtremum_scopedRecompute integer data kind
    · exact .inr (.inr (.inl (extremumDeleted_iff.mp deleted)))
  · rw [if_neg deleted]
    rw [extremumDeleted_iff] at deleted
    cases column : sidecar.columns.lookup name with
    | none =>
        apply iff_of_true
        · intro json reported
          cases reported
        · exact .inr (.inl column)
    | some own =>
        rw [Option.bind_some, stats own column, rightExtremum_bound_iff, ExtremumRightWhen, column]
        constructor
        · exact fun held => .inr (.inr (.inr held))
        · rintro (⟨sum, float⟩ | absent | known | held)
          · exact absurd float (not_float sum)
          · cases absent
          · exact absurd known deleted
          · exact held

theorem not_float_of_computed {values : List (Option Int)} {agg : ColAgg F}
    (computed : computeSignedIntCol values = some agg) (sum : F) : agg.sum ≠ .float sum := by
  rw [computeSignedIntCol] at computed
  split at computed
  · rw [← Option.some.inj computed]
    rintro ⟨⟩
  · obtain ⟨moments, -, rfl⟩ := Option.map_eq_some_iff.mp computed
    rintro ⟨⟩

/-- Whatever rows of a written row group are deleted, an extremum that is reported for an integer
column is that of the live values. -/
theorem rightExtremum_of_computed [Double F] (integer : kernel.IsInteger name)
    (data : storage.files.lookup entry.data = some (.data fragment.rows))
    (rows : sidecar.rows = fragment.rows.length)
    (stats : ∀ stats, sidecar.columns.lookup name = some stats →
      stats = .ofInts (fragment.rows.map (kernel.intValue name)))
    (few : fragment.rows.length ≤ 2 ^ 32) {full agg : TrackedAgg F} {contribution : ColAgg F}
    (computed : computeTrackedIntCol (fragment.rows.map (kernel.intValue name)) = some full)
    (retracted : retractTracked full contribution = some agg) (kind : ExtremumKind) :
    RightExtremum kernel name fragment kind
      (resolveExtremum kernel storage entry fragment.deleted sidecar name agg kind) := by
  refine (rightExtremum_resolve_iff integer data rows stats (fun sum => ?_) kind).mpr
    (extremumRightWhen_of_computed few computed retracted kind)
  obtain ⟨left, left_eq, rfl⟩ := Option.map_eq_some_iff.mp retracted
  obtain ⟨col, col_eq, rfl⟩ := Option.map_eq_some_iff.mp computed
  obtain ⟨own, own_eq, rest⟩ := Option.bind_eq_some_iff.mp left_eq
  obtain ⟨squares, -, rest⟩ := Option.bind_eq_some_iff.mp rest
  obtain rfl := Option.some.inj rest
  rintro rfl
  dsimp only at own_eq
  cases sum : col.sum with
  | float held => exact not_float_of_computed col_eq held sum
  | int held => cases other : contribution.sum <;> simp [sum, other, retractScalar] at own_eq
  | null => cases other : contribution.sum <;> simp [sum, other, retractScalar] at own_eq

/-- Reported extrema of an integer column are those of the live values exactly if the rows that held
them are known to be deleted, or other live rows hold them. -/
theorem resolveLiveExtrema_right_iff (integer : kernel.IsInteger name)
    (data : storage.files.lookup entry.data = some (.data fragment.rows))
    (rows : sidecar.rows = fragment.rows.length)
    (stats : ∀ stats, sidecar.columns.lookup name = some stats →
      stats = .ofInts (fragment.rows.map (kernel.intValue name)))
    {live : HashMap String (TrackedAgg F)} {agg : TrackedAgg F}
    (found : live.lookup name = some agg) :
    ∃ resolved, (resolveLiveExtrema kernel storage entry fragment.deleted sidecar live).lookup name =
        some resolved ∧
      ∀ kind, RightExtremum kernel name fragment kind (resolved.extremum kind) ↔
        ExtremumRightWhen kernel sidecar name fragment agg kind := by
  have right : (∀ sum, agg.sum ≠ .float sum) → ∀ kind, RightExtremum kernel name fragment kind _ ↔
      ExtremumRightWhen kernel sidecar name fragment agg kind :=
    rightExtremum_resolve_iff integer data rows stats
  rw [resolveLiveExtrema, HashMap.lookup_filterMap, found, Option.bind_some]
  cases sum : agg.sum with
  | float value =>
      refine ⟨_, rfl, ?_⟩
      intro kind
      apply iff_of_true
      · intro json reported
        cases kind <;> cases reported
      · exact .inl ⟨value, sum⟩
  | int value =>
      rw [sum] at right
      refine ⟨_, rfl, ?_⟩
      intro kind
      rw [← right nofun kind]
      cases kind <;> exact Iff.rfl
  | null =>
      rw [sum] at right
      refine ⟨_, rfl, ?_⟩
      intro kind
      rw [← right nofun kind]
      cases kind <;> exact Iff.rfl

end

/-! ## A sidecar without offsets -/

namespace LegacySidecar

open MetadataAggregate

/-- The row with the least value is deleted. -/
def fragment : PhysicalFragment (Option Int) :=
  { rows := [some 5, some 7], deleted := {0}, inside := by decide }

def storage : TableStorage (Option Int) :=
  { DeletedRow.storage with
    files := (∅ : HashMap String (File (Option Int))).insert "rg_1.parquet" (.data fragment.rows) }

def sidecar : RowGroupMeta :=
  { rowGroup := "rg_1"
    schemaId := 1
    rows := 2
    columns := (∅ : HashMap String ColumnStats).insert "v"
      (.ofInts (fragment.rows.map (DeletedRow.kernel.intValue "v")))
    columnOffsets := none
    sort := none
    rowIds := [.range 0 2]
    checksum := "c"
    metaChecksum := "" }

/-- What is left of the column, with or without the offset of the least value. -/
def live (minOff : Option Nat) : HashMap String (TrackedAgg Int) :=
  (∅ : HashMap String (TrackedAgg Int)).insert "v"
    { countNonNull := 1, sum := .int 7, sumsq := .int 49, minOff, maxOff := some 1 }

/-- Without the offset the least value is reported although its row is deleted. -/
theorem least_wrong : ∃ resolved,
    (resolveLiveExtrema DeletedRow.kernel storage DeletedRow.entry fragment.deleted sidecar
      (live none)).lookup "v" = some resolved ∧ resolved.extremum .min = some (.int 5) ∧
      ¬RightExtremum DeletedRow.kernel "v" fragment .min (resolved.extremum .min) := by
  refine ⟨_, rfl, rfl, ?_⟩
  intro right
  obtain ⟨value, same, extreme⟩ := right (.int 5) rfl
  obtain rfl := Scalar.int.inj same
  exact absurd extreme.1 (by decide)

/-- What is computed for the column, with the offsets of 5 and 7. -/
def full : TrackedAgg Int :=
  { countNonNull := 2, sum := .int 12, sumsq := .int 74, minOff := some 0, maxOff := some 1 }

theorem least_computed : RightExtremum DeletedRow.kernel "v" fragment .min
    (resolveExtremum DeletedRow.kernel storage DeletedRow.entry fragment.deleted sidecar "v"
      { full with countNonNull := 1, sum := .int 7, sumsq := .int 49 } .min) := by
  have stats : ∀ stats, sidecar.columns.lookup "v" = some stats →
      stats = .ofInts (fragment.rows.map (DeletedRow.kernel.intValue "v")) :=
    fun _ found => (Option.some.inj found).symm
  have computed : computeTrackedIntCol (fragment.rows.map (DeletedRow.kernel.intValue "v")) =
      some full := rfl
  have retracted : retractTracked full { countNonNull := 1, sum := .int 5, sumsq := .int 25 } =
      some { full with countNonNull := 1, sum := .int 7, sumsq := .int 49 } := rfl
  exact rightExtremum_of_computed DeletedRow.isInteger rfl rfl stats (by decide) computed retracted
    .min

/-- With the offset the least value of the live rows is found. -/
theorem least_right : ∃ resolved,
    (resolveLiveExtrema DeletedRow.kernel storage DeletedRow.entry fragment.deleted sidecar
      (live (some 0))).lookup "v" = some resolved ∧
      RightExtremum DeletedRow.kernel "v" fragment .min (resolved.extremum .min) := by
  have data : storage.files.lookup DeletedRow.entry.data = some (.data fragment.rows) := rfl
  have stats : ∀ stats, sidecar.columns.lookup "v" = some stats →
      stats = .ofInts (fragment.rows.map (DeletedRow.kernel.intValue "v")) :=
    fun _ found => (Option.some.inj found).symm
  obtain ⟨resolved, found, right⟩ := resolveLiveExtrema_right_iff DeletedRow.isInteger data rfl stats
    (AList.lookup_insert (∅ : HashMap String (TrackedAgg Int)))
  refine ⟨resolved, found, (right .min).mpr ?_⟩
  right; right; left
  exact ⟨0, by decide, rfl⟩

end LegacySidecar

end AggCache

end IcefallDB
