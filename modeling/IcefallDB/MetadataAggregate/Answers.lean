import IcefallDB.Lib.Options
import IcefallDB.MetadataAggregate
import Mathlib.Algebra.BigOperators.Group.List.Basic

/-!
# Answers from metadata against SQL

What the queries mean on the rows of the fragments, and when an answer composed from metadata is
that meaning.
-/

namespace IcefallDB

/-- The rows of a data file with the offsets of the deleted ones. -/
structure PhysicalFragment (R : Type) where
  rows : List R
  deleted : DeletionVector
  inside : ∀ offset ∈ deleted, offset < rows.length

variable {R F : Type}

/-- The rows that are not deleted. -/
def PhysicalFragment.live (fragment : PhysicalFragment R) : List R :=
  liveRows fragment.deleted fragment.rows

/-- The column holds integers. -/
def NumericKernel.IsInteger (kernel : NumericKernel R F) (name : String) : Prop :=
  ∃ kind, kernel.columns.lookup name = some kind ∧ kind ≠ .float

namespace MetadataAggregate

/-- Live values of a column that are not null. -/
def liveValues (kernel : NumericKernel R F) (name : String)
    (fragments : List (PhysicalFragment R)) : List Int :=
  fragments.flatMap fun fragment => AggCache.ints kernel name fragment.live

/-- What a query means. -/
def sqlAnswer (kernel : NumericKernel R F) (fragments : List (PhysicalFragment R)) :
    Query → ScalarValue F
  | .countStar => .int64 (some ((fragments.map fun fragment => fragment.live.length).sum : Nat))
  | .count name => .int64 (some (liveValues kernel name fragments).length)
  | .sum name =>
      let values := liveValues kernel name fragments
      match kernel.columns.lookup name with
      | some .unsigned => .uint64 (if values = [] then none else some values.sum.toNat)
      | _ => .int64 (if values = [] then none else some values.sum)

/-- The column of a query holds integers. -/
def Query.IsInteger (kernel : NumericKernel R F) : Query → Prop
  | .countStar => True
  | .count name | .sum name => kernel.IsInteger name

/-- The files of a row group hold the fragment, with correct metadata and partial aggregates. -/
structure HoldsFragment (kernel : NumericKernel R F) (storage : TableStorage R)
    (manifest : Manifest) (schemaId index : Nat) (entry : RowGroupEntry)
    (fragment : PhysicalFragment R) : Prop where
  data : storage.files.lookup entry.data = some (.data fragment.rows)
  deletions : deletionsOf storage entry = some fragment.deleted
  deletedCount : entry.deletedCount = fragment.deleted.cardinality
  rows : ∀ sidecar, Reader.findMeta storage manifest schemaId index entry = some sidecar →
    sidecar.rows = fragment.rows.length
  nulls : ∀ sidecar, Reader.findMeta storage manifest schemaId index entry = some sidecar →
    ∀ name stats, kernel.IsInteger name → sidecar.columns.lookup name = some stats →
      stats.nulls = (fragment.rows.map (kernel.intValue name)).countP Option.isNone
  counted : ∀ count, Reader.rowCount manifest index = some count → count = fragment.rows.length
  partials : ∀ path, entry.agg = some path → ∀ fragmentId contentHash rows,
    storage.files.lookup path = some (.aggregate fragmentId contentHash rows) →
      rows = fragment.rows

/-- The files of a manifest hold the fragments. -/
def HoldsFragments (kernel : NumericKernel R F) (storage : TableStorage R) (manifest : Manifest)
    (schemaId : Nat) (fragments : List (PhysicalFragment R)) : Prop :=
  manifest.rowGroups.length = fragments.length ∧
    ∀ index entry fragment, manifest.rowGroups[index]? = some entry →
      fragments[index]? = some fragment →
        HoldsFragment kernel storage manifest schemaId index entry fragment

variable [Double F] in
/-- When the answer to a query from metadata is right. -/
def RightWhen (kernel : NumericKernel R F) (storage : TableStorage R) (manifest : Manifest)
    (schemaId : Nat) (fragments : List (PhysicalFragment R)) : Query → Prop
  | .countStar =>
      ∀ index entry fragment, manifest.rowGroups[index]? = some entry →
        fragments[index]? = some fragment →
          Reader.findMeta storage manifest schemaId index entry = none →
            Reader.rowCount manifest index = none → fragment.live = []
  | .count _ => True
  | .sum name =>
      kernel.columns.lookup name = some .signed →
        (∀ group ∈ Reader.scanAllowMissingMeta kernel storage manifest schemaId,
          (usablePartial name group).isSome) →
          (∃ first ∈ fragments.head?, AggCache.ints kernel name first.rows ≠ []) →
            liveValues kernel name fragments ≠ []

/-! ## One row group -/

section

variable {kernel : NumericKernel R F} {storage : TableStorage R} {manifest : Manifest}
  {schemaId index : Nat} {entry : RowGroupEntry} {fragment : PhysicalFragment R} {name : String}

/-- Partial aggregates of the live values of a column. -/
def liveAgg (kernel : NumericKernel R F) (name : String) (fragment : PhysicalFragment R) :
    ColAgg F :=
  if AggCache.ints kernel name fragment.rows = [] then ColAgg.allNull
  else AggCache.liveCol (AggCache.ints kernel name fragment.live)

/-- What a planned row group says about its fragment. -/
structure Describes (kernel : NumericKernel R F) (group : AggregatedRowGroup F)
    (fragment : PhysicalFragment R) : Prop where
  deletedCount : group.entry.deletedCount = fragment.deleted.card
  rows : group.fallback = false → group.sidecar.rows = fragment.rows.length
  nulls : group.fallback = false → ∀ name stats, kernel.IsInteger name →
    group.sidecar.columns.lookup name = some stats →
      stats.nulls = (fragment.rows.map (kernel.intValue name)).countP Option.isNone
  partials : ∀ name state agg, kernel.IsInteger name → group.aggState = some state →
    state.cols.lookup name = some agg → agg = liveAgg kernel name fragment

theorem length_deletedRows (fragment : PhysicalFragment R) :
    (AggCache.deletedRows fragment.deleted fragment.rows).length = fragment.deleted.card := by
  have offsets_eq : (fragment.rows.zipIdx.filter fun row => row.2 ∈ fragment.deleted).map Prod.snd =
      (List.range fragment.rows.length).filter fun offset => offset ∈ fragment.deleted := by
    rw [List.range_eq_range', ← List.zipIdx_map_snd 0 fragment.rows, List.filter_map]
    rfl
  have deleted_eq : ((List.range fragment.rows.length).filter fun offset =>
      offset ∈ fragment.deleted).toFinset = fragment.deleted := by
    ext offset
    simp only [List.mem_toFinset, List.mem_filter, List.mem_range, decide_eq_true_eq]
    exact ⟨And.right, fun member => ⟨fragment.inside offset member, member⟩⟩
  rw [AggCache.deletedRows, List.length_map, ← List.length_map Prod.snd, offsets_eq,
    ← List.toFinset_card_of_nodup (List.nodup_range.filter _), deleted_eq]

theorem length_live (fragment : PhysicalFragment R) :
    fragment.live.length = fragment.rows.length - fragment.deleted.card := by
  have split := (AggCache.perm_deletedRows_liveRows fragment.deleted fragment.rows).length_eq
  rw [List.length_append, length_deletedRows] at split
  rw [PhysicalFragment.live]
  omega

theorem live_of_clean (clean : fragment.deleted = ∅) : fragment.live = fragment.rows := by
  simp [PhysicalFragment.live, liveRows, clean]

theorem mem_rows_of_mem_live {row : R} (member : row ∈ fragment.live) : row ∈ fragment.rows :=
  (AggCache.perm_deletedRows_liveRows fragment.deleted fragment.rows).mem_iff.mpr
    (List.mem_append_right _ member)

theorem array_of_ne_float {kind : NumericKind} (not_float : kind ≠ .float) (rows : List R) :
    kernel.array name kind rows = .ints (rows.map (kernel.intValue name)) := by
  cases kind with
  | signed => rfl
  | unsigned => rfl
  | float => exact absurd rfl not_float

section Planning

variable [Double F]

/-- A column of the full partial aggregates, if its sums do not overflow. -/
theorem lookup_computeAggState (integer : kernel.IsInteger name) (fragmentId : Nat)
    (contentHash : String) (rows : List R) :
    (AggCache.computeAggState kernel fragmentId contentHash rows).cols.lookup name =
      AggCache.computeSignedIntCol (rows.map (kernel.intValue name)) := by
  obtain ⟨kind, found, not_float⟩ := integer
  rw [AggCache.computeAggState, HashMap.lookup_filterMap, found, Option.bind_some,
    array_of_ne_float not_float]
  rfl

/-- The contribution of the deleted rows to a column of integers whose sums do not overflow. -/
theorem lookup_deletedContribution (integer : kernel.IsInteger name)
    (data : storage.files.lookup entry.data = some (.data fragment.rows))
    {numericCols : List String} (listed : name ∈ numericCols)
    (fits : Moments.squares (AggCache.ints kernel name fragment.rows) < AggCache.bound128)
    {contribution : HashMap String (ColAgg F)}
    (found : AggCache.deletedContribution kernel storage entry fragment.deleted numericCols =
      some contribution) :
    (AggCache.deletedRows fragment.deleted fragment.rows = [] ∧ contribution.lookup name = none) ∨
    contribution.lookup name = some
      (if AggCache.ints kernel name (AggCache.deletedRows fragment.deleted fragment.rows) = [] then
        ColAgg.allNull
      else AggCache.liveCol
        (AggCache.ints kernel name (AggCache.deletedRows fragment.deleted fragment.rows))) := by
  obtain ⟨kind, column, not_float⟩ := integer
  unfold AggCache.deletedContribution at found
  split at found
  · next clean =>
      left
      obtain rfl := Option.some.inj found
      exact ⟨by simp [AggCache.deletedRows, clean], AList.lookup_empty name⟩
  · rw [data] at found
    simp only at found
    split at found
    · next empty =>
        left
        obtain rfl := Option.some.inj found
        exact ⟨List.isEmpty_iff.mp empty, AList.lookup_empty name⟩
    · split at found
      · right
        obtain rfl := Option.some.inj found
        have smaller : Moments.squares
            (AggCache.ints kernel name (AggCache.deletedRows fragment.deleted fragment.rows)) <
              AggCache.bound128 := by
          have split := Moments.squares_perm
            (AggCache.perm_ints kernel name fragment.deleted fragment.rows)
          rw [Moments.squares_append] at split
          have rest := Moments.squares_nonneg
            (AggCache.ints kernel name (liveRows fragment.deleted fragment.rows))
          omega
        rw [HashMap.lookup_filterMap, HashMap.lookup_filterMap, column, Option.bind_some,
          if_pos listed, Option.bind_some, array_of_ne_float not_float,
          AggCache.deletedCol_ints smaller]
        rfl
      · cases found

/-- Retracting the contribution of the deleted rows leaves the aggregates of the live ones. -/
theorem lookup_retract_computeAggState (integer : kernel.IsInteger name) {fragmentId : Nat}
    {contentHash : String} (data : storage.files.lookup entry.data = some (.data fragment.rows))
    {contribution : HashMap String (ColAgg F)}
    (found : AggCache.deletedContribution kernel storage entry fragment.deleted
      (AggCache.computeAggState (F := F) kernel fragmentId contentHash fragment.rows).cols.keys =
        some contribution) :
    (AggCache.retract (AggCache.computeAggState kernel fragmentId contentHash fragment.rows)
      contribution).cols.lookup name =
        if Moments.squares (AggCache.ints kernel name fragment.rows) < AggCache.bound128 then
          some (liveAgg kernel name fragment)
        else none := by
  have perm := AggCache.perm_ints kernel name fragment.deleted fragment.rows
  have full_eq : (AggCache.computeAggState (F := F) kernel fragmentId contentHash
      fragment.rows).cols.lookup name =
        if AggCache.ints kernel name fragment.rows = [] then some ColAgg.allNull
        else if Moments.squares (AggCache.ints kernel name fragment.rows) < AggCache.bound128 then
          some (AggCache.liveCol (AggCache.ints kernel name fragment.rows))
        else none :=
    (lookup_computeAggState integer fragmentId contentHash fragment.rows).trans
      (AggCache.computeSignedIntCol_eq _)
  rw [AggCache.retract, HashMap.lookup_filterMap]
  by_cases fits : Moments.squares (AggCache.ints kernel name fragment.rows) < AggCache.bound128
  · have present : (AggCache.computeAggState (F := F) kernel fragmentId contentHash
        fragment.rows).cols.lookup name =
          some (if AggCache.ints kernel name fragment.rows = [] then ColAgg.allNull
            else AggCache.liveCol (AggCache.ints kernel name fragment.rows)) := by
      rw [full_eq, if_pos fits]
      split <;> rfl
    have listed : name ∈ (AggCache.computeAggState (F := F) kernel fragmentId contentHash
        fragment.rows).cols.keys := by
      rw [← AList.mem_keys, ← AList.lookup_isSome, present]
      rfl
    have given := lookup_deletedContribution integer data listed fits found
    rw [present, Option.bind_some, if_pos fits, liveAgg]
    by_cases nulls : AggCache.ints kernel name fragment.rows = []
    · have no_deleted : AggCache.ints kernel name
          (AggCache.deletedRows fragment.deleted fragment.rows) = [] := by
        rw [nulls] at perm
        exact (List.append_eq_nil_iff.mp perm.symm.eq_nil).1
      rw [if_pos no_deleted] at given
      rw [if_pos nulls, if_pos nulls]
      rcases given with ⟨-, absent⟩ | given
      · rw [absent]
      · rw [given]
        rfl
    · have left := AggCache.retractCol_liveCol (F := F) perm fits
      rw [if_neg nulls, if_neg nulls]
      rcases given with ⟨no_rows, absent⟩ | given
      · have no_deleted : AggCache.ints kernel name
            (AggCache.deletedRows fragment.deleted fragment.rows) = [] := by
          rw [no_rows]
          rfl
        rw [if_pos no_deleted] at left
        rw [absent]
        exact left
      · rw [given]
        exact left
  · have nonempty : AggCache.ints kernel name fragment.rows ≠ [] := by
      intro nulls
      rw [nulls] at fits
      exact fits (by decide)
    rw [full_eq, if_neg nonempty, if_neg fits, if_neg fits, Option.bind_none]

/-- Partial aggregates that are read are those of the rows. -/
theorem exists_of_loadAggState
    (holds : HoldsFragment kernel storage manifest schemaId index entry fragment)
    {full : FragmentAggState F} (read : Reader.loadAggState kernel storage entry = some full) :
    ∃ fragmentId contentHash,
      full = AggCache.computeAggState kernel fragmentId contentHash fragment.rows := by
  obtain ⟨path, named, contents⟩ := Option.bind_eq_some_iff.mp read
  split at contents
  · next fragmentId contentHash rows stored =>
      obtain rfl := Option.some.inj contents
      rw [holds.partials path named _ _ _ stored]
      exact ⟨fragmentId, contentHash, rfl⟩
  · cases contents

theorem lookup_liveAggState (integer : kernel.IsInteger name)
    (holds : HoldsFragment kernel storage manifest schemaId index entry fragment)
    {state : FragmentAggState F} (found : Reader.liveAggState kernel storage entry = some state)
    {agg : ColAgg F} (column : state.cols.lookup name = some agg) :
    agg = liveAgg kernel name fragment := by
  unfold Reader.liveAggState at found
  split at found
  · obtain ⟨full, read, rest⟩ := Option.bind_eq_some_iff.mp found
    obtain ⟨path, named, contents⟩ := Option.bind_eq_some_iff.mp rest
    split at contents
    · next deletions stored =>
        obtain ⟨contribution, deleted, retracted⟩ := Option.bind_eq_some_iff.mp contents
        obtain rfl := Option.some.inj retracted
        have known := deletionsOf_eq_some.mpr (.inr ⟨path, named, stored⟩)
        obtain rfl : deletions = fragment.deleted :=
          Option.some.inj (known.symm.trans holds.deletions)
        obtain ⟨fragmentId, contentHash, rfl⟩ := exists_of_loadAggState holds read
        rw [lookup_retract_computeAggState integer holds.data deleted] at column
        split at column
        · exact (Option.some.inj column).symm
        · cases column
    · cases contents
  · next clean =>
      obtain ⟨fragmentId, contentHash, rfl⟩ := exists_of_loadAggState holds found
      rw [lookup_computeAggState integer, AggCache.computeSignedIntCol_eq] at column
      have none_deleted : fragment.deleted = ∅ := by
        have count := holds.deletedCount
        rw [DeletionVector.cardinality] at count
        exact Finset.card_eq_zero.mp (by omega)
      rw [liveAgg, live_of_clean none_deleted]
      split at column
      · next nulls => exact (Option.some.inj column).symm.trans (if_pos nulls).symm
      · next values =>
          split at column
          · exact (Option.some.inj column).symm.trans (if_neg values).symm
          · cases column

theorem describes_planAllowMissingMeta
    (holds : HoldsFragment kernel storage manifest schemaId index entry fragment) :
    Describes kernel
      (Reader.planAllowMissingMeta kernel storage manifest schemaId index entry) fragment := by
  constructor
  · exact holds.deletedCount
  · intro known
    cases found : Reader.findMeta storage manifest schemaId index entry with
    | none => simp [Reader.planAllowMissingMeta, found] at known
    | some sidecar => simpa [Reader.planAllowMissingMeta, found] using holds.rows sidecar found
  · intro known name stats integer column
    cases found : Reader.findMeta storage manifest schemaId index entry with
    | none => simp [Reader.planAllowMissingMeta, found] at known
    | some sidecar =>
        apply holds.nulls sidecar found name stats integer
        simpa [Reader.planAllowMissingMeta, found] using column
  · intro name state agg integer found column
    exact lookup_liveAggState integer holds found column

/-! ## All row groups -/

variable {fragments : List (PhysicalFragment R)} {groups : List (AggregatedRowGroup F)}

theorem HoldsFragments.describes
    (holds : HoldsFragments kernel storage manifest schemaId fragments) :
    List.Forall₂ (Describes kernel)
      (Reader.scanAllowMissingMeta kernel storage manifest schemaId) fragments := by
  obtain ⟨length_eq, each⟩ := holds
  rw [List.forall₂_iff_get, Reader.scanAllowMissingMeta]
  constructor
  · rw [List.length_mapIdx, length_eq]
  · intro index left right
    rw [List.length_mapIdx] at left
    simp only [List.get_eq_getElem, List.getElem_mapIdx]
    exact describes_planAllowMissingMeta
      (each index _ _ (List.getElem?_eq_getElem left) (List.getElem?_eq_getElem right))

end Planning

theorem length_ints (rows : List R) : (AggCache.ints kernel name rows).length =
    rows.length - (rows.map (kernel.intValue name)).countP Option.isNone := by
  induction rows with
  | nil => rfl
  | cons row rows ih =>
      have some_rest : (rows.map (kernel.intValue name)).countP Option.isNone ≤ rows.length := by
        simpa using List.countP_le_length (l := rows.map (kernel.intValue name))
      rw [AggCache.ints] at ih ⊢
      rw [List.map_cons, List.countP_cons, List.length_cons]
      cases kernel.intValue name row with
      | none =>
          rw [List.reduceOption_cons_of_none, ih]
          simp
      | some value =>
          rw [List.reduceOption_cons_of_some, List.length_cons, ih]
          simp only [Option.isNone_some, Bool.false_eq_true, if_false]
          omega

theorem ints_live_eq_nil (nulls : AggCache.ints kernel name fragment.rows = []) :
    AggCache.ints kernel name fragment.live = [] := by
  have perm := AggCache.perm_ints kernel name fragment.deleted fragment.rows
  rw [nulls] at perm
  exact (List.append_eq_nil_iff.mp perm.symm.eq_nil).2

theorem countNonNull_liveAgg : (liveAgg (F := F) kernel name fragment).countNonNull =
    (AggCache.ints kernel name fragment.live).length := by
  rw [liveAgg]
  split
  · next nulls => rw [ints_live_eq_nil nulls]; rfl
  · rfl

theorem Describes.columnCount_eq {group : AggregatedRowGroup F}
    (describes : Describes kernel group fragment) (integer : kernel.IsInteger name) {count : Nat}
    (found : columnCount name group = some count) :
    count = (AggCache.ints kernel name fragment.live).length := by
  unfold columnCount at found
  split at found
  · cases found
  · next known =>
      have known := Bool.eq_false_iff.mpr known
      split at found
      · obtain ⟨agg, column, rfl⟩ := Option.map_eq_some_iff.mp found
        obtain ⟨state, loaded, column⟩ := Option.bind_eq_some_iff.mp column
        rw [describes.partials name state agg integer loaded column, countNonNull_liveAgg]
      · next clean =>
          obtain ⟨stats, column, rfl⟩ := Option.map_eq_some_iff.mp found
          have none_deleted : fragment.deleted = ∅ := by
            have count := describes.deletedCount
            exact Finset.card_eq_zero.mp (by omega)
          rw [live_of_clean none_deleted, length_ints, describes.rows known,
            describes.nulls known name stats integer column]

theorem sum_columnCounts (describes : List.Forall₂ (Describes kernel) groups fragments)
    (integer : kernel.IsInteger name) {counts : List Nat}
    (found : groups.mapM (columnCount name) = some counts) :
    counts.sum = (liveValues kernel name fragments).length := by
  induction describes generalizing counts with
  | nil =>
      obtain rfl := Option.some.inj found
      rfl
  | cons describe _ ih =>
      rw [List.mapM_cons] at found
      obtain ⟨count, first, rest⟩ := Option.bind_eq_some_iff.mp found
      obtain ⟨later, others, whole⟩ := Option.bind_eq_some_iff.mp rest
      obtain rfl := Option.some.inj whole
      rw [List.sum_cons, ih others, describe.columnCount_eq integer first]
      simp [liveValues]

theorem Describes.usablePartial_eq {group : AggregatedRowGroup F}
    (describes : Describes kernel group fragment) (integer : kernel.IsInteger name)
    {agg : ColAgg F} (found : usablePartial name group = some agg) :
    agg = liveAgg kernel name fragment := by
  unfold usablePartial at found
  split at found
  · cases found
  · obtain ⟨state, loaded, rest⟩ := Option.bind_eq_some_iff.mp found
    split at rest
    · cases rest
    · exact describes.partials name state agg integer loaded rest

theorem usablePartials_eq (describes : List.Forall₂ (Describes kernel) groups fragments)
    (integer : kernel.IsInteger name) {aggs : List (ColAgg F)}
    (found : groups.mapM (usablePartial name) = some aggs) :
    aggs = fragments.map (liveAgg kernel name) := by
  induction describes generalizing aggs with
  | nil => exact (Option.some.inj found).symm
  | cons describe _ ih =>
      rw [List.mapM_cons] at found
      obtain ⟨agg, first, rest⟩ := Option.bind_eq_some_iff.mp found
      obtain ⟨later, others, whole⟩ := Option.bind_eq_some_iff.mp rest
      obtain rfl := Option.some.inj whole
      rw [List.map_cons, ← ih others, ← describe.usablePartial_eq integer first]

/-- Adding up the live aggregates of integer columns adds up the live values. -/
theorem sum_addInts {totals result : Totals Int}
    (found : (fragments.map (liveAgg (F := F) kernel name)).foldlM addInts totals = some result) :
    result.2.1 = totals.2.1 + (liveValues kernel name fragments).sum := by
  induction fragments generalizing totals with
  | nil =>
      obtain rfl := Option.some.inj found
      simp [liveValues]
  | cons fragment fragments ih =>
      rw [List.map_cons, List.foldlM_cons] at found
      obtain ⟨next, added, rest⟩ := Option.bind_eq_some_iff.mp found
      have sum_eq : next.2.1 = totals.2.1 + (AggCache.ints kernel name fragment.live).sum := by
        by_cases nulls : AggCache.ints kernel name fragment.rows = []
        · rw [liveAgg, if_pos nulls] at added
          rw [← Option.some.inj added, ints_live_eq_nil nulls]
          simp
        · rw [liveAgg, if_neg nulls] at added
          obtain ⟨sum, sum_eq, added⟩ := Option.bind_eq_some_iff.mp added
          obtain ⟨sumsq, -, added⟩ := Option.bind_eq_some_iff.mp added
          rw [← Option.some.inj added, Moments.eq_of_checked sum_eq]
      rw [ih rest, sum_eq]
      simp [liveValues, Int.add_assoc]

/-- Without live values, adding up the live aggregates gives zero. -/
theorem addInts_of_noValues (nothing : liveValues kernel name fragments = []) (count : Nat) :
    ∃ total, (fragments.map (liveAgg (F := F) kernel name)).foldlM addInts (count, 0, 0) =
      some (total, 0, 0) := by
  induction fragments generalizing count with
  | nil => exact ⟨count, rfl⟩
  | cons fragment fragments ih =>
      rw [liveValues, List.flatMap_cons, List.append_eq_nil_iff] at nothing
      obtain ⟨total, rest⟩ := ih nothing.2 count
      refine ⟨total, ?_⟩
      have added : addInts (count, 0, 0) (liveAgg (F := F) kernel name fragment) =
          some (count, 0, 0) := by
        rw [liveAgg]
        split
        · rfl
        · rw [nothing.1]
          rfl
      rw [List.map_cons, List.foldlM_cons, added]
      exact rest

/-- Sums of smaller numbers are equal only if all the numbers are. -/
theorem sum_eq_sum_iff {smaller larger : List Nat} (le : List.Forall₂ (· ≤ ·) smaller larger) :
    smaller.sum = larger.sum ↔ smaller = larger := by
  constructor
  · intro same
    induction le with
    | nil => rfl
    | @cons small large _ _ first rest ih =>
        have rest_le := rest.sum_le_sum
        rw [List.sum_cons, List.sum_cons] at same
        have equal : small = large := by omega
        rw [ih (by omega), equal]
  · intro same
    rw [same]

section Answers

variable [Double F]

/-- The rows that `COUNT(*)` counts in a row group. -/
theorem liveCount_planAllowMissingMeta
    (holds : HoldsFragment kernel storage manifest schemaId index entry fragment) :
    liveCount (Reader.planAllowMissingMeta kernel storage manifest schemaId index entry) =
      if Reader.findMeta storage manifest schemaId index entry = none ∧
          Reader.rowCount manifest index = none then 0
      else fragment.live.length := by
  have deleted := holds.deletedCount
  rw [DeletionVector.cardinality] at deleted
  rw [liveCount, Reader.planAllowMissingMeta_sidecar, Reader.planAllowMissingMeta_entry, deleted,
    length_live]
  cases found : Reader.findMeta storage manifest schemaId index entry with
  | some sidecar => simp [holds.rows sidecar found]
  | none =>
      rw [Option.getD_none, Reader.placeholderMeta_rows]
      cases counted : Reader.rowCount manifest index with
      | none => simp
      | some count => simp [holds.counted count counted]

/-- `COUNT(*)` is right if all placeholders without a row count are of fragments without live
rows. -/
theorem sum_liveCount_iff (holds : HoldsFragments kernel storage manifest schemaId fragments) :
    ((Reader.scanAllowMissingMeta kernel storage manifest schemaId).map liveCount).sum =
        (fragments.map fun fragment => fragment.live.length).sum ↔
      RightWhen kernel storage manifest schemaId fragments .countStar := by
  obtain ⟨length_eq, each⟩ := holds
  have counts : ∀ index entry fragment, manifest.rowGroups[index]? = some entry →
      fragments[index]? = some fragment →
        liveCount (Reader.planAllowMissingMeta kernel storage manifest schemaId index entry) =
          if Reader.findMeta storage manifest schemaId index entry = none ∧
              Reader.rowCount manifest index = none then 0
          else fragment.live.length := fun index entry fragment at_entry at_fragment =>
    liveCount_planAllowMissingMeta (each index entry fragment at_entry at_fragment)
  rw [Reader.scanAllowMissingMeta, sum_eq_sum_iff]
  · constructor
    · intro same index entry fragment at_entry at_fragment unread uncounted
      have entries := congrArg (fun list => list[index]?) same
      simp only [List.getElem?_map, List.getElem?_mapIdx, at_entry, at_fragment, Option.map_some,
        Option.some.injEq] at entries
      rw [counts index entry fragment at_entry at_fragment, if_pos ⟨unread, uncounted⟩] at entries
      exact List.length_eq_zero_iff.mp entries.symm
    · intro right
      apply List.ext_getElem
      · simp [length_eq]
      · intro index left later
        simp only [List.length_map, List.length_mapIdx] at left later
        have at_entry := List.getElem?_eq_getElem left
        have at_fragment := List.getElem?_eq_getElem later
        simp only [List.getElem_map, List.getElem_mapIdx]
        rw [counts index _ _ at_entry at_fragment]
        split
        · next missing =>
            rw [right index _ _ at_entry at_fragment missing.1 missing.2]
            rfl
        · rfl
  · rw [List.forall₂_iff_get]
    constructor
    · simp [length_eq]
    · intro index left later
      simp only [List.length_map, List.length_mapIdx] at left later
      simp only [List.get_eq_getElem, List.getElem_map, List.getElem_mapIdx]
      rw [counts index _ _ (List.getElem?_eq_getElem left) (List.getElem?_eq_getElem later)]
      split
      · exact Nat.zero_le _
      · exact Nat.le_refl _

/-- Without live values a sum of integers is answered with zero if the first fragment has values. -/
theorem composeSum_of_noValues (describes : List.Forall₂ (Describes kernel) groups fragments)
    (integer : kernel.IsInteger name)
    (usable : ∀ group ∈ groups, (usablePartial name group).isSome)
    (first : ∃ fragment ∈ fragments.head?, AggCache.ints kernel name fragment.rows ≠ [])
    (nothing : liveValues kernel name fragments = []) :
    composeSum groups .int64 (.column name) = some (.int64 (some 0)) := by
  obtain ⟨aggs, aggs_eq⟩ := Option.isSome_iff_exists.mp (List.isSome_mapM.mpr usable)
  rw [usablePartials_eq describes integer aggs_eq] at aggs_eq
  obtain ⟨fragment, head_eq, values⟩ := first
  obtain ⟨rest, rfl⟩ : ∃ rest, fragments = fragment :: rest := by
    cases fragments with
    | nil => cases head_eq
    | cons head rest => exact ⟨rest, by rw [Option.some.inj head_eq]⟩
  obtain ⟨total, total_eq⟩ := addInts_of_noValues (F := F) nothing 0
  have integers : (liveAgg (F := F) kernel name fragment).sum =
      .int (AggCache.ints kernel name fragment.live).sum := by
    rw [liveAgg, if_neg values]
    rfl
  rw [List.map_cons] at aggs_eq total_eq
  have collected_eq : collectColPartials name groups = some (total, .int 0, .int 0) := by
    rw [collectColPartials, aggs_eq, Option.bind_eq_bind, Option.bind_some]
    simp only [integers, total_eq, Option.bind_eq_bind, Option.bind_some]
  rw [composeSum, collected_eq]
  rfl

theorem composeSum_eq (describes : List.Forall₂ (Describes kernel) groups fragments)
    (integer : kernel.IsInteger name) {kind : NumericKind}
    (column : kernel.columns.lookup name = some kind) (not_float : kind ≠ .float)
    (right : kind = .signed → (∀ group ∈ groups, (usablePartial name group).isSome) →
      (∃ first ∈ fragments.head?, AggCache.ints kernel name first.rows ≠ []) →
        liveValues kernel name fragments ≠ [])
    {value : ScalarValue F} (found : composeSum groups (sumType kind) (.column name) = some value) :
    value = sqlAnswer kernel fragments (.sum name) := by
  obtain ⟨totals, collected, answered⟩ := Option.bind_eq_some_iff.mp found
  obtain ⟨aggs, aggs_eq, totals_eq⟩ := Option.bind_eq_some_iff.mp collected
  have usable := List.isSome_mapM.mp (Option.isSome_iff_exists.mpr ⟨aggs, aggs_eq⟩)
  have aggs_live := usablePartials_eq describes integer aggs_eq
  cases fragments with
  | nil =>
      subst aggs_live
      obtain rfl := Option.some.inj totals_eq
      cases kind with
      | float => exact absurd rfl not_float
      | signed => simpa [sumType, sqlAnswer, column, liveValues, SqlType.null, eq_comm] using answered
      | unsigned => simpa [sumType, sqlAnswer, column, liveValues, SqlType.null, eq_comm] using answered
  | cons fragment rest =>
      subst aggs_live
      rw [List.map_cons] at totals_eq
      by_cases nulls : AggCache.ints kernel name fragment.rows = []
      · -- the sums are taken for floats, which no sum of integers is answered with
        have empty : (liveAgg (F := F) kernel name fragment).sum = .null := by
          rw [liveAgg, if_pos nulls]
          rfl
        simp only [empty] at totals_eq
        obtain ⟨floats, -, floats_eq⟩ := Option.bind_eq_some_iff.mp totals_eq
        obtain rfl := Option.some.inj floats_eq
        cases kind with
        | float => exact absurd rfl not_float
        | signed => cases answered
        | unsigned => cases answered
      · have integers : (liveAgg (F := F) kernel name fragment).sum =
            .int (AggCache.ints kernel name fragment.live).sum := by
          rw [liveAgg, if_neg nulls]
          rfl
        simp only [integers] at totals_eq
        obtain ⟨ints, ints_eq, sums_eq⟩ := Option.bind_eq_some_iff.mp totals_eq
        obtain rfl := Option.some.inj sums_eq
        rw [← List.map_cons] at ints_eq
        have sum_eq := sum_addInts ints_eq
        rw [Int.zero_add] at sum_eq
        cases kind with
        | float => exact absurd rfl not_float
        | unsigned => cases answered
        | signed =>
            obtain ⟨sum, checked, rfl⟩ := Option.map_eq_some_iff.mp answered
            have values := right rfl usable ⟨fragment, rfl, nulls⟩
            rw [Moments.eq_of_checked checked, sum_eq]
            simp [sqlAnswer, column, values]

/-- The answer to a query from metadata is what the query means exactly in these cases. -/
theorem answer_right_iff (holds : HoldsFragments kernel storage manifest schemaId fragments)
    {query : Query} (integer : query.IsInteger kernel) :
    (∀ value, answer kernel (Reader.scanAllowMissingMeta kernel storage manifest schemaId) query =
      some value → value = sqlAnswer kernel fragments query) ↔
        RightWhen kernel storage manifest schemaId fragments query := by
  have describes := holds.describes
  cases query with
  | countStar =>
      rw [← sum_liveCount_iff holds]
      simp only [answer, computeCount, sqlAnswer, Option.some.injEq, forall_eq',
        ScalarValue.int64.injEq, Nat.cast_inj]
  | count name =>
      simp only [RightWhen, iff_true]
      intro value found
      obtain ⟨counts, counted, rfl⟩ := Option.map_eq_some_iff.mp found
      rw [sum_columnCounts describes integer counted, sqlAnswer]
  | sum name =>
      obtain ⟨kind, column, not_float⟩ := id integer
      constructor
      · intro right signed usable first nothing
        have wrong := right (.int64 (some 0))
        simp only [answer, signed, Option.bind_eq_bind, Option.bind_some, sumType] at wrong
        have zero := wrong (composeSum_of_noValues describes integer usable first nothing)
        simp [sqlAnswer, signed, nothing] at zero
      · intro right value found
        simp only [answer, column, Option.bind_eq_bind, Option.bind_some] at found
        apply composeSum_eq describes integer column not_float _ found
        intro signed
        exact right (signed ▸ column)

end Answers

end

/-! ## A column whose values are all deleted -/

namespace DeletedRow

def kernel : NumericKernel (Option Int) Int :=
  { columns := (∅ : HashMap String NumericKind).insert "v" .signed
    intValue := fun _ row => row
    floatValue := fun _ _ => none }

def entry : RowGroupEntry :=
  { data := "rg_1.parquet"
    metaFile := "rg_1.meta"
    deletes := some "_deletions/rg_0000000000000000__v2.del"
    deletedCount := 1
    agg := some "rg_1.agg" }

def summary : FragmentSummary :=
  { rowGroup := "rg_1"
    data := entry.data
    metaFile := entry.metaFile
    agg := entry.agg
    deletes := entry.deletes
    fragmentId := 0
    rows := 1
    deletedCount := 1
    columns := (∅ : HashMap String ColumnStats).insert "v" { min := none, max := none, nulls := 0 }
    columnOffsets := none
    rowIds := [.range 0 1]
    sort := none
    checksum := "c"
    metaChecksum := "" }

def manifest : Manifest :=
  { sequence := 2, schemaId := 1, rowGroups := [entry], nextRowId := 1, nextFragmentId := 1,
    checkpoint := some "_checkpoints/000000002.json" }

/-- A table with one row, which is deleted. -/
def storage : TableStorage (Option Int) :=
  { pointer := .latest 2
    manifests := (∅ : HashMap Nat Manifest).insert 2 manifest
    log := []
    files := ((((∅ : HashMap String (File (Option Int))).insert "rg_1.parquet"
      (.data [some 5])).insert "_deletions/rg_0000000000000000__v2.del" (.deletions {0})).insert
      "rg_1.agg" (.aggregate 0 "c" [some 5])).insert "_checkpoints/000000002.json"
        (.checkpoint { sequence := 2, schemaId := 1, fragments := [summary], checksum := "" })
    intents := ∅
    schemaPointer := some 1 }

def fragment : PhysicalFragment (Option Int) :=
  { rows := [some 5], deleted := {0}, inside := by decide }

theorem isInteger : kernel.IsInteger "v" :=
  ⟨.signed, rfl, by decide⟩

theorem findMeta_eq {index : Nat} {entry : RowGroupEntry}
    (found : manifest.rowGroups[index]? = some entry) :
    index = 0 ∧ entry = DeletedRow.entry ∧
      Reader.findMeta storage manifest 1 index entry =
        some (Reader.summarizedMeta 1 entry summary) := by
  obtain ⟨rfl, rfl⟩ : index = 0 ∧ entry = DeletedRow.entry := by
    match index, found with
    | 0, found => exact ⟨rfl, (Option.some.inj found).symm⟩
  exact ⟨rfl, rfl, rfl⟩

theorem holdsFragments : HoldsFragments kernel storage manifest 1 [fragment] := by
  constructor
  · rfl
  · intro index entry contents found stored
    obtain ⟨rfl, rfl, meta_eq⟩ := findMeta_eq found
    obtain rfl := Option.some.inj stored
    constructor
    · rfl
    · rfl
    · rfl
    · intro sidecar same
      rw [← Option.some.inj (meta_eq.symm.trans same)]
      rfl
    · intro sidecar same name stats integer column
      rw [← Option.some.inj (meta_eq.symm.trans same)] at column
      have inserted : ((∅ : HashMap String ColumnStats).insert "v"
          { min := none, max := none, nulls := 0 }).lookup name = some stats := column
      by_cases same_name : name = "v"
      · rw [same_name, AList.lookup_insert] at inserted
        rw [← Option.some.inj inserted]
        rfl
      · rw [AList.lookup_insert_ne same_name] at inserted
        cases inserted
    · intro count counted
      cases counted
    · intro path named fragmentId contentHash rows stored
      obtain rfl := Option.some.inj named
      have known : storage.files.lookup "rg_1.agg" = some (.aggregate 0 "c" [some 5]) := rfl
      rw [known] at stored
      cases stored
      rfl

/-- The sum is answered with zero, and is null. -/
theorem sum_wrong : HoldsFragments kernel storage manifest 1 [fragment] ∧
    answer kernel (Reader.scanAllowMissingMeta kernel storage manifest 1) (.sum "v") =
      some (.int64 (some 0)) ∧
    sqlAnswer kernel [fragment] (.sum "v") = .int64 none := by
  constructor
  · exact holdsFragments
  · constructor <;> decide +kernel

/-- Counting the values of the deleted row is right. -/
theorem count_right : HoldsFragments kernel storage manifest 1 [fragment] ∧
    ∀ value, answer kernel (Reader.scanAllowMissingMeta kernel storage manifest 1) (.count "v") =
      some value → value = sqlAnswer kernel [fragment] (.count "v") := by
  constructor
  · exact holdsFragments
  · have integer : Query.IsInteger kernel (.count "v") := isInteger
    exact (answer_right_iff holdsFragments integer).mpr trivial

end DeletedRow

end MetadataAggregate

end IcefallDB
