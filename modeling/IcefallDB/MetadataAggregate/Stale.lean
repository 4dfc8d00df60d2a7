import IcefallDB.AggCache.Extrema
import IcefallDB.MetadataAggregate.Grouped
import IcefallDB.MetadataAggregate.Stack

/-!
# Stale aggregate sidecars

An aggregate sidecar records the checksum of the data file that it was computed from, and is stale if
the metadata of the row group have another one.  Sums and groups compare the two for row groups
without deleted rows.  Of the others the sidecar is used as it is.
-/

namespace IcefallDB

variable {R F : Type}

/-! ## Planning -/

/-- A row group of a scan plan with all that is known of its live rows. -/
structure LiveRowGroup (F : Type) extends ExtremaRowGroup F where
  grouped : Option (GroupedPartials F)

namespace LiveRowGroup

def toGroupedRowGroup (group : LiveRowGroup F) : GroupedRowGroup F :=
  { toAggregatedRowGroup := group.toAggregatedRowGroup, grouped := group.grouped }

/-- The row group without what comes from its aggregate sidecar. -/
def withoutSidecar (group : LiveRowGroup F) : LiveRowGroup F :=
  { group with aggState := none, liveMin := ∅, liveMax := ∅, grouped := none }

/-- The partial aggregates were computed from another data file. -/
def IsStale (group : LiveRowGroup F) : Prop :=
  ∀ state ∈ group.aggState, state.contentHash ≠ group.sidecar.checksum

end LiveRowGroup

/-- What the rule knows about a table. -/
structure RuleTable (R F : Type) where
  kernel : NumericKernel R F
  grouping : Grouping R
  engine : FilterEngine R
  /-- The offsets of extrema in an aggregate sidecar, by column. -/
  offset : String → String → ExtremumKind → Option Nat

namespace Reader

variable [Double F] (table : RuleTable R F) (storage : TableStorage R) (manifest : Manifest)
  (schemaId index : Nat) (entry : RowGroupEntry)

/-- The extrema of the live rows of a row group with deleted rows. -/
def liveExtrema (sidecar : RowGroupMeta) : Option (HashMap String (LiveAgg F)) :=
  if entry.deletedCount > 0 then do
    let state ← liveAggState table.kernel storage entry
    let aggPath ← entry.agg
    let path ← entry.deletes
    match storage.files.lookup path with
    | some (.deletions deletions) =>
        let live := HashMap.filterMap (fun name agg => some
          { toColAgg := agg
            minOff := table.offset aggPath name .min
            maxOff := table.offset aggPath name .max }) state.cols
        some (AggCache.resolveLiveExtrema table.kernel storage entry deletions sidecar live)
    | _ => none
  else none

/-- Plan a row group with all partial aggregates of its live rows. -/
def planLive : LiveRowGroup F :=
  let planned := planAllowMissingMeta table.kernel storage manifest schemaId index entry
  let extrema := (liveExtrema table storage entry planned.sidecar).getD ∅
  { toAggregatedRowGroup := planned
    liveMin := HashMap.filterMap (fun _ agg => agg.liveMin) extrema
    liveMax := HashMap.filterMap (fun _ agg => agg.liveMax) extrema
    grouped := liveGrouped table.kernel table.grouping storage entry }

/-- Plan a scan of a manifest. -/
def scanLive : List (LiveRowGroup F) :=
  manifest.rowGroups.mapIdx (planLive table storage manifest schemaId)

/-- The aggregate sidecar of a row group was computed from another data file. -/
def isStale : Bool :=
  (loadAggState table.kernel storage entry).any fun state =>
    state.contentHash ≠
      (planAllowMissingMeta table.kernel storage manifest schemaId index entry).sidecar.checksum

/-- No row group with deleted rows has a stale aggregate sidecar. -/
def dirtyTrusted : Bool :=
  manifest.rowGroups.zipIdx.all fun position =>
    position.1.deletedCount = 0 || !isStale table storage manifest schemaId position.2 position.1

/-- Plan a row group, without its aggregate sidecar if that is stale. -/
def planTrusted : LiveRowGroup F :=
  let planned := planLive table storage manifest schemaId index entry
  if isStale table storage manifest schemaId index entry then planned.withoutSidecar else planned

/-- Plan a scan of a manifest without stale aggregate sidecars. -/
def scanTrusted : List (LiveRowGroup F) :=
  manifest.rowGroups.mapIdx (planTrusted table storage manifest schemaId)

end Reader

/-! ## Queries -/

namespace MetadataAggregate

/-- Queries that the rule answers. -/
inductive RuleQuery (R : Type)
  | plain (schema : List StackField) (aggregates : List StackAggregate)
  | filtered (filters : List (FilterExpr R)) (query : Query)
  | grouped (keyName : String) (aggregates : List GroupAggregate)

/-- Answers of the rule. -/
inductive RuleAnswer (F : Type)
  | plain (values : List (StackValue F))
  | filtered (value : ScalarValue F)
  | grouped (groups : List (KeyValue × List (GroupValue F)))

section

variable [Double F] [IntCast F] [Div F] [NatCast F]

/-- Answer a query over some row groups. -/
def compose (table : RuleTable R F) (storage : TableStorage R) (groups : List (LiveRowGroup F)) :
    RuleQuery R → Option (RuleAnswer F)
  | .plain schema aggregates =>
      (composeFromScan schema (groups.map LiveRowGroup.toExtremaRowGroup) aggregates).map .plain
  | .filtered filters query => do
      let rewrite ← composeFiltered table.kernel filters query
        (groups.map fun group => group.toAggregatedRowGroup)
      (rewrite.execute table.kernel table.engine storage filters query).map .filtered
  | .grouped keyName aggregates =>
      (composeGrouped table.kernel table.grouping keyName aggregates
        (groups.map LiveRowGroup.toGroupedRowGroup)).map .grouped

end

/-- An aggregate without a filter is over a column. -/
def overColumn (aggregate : StackAggregate) : Bool :=
  aggregateArg aggregate.arg ≠ .literal

/-- The query takes partial aggregates of row groups with deleted rows from the sidecars.  A filter
leaves such row groups to the scan. -/
def usesDirty : RuleQuery R → Bool
  | .plain _ aggregates => aggregates.any overColumn
  | .filtered _ _ => false
  | .grouped _ _ => true

/-! ## Leaving sidecars out -/

/-- A reader that gives nothing for a stale row group without deleted rows, or does not use its
sidecar, and that needs the sidecars of others. -/
def ChecksClean {β : Type} (read : LiveRowGroup F → Option β) : Prop :=
  ∀ group : LiveRowGroup F, group.IsStale →
    Option.GuardedBy (group.entry.deletedCount = 0) (read group) (read group.withoutSidecar)

/-- What is read from the sidecar if rows are deleted, and from the statistics otherwise. -/
theorem guardedBy_of_dirty {β : Type} (group : LiveRowGroup F) (first stats : Option β)
    {second : Option β} (nothing : second = none) :
    Option.GuardedBy (group.entry.deletedCount = 0)
      (if group.entry.deletedCount > 0 then first else stats)
      (if group.entry.deletedCount > 0 then second else stats) := by
  by_cases clean : group.entry.deletedCount = 0
  · have not_dirty : ¬group.entry.deletedCount > 0 := by omega
    apply Option.GuardedBy.of_true (decide_eq_true clean)
    rw [if_neg not_dirty, if_neg not_dirty]
  · apply Option.GuardedBy.of_false (decide_eq_false clean)
    rw [if_pos (Nat.pos_of_ne_zero clean), nothing]

theorem checksClean_columnCount (name : String) :
    ChecksClean fun group : LiveRowGroup F => columnCount name group.toAggregatedRowGroup := by
  intro group _
  apply Option.GuardedBy.ite_right
  exact guardedBy_of_dirty group _ _ rfl

/-- A stale row group without deleted rows does not pass the check. -/
theorem dirty_of_passed {group : LiveRowGroup F} (stale : group.IsStale) {state : FragmentAggState F}
    (state_eq : group.aggState = some state)
    (passed : ¬(group.entry.deletedCount = 0 ∧ state.contentHash ≠ group.sidecar.checksum)) :
    decide (group.entry.deletedCount = 0) = false := by
  rw [decide_eq_false_iff_not]
  intro clean
  exact passed ⟨clean, stale state state_eq⟩

theorem checksClean_usablePartial (name : String) :
    ChecksClean fun group : LiveRowGroup F => usablePartial name group.toAggregatedRowGroup := by
  intro group stale
  apply Option.GuardedBy.ite_right
  intro result found
  obtain ⟨state, state_eq, checked⟩ := Option.bind_eq_some_iff.mp found
  obtain ⟨passed, -⟩ := Option.ite_none_left_eq_some.mp checked
  rw [dirty_of_passed stale state_eq passed]
  rfl

theorem checksClean_usableGrouped (keyName : String) :
    ChecksClean fun group : LiveRowGroup F => usableGrouped keyName group.toGroupedRowGroup := by
  intro group stale
  apply Option.GuardedBy.ite_right
  intro result found
  obtain ⟨state, state_eq, checked⟩ := Option.bind_eq_some_iff.mp found
  obtain ⟨passed, -⟩ := Option.ite_none_left_eq_some.mp checked
  rw [dirty_of_passed stale state_eq passed]
  rfl

/-- An extremum comes from the statistics unless rows are deleted, and then from the sidecar. -/
def NeedsSidecar (extremum : String → ExtremaRowGroup F → Option Scalar) : Prop :=
  ∀ name (group : LiveRowGroup F), Option.GuardedBy (group.entry.deletedCount = 0)
    (extremum name group.toExtremaRowGroup) (extremum name group.withoutSidecar.toExtremaRowGroup)

theorem needsSidecar_minJson : NeedsSidecar (@minJson F) := by
  intro name group
  exact guardedBy_of_dirty group _ _ rfl

theorem needsSidecar_maxJson : NeedsSidecar (@maxJson F) := by
  intro name group
  exact guardedBy_of_dirty group _ _ rfl

theorem NeedsSidecar.checksClean {extremum : String → ExtremaRowGroup F → Option Scalar}
    (needs : NeedsSidecar extremum) (name : String) (type : KeyType) :
    ChecksClean fun group : LiveRowGroup F =>
      if group.fallback then none
      else (extremum name group.toExtremaRowGroup).bind fun scalar =>
        AggCache.jsonToScalarValue type (scalarJson scalar) := by
  intro group _
  apply Option.GuardedBy.ite_right
  exact (needs name group).bind _

end MetadataAggregate

namespace Reader

variable [Double F] {table : RuleTable R F} {storage : TableStorage R} {manifest : Manifest}
  {schemaId index : Nat} {entry : RowGroupEntry}

/-- Retraction keeps the checksum of the sidecar. -/
theorem contentHash_of_liveAggState {kernel : NumericKernel R F} {state : FragmentAggState F}
    (live : liveAggState kernel storage entry = some state) :
    ∃ full, loadAggState kernel storage entry = some full ∧
      full.contentHash = state.contentHash := by
  rw [liveAggState] at live
  split at live
  · obtain ⟨full, full_eq, rest⟩ := Option.bind_eq_some_iff.mp live
    obtain ⟨path, -, deletes⟩ := Option.bind_eq_some_iff.mp rest
    split at deletes
    · obtain ⟨deleted, -, retracted⟩ := Option.bind_eq_some_iff.mp deletes
      obtain rfl := Option.some.inj retracted
      exact ⟨full, full_eq, rfl⟩
    · cases deletes
  · exact ⟨state, live, rfl⟩

theorem isStale_planLive (stale : isStale table storage manifest schemaId index entry = true) :
    (planLive table storage manifest schemaId index entry).IsStale := by
  intro state found
  obtain ⟨full, full_eq, same⟩ := contentHash_of_liveAggState found
  rw [isStale, full_eq, Option.any_some, decide_eq_true_eq] at stale
  rw [← same]
  exact stale

theorem dirtyTrusted_iff :
    dirtyTrusted table storage manifest schemaId = true ↔
      ∀ index entry, manifest.rowGroups[index]? = some entry → 0 < entry.deletedCount →
        isStale table storage manifest schemaId index entry = false := by
  rw [dirtyTrusted, List.all_eq_true]
  constructor
  · intro trusted index entry found dirty
    have unaffected := trusted (entry, index) (List.mem_zipIdx_iff_getElem?.mpr found)
    rw [Bool.or_eq_true, decide_eq_true_eq, Bool.not_eq_true'] at unaffected
    exact unaffected.resolve_left dirty.ne'
  · intro trusted position member
    rw [Bool.or_eq_true, decide_eq_true_eq, Bool.not_eq_true', or_iff_not_imp_left]
    intro dirty
    exact trusted position.2 position.1 (List.mem_zipIdx_iff_getElem?.mp member)
      (Nat.pos_of_ne_zero dirty)

end Reader

namespace MetadataAggregate

section

variable [Double F] {table : RuleTable R F} {storage : TableStorage R} {manifest : Manifest}
  {schemaId : Nat}

/-- Reading a row group that is planned without a stale sidecar. -/
theorem ChecksClean.planTrusted {β : Type} {read : LiveRowGroup F → Option β}
    (checks : ChecksClean read) (index : Nat) (entry : RowGroupEntry) :
    Option.GuardedBy
      (entry.deletedCount = 0 || !Reader.isStale table storage manifest schemaId index entry)
      (read (Reader.planLive table storage manifest schemaId index entry))
      (read (Reader.planTrusted table storage manifest schemaId index entry)) := by
  intro result found
  rw [Reader.planTrusted]
  cases stale : Reader.isStale table storage manifest schemaId index entry with
  | false =>
      rw [Bool.not_false, Bool.or_true, if_pos rfl]
      exact found
  | true =>
      have read_eq := checks _ (Reader.isStale_planLive stale) result found
      rw [if_pos rfl, Bool.not_true, Bool.or_false, read_eq]
      rfl

/-- Reading all row groups gives the same without stale sidecars, unless rows are deleted there. -/
theorem ChecksClean.mapM {β : Type} {read : LiveRowGroup F → Option β}
    (checks : ChecksClean read) :
    Option.GuardedBy (Reader.dirtyTrusted table storage manifest schemaId)
      ((Reader.scanLive table storage manifest schemaId).mapM read)
      ((Reader.scanTrusted table storage manifest schemaId).mapM read) := by
  rw [Reader.scanLive, List.mapIdx_eq_zipIdx_map, List.mapM_map, Reader.scanTrusted,
    List.mapIdx_eq_zipIdx_map, List.mapM_map]
  exact List.mapM_guardedBy fun position _ => checks.planTrusted position.2 position.1

/-! ## Composing without stale sidecars -/

theorem planTrusted_cases (index : Nat) (entry : RowGroupEntry) :
    Reader.planTrusted table storage manifest schemaId index entry =
        Reader.planLive table storage manifest schemaId index entry ∨
      Reader.isStale table storage manifest schemaId index entry = true ∧
        Reader.planTrusted table storage manifest schemaId index entry =
          (Reader.planLive table storage manifest schemaId index entry).withoutSidecar := by
  rw [Reader.planTrusted]
  split
  · next stale => exact .inr ⟨stale, rfl⟩
  · exact .inl rfl

/-- What does not depend on the sidecars is the same without stale ones. -/
theorem map_scanTrusted {β : Type} {f : LiveRowGroup F → β}
    (same : ∀ group, f group.withoutSidecar = f group) :
    (Reader.scanTrusted table storage manifest schemaId).map f =
      (Reader.scanLive table storage manifest schemaId).map f := by
  rw [Reader.scanTrusted, Reader.scanLive, List.mapIdx_eq_zipIdx_map, List.mapIdx_eq_zipIdx_map,
    List.map_map, List.map_map]
  apply List.map_congr_left
  intro position _
  change f (Reader.planTrusted table storage manifest schemaId position.2 position.1) =
    f (Reader.planLive table storage manifest schemaId position.2 position.1)
  rcases @planTrusted_cases R F _ table storage manifest schemaId position.2 position.1 with
    kept | ⟨-, dropped⟩
  · rw [kept]
  · rw [dropped, same]

theorem computeCount_guardedBy (name : String) :
    Option.GuardedBy (Reader.dirtyTrusted table storage manifest schemaId)
      (computeCount ((Reader.scanLive table storage manifest schemaId).map
        fun group => group.toAggregatedRowGroup) (.column name))
      (computeCount ((Reader.scanTrusted table storage manifest schemaId).map
        fun group => group.toAggregatedRowGroup) (.column name)) := by
  rw [computeCount, computeCount, List.mapM_map, List.mapM_map]
  exact (checksClean_columnCount name).mapM.map _

theorem composeSum_guardedBy (name : String) (outType : SqlType) :
    Option.GuardedBy (Reader.dirtyTrusted table storage manifest schemaId)
      (composeSum ((Reader.scanLive table storage manifest schemaId).map
        fun group => group.toAggregatedRowGroup) outType (.column name))
      (composeSum ((Reader.scanTrusted table storage manifest schemaId).map
        fun group => group.toAggregatedRowGroup) outType (.column name)) := by
  apply Option.GuardedBy.bind
  rw [collectColPartials, collectColPartials, List.mapM_map, List.mapM_map]
  exact (checksClean_usablePartial name).mapM.bind _

theorem computeExtremum_guardedBy {extremum : String → ExtremaRowGroup F → Option Scalar}
    (needs : NeedsSidecar extremum) (pick : KeyValue → KeyValue → KeyValue)
    (schema : List StackField) (name : String) :
    Option.GuardedBy (Reader.dirtyTrusted table storage manifest schemaId)
      (computeExtremum extremum pick schema ((Reader.scanLive table storage manifest schemaId).map
        LiveRowGroup.toExtremaRowGroup) (.column name))
      (computeExtremum extremum pick schema ((Reader.scanTrusted table storage manifest
        schemaId).map LiveRowGroup.toExtremaRowGroup) (.column name)) := by
  rw [computeExtremum, computeExtremum]
  cases schema.find? fun field => field.name = name with
  | none => exact fun _ found => nomatch found
  | some field =>
      simp only [Option.bind_eq_bind, Option.bind_some, List.mapM_map]
      exact (needs.checksClean name field.type).mapM.bind _

theorem composeAggregate_guardedBy [IntCast F] (schema : List StackField)
    (aggregate : StackAggregate) :
    Option.GuardedBy
      (!overColumn aggregate || Reader.dirtyTrusted table storage manifest schemaId)
      (composeAggregate schema ((Reader.scanLive table storage manifest schemaId).map
        LiveRowGroup.toExtremaRowGroup) aggregate)
      (composeAggregate schema ((Reader.scanTrusted table storage manifest schemaId).map
        LiveRowGroup.toExtremaRowGroup) aggregate) := by
  unfold composeAggregate overColumn
  rw [List.map_map, List.map_map]
  cases arg : aggregateArg aggregate.arg with
  | column name =>
      have column : decide (AggregateArg.column name ≠ .literal) = true :=
        decide_eq_true nofun
      rw [column, Bool.not_true, Bool.false_or]
      split
      · exact (computeCount_guardedBy name).map _
      · apply Option.GuardedBy.bind_right
        intro kind
        exact (composeSum_guardedBy name (sumType kind)).map _
      · apply Option.GuardedBy.ite_left
        exact (computeExtremum_guardedBy needsSidecar_minJson pickMin schema name).map _
      · apply Option.GuardedBy.ite_left
        exact (computeExtremum_guardedBy needsSidecar_maxJson pickMax schema name).map _
  | literal =>
      have literal : decide (AggregateArg.literal ≠ .literal) = false := by decide
      rw [literal, Bool.not_false, Bool.true_or]
      apply Option.GuardedBy.of_true rfl
      split
      · rw [computeCount, computeCount, List.map_map, List.map_map]
        rw [map_scanTrusted fun _ => rfl]
      all_goals rfl
  | other =>
      intro value found
      split at found <;> simp [computeCount, composeSum, computeMin, computeMax, computeExtremum] at found

theorem composeFromScan_guardedBy [IntCast F] (schema : List StackField)
    (aggregates : List StackAggregate) :
    Option.GuardedBy
      (aggregates.all fun aggregate =>
        !overColumn aggregate || Reader.dirtyTrusted table storage manifest schemaId)
      (composeFromScan schema ((Reader.scanLive table storage manifest schemaId).map
        LiveRowGroup.toExtremaRowGroup) aggregates)
      (composeFromScan schema ((Reader.scanTrusted table storage manifest schemaId).map
        LiveRowGroup.toExtremaRowGroup) aggregates) := by
  apply Option.GuardedBy.ite_right
  exact List.mapM_guardedBy fun aggregate _ => composeAggregate_guardedBy schema aggregate

theorem composeGrouped_guardedBy [Div F] [NatCast F] (keyName : String)
    (aggregates : List GroupAggregate) :
    Option.GuardedBy (Reader.dirtyTrusted table storage manifest schemaId)
      (composeGrouped table.kernel table.grouping keyName aggregates
        ((Reader.scanLive table storage manifest schemaId).map LiveRowGroup.toGroupedRowGroup))
      (composeGrouped table.kernel table.grouping keyName aggregates
        ((Reader.scanTrusted table storage manifest schemaId).map
          LiveRowGroup.toGroupedRowGroup)) := by
  apply Option.GuardedBy.ite_right
  apply Option.GuardedBy.bind_right
  intro column
  apply Option.GuardedBy.bind
  rw [List.mapM_map, List.mapM_map]
  exact (checksClean_usableGrouped keyName).mapM

/-! ## Composing over a filter -/

/-- Covered row groups have no stale sidecars. -/
theorem planTrusted_of_trusted {index : Nat} {entry : RowGroupEntry}
    (trust : trusted (Reader.planLive table storage manifest schemaId index
      entry).toAggregatedRowGroup = true) :
    Reader.planTrusted table storage manifest schemaId index entry =
      Reader.planLive table storage manifest schemaId index entry := by
  rcases @planTrusted_cases R F _ table storage manifest schemaId index entry with
    kept | ⟨stale, -⟩
  · exact kept
  · rw [trusted, Bool.and_eq_true, Option.any_eq_true] at trust
    obtain ⟨state, state_eq, same⟩ := trust.2
    exact absurd (of_decide_eq_true same) (Reader.isStale_planLive stale state state_eq)

/-- Two functions that agree on which elements are kept, and on what becomes of these. -/
theorem map_filter_map_congr {α β γ : Type} {first second : α → β} {keep : β → Bool} {f : β → γ}
    {list : List α} (same : ∀ element ∈ list, keep (first element) = keep (second element))
    (kept : ∀ element ∈ list, keep (second element) = true →
      f (first element) = f (second element)) :
    ((list.map first).filter keep).map f = ((list.map second).filter keep).map f := by
  induction list with
  | nil => rfl
  | cons element list ih =>
      rw [List.forall_mem_cons] at same kept
      have rest := ih same.2 kept.2
      rw [List.map_cons, List.map_cons, List.filter_cons, List.filter_cons, same.1]
      split
      · next keeps => rw [List.map_cons, List.map_cons, kept.1 keeps, rest]
      · exact rest

section

variable {keep : AggregatedRowGroup F → Bool}
  (same : ∀ group : LiveRowGroup F,
    keep group.withoutSidecar.toAggregatedRowGroup = keep group.toAggregatedRowGroup)

include same

theorem keep_planTrusted (position : RowGroupEntry × Nat) :
    keep (Reader.planTrusted table storage manifest schemaId position.2
        position.1).toAggregatedRowGroup =
      keep (Reader.planLive table storage manifest schemaId position.2
        position.1).toAggregatedRowGroup := by
  rcases @planTrusted_cases R F _ table storage manifest schemaId position.2 position.1 with
    whole | ⟨-, dropped⟩
  · rw [whole]
  · rw [dropped, same]

/-- Trusted row groups of a plan are the same without stale sidecars. -/
theorem filter_scanTrusted (trust : (((Reader.scanLive table storage manifest schemaId).map
      fun group => group.toAggregatedRowGroup).filter keep).all trusted = true) :
    ((Reader.scanTrusted table storage manifest schemaId).map
        fun group => group.toAggregatedRowGroup).filter keep =
      ((Reader.scanLive table storage manifest schemaId).map
        fun group => group.toAggregatedRowGroup).filter keep := by
  rw [Reader.scanLive, List.mapIdx_eq_zipIdx_map, List.map_map] at trust ⊢
  rw [Reader.scanTrusted, List.mapIdx_eq_zipIdx_map, List.map_map]
  rw [List.all_eq_true] at trust
  apply List.map_injective_iff.mpr Function.injective_id
  apply map_filter_map_congr
  · exact fun position _ => keep_planTrusted same position
  · intro position member kept
    have listed := List.mem_filter.mpr ⟨List.mem_map_of_mem member, kept⟩
    exact congrArg (fun group => group.toAggregatedRowGroup)
      (planTrusted_of_trusted (trust _ listed))

/-- The other row groups of a plan are at least in the same files. -/
theorem entry_filter_scanTrusted :
    (((Reader.scanTrusted table storage manifest schemaId).map
        fun group => group.toAggregatedRowGroup).filter keep).map (fun group => group.entry) =
      (((Reader.scanLive table storage manifest schemaId).map
        fun group => group.toAggregatedRowGroup).filter keep).map fun group => group.entry := by
  rw [Reader.scanLive, List.mapIdx_eq_zipIdx_map, Reader.scanTrusted, List.mapIdx_eq_zipIdx_map,
    List.map_map, List.map_map]
  apply map_filter_map_congr
  · exact fun position _ => keep_planTrusted same position
  · intro position _ _
    rcases @planTrusted_cases R F _ table storage manifest schemaId position.2 position.1 with
      whole | ⟨-, dropped⟩
    · exact congrArg (fun group => group.entry) whole
    · exact congrArg (fun group => group.entry) dropped

end

/-- Row groups of the same files are scanned alike. -/
theorem execute_congr {rewrite other : FilteredRewrite F} (const : other.const = rewrite.const)
    (entries : other.boundary.map (fun group => group.entry) =
      rewrite.boundary.map fun group => group.entry)
    (engine : FilterEngine R) (filters : List (FilterExpr R)) (query : Query) :
    other.execute table.kernel engine storage filters query =
      rewrite.execute table.kernel engine storage filters query := by
  have empty : other.boundary.isEmpty = rewrite.boundary.isEmpty := by
    rw [← List.isEmpty_map, entries, List.isEmpty_map]
  have scanned : (other.boundary.mapM fun group => scanRows storage group.entry) =
      rewrite.boundary.mapM fun group => scanRows storage group.entry := by
    have both := congrArg (List.mapM (scanRows storage)) entries
    rw [List.mapM_map, List.mapM_map] at both
    exact both
  rw [FilteredRewrite.execute, FilteredRewrite.execute, const, empty, scanned]

/-- The plan over a filter does not depend on stale sidecars. -/
theorem composeFiltered_scanTrusted [IntCast F] {filters : List (FilterExpr R)} {query : Query}
    {rewrite : FilteredRewrite F}
    (found : composeFiltered table.kernel filters query
      ((Reader.scanLive table storage manifest schemaId).map
        fun group => group.toAggregatedRowGroup) = some rewrite) :
    ∃ other, composeFiltered table.kernel filters query
        ((Reader.scanTrusted table storage manifest schemaId).map
          fun group => group.toAggregatedRowGroup) = some other ∧
      other.const = rewrite.const ∧
      other.boundary.map (fun group => group.entry) =
        rewrite.boundary.map fun group => group.entry := by
  obtain ⟨filter, decoded, rest⟩ := Option.bind_eq_some_iff.mp found
  obtain ⟨readable, rest⟩ := Option.ite_none_left_eq_some.mp rest
  obtain ⟨checked, rest⟩ := Option.ite_none_left_eq_some.mp rest
  obtain ⟨const, const_eq, rfl⟩ := Option.map_eq_some_iff.mp rest
  rw [Bool.not_eq_true, Bool.or_eq_false_iff, Bool.not_eq_false'] at checked
  have covered := @filter_scanTrusted R F _ table storage manifest schemaId
    (fun group => classifyFragment filter group = .covered) (fun _ => rfl) checked.2
  have fallbacks := congrArg (fun values => values.any id)
    (@map_scanTrusted R F _ table storage manifest schemaId _ (fun group => group.fallback)
      fun _ => rfl)
  rw [List.any_map, Function.comp_def] at readable
  simp only [List.any_map, Function.id_comp] at fallbacks
  have rewritten : composeFiltered table.kernel filters query
      ((Reader.scanTrusted table storage manifest schemaId).map
        fun group => group.toAggregatedRowGroup) = some
      { const
        boundary := ((Reader.scanTrusted table storage manifest schemaId).map
          fun group => group.toAggregatedRowGroup).filter
            fun group => classifyFragment filter group = .boundary } := by
    rw [composeFiltered, decoded]
    simp only [Option.bind_eq_bind, Option.bind_some, covered, checked, const_eq]
    rw [List.any_map, Function.comp_def, fallbacks, if_neg readable]
    rfl
  exact ⟨_, rewritten, rfl, entry_filter_scanTrusted fun _ => rfl⟩

theorem compose_guardedBy [IntCast F] [Div F] [NatCast F] (query : RuleQuery R) :
    Option.GuardedBy
      (!usesDirty query || Reader.dirtyTrusted table storage manifest schemaId)
      (compose table storage (Reader.scanLive table storage manifest schemaId) query)
      (compose table storage (Reader.scanTrusted table storage manifest schemaId) query) := by
  cases query with
  | plain schema aggregates =>
      have condition : (!usesDirty (.plain schema aggregates : RuleQuery R) ||
          Reader.dirtyTrusted table storage manifest schemaId) =
            aggregates.all fun aggregate =>
              !overColumn aggregate || Reader.dirtyTrusted table storage manifest schemaId := by
        rw [usesDirty]
        cases Reader.dirtyTrusted table storage manifest schemaId <;>
          simp [List.all_eq_not_any_not]
      rw [condition]
      exact (composeFromScan_guardedBy schema aggregates).map _
  | filtered filters query =>
      intro answer found
      obtain ⟨rewrite, rewrite_eq, executed⟩ := Option.bind_eq_some_iff.mp found
      obtain ⟨other, other_eq, const, entries⟩ := composeFiltered_scanTrusted rewrite_eq
      rw [compose, other_eq, Option.bind_eq_bind, Option.bind_some,
        execute_congr const entries]
      exact executed
  | grouped keyName aggregates => exact (composeGrouped_guardedBy keyName aggregates).map _

/-- An answer is composed without stale sidecars exactly if no row group with deleted rows has one, or
the query takes nothing from the sidecars of these. -/
theorem compose_withoutStale_iff [IntCast F] [Div F] [NatCast F] {query : RuleQuery R}
    {answer : RuleAnswer F}
    (answered : compose table storage (Reader.scanLive table storage manifest schemaId) query =
      some answer) :
    compose table storage (Reader.scanTrusted table storage manifest schemaId) query =
        some answer ↔
      (usesDirty query = true →
        ∀ index entry, manifest.rowGroups[index]? = some entry → 0 < entry.deletedCount →
          Reader.isStale table storage manifest schemaId index entry = false) := by
  rw [compose_guardedBy query answer answered, ← Reader.dirtyTrusted_iff]
  cases usesDirty query <;>
    cases Reader.dirtyTrusted table storage manifest schemaId <;> simp

end

/-! ## A stale sidecar of a row group with a deleted row -/

namespace StaleSidecar

def table : RuleTable (Option Int) Int :=
  { kernel := DeletedRow.kernel
    grouping := { columns := ∅, aggGroupKeys := [], declaredIn := fun _ => none }
    engine := { cell := fun _ _ => .null, compare := fun _ _ => none }
    offset := fun _ _ _ => none }

/-- A row group with two rows, the first of which is deleted, and a sidecar of some rows. -/
def storage (contentHash : String) (rows : List (Option Int)) : TableStorage (Option Int) :=
  { DeletedRow.storage with
    files := (DeletedRow.storage.files.insert "rg_1.parquet" (.data [some 5, some 7])).insert
      "rg_1.agg" (.aggregate 0 contentHash rows) }

/-- The sidecar was computed from another file. -/
def stale : TableStorage (Option Int) :=
  storage "x" [some 5, some 70]

def current : TableStorage (Option Int) :=
  storage "c" [some 5, some 7]

def schema : List StackField :=
  [{ name := "v", type := .int64, kind := some .signed }]

def aggregates : List StackAggregate :=
  [{ function := .sum, arg := .column { name := "v", index := 0 }, distinct := false }]

/-- The sum is that of the stale sidecar. -/
theorem sum_stale : ∃ answer,
    compose table stale (Reader.scanLive table stale DeletedRow.manifest 1)
        (.plain schema aggregates) = some answer ∧
      answer = .plain [.scalar (.int64 (some 70))] ∧
      compose table stale (Reader.scanTrusted table stale DeletedRow.manifest 1)
        (.plain schema aggregates) ≠ some answer := by
  have used : composeFromScan schema
      ((Reader.scanLive table stale DeletedRow.manifest 1).map
        LiveRowGroup.toExtremaRowGroup) aggregates = some [.scalar (.int64 (some 70))] := by
    decide +kernel
  have none_left : composeFromScan schema
      ((Reader.scanTrusted table stale DeletedRow.manifest 1).map
        LiveRowGroup.toExtremaRowGroup) aggregates = none := by
    decide +kernel
  refine ⟨_, congrArg (Option.map RuleAnswer.plain) used, rfl, ?_⟩
  rw [compose, none_left]
  nofun

/-- A sum from the sidecar of the data file. -/
theorem sum_current :
    compose table current (Reader.scanTrusted table current DeletedRow.manifest 1)
      (.plain schema aggregates) = some (.plain [.scalar (.int64 (some 7))]) := by
  have used : composeFromScan schema
      ((Reader.scanLive table current DeletedRow.manifest 1).map LiveRowGroup.toExtremaRowGroup)
        aggregates = some [.scalar (.int64 (some 7))] := by
    decide +kernel
  have answered : compose table current (Reader.scanLive table current DeletedRow.manifest 1)
      (.plain schema aggregates) = some (.plain [.scalar (.int64 (some 7))]) :=
    congrArg (Option.map RuleAnswer.plain) used
  apply (compose_withoutStale_iff answered).mpr
  intro _ index entry found _
  obtain ⟨rfl, rfl, -⟩ := DeletedRow.findMeta_eq found
  decide +kernel

end StaleSidecar

end MetadataAggregate

end IcefallDB
