import IcefallDB.ScanExec.Offsets
import IcefallDB.Table.SnapshotReads
import Mathlib.Data.List.Lex

/-!
# Orderings of scans

A sidecar names the sort keys of the schema, and a scan whose row groups all name the same keys
declares that each partition is ordered by those of them that it projects.  Nobody checks that the
rows are in this order.  They are if every write was, and if no key is left out before one that is
projected.
-/

namespace IcefallDB

open ScanSelection

variable {lib : RowSelections} {R V : Type}

/-- The sort keys of the partitions, if they all have the same. -/
def sharedSort : List (ScanSelection.ScanPartition lib) → Option (List String)
  | [] => none
  | first :: rest =>
      match first.rowGroup.sidecar.sort with
      | some sort =>
          if rest.any fun partition => decide (partition.rowGroup.sidecar.sort ≠ some sort) then none
          else some sort
      | none => none

/-- The declared ordering of the output: columns by name and position. -/
def computeProperties (outputSchema : List String)
    (partitions : List (ScanSelection.ScanPartition lib)) : Option (List (String × Nat)) := do
  let sort ← sharedSort partitions
  let sortExprs := sort.filterMap fun name =>
    (outputSchema.idxOf? name).map fun position => (name, position)
  if sortExprs.isEmpty then none else some sortExprs

/-- A scan of some columns for the rows that pass its filters. -/
structure ColumnScan (R V : Type) where
  /-- The value of a row in a column. -/
  cell : String → R → V
  columns : List String
  passes : R → Bool
  limit : Option Nat

namespace ColumnScan

/-- The lines of a partition: the reader returns the selected rows in physical order, without those
that do not pass, up to the limit. -/
def lines (scan : ColumnScan R V) (vectors : String → DeletionVector)
    (partition : ScanSelection.ScanPartition lib) (rows : List R) : List (List V) :=
  (Limits.upTo scan.limit (((livePhysicalOffsets (effectiveRowSelection vectors partition)
    partition.rowGroup.sidecar.rows).filterMap fun offset => rows[offset]?).filter scan.passes)).map
      fun row => scan.columns.map fun column => scan.cell column row

end ColumnScan

/-- The values of a line that an ordering compares. -/
def sortValues (ordering : List (String × Nat)) (cells : List V) : List V :=
  ordering.filterMap fun key => cells[key.2]?

/-- The lines are in ascending lexicographic order. -/
def Ordered [LinearOrder V] (ordering : List (String × Nat)) (lines : List (List V)) : Prop :=
  lines.Pairwise fun first second => sortValues ordering first ≤ sortValues ordering second

/-! ## Orders of rows -/

section

variable [LinearOrder V] {cell : String → R → V} {keys kept : List String} {rows : List R}

/-- The rows are in ascending order by the columns. -/
def InOrder (cell : String → R → V) (keys : List String) (rows : List R) : Prop :=
  rows.Pairwise fun first second =>
    keys.map (fun key => cell key first) ≤ keys.map (fun key => cell key second)

/-- A lexicographic order is kept by prefixes. -/
theorem le_of_append_le_append {first second firstRest secondRest : List V}
    (length_eq : first.length = second.length) (le : first ++ firstRest ≤ second ++ secondRest) :
    first ≤ second := by
  by_contra gt
  have descends : second < first := not_le.mp gt
  have later : second ++ secondRest < first ++ firstRest := by
    clear le gt
    induction descends with
    | nil => cases length_eq
    | cons _ ih => exact .cons (ih (Nat.succ.inj length_eq))
    | rel less => exact .rel less
  exact not_lt.mpr le later

theorem InOrder.of_leading (ordered : InOrder cell keys rows) (leading : kept <+: keys) :
    InOrder cell kept rows := by
  obtain ⟨rest, rfl⟩ := leading
  refine ordered.imp fun {first second} le => ?_
  rw [List.map_append, List.map_append] at le
  apply le_of_append_le_append _ le
  rw [List.length_map, List.length_map]

end

/-- Offsets of a selection ascend. -/
theorem pairwise_offsetsFrom (position : Nat) (selectors : List RowSelector) :
    (RowSelection.offsetsFrom position selectors).Pairwise (· < ·) ∧
      ∀ offset ∈ RowSelection.offsetsFrom position selectors, position ≤ offset := by
  induction selectors generalizing position with
  | nil => exact ⟨.nil, nofun⟩
  | cons selector selectors ih =>
      obtain ⟨ascends, later⟩ := ih (position + selector.rowCount)
      rw [RowSelection.offsetsFrom]
      split
      · exact ⟨ascends, fun offset member => by have := later offset member; omega⟩
      · constructor
        · refine List.pairwise_append.mpr ⟨List.pairwise_lt_range', ascends, ?_⟩
          intro first inside second member
          have after := later second member
          obtain ⟨step, bound, rfl⟩ := List.mem_range'.mp inside
          omega
        · intro offset member
          rcases List.mem_append.mp member with inside | member
          · obtain ⟨step, bound, rfl⟩ := List.mem_range'.mp inside
            omega
          · have := later offset member
            omega

theorem pairwise_livePhysicalOffsets (selection : Option lib.Selection) (total : Nat) :
    (livePhysicalOffsets selection total).Pairwise (· < ·) := by
  cases selection with
  | none => exact List.pairwise_lt_range
  | some selection => exact (pairwise_offsetsFrom 0 (lib.iter selection)).1

/-- Rows at ascending offsets keep their order. -/
theorem pairwise_filterMap_getElem {relation : R → R → Prop} {rows : List R} {offsets : List Nat}
    (ordered : rows.Pairwise relation) (ascends : offsets.Pairwise (· < ·)) :
    (offsets.filterMap fun offset => rows[offset]?).Pairwise relation := by
  rw [List.pairwise_filterMap]
  refine ascends.imp fun {first second} less left found right sought => ?_
  obtain ⟨inside, rfl⟩ := List.getElem?_eq_some_iff.mp found
  obtain ⟨bound, rfl⟩ := List.getElem?_eq_some_iff.mp sought
  exact List.pairwise_iff_getElem.mp ordered first second inside bound less

theorem upTo_sublist (limit : Option Nat) (rows : List R) : (Limits.upTo limit rows).Sublist rows := by
  cases limit with
  | none => exact .refl rows
  | some limit => exact List.take_sublist limit rows

/-! ## Order of the lines -/

theorem mem_of_sharedSort {partitions : List (ScanSelection.ScanPartition lib)} {sort : List String}
    (shared : sharedSort partitions = some sort) :
    ∀ partition ∈ partitions, partition.rowGroup.sidecar.sort = some sort := by
  intro partition member
  cases partitions with
  | nil => cases member
  | cons first rest =>
      rw [sharedSort] at shared
      split at shared
      · next found =>
          split at shared
          · cases shared
          · next same =>
              obtain rfl := Option.some.inj shared
              rcases List.mem_cons.mp member with rfl | later
              · exact found
              · simp only [List.any_eq_true, decide_eq_true_eq, not_exists, not_and,
                  not_not] at same
                exact same partition later
      · cases shared

/-- The declared ordering compares the values of the sort keys that are projected. -/
theorem sortValues_line (cell : String → R → V) (columns : List String) (row : R) (sort : List String) :
    sortValues (sort.filterMap fun name => (columns.idxOf? name).map fun position => (name, position))
        (columns.map fun column => cell column row) =
      (sort.filter (· ∈ columns)).map fun key => cell key row := by
  induction sort with
  | nil => rfl
  | cons name sort ih =>
      by_cases member : name ∈ columns
      · obtain ⟨position, found⟩ := Option.isSome_iff_exists.mp (List.isSome_idxOf?.mpr member)
        obtain ⟨inside, named⟩ : ∃ inside : position < columns.length, columns[position] = name := by
          obtain ⟨inside, named, -⟩ := List.idxOf?_eq_some_iff.mp found
          exact ⟨inside, named⟩
        rw [List.filterMap_cons_some (by rw [found]; rfl), sortValues, List.filterMap_cons_some
          (b := cell name row) (by simp [inside, named]), List.filter_cons_of_pos (by simpa using member),
          List.map_cons]
        exact congrArg _ ih
      · have missing : columns.idxOf? name = none := by simpa using member
        rw [List.filterMap_cons_none (by rw [missing]; rfl), List.filter_cons_of_neg
          (by simpa using member)]
        exact ih

/-- A partition whose rows are in the order of its sort keys has its lines in the declared order, if no
key is left out before one that is projected. -/
theorem ordered_lines [LinearOrder V] {scan : ColumnScan R V}
    {partitions : List (ScanSelection.ScanPartition lib)} {partition : ScanSelection.ScanPartition lib}
    {vectors : String → DeletionVector} {rows : List R} (member : partition ∈ partitions)
    (inOrder : ∀ keys, partition.rowGroup.sidecar.sort = some keys → InOrder scan.cell keys rows)
    (leading : ∀ sort, sharedSort partitions = some sort →
      sort.filter (· ∈ scan.columns) <+: sort) :
    ∀ ordering, computeProperties scan.columns partitions = some ordering →
      Ordered ordering (scan.lines vectors partition rows) := by
  intro ordering declared
  obtain ⟨sort, shared, declared⟩ := Option.bind_eq_some_iff.mp declared
  have projected := (inOrder sort (mem_of_sharedSort shared partition member)).of_leading
    (leading sort shared)
  obtain rfl : _ = ordering := by
    dsimp only at declared
    split at declared
    · cases declared
    · exact Option.some.inj declared
  rw [Ordered, ColumnScan.lines, List.pairwise_map]
  simp only [sortValues_line]
  have read := pairwise_filterMap_getElem projected (pairwise_livePhysicalOffsets
    (effectiveRowSelection vectors partition) partition.rowGroup.sidecar.rows)
  exact (read.sublist List.filter_sublist).sublist (upTo_sublist _ _)

namespace RowCounts

variable {staging : List Compactor.StagingState} {storage middle after : TableStorage R}

/-! ## Writes in order -/

section

variable [LinearOrder V]

/-- The rows are in the order of the sort keys of the schema. -/
def Sorted (cell : String → R → V) (schema : Schema) (rows : List R) : Prop :=
  ∀ keys, schema.sort = some keys → InOrder cell keys rows

/-- The rows of each row group that the action writes are in the order of the sort keys. -/
def WritesInOrder (cell : String → R → V) : TableAction R → Prop
  | .commit writer choices buffer => ∀ groups, writer.planRowGroups choices buffer = .ok groups →
      ∀ rows ∈ groups, Sorted cell writer.schema rows
  | .replace writer choices buffer => ∀ groups, writer.planRowGroups choices buffer = .ok groups →
      ∀ rows ∈ groups, Sorted cell writer.schema rows
  | .insertParquet writer _ source => Sorted cell writer.schema source.rows
  | .mutate writer _ mutation =>
      match mutation with
      | .delete _ => True
      | .update batch locs _ =>
          Sorted cell writer.schema ((Writer.sortByRowId locs batch.rows).map Prod.snd)
      | .merge matched locs inserts =>
          Sorted cell writer.schema ((Writer.sortByRowId locs matched).map Prod.snd) ∧
            Sorted cell writer.schema inserts.rows
  | .stageChunk compactor _ schema _ _ chunk => ∀ rows, compactor.maybeSortBatch chunk.1 = .ok rows →
      Sorted cell schema rows
  | _ => True

/-- The rows are in the order of the sort keys that the sidecar names. -/
def Sidecared (cell : String → R → V) (rows : List R) (sidecar : RowGroupMeta) : Prop :=
  ∀ keys, sidecar.sort = some keys → InOrder cell keys rows

theorem sidecared_of_computeRowGroupMeta {cell : String → R → V} {kernel : Kernel R} {schema : Schema}
    {rgId : String} {rows : List R} {rowIds : List RowIdSegment} {sidecar : RowGroupMeta}
    (sorted : Sorted cell schema rows)
    (computed : kernel.computeRowGroupMeta schema rgId rows rowIds = .ok sidecar) :
    Sidecared cell rows sidecar := by
  obtain ⟨⟨columns, columnOffsets⟩, -, made⟩ := Script.except_bind_eq_ok.mp computed
  rw [← Except.ok.inj made]
  exact sorted

theorem keeps_sidecared (cell : String → R → V) (pins : List RecordedCounts) :
    Keeps (fun _ => Sidecared cell) (WritesInOrder cell) pins := by
  intro staging storage action inOrder _
  cases action with
  | commit | replace =>
      exact fun groups planned rows listed _ _ _ _ _ computed =>
        sidecared_of_computeRowGroupMeta (inOrder groups planned rows listed) computed
  | insertParquet writer choices source =>
      exact ⟨fun _ _ _ _ => inOrder, fun _ _ _ _ shared => shared⟩
  | mutate writer choices mutation =>
      cases mutation with
      | delete => trivial
      | update => exact fun _ _ _ _ _ computed => sidecared_of_computeRowGroupMeta inOrder computed
      | merge =>
          constructor
          · exact fun _ _ _ _ _ computed => sidecared_of_computeRowGroupMeta inOrder.1 computed
          · exact fun _ _ _ _ _ computed => sidecared_of_computeRowGroupMeta inOrder.2 computed
  | stageChunk =>
      exact fun rows sorted _ _ _ _ _ computed =>
        sidecared_of_computeRowGroupMeta (inOrder rows sorted) computed
  | _ => trivial

end

/-! ## Plans -/

/-- A valid checkpoint of the manifest, if there is one, repeats the sort keys of the sidecars. -/
def RepeatsSort (storage : TableStorage R) (manifest : Manifest) : Prop :=
  ∀ checkpoint, Reader.loadCheckpoint storage manifest = some checkpoint →
    ∀ listed ∈ manifest.rowGroups.zip checkpoint.fragments, ∃ sidecar,
      storage.files.lookup listed.1.metaFile = some (.sidecar sidecar) ∧ sidecar.sort = listed.2.sort

/-- The sidecar of a planned row group names the same sort keys. -/
def Planned (storage : TableStorage R) (manifest : Manifest) (planned : PlannedRowGroup) : Prop :=
  planned.entry ∈ manifest.rowGroups ∧ ∃ sidecar,
    storage.files.lookup planned.entry.metaFile = some (.sidecar sidecar) ∧
      sidecar.sort = planned.sidecar.sort

theorem planned_of_planFromSidecar {manifest : Manifest} {schemaId : Nat} {entry : RowGroupEntry}
    {planned : PlannedRowGroup} (listed : entry ∈ manifest.rowGroups)
    (run : (Reader.planFromSidecar manifest schemaId entry).Ends storage planned after) :
    storage = after ∧ Planned storage manifest planned := by
  obtain ⟨sidecar, _, verified, run⟩ := Script.ends_bind.mp run
  obtain ⟨contents, reached, read, verified⟩ := Script.ends_bind.mp verified
  obtain ⟨_, _, current, read⟩ := Script.ends_bind.mp read
  obtain ⟨rfl, rfl⟩ := Script.ends_read.mp current
  obtain ⟨found, rfl⟩ : storage.files.lookup entry.metaFile = some contents ∧ storage = reached := by
    cases sought : storage.files.lookup entry.metaFile with
    | none =>
        rw [sought] at read
        exact (Script.ends_fail.mp read).elim
    | some stored =>
        rw [sought] at read
        obtain ⟨rfl, rfl⟩ := Script.ends_pure.mp read
        exact ⟨rfl, rfl⟩
  cases contents with
  | sidecar stored =>
      obtain ⟨_, _, ensured, made⟩ := Script.ends_bind.mp verified
      obtain ⟨-, rfl⟩ := Script.ends_ensure.mp ensured
      obtain ⟨rfl, rfl⟩ := Script.ends_pure.mp made
      obtain ⟨_, _, ensured, made⟩ := Script.ends_bind.mp run
      obtain ⟨-, rfl⟩ := Script.ends_ensure.mp ensured
      obtain ⟨rfl, rfl⟩ := Script.ends_pure.mp made
      exact ⟨rfl, listed, _, found, rfl⟩
  | _ => exact (Script.ends_fail.mp verified).elim

theorem planned_of_collect {manifest : Manifest} {schemaId : Nat} {entries : List RowGroupEntry}
    {plan : List PlannedRowGroup} (listed : entries ⊆ manifest.rowGroups)
    (run : (Script.collect (Reader.planFromSidecar manifest schemaId) entries).Ends storage plan after) :
    ∀ planned ∈ plan, Planned storage manifest planned := by
  induction entries generalizing plan with
  | nil =>
      obtain ⟨rfl, -⟩ := Script.ends_collect_nil.mp run
      exact nofun
  | cons entry entries ih =>
      obtain ⟨first, _, made, rest, run, rfl⟩ := Script.ends_collect_cons.mp run
      obtain ⟨rfl, known⟩ := planned_of_planFromSidecar (listed List.mem_cons_self) made
      intro planned member
      rcases List.mem_cons.mp member with rfl | later
      · exact known
      · exact ih (List.subset_of_cons_subset listed) run planned later

/-- What a scan plans, from a checkpoint or from the sidecars. -/
theorem planned_of_buildScanPlan {manifest : Manifest} {schemaId : Nat} {plan : List PlannedRowGroup}
    (repeats : RepeatsSort storage manifest)
    (run : (Reader.buildScanPlan manifest schemaId).Ends storage plan after) :
    ∀ planned ∈ plan, Planned storage manifest planned := by
  obtain ⟨_, _, current, run⟩ := Script.ends_bind.mp run
  obtain ⟨rfl, rfl⟩ := Script.ends_read.mp current
  cases loaded : Reader.loadCheckpoint storage manifest with
  | none =>
      rw [loaded] at run
      exact planned_of_collect (List.Subset.refl _) run
  | some checkpoint =>
      rw [loaded] at run
      obtain ⟨rfl, -⟩ := Script.ends_pure.mp run
      intro planned member
      rw [← List.map_uncurry_zip_eq_zipWith] at member
      obtain ⟨⟨entry, summary⟩, listed, rfl⟩ := List.mem_map.mp member
      obtain ⟨sidecar, found, same⟩ := repeats checkpoint loaded _ listed
      exact ⟨(List.of_mem_zip listed).1, sidecar, found, same⟩

/-! ## Scans of a run -/

/-- In a run that writes each row group in the order of the sort keys, a scan that leaves out no key
before one that it projects has the lines of each partition in the order that it declares. -/
theorem ordered_of_writesInOrder [LinearOrder V] {scan : ColumnScan R V} {start : TableStorage R}
    {live : Manifest} {schemaId : Nat} {plan : List PlannedRowGroup}
    (unpublished : start.manifests = ∅) (unlogged : start.log = [])
    (run : Relation.ReflTransGen (Step (WritesInOrder scan.cell) []) ([], start) (staging, storage))
    (loads : (Catalog.refresh Except.ok).Ends storage (some live) middle)
    (repeats : RepeatsSort middle live)
    (plans : (Reader.buildScanPlan live schemaId).Ends middle plan after)
    {partitions : List (ScanSelection.ScanPartition lib)}
    (cut : ∀ partition ∈ partitions, partition.rowGroup ∈ plan)
    (leading : ∀ sort, sharedSort partitions = some sort →
      sort.filter (· ∈ scan.columns) <+: sort) :
    ∀ ordering, computeProperties scan.columns partitions = some ordering →
      ∀ partition ∈ partitions, ∀ vectors rows,
        middle.files.lookup partition.rowGroup.entry.data = some (.data rows) →
          Ordered ordering (scan.lines vectors partition rows) := by
  intro ordering declared partition member vectors rows found
  have reached := counted_of_steps (keeps_sidecared scan.cell []) run
    (counted_of_empty unpublished unlogged)
  obtain ⟨-, known⟩ := (safe_refresh reached).ends _ _ loads
  obtain ⟨listed, sidecar, stored, same⟩ :=
    planned_of_buildScanPlan repeats plans _ (cut partition member)
  obtain ⟨written, writtenSidecar, held, inOrder⟩ :=
    (known live rfl).held _ (List.mem_map_of_mem listed)
  obtain rfl := File.data.inj (held.data_eq _ found)
  obtain rfl := File.sidecar.inj (held.sidecar_eq _ stored)
  refine ordered_lines member (fun keys named => ?_) leading ordering declared
  exact inOrder keys (same.trans named)

/-! ## Appends with a sort key -/

/-- A writer of the numbers with a sort key. -/
def sortingWriter : Writer Int :=
  { Integers.writer with schema := { Integers.writer.schema with sort := some ["id"] } }

/-- Appending some rows to a new table. -/
def sortedAppend (rows : List Int) : TableAction Int :=
  .commit sortingWriter (Integers.choices 0) [rows]

/-- The directory after the append of two rows, which has 23 effects. -/
def appendedRows (rows : List Int) : TableStorage Int :=
  (sortedAppend rows).program.crash TableAction.created 23

/-- The directory once a reader has loaded the live manifest. -/
def refreshedRows (rows : List Int) : TableStorage Int :=
  (Catalog.refresh Except.ok).final (appendedRows rows)

/-- A scan of the column for all rows. -/
def idScan : ColumnScan Int Int where
  cell _ row := row
  columns := ["id"]
  passes _ := true
  limit := none

/-- What a reader finds of a row group. -/
structure ScannedRowGroup where
  stored : Option (List Int)
  deletes : Option String
  sort : Option (List String)
  rows : Nat
  deriving DecidableEq

/-- What a reader finds: the row groups of the plan, and whether a checkpoint repeats the sort keys. -/
def scanned (rows : List Int) : Option (Option (List ScannedRowGroup) × Bool) :=
  ((Catalog.refresh Except.ok (appendedRows rows)).2.toOption.bind id).map fun live =>
    ((Reader.buildScanPlan live 1 (refreshedRows rows)).2.toOption.map fun plan =>
        plan.map fun planned =>
          { stored :=
              match (refreshedRows rows).files.lookup planned.entry.data with
              | some (.data stored) => some stored
              | _ => none
            deletes := planned.entry.deletes
            sort := planned.sidecar.sort
            rows := planned.sidecar.rows },
      (Reader.loadCheckpoint (refreshedRows rows) live).all fun checkpoint =>
        (live.rowGroups.zip checkpoint.fragments).all fun listed =>
          match (refreshedRows rows).files.lookup listed.1.metaFile with
          | some (.sidecar sidecar) => decide (sidecar.sort = listed.2.sort)
          | _ => false)

/-- One row group with two rows and the sort key. -/
def scannedRowGroup (rows : List Int) : ScannedRowGroup :=
  { stored := some rows, deletes := none, sort := some ["id"], rows := 2 }

theorem exists_scanned {rows : List Int}
    (found : scanned rows = some (some [scannedRowGroup rows], true)) :
    ∃ live planned,
      (Catalog.refresh Except.ok).Ends (appendedRows rows) (some live) (refreshedRows rows) ∧
      RepeatsSort (refreshedRows rows) live ∧
      (Reader.buildScanPlan live 1).Ends (refreshedRows rows) [planned]
        ((Reader.buildScanPlan live 1).final (refreshedRows rows)) ∧
      (refreshedRows rows).files.lookup planned.entry.data = some (.data rows) ∧
      planned.entry.deletes = none ∧ planned.sidecar.sort = some ["id"] ∧ planned.sidecar.rows = 2 := by
  have ends : ∀ {α : Type} {script : TableProgram Int α} {storage : TableStorage Int} {value : α},
      (script storage).2.toOption = some value → script.Ends storage value (script.final storage) := by
    intro α script storage value outcome
    refine ⟨?_, rfl⟩
    cases result : (script storage).2 with
    | ok other =>
        rw [result] at outcome
        exact congrArg Except.ok (Option.some.inj outcome)
    | error failure =>
        rw [result] at outcome
        cases outcome
  obtain ⟨live, loaded, facts⟩ := Option.map_eq_some_iff.mp found
  obtain ⟨_, refreshed, rfl⟩ := Option.bind_eq_some_iff.mp loaded
  obtain ⟨planned, repeated⟩ := Prod.mk.inj facts
  obtain ⟨plan, made, listed⟩ := Option.map_eq_some_iff.mp planned
  obtain ⟨only, rfl⟩ : ∃ only, plan = [only] := by
    apply List.length_eq_one_iff.mp
    have length_eq := congrArg List.length listed
    rwa [List.length_map] at length_eq
  have described := List.singleton_inj.mp listed
  simp only [scannedRowGroup, ScannedRowGroup.mk.injEq] at described
  obtain ⟨data_eq, deletes_eq, sort_eq, rows_eq⟩ := described
  have stored : (refreshedRows rows).files.lookup only.entry.data = some (.data rows) := by
    split at data_eq
    · next stored found => rw [found, Option.some.inj data_eq]
    · cases data_eq
  refine ⟨live, only, ends refreshed, ?_, ends made, stored, deletes_eq, sort_eq, rows_eq⟩
  intro checkpoint valid listed member
  rw [valid, Option.all_some, List.all_eq_true] at repeated
  have same := repeated listed member
  split at same
  · next sidecar stored => exact ⟨sidecar, stored, of_decide_eq_true same⟩
  · cases same

theorem step_appendedRows {allowed : TableAction Int → Prop} {rows : List Int}
    (allows : allowed (sortedAppend rows)) :
    Step allowed [] ([], TableAction.created) ([], appendedRows rows) := by
  have created : Counted (fun _ _ _ => True) (Names (Integers.choices 0)) [] TableAction.created :=
    counted_of_empty rfl rfl
  have admitted : Admitted ([] ++ staged []) [] TableAction.created (sortedAppend rows) :=
    fun recorded tracked => (created.parallel recorded tracked).foreign
  exact .act (sortedAppend rows) allows admitted 23

/-- The partitions of a plan with one row group. -/
def onePartition (planned : PlannedRowGroup) : ScanSelection.ScanPartition RowSelections.shortest :=
  { rowGroup := planned, rowSelection := none }

theorem computeProperties_onePartition {planned : PlannedRowGroup}
    (sort_eq : planned.sidecar.sort = some ["id"]) :
    computeProperties idScan.columns [onePartition planned] = some [("id", 0)] := by
  simp [computeProperties, sharedSort, onePartition, sort_eq, idScan]

private theorem scanned_descending :
    scanned [20, 10] = some (some [scannedRowGroup [20, 10]], true) := by
  decide +kernel

private theorem scanned_ascending :
    scanned [10, 20] = some (some [scannedRowGroup [10, 20]], true) := by
  decide +kernel

theorem ordered_ascending : ∃ live planned,
    (Catalog.refresh Except.ok).Ends (appendedRows [10, 20]) (some live) (refreshedRows [10, 20]) ∧
      (Reader.buildScanPlan live 1).Ends (refreshedRows [10, 20]) [planned]
        ((Reader.buildScanPlan live 1).final (refreshedRows [10, 20])) ∧
      ∀ vectors, Ordered [("id", 0)] (idScan.lines vectors (onePartition planned) [10, 20]) := by
  obtain ⟨live, planned, loads, repeats, plans, stored, -, sort_eq, -⟩ :=
    exists_scanned scanned_ascending
  have planned_eq : sortingWriter.planRowGroups (Integers.choices 0) [[10, 20]] =
      .ok [[10, 20]] := by
    rfl
  have inOrder : WritesInOrder idScan.cell (sortedAppend [10, 20]) := by
    intro groups found rows listed keys named
    obtain rfl := Except.ok.inj (planned_eq.symm.trans found)
    obtain rfl := List.mem_singleton.mp listed
    obtain rfl := Option.some.inj named
    rw [InOrder]
    decide
  refine ⟨live, planned, loads, plans, fun vectors => ?_⟩
  have cut : ∀ partition ∈ [onePartition planned], partition.rowGroup ∈ [planned] := by
    intro partition member
    obtain rfl := List.mem_singleton.mp member
    exact List.mem_cons_self
  apply ordered_of_writesInOrder rfl rfl (.single (step_appendedRows inOrder)) loads repeats plans cut
    _ _ (computeProperties_onePartition sort_eq) _ List.mem_cons_self vectors _ stored
  · intro sort shared
    obtain rfl : _ = sort := Option.some.inj ((mem_of_sharedSort shared _ List.mem_cons_self).symm.trans
      sort_eq) |>.symm
    exact List.prefix_rfl

/-- Rows are appended as they come, and the scan declares that they are sorted. -/
theorem not_ordered_descending : ¬∀ (storage middle after : TableStorage Int) (live : Manifest)
    (plan : List PlannedRowGroup),
    Relation.ReflTransGen (Step (fun _ => True) []) ([], TableAction.created) ([], storage) →
      (Catalog.refresh Except.ok).Ends storage (some live) middle →
        (Reader.buildScanPlan live 1).Ends middle plan after →
          ∀ ordering, computeProperties idScan.columns (plan.map onePartition) = some ordering →
            ∀ planned ∈ plan, ∀ vectors rows,
              middle.files.lookup planned.entry.data = some (.data rows) →
                Ordered ordering (idScan.lines vectors (onePartition planned) rows) := by
  intro claimed
  obtain ⟨live, planned, loads, -, plans, stored, deletes_eq, sort_eq, rows_eq⟩ :=
    exists_scanned scanned_descending
  have ordered := claimed _ _ _ live [planned] (.single (step_appendedRows trivial)) loads plans _
    (computeProperties_onePartition sort_eq) planned List.mem_cons_self (fun _ => ∅) _ stored
  have lines_eq : idScan.lines (fun _ => ∅) (onePartition planned) [20, 10] = [[20], [10]] := by
    simp only [ColumnScan.lines, onePartition, effectiveRowSelection, ScanSelection.deletionsOf,
      deletes_eq, Option.map_none, livePhysicalOffsets, rows_eq]
    rfl
  rw [lines_eq] at ordered
  revert ordered
  rw [Ordered]
  decide

end RowCounts

end IcefallDB
