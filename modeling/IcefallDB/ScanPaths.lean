import IcefallDB.ScanExec

/-!
# Paths of a scan

The provider answers a scan in one of four ways: from the rows of a tiny table in memory, from the
native Parquet reader with the filters on top or pushed into it, or with the custom scan.  Each of
them puts the filters, the projection and the limit in an order of its own.
-/

namespace IcefallDB

variable {V T : Type}

/-- A scan of a table, with the row groups of its plan. -/
structure ScanRequest (V T : Type) where
  schema : ScanSchema V T
  rowGroups : List (ScanRowGroup V)
  /-- The row groups that pruning by statistics and indexes keeps. -/
  keep : ScanRowGroup V → Bool
  filters : List (ScanFilter V)
  /-- Columns of the full schema, where the pseudo-columns come last. -/
  projection : Option (List Nat)
  limit : Option Nat
  /-- After how many rows the scan of a table in memory stops for a limit, if it does. -/
  memTableStop : Nat → Option Nat
  encrypted : Bool
  /-- How the custom scan splits row groups, if it does. -/
  splits : Option (Nat → Nat)
  /-- Pushed filters are on data columns. -/
  inside : ∀ column ∈ filterColumns filters, column < schema.width

/-- A way to answer a scan. -/
inductive ScanPath
  | tinyTable
  | nativeBulkDecode
  | nativePushdown
  | custom

namespace ScanRequest

/-- The row groups left by pruning. -/
def pruned (request : ScanRequest V T) : List (ScanRowGroup V) :=
  request.rowGroups.filter request.keep

/-- The projection asks for a pseudo-column. -/
def hasPseudoInProjection (request : ScanRequest V T) : Bool :=
  match request.projection with
  | some columns => columns.any (request.schema.width ≤ ·)
  | none => false

/-- Columns of the output of a plan without pseudo-columns. -/
def dataProjection (request : ScanRequest V T) : List Nat :=
  request.projection.getD (List.range request.schema.width)

/-! ## Tiny tables -/

/-- The rows of the table in memory. -/
def memTable (request : ScanRequest V T) : List (DataRow V) :=
  (request.rowGroups.flatMap ScanRowGroup.located).map fun row => row.2.1

/-- Plan over the rows in memory: the limit goes to the source, below the filters. -/
def buildTinyTablePlan (request : ScanRequest V T) : List (List V) :=
  let source := Limits.upTo (request.limit.bind request.memTableStop) request.memTable
  let filtered :=
    if request.filters.isEmpty then source else source.filter (passes request.filters)
  filtered.map request.dataProjection.map

/-! ## Native reader -/

/-- Columns that bulk decoding reads, if every projected column is read for a filter anyway. -/
def nativeBulkDecodeProjection (request : ScanRequest V T) : Option (List Nat) :=
  if request.filters.isEmpty then none
  else
    match request.projection with
    | none => none
    | some columns =>
        let used := filterColumns request.filters
        if used.isEmpty then none
        else if columns.all (· ∈ used) then
          some ((List.range request.schema.width).filter fun column =>
            column ∈ used ∨ column ∈ columns)
        else none

/-- Rows of the data files, which the native reader reads without deletion vectors. -/
def fileRows (request : ScanRequest V T) : List (DataRow V) :=
  request.pruned.flatMap ScanRowGroup.rows

/-- Decode the columns that the filters read, filter, and project. -/
def buildNativeBulkDecodePlan (request : ScanRequest V T) (scanColumns : List Nat) :
    List (List V) :=
  let batch := request.fileRows.map fun row column =>
    if column ∈ scanColumns then row column else request.schema.absent
  (batch.filter (passes request.filters)).map request.dataProjection.map

/-- A native reader whose own rows are those that pass the filters. -/
def buildNativeParquetExec (request : ScanRequest V T) : List (List V) :=
  (Limits.upTo request.limit (request.fileRows.filter (passes request.filters))).map
    request.dataProjection.map

/-! ## Custom scan -/

/-- The custom scan of the request, over the full schema. -/
def customScan (request : ScanRequest V T) : ScanExec V T where
  schema := request.schema
  partitions := splitRowGroups request.splits request.pruned
  columns := request.projection.getD (List.range (request.schema.width + 2))
  filters := request.filters
  limit := request.limit

/-! ## Choosing a path -/

/-- The native reader can answer the scan: it honours no deletion vectors and has no
pseudo-columns. -/
def useNativeParquet (request : ScanRequest V T) : Bool :=
  !request.encrypted && request.pruned.all (fun rowGroup => rowGroup.deletions.isNone) &&
    !request.hasPseudoInProjection && !request.pruned.isEmpty

/-- The provider takes the path for some thresholds and settings. -/
def available (request : ScanRequest V T) : ScanPath → Bool
  | .tinyTable =>
      !request.encrypted && !request.hasPseudoInProjection &&
        request.rowGroups.any fun rowGroup => !rowGroup.rows.isEmpty
  | .nativePushdown => request.useNativeParquet
  | .nativeBulkDecode =>
      request.useNativeParquet && request.limit.isNone &&
        request.nativeBulkDecodeProjection.isSome
  | .custom => true

variable [DecidableEq T]

/-- The rows that the plan of a path returns. -/
def result (request : ScanRequest V T) : ScanPath → Option (List (List V))
  | .tinyTable => some request.buildTinyTablePlan
  | .nativeBulkDecode => request.nativeBulkDecodeProjection.map request.buildNativeBulkDecodePlan
  | .nativePushdown => some request.buildNativeParquetExec
  | .custom => request.customScan.execute

/-- The output for the live rows that the filters are true of. -/
def matching (request : ScanRequest V T) : List (List V) :=
  ((request.rowGroups.flatMap ScanRowGroup.located).filter request.customScan.isMatch).map
    request.customScan.output

/-- Every path returns the output for the matching live rows: all of them without a limit, and with
one as many as it asks for. -/
def Agrees (request : ScanRequest V T) : Prop :=
  ∀ path, request.available path = true → ∃ rows, request.result path = some rows ∧
    match request.limit with
    | none => rows.Perm request.matching
    | some k => rows.Subperm request.matching ∧ min k request.matching.length ≤ rows.length

/-! ## When the paths agree -/

/-- There is a projection, it lists columns in table order, and the custom scan then reads columns in
table order. -/
structure Ordered (request : ScanRequest V T) : Prop where
  projected : request.projection.isSome
  valid : ∀ column ∈ request.customScan.columns, column < request.schema.width + 2
  custom : request.customScan.Ordered

/-- A row group without a matching live row may be pruned, others may not. -/
def PruningSound (request : ScanRequest V T) : Prop :=
  ∀ rowGroup ∈ request.rowGroups, request.keep rowGroup = false →
    ∀ row ∈ rowGroup.located, request.customScan.isMatch row = false

/-- Where a source stops for a limit below the filters, every matching live row is among the first rows
of its part, or there are enough matching rows among these. -/
def LimitSafe (request : ScanRequest V T) : Prop :=
  ∀ k, request.limit = some k →
    (request.available .tinyTable = true → ∀ stop, request.memTableStop k = some stop →
      Limits.Enough request.customScan.isMatch k stop
        [request.rowGroups.flatMap ScanRowGroup.located]) ∧
    (request.hasPseudoInProjection = true →
      Limits.Enough request.customScan.isMatch k k
        (request.customScan.partitions.map ScanPartition.located))

/-- The located rows that a path lets through. -/
def found (request : ScanRequest V T) : ScanPath → List (LocatedRow V)
  | .tinyTable =>
      (Limits.upTo (request.limit.bind request.memTableStop)
        (request.rowGroups.flatMap ScanRowGroup.located)).filter request.customScan.isMatch
  | .nativeBulkDecode =>
      (request.pruned.flatMap ScanRowGroup.located).filter request.customScan.isMatch
  | .nativePushdown =>
      Limits.upTo request.limit
        ((request.pruned.flatMap ScanRowGroup.located).filter request.customScan.isMatch)
  | .custom => request.customScan.partitions.flatMap request.customScan.partitionRows

variable {request : ScanRequest V T}

omit [DecidableEq T] in
theorem output_eq (ordered : request.Ordered) (plain : request.hasPseudoInProjection = false)
    (row : LocatedRow V) : request.customScan.output row = request.dataProjection.map row.2.1 := by
  obtain ⟨columns, projection_eq⟩ := Option.isSome_iff_exists.mp ordered.projected
  rw [hasPseudoInProjection, projection_eq] at plain
  rw [ScanExec.output, dataProjection, customScan, projection_eq]
  apply List.map_congr_left
  intro column member
  have narrow := List.any_eq_false.mp plain column member
  rw [columnValue, if_pos]
  simpa using narrow

omit [DecidableEq T] in
theorem map_fileRows (whole : ∀ rowGroup ∈ request.pruned, rowGroup.deletions = none) :
    request.fileRows = (request.pruned.flatMap ScanRowGroup.located).map fun row => row.2.1 := by
  rw [fileRows, List.map_flatMap]
  apply List.flatMap_congr
  intro rowGroup member
  have all_live : rowGroup.isLive = fun _ => true := by
    funext row
    rw [ScanRowGroup.isLive, whole rowGroup member]
  simp [ScanRowGroup.located, ScanPartition.located, ScanPartition.selected, all_live,
    Function.comp_def, List.zipIdx_map_fst]

omit [DecidableEq T] in
theorem of_useNativeParquet (native : request.useNativeParquet = true) :
    (∀ rowGroup ∈ request.pruned, rowGroup.deletions = none) ∧
      request.hasPseudoInProjection = false := by
  simp only [useNativeParquet, Bool.and_eq_true, Bool.not_eq_true', List.all_eq_true,
    Option.isNone_iff_eq_none] at native
  exact ⟨native.1.1.2, native.1.2⟩

omit [DecidableEq T] in
theorem hasPseudo_customScan (ordered : request.Ordered) :
    request.customScan.hasPseudo = request.hasPseudoInProjection := by
  obtain ⟨columns, projection_eq⟩ := Option.isSome_iff_exists.mp ordered.projected
  rw [ScanExec.hasPseudo, hasPseudoInProjection, customScan, projection_eq]
  rfl

omit [DecidableEq T] in
theorem filter_map_isMatch (rows : List (LocatedRow V)) :
    (rows.map fun row => row.2.1).filter (passes request.filters) =
      (rows.filter request.customScan.isMatch).map fun row => row.2.1 := by
  rw [List.filter_map]
  rfl

omit [DecidableEq T] in
theorem map_output (ordered : request.Ordered) (plain : request.hasPseudoInProjection = false)
    (rows : List (LocatedRow V)) :
    (rows.map fun row => row.2.1).map request.dataProjection.map =
      rows.map request.customScan.output := by
  rw [List.map_map]
  apply List.map_congr_left
  intro row _
  exact (output_eq ordered plain row).symm

omit [DecidableEq T] in
theorem buildTinyTablePlan_eq (ordered : request.Ordered)
    (plain : request.hasPseudoInProjection = false) :
    request.buildTinyTablePlan = (request.found .tinyTable).map request.customScan.output := by
  rw [buildTinyTablePlan, memTable, Limits.upTo_map, found, ← map_output ordered plain,
    ← filter_map_isMatch]
  split
  · rename_i unfiltered
    rw [List.isEmpty_iff.mp unfiltered, List.filter_eq_self.mpr]
    exact fun row _ => passes_nil row
  · rfl

omit [DecidableEq T] in
theorem buildNativeParquetExec_eq (ordered : request.Ordered)
    (native : request.useNativeParquet = true) :
    request.buildNativeParquetExec =
      (request.found .nativePushdown).map request.customScan.output := by
  obtain ⟨whole, plain⟩ := of_useNativeParquet native
  rw [buildNativeParquetExec, map_fileRows whole, filter_map_isMatch, Limits.upTo_map, found,
    ← map_output ordered plain]

omit [DecidableEq T] in
theorem buildNativeBulkDecodePlan_eq (ordered : request.Ordered)
    (native : request.useNativeParquet = true) {scanColumns : List Nat}
    (decodes : request.nativeBulkDecodeProjection = some scanColumns) :
    request.buildNativeBulkDecodePlan scanColumns =
      (request.found .nativeBulkDecode).map request.customScan.output := by
  obtain ⟨whole, plain⟩ := of_useNativeParquet native
  obtain ⟨columns, projection_eq⟩ := Option.isSome_iff_exists.mp ordered.projected
  have scan_eq : ∀ column, column ∈ scanColumns ↔ column < request.schema.width ∧
      (column ∈ filterColumns request.filters ∨ column ∈ columns) := by
    rw [nativeBulkDecodeProjection, projection_eq] at decodes
    simp only [Option.ite_none_left_eq_some, Option.ite_none_right_eq_some,
      Option.some.injEq] at decodes
    obtain ⟨_, _, _, rfl⟩ := decodes
    simp
  have narrow : ∀ column ∈ columns, column < request.schema.width := by
    intro column member
    rw [hasPseudoInProjection, projection_eq] at plain
    simpa using List.any_eq_false.mp plain column member
  have decoded : ∀ rows : List (DataRow V), ((rows.map fun row column =>
      if column ∈ scanColumns then row column else request.schema.absent).filter
        (passes request.filters)).map request.dataProjection.map =
      (rows.filter (passes request.filters)).map request.dataProjection.map := by
    intro rows
    have same_passes : (passes request.filters ∘ fun (row : DataRow V) column =>
        if column ∈ scanColumns then row column else request.schema.absent) =
          passes request.filters := by
      funext row
      apply passes_congr
      intro column member
      exact if_pos ((scan_eq column).mpr ⟨request.inside column member, .inl member⟩)
    rw [List.filter_map, same_passes, List.map_map]
    apply List.map_congr_left
    intro row _
    rw [dataProjection, projection_eq]
    apply List.map_congr_left
    intro column member
    exact if_pos ((scan_eq column).mpr ⟨narrow column member, .inr member⟩)
  rw [buildNativeBulkDecodePlan, decoded, map_fileRows whole, filter_map_isMatch, found,
    ← map_output ordered plain]

/-- Every available path returns the output for the rows that it lets through. -/
theorem result_eq (ordered : request.Ordered) {path : ScanPath}
    (available : request.available path = true) :
    request.result path = some ((request.found path).map request.customScan.output) := by
  cases path with
  | tinyTable =>
      simp only [ScanRequest.available, Bool.and_eq_true, Bool.not_eq_true'] at available
      rw [result, buildTinyTablePlan_eq ordered available.1.2]
  | nativeBulkDecode =>
      simp only [ScanRequest.available, Bool.and_eq_true] at available
      obtain ⟨scanColumns, decodes⟩ := Option.isSome_iff_exists.mp available.2
      rw [result, decodes, Option.map_some,
        buildNativeBulkDecodePlan_eq ordered available.1.1 decodes]
  | nativePushdown => rw [result, buildNativeParquetExec_eq ordered available]
  | custom => exact ScanExec.execute_eq ordered.custom request.inside

omit [DecidableEq T] in
/-- Pruning loses no matching row. -/
theorem filter_pruned (sound : request.PruningSound) :
    (request.pruned.flatMap ScanRowGroup.located).filter request.customScan.isMatch =
      (request.rowGroups.flatMap ScanRowGroup.located).filter request.customScan.isMatch := by
  rw [PruningSound] at sound
  rw [pruned]
  generalize request.rowGroups = rowGroups at sound
  induction rowGroups with
  | nil => rfl
  | cons rowGroup rowGroups ih =>
      rw [List.forall_mem_cons] at sound
      rw [List.flatMap_cons, List.filter_append, ← ih sound.2, List.filter_cons]
      split
      · rw [List.flatMap_cons, List.filter_append]
      · rename_i dropped
        have nothing : rowGroup.located.filter request.customScan.isMatch = [] := by
          rw [List.filter_eq_nil_iff]
          intro row member
          rw [sound.1 (Bool.eq_false_iff.mpr dropped) row member]
          exact Bool.false_ne_true
        rw [nothing, List.nil_append]

omit [DecidableEq T] in
theorem flatMap_partitions : request.customScan.partitions.flatMap ScanPartition.located =
    request.pruned.flatMap ScanRowGroup.located :=
  flatMap_splitRowGroups request.splits request.pruned

omit [DecidableEq T] in
/-- Without a limit every path lets the matching live rows through. -/
theorem found_of_unlimited (sound : request.PruningSound) (unlimited : request.limit = none)
    (path : ScanPath) : request.found path =
      (request.rowGroups.flatMap ScanRowGroup.located).filter request.customScan.isMatch := by
  cases path with
  | tinyTable => rw [found, unlimited, Option.bind_none, Limits.upTo_none]
  | nativeBulkDecode => exact filter_pruned sound
  | nativePushdown => rw [found, unlimited, Limits.upTo_none, filter_pruned sound]
  | custom =>
      have each (partition : ScanPartition V) : request.customScan.partitionRows partition =
          partition.located.filter request.customScan.isMatch := by
        have no_limit : request.customScan.limit = none := unlimited
        rw [ScanExec.partitionRows, no_limit]
        exact ite_self _
      rw [found, funext each, ← filter_pruned sound, ← flatMap_partitions, List.filter_flatMap]

omit [DecidableEq T] in
/-- Every path lets only matching live rows through. -/
theorem found_sublist (sound : request.PruningSound) (path : ScanPath) :
    (request.found path).Sublist
      ((request.rowGroups.flatMap ScanRowGroup.located).filter request.customScan.isMatch) := by
  cases path with
  | tinyTable => exact (Limits.upTo_sublist _ _).filter _
  | nativeBulkDecode => rw [found, filter_pruned sound]
  | nativePushdown =>
      rw [found, filter_pruned sound]
      exact Limits.upTo_sublist _ _
  | custom =>
      rw [found, ← filter_pruned sound, ← flatMap_partitions, List.filter_flatMap]
      generalize request.customScan.partitions = partitions
      induction partitions with
      | nil => exact List.Sublist.refl []
      | cons partition partitions ih =>
          rw [List.flatMap_cons, List.flatMap_cons]
          apply List.Sublist.append _ ih
          rw [ScanExec.partitionRows]
          split
          · exact (Limits.upTo_sublist _ _).filter _
          · exact Limits.upTo_sublist _ _

omit [DecidableEq T] in
/-- Partitions without pseudo-columns leave enough rows. -/
theorem min_length_le_of_plain (sound : request.PruningSound) {k : Nat}
    (limited : request.limit = some k) (plain : request.customScan.hasPseudo = false) :
    min k ((request.rowGroups.flatMap ScanRowGroup.located).filter
      request.customScan.isMatch).length ≤ (request.found .custom).length := by
  have each (partition : ScanPartition V) : request.customScan.partitionRows partition =
      Limits.upTo (some k) (partition.located.filter request.customScan.isMatch) := by
    have limit_eq : request.customScan.limit = some k := limited
    rw [ScanExec.partitionRows, plain, limit_eq]
    rfl
  have enough := Limits.min_length_le_length_upTo k (request.customScan.partitions.map
    fun partition => partition.located.filter request.customScan.isMatch)
  rw [found, funext each, ← filter_pruned sound, ← flatMap_partitions, List.filter_flatMap]
  rw [List.flatMap_map] at enough
  exact enough

omit [DecidableEq T] in
/-- Partitions with pseudo-columns leave enough rows exactly in these cases. -/
theorem min_length_le_iff_of_pseudo (sound : request.PruningSound) {k : Nat}
    (limited : request.limit = some k) (pseudo : request.customScan.hasPseudo = true) :
    min k ((request.rowGroups.flatMap ScanRowGroup.located).filter
      request.customScan.isMatch).length ≤ (request.found .custom).length ↔
        Limits.Enough request.customScan.isMatch k k
          (request.customScan.partitions.map ScanPartition.located) := by
  have each (partition : ScanPartition V) : request.customScan.partitionRows partition =
      (Limits.upTo (some k) partition.located).filter request.customScan.isMatch := by
    have limit_eq : request.customScan.limit = some k := limited
    rw [ScanExec.partitionRows, pseudo, limit_eq]
    rfl
  rw [← Limits.min_countP_le_iff, found, funext each, ← filter_pruned sound,
    ← flatMap_partitions, ← List.filter_flatMap, List.countP_eq_length_filter,
    List.countP_eq_length_filter, List.flatMap_map, List.flatMap_def]

omit [DecidableEq T] in
/-- So does a table that is one part. -/
theorem min_length_le_iff_of_tiny {k stop : Nat} (limited : request.limit = some k)
    (stops : request.memTableStop k = some stop) :
    min k ((request.rowGroups.flatMap ScanRowGroup.located).filter
      request.customScan.isMatch).length ≤ (request.found .tinyTable).length ↔
        Limits.Enough request.customScan.isMatch k stop
          [request.rowGroups.flatMap ScanRowGroup.located] := by
  rw [← Limits.min_countP_le_iff, List.flatten_singleton, List.flatMap_singleton,
    List.countP_eq_length_filter, List.countP_eq_length_filter, found, limited, Option.bind_some,
    stops]

/-- The paths agree exactly when no limit below the filters loses rows. -/
theorem agrees_iff (ordered : request.Ordered) (sound : request.PruningSound) :
    request.Agrees ↔ request.LimitSafe := by
  have pseudo_eq := hasPseudo_customScan ordered
  have agrees_iff_found : request.Agrees ↔ ∀ path, request.available path = true →
      ∀ k, request.limit = some k → min k ((request.rowGroups.flatMap
        ScanRowGroup.located).filter request.customScan.isMatch).length ≤
          (request.found path).length := by
    apply forall₂_congr
    intro path available
    rw [result_eq ordered available]
    simp only [Option.some.injEq, exists_eq_left']
    cases limited : request.limit with
    | none =>
        rw [found_of_unlimited sound limited]
        simp [matching]
    | some k =>
        have subperm := ((found_sublist sound path).map request.customScan.output).subperm
        simp only [matching, List.length_map, Option.some.injEq, forall_eq']
        exact and_iff_right subperm
  rw [agrees_iff_found]
  constructor
  · intro enough k limited
    constructor
    · intro tiny stop stops
      exact (min_length_le_iff_of_tiny limited stops).mp (enough .tinyTable tiny k limited)
    · intro pseudo
      rw [← pseudo_eq] at pseudo
      exact (min_length_le_iff_of_pseudo sound limited pseudo).mp (enough .custom rfl k limited)
  · intro safe path available k limited
    obtain ⟨tiny_safe, pseudo_safe⟩ := safe k limited
    cases path with
    | tinyTable =>
        cases stops : request.memTableStop k with
        | none =>
            rw [found, limited, Option.bind_some, stops]
            exact min_le_right _ _
        | some stop =>
            exact (min_length_le_iff_of_tiny limited stops).mpr (tiny_safe available stop stops)
    | nativeBulkDecode =>
        simp [ScanRequest.available, limited] at available
    | nativePushdown =>
        rw [found, limited, filter_pruned sound, Limits.upTo_some, List.length_take]
    | custom =>
        cases pseudo : request.customScan.hasPseudo with
        | false => exact min_length_le_of_plain sound limited pseudo
        | true =>
            apply (min_length_le_iff_of_pseudo sound limited pseudo).mpr
            exact pseudo_safe (pseudo_eq ▸ pseudo)

/-! ## A limit below a filter -/

namespace SecondRow

/-- `id = 20` -/
def isTwenty : ScanFilter Int where
  columns := [0]
  test row := some (row 0 == 20)
  reads first second same := by rw [same 0 (List.mem_singleton.mpr rfl)]

/-- A table with one column and two rows. -/
def rowGroup : ScanRowGroup Int :=
  { fragmentId := 0, rowIds := [.range 0 2], rows := [fun _ => 10, fun _ => 20], deletions := none }

/-- Ask for the rows of the table where `id = 20` and their row ids.  A source in memory reads all its
rows. -/
def firstRows (limit : Nat) : ScanRequest Int Unit where
  schema := { width := 1, dataType := fun _ => (), number := Int.ofNat, absent := 0 }
  rowGroups := [rowGroup]
  keep _ := true
  filters := [isTwenty]
  projection := some [0, 1]
  limit := some limit
  memTableStop _ := none
  encrypted := false
  splits := none
  inside column member := by
    rw [List.mem_singleton.mp (show column ∈ [0] from member)]
    exact Nat.zero_lt_one

theorem ordered (limit : Nat) : (firstRows limit).Ordered := by
  constructor
  · rfl
  · change ∀ column ∈ [0, 1], column < 3
    decide
  · constructor
    · change [0, 1].Pairwise (· < ·)
      decide
    · intro _ _
      exact List.pairwise_singleton _ 0

theorem pruningSound (limit : Nat) : (firstRows limit).PruningSound := by
  intro rowGroup _ dropped
  cases dropped

/-- With limit 1 the custom scan stops before its filter and returns nothing although a row matches. -/
theorem limit_one_loses : (firstRows 1).Ordered ∧ (firstRows 1).PruningSound ∧
    ¬(firstRows 1).Agrees := by
  constructor
  · exact ordered 1
  · constructor
    · exact pruningSound 1
    · intro agrees
      obtain ⟨rows, rows_eq, _, enough⟩ := agrees .custom rfl
      have nothing : (firstRows 1).result .custom = some [] := rfl
      rw [nothing] at rows_eq
      obtain rfl := Option.some.inj rows_eq
      exact absurd enough (by decide)

/-- With limit 2 every path returns the matching row. -/
theorem limit_two_agrees : (firstRows 2).Agrees := by
  apply (agrees_iff (ordered 2) (pruningSound 2)).mpr
  intro k limited
  obtain rfl := Option.some.inj limited
  constructor
  · intro _ stop stops
    cases stops
  · intro _
    left
    change ∀ part ∈ [rowGroup.located], ∀ row ∈ part.drop 2, _
    intro part member row dropped
    rw [List.mem_singleton.mp member] at dropped
    cases dropped

end SecondRow

end ScanRequest

end IcefallDB
