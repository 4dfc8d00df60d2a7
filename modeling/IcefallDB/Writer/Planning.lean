import IcefallDB.Writer.Append
import IcefallDB.ColumnBounds

/-!
# Planning row groups

Buffered batches are cut into row groups of consecutive rows.  In a partitioned table the rows are
grouped first, by the JSON text of their values in the partition columns.  JSON has no numbers for
floats that are not finite, so these are grouped with the nulls.
-/

namespace IcefallDB

variable {R : Type}

/-! ## Slices and groups -/

namespace Writer

theorem flatten_slices {size fuel : Nat} (positive : 0 < size) {rows : List R}
    (enough : rows.length ≤ fuel) : (slices size fuel rows).flatten = rows := by
  induction fuel generalizing rows with
  | zero =>
      obtain rfl := List.length_eq_zero_iff.mp (Nat.le_zero.mp enough)
      rfl
  | succ fuel ih =>
      rw [slices]
      split
      · next empty => exact (List.isEmpty_iff.mp empty).symm
      · have shorter : (rows.drop size).length ≤ fuel := by
          rw [List.length_drop]
          omega
        rw [List.flatten_cons, ih shorter, List.take_append_drop]

/-- Slices hold rows, and not more than asked for. -/
theorem length_of_mem_slices {size fuel : Nat} (positive : 0 < size) {rows part : List R}
    (member : part ∈ slices size fuel rows) : part ≠ [] ∧ part.length ≤ size := by
  induction fuel generalizing rows with
  | zero => cases member
  | succ fuel ih =>
      rw [slices] at member
      split at member
      · cases member
      · next some_rows =>
          rcases List.mem_cons.mp member with rfl | later
          · constructor
            · intro nothing
              rcases List.take_eq_nil_iff.mp nothing with zero | empty
              · omega
              · exact some_rows (List.isEmpty_iff.mpr empty)
            · exact List.length_take_le _ _
          · exact ih later

theorem mem_of_mem_slices {size fuel : Nat} {rows part : List R}
    (member : part ∈ slices size fuel rows) : ∀ row ∈ part, row ∈ rows := by
  induction fuel generalizing rows with
  | zero => cases member
  | succ fuel ih =>
      rw [slices] at member
      split at member
      · cases member
      · intro row in_part
        rcases List.mem_cons.mp member with rfl | later
        · exact List.mem_of_mem_take in_part
        · exact List.mem_of_mem_drop (ih later row in_part)

end Writer

/-! ## Partition columns -/

/-- A cell of a partition column. -/
inductive PartitionCell
  | null
  | boolean (value : Bool)
  /-- An integer of some width, or a timestamp. -/
  | integer (value : Int)
  /-- A float and its sign, which tells the zeros apart. -/
  | float (negative : Bool) (value : FloatValue)
  | text (value : String)
  deriving DecidableEq

/-- A column of a batch with rows of type `R`. -/
inductive PartitionColumn (R : Type)
  | supported (cell : R → PartitionCell)
  | unsupported (dataType : String)

/-- A JSON value that is not null. -/
inductive JsonScalar
  | scalar (value : Scalar)
  | float (negative : Bool) (value : ℚ)
  deriving DecidableEq

/-- The JSON value of a cell.  Floats that are not finite are null. -/
def scalarToJsonValue : PartitionCell → Option JsonScalar
  | .null => none
  | .boolean value => some (.scalar (.bool value))
  | .integer value => some (.scalar (.int value))
  | .float negative value => value.finite?.map (.float negative)
  | .text value => some (.scalar (.string value))

/-- JSON values are equal.  The zeros are equal numbers. -/
def JsonScalar.same : JsonScalar → JsonScalar → Bool
  | .scalar left, .scalar right => left = right
  | .float _ left, .float _ right => left = right
  | _, _ => false

theorem JsonScalar.same_self (value : JsonScalar) : value.same value = true := by
  cases value with
  | scalar value => exact decide_eq_true rfl
  | float negative value => exact decide_eq_true rfl

/-- What planning takes from the schema and from Arrow.  Schemas without positive targets are
rejected when a writer is opened. -/
structure RowGroupPlanner (R : Type) where
  table : String
  partitionBy : List String
  rowGroupTargetRows : Nat
  rowGroupTargetBytes : Nat
  /-- Memory footprint of a batch. -/
  memorySize : List R → Nat
  columnByName : String → Option (PartitionColumn R)
  /-- JSON text of an array. -/
  toString : List (Option JsonScalar) → String
  /-- Iteration order of a hash map of groups. -/
  groupOrder : List (List R) → List (List R)
  targetRows_pos : 0 < rowGroupTargetRows
  targetBytes_pos : 0 < rowGroupTargetBytes
  toString_injective : Function.Injective toString
  groupOrder_perm : ∀ groups, (groupOrder groups).Perm groups

namespace RowGroupPlanner

variable (planner : RowGroupPlanner R)

/-! ## Planning -/

/-- Rows per row group, from the row and byte targets of the schema. -/
def chunkRows (rows : List R) : Nat :=
  let bytesPerRow := planner.memorySize rows / rows.length
  if bytesPerRow = 0 then max planner.rowGroupTargetRows 1
  else
    let byteTargetRows := max (planner.rowGroupTargetBytes / bytesPerRow) 1
    max (min planner.rowGroupTargetRows byteTargetRows) 1

/-- Slice a batch into row groups that respect both targets. -/
def sliceBatchIntoRowGroups (rows : List R) : List (List R) :=
  Writer.slices (planner.chunkRows rows) rows.length rows

/-- Check that partition columns are there and have a supported type. -/
def validatePartitionTypes : List String → Except IcefallDBError Unit
  | [] => .ok ()
  | column :: columns =>
      match planner.columnByName column with
      | none => .error (.schemaMismatch column "found in batch" planner.table)
      | some (.unsupported dataType) =>
          .error (.invalidSchema
            ("partition column '" ++ column ++ "' has unsupported type " ++ dataType) planner.table)
      | some (.supported _) => validatePartitionTypes columns

/-- JSON value of a row in a partition column. -/
def jsonValue (column : String) (row : R) : Option JsonScalar :=
  match planner.columnByName column with
  | some (.supported cell) => scalarToJsonValue (cell row)
  | _ => none

/-- Key of the partition tuple of a row. -/
def partitionKeyForRow (row : R) : String :=
  planner.toString (planner.partitionBy.map fun column => planner.jsonValue column row)

/-- Rows of the row groups that a commit of buffered batches writes. -/
def planRowGroups (buffer : List (List R)) : Except IcefallDBError (List (List R)) :=
  let combined := buffer.flatten
  if planner.partitionBy.isEmpty then .ok (planner.sliceBatchIntoRowGroups combined)
  else if combined.isEmpty then .ok []
  else do
    planner.validatePartitionTypes planner.partitionBy
    let keyed := combined.map fun row => (planner.partitionKeyForRow row, row)
    .ok ((planner.groupOrder (Writer.groupByKey keyed)).flatMap planner.sliceBatchIntoRowGroups)

/-! ## Recording partition values -/

/-- Put a value into a set of JSON values. -/
def insertValue (values : List JsonScalar) (value : JsonScalar) : List JsonScalar :=
  if values.any fun other => other.same value then values else values ++ [value]

/-- Distinct values of rows in a column. -/
def distinctNonNullValues (column : String) (rows : List R) : List JsonScalar :=
  (rows.filterMap (planner.jsonValue column)).foldl insertValue []

/-- Partition values of rows in some columns, after those in the columns before. -/
def partitionValuesFrom (rows : List R) :
    List String → HashMap String JsonScalar → Option (HashMap String JsonScalar)
  | [], result => if result.entries.isEmpty then none else some result
  | column :: columns, result =>
      match planner.distinctNonNullValues column rows with
      | [value] => partitionValuesFrom rows columns (result.insert column value)
      | _ => none

/-- Partition values of the rows of a row group, if every partition column has exactly one. -/
def computePartitionValues (rows : List R) : Option (HashMap String JsonScalar) :=
  planner.partitionValuesFrom rows planner.partitionBy ∅

end RowGroupPlanner

/-! ## Values of columns -/

namespace Writer

/-- Values of columns, after those of the columns before; there are none if a column has none. -/
def gather {V : Type} (value : String → Option V) :
    List String → HashMap String V → Option (HashMap String V)
  | [], values => if values.entries.isEmpty then none else some values
  | column :: columns, values => do
      let found ← value column
      gather value columns (values.insert column found)

/-- Gathering ends with the value of every column, or some column has none. -/
theorem gather_cases {V : Type} (value : String → Option V) (columns : List String)
    (start : HashMap String V) :
    match gather value columns start with
    | some values => ∀ column,
        (column ∈ columns → (value column).isSome ∧ values.lookup column = value column) ∧
        (column ∉ columns → values.lookup column = start.lookup column)
    | none => start.entries = [] ∧ columns = [] ∨ ∃ column ∈ columns, value column = none := by
  induction columns generalizing start with
  | nil =>
      simp only [gather]
      split
      · next gathered =>
          split at gathered
          · cases gathered
          · obtain rfl := Option.some.inj gathered
            exact fun column => ⟨nofun, fun _ => rfl⟩
      · next gathered =>
          split at gathered
          · next empty => exact .inl ⟨List.isEmpty_iff.mp empty, trivial⟩
          · cases gathered
  | cons first rest ih =>
      cases found : value first with
      | none =>
          simp only [gather, found, Option.bind_eq_bind, Option.bind_none]
          exact .inr ⟨first, List.mem_cons_self, found⟩
      | some first_value =>
          simp only [gather, found, Option.bind_eq_bind, Option.bind_some]
          have later := ih (start.insert first first_value)
          split
          · next values gathered =>
              rw [gathered] at later
              intro column
              refine ⟨fun member => ?_, fun outside => ?_⟩
              · by_cases in_rest : column ∈ rest
                · exact (later column).1 in_rest
                · obtain rfl : column = first := by simpa [in_rest] using member
                  rw [found, (later column).2 in_rest, AList.lookup_insert]
                  exact ⟨rfl, rfl⟩
              · obtain ⟨not_first, not_rest⟩ := not_or.mp (mt List.mem_cons.mpr outside)
                rw [(later column).2 not_rest, AList.lookup_insert_ne not_first]
          · next gathered =>
              rw [gathered] at later
              rcases later with ⟨empty, -⟩ | ⟨column, member, absent⟩
              · have there : (start.insert first first_value).lookup first = some first_value :=
                  AList.lookup_insert start
                have nowhere : (start.insert first first_value) = ∅ := AList.ext empty
                rw [nowhere] at there
                cases there
              · exact .inr ⟨column, List.mem_cons_of_mem first member, absent⟩

end Writer

/-! ## Lists of lists -/

/-- Lists of which at most one is not empty may be concatenated in any order. -/
theorem flatten_eq_of_perm {left right : List (List R)} (perm : left.Perm right)
    (lonely : right.Pairwise fun first second => first = [] ∨ second = []) :
    left.flatten = right.flatten := by
  induction perm with
  | nil => rfl
  | cons list _ ih => rw [List.flatten_cons, List.flatten_cons, ih (List.pairwise_cons.mp lonely).2]
  | swap first second rest =>
      simp only [List.flatten_cons]
      obtain ⟨head, -⟩ := List.pairwise_cons.mp lonely
      rcases head second List.mem_cons_self with empty | empty <;> simp [empty]
  | trans first second ih_first ih_second =>
      rw [← ih_second lonely]
      apply ih_first
      exact (second.pairwise_iff fun either => either.symm).mpr lonely

/-- Of different keys only one is the key that is looked for. -/
theorem flatten_map_ite {keys : List String} (distinct : keys.Nodup) (key : String)
    (rows : List R) :
    (keys.map fun other => if other = key then rows else []).flatten =
      if key ∈ keys then rows else [] := by
  induction keys with
  | nil => rfl
  | cons first keys ih =>
      obtain ⟨fresh, distinct⟩ := List.nodup_cons.mp distinct
      rw [List.map_cons, List.flatten_cons, ih distinct]
      by_cases same : first = key
      · subst same
        simp [fresh]
      · have other : key ≠ first := fun equal => same equal.symm
        simp [same, other]

theorem groupByKey_map (key : R → String) (rows : List R) :
    Writer.groupByKey (rows.map fun row => (key row, row)) =
      (rows.map key).dedup.map fun found => rows.filter fun row => key row = found := by
  rw [Writer.groupByKey, List.map_map]
  apply List.map_congr_left
  intro found _
  rw [List.filter_map, List.map_map]
  exact List.map_id _

namespace RowGroupPlanner

variable {planner : RowGroupPlanner R} {buffer : List (List R)} {groups : List (List R)}

/-! ## Rows of row groups -/

theorem chunkRows_pos (rows : List R) : 0 < planner.chunkRows rows := by
  unfold chunkRows
  dsimp only
  split <;> omega

theorem chunkRows_le (rows : List R) :
    planner.chunkRows rows ≤ planner.rowGroupTargetRows := by
  have positive := planner.targetRows_pos
  unfold chunkRows
  dsimp only
  split <;> omega

theorem flatten_sliceBatchIntoRowGroups (rows : List R) :
    (planner.sliceBatchIntoRowGroups rows).flatten = rows :=
  Writer.flatten_slices (chunkRows_pos rows) le_rfl

theorem flatten_flatMap_slices (parts : List (List R)) :
    (parts.flatMap planner.sliceBatchIntoRowGroups).flatten = parts.flatten := by
  induction parts with
  | nil => rfl
  | cons rows parts ih =>
      rw [List.flatMap_cons, List.flatten_append, ih, flatten_sliceBatchIntoRowGroups,
        List.flatten_cons]

/-- The JSON values of a row in the partition columns. -/
def tuple (planner : RowGroupPlanner R) (row : R) : List (Option JsonScalar) :=
  planner.partitionBy.map fun column => planner.jsonValue column row

theorem partitionKeyForRow_inj {left right : R} :
    planner.partitionKeyForRow left = planner.partitionKeyForRow right ↔
      planner.tuple left = planner.tuple right :=
  planner.toString_injective.eq_iff

/-- The rows of each partition, in any order of the partitions. -/
def partitions (planner : RowGroupPlanner R) (rows : List R) : List (List R) :=
  (rows.map planner.partitionKeyForRow).dedup.map fun key =>
    rows.filter fun row => planner.partitionKeyForRow row = key

/-- Planning slices all rows, or slices the partitions. -/
theorem planRowGroups_eq (planned : planner.planRowGroups buffer = .ok groups) :
    (planner.partitionBy = [] ∧ groups = planner.sliceBatchIntoRowGroups buffer.flatten) ∨
      groups = (planner.groupOrder (planner.partitions buffer.flatten)).flatMap
        planner.sliceBatchIntoRowGroups := by
  rw [planRowGroups] at planned
  dsimp only at planned
  split at planned
  · next unpartitioned =>
      exact .inl ⟨List.isEmpty_iff.mp unpartitioned, (Except.ok.inj planned).symm⟩
  · right
    split at planned
    · next empty =>
        rw [← Except.ok.inj planned, List.isEmpty_iff.mp empty]
        have nothing := (planner.groupOrder_perm []).eq_nil
        exact (congrArg (List.flatMap planner.sliceBatchIntoRowGroups) nothing).symm
    · obtain ⟨-, -, same⟩ := Script.except_bind_eq_ok.mp planned
      rw [← Except.ok.inj same, groupByKey_map]
      rfl

theorem partitionKeyForRow_eq_iff {row : R} {parts : List (Option JsonScalar)} :
    planner.partitionKeyForRow row = planner.toString parts ↔ planner.tuple row = parts :=
  planner.toString_injective.eq_iff

/-- A partition has all rows of its tuple and none of the others. -/
theorem filter_partition (rows : List R) (parts : List (Option JsonScalar)) (key : String) :
    (rows.filter fun row => planner.partitionKeyForRow row = key).filter
        (fun row => planner.tuple row = parts) =
      if key = planner.toString parts then rows.filter fun row => planner.tuple row = parts
      else [] := by
  rw [List.filter_filter]
  split
  · next same =>
      subst same
      apply List.filter_congr
      intro row _
      simp [partitionKeyForRow_eq_iff]
  · next other =>
      apply List.filter_eq_nil_iff.mpr
      intro row _ both
      obtain ⟨here, there⟩ := Bool.and_eq_true_iff.mp both
      have own := partitionKeyForRow_eq_iff.mpr (of_decide_eq_true here)
      exact other ((of_decide_eq_true there).symm.trans own)

/-- The rows of one tuple keep their order. -/
theorem filter_flatten_partitions (rows : List R) (parts : List (Option JsonScalar)) :
    (planner.groupOrder (planner.partitions rows)).flatten.filter
        (fun row => planner.tuple row = parts) =
      rows.filter fun row => planner.tuple row = parts := by
  have distinct := List.nodup_dedup (rows.map planner.partitionKeyForRow)
  have filtered : (planner.partitions rows).map (List.filter fun row => planner.tuple row = parts) =
      (rows.map planner.partitionKeyForRow).dedup.map fun key =>
        if key = planner.toString parts then rows.filter fun row => planner.tuple row = parts
        else [] := by
    rw [partitions, List.map_map]
    exact List.map_congr_left fun key _ => filter_partition rows parts key
  have perm := (planner.groupOrder_perm (planner.partitions rows)).map
    (List.filter fun row => planner.tuple row = parts)
  rw [filtered] at perm
  rw [List.filter_flatten, flatten_eq_of_perm perm, flatten_map_ite distinct]
  · split
    · rfl
    · next absent =>
        symm
        apply List.filter_eq_nil_iff.mpr
        intro row member here
        have own := partitionKeyForRow_eq_iff.mpr (of_decide_eq_true here)
        exact absent (List.mem_dedup.mpr (own ▸ List.mem_map_of_mem member))
  · apply List.pairwise_map.mpr
    apply distinct.imp
    intro first second different
    by_cases here : first = planner.toString parts
    · right
      exact if_neg fun there => different (here.trans there.symm)
    · left
      exact if_neg here

/-- Planning keeps the rows of each tuple, in their order. -/
theorem filter_flatten_planRowGroups (planned : planner.planRowGroups buffer = .ok groups)
    (parts : List (Option JsonScalar)) :
    groups.flatten.filter (fun row => planner.tuple row = parts) =
      buffer.flatten.filter fun row => planner.tuple row = parts := by
  rcases planRowGroups_eq planned with ⟨-, rfl⟩ | rfl
  · rw [flatten_sliceBatchIntoRowGroups]
  · rw [flatten_flatMap_slices, filter_flatten_partitions]

/-- Lists with the same elements of each kind have the same elements. -/
theorem perm_of_filter {κ : Type} [DecidableEq κ] {kind : R → κ} {left right : List R}
    (same : ∀ key, (left.filter fun row => kind row = key) =
      right.filter fun row => kind row = key) : left.Perm right := by
  classical
  apply List.perm_iff_count.mpr
  intro row
  have kept : ∀ rows : List R,
      (rows.filter fun other => kind other = kind row).count row = rows.count row := by
    intro rows
    apply List.count_filter
    exact decide_eq_true rfl
  rw [← kept left, ← kept right, same]

/-- Row groups have rows, and at most as many as the target. -/
theorem length_of_mem_planRowGroups (planned : planner.planRowGroups buffer = .ok groups)
    {group : List R} (member : group ∈ groups) :
    group ≠ [] ∧ group.length ≤ planner.rowGroupTargetRows := by
  have sliced : ∃ rows, group ∈ planner.sliceBatchIntoRowGroups rows := by
    rcases planRowGroups_eq planned with ⟨-, rfl⟩ | rfl
    · exact ⟨_, member⟩
    · obtain ⟨rows, -, slice⟩ := List.mem_flatMap.mp member
      exact ⟨rows, slice⟩
  obtain ⟨rows, slice⟩ := sliced
  obtain ⟨nonempty, short⟩ := Writer.length_of_mem_slices (chunkRows_pos rows) slice
  exact ⟨nonempty, short.trans (chunkRows_le rows)⟩

/-- The rows of a row group have one tuple. -/
theorem tuple_of_mem_planRowGroups (planned : planner.planRowGroups buffer = .ok groups)
    {group : List R} (member : group ∈ groups) :
    ∃ parts, ∀ row ∈ group, planner.tuple row = parts := by
  rcases planRowGroups_eq planned with ⟨unpartitioned, -⟩ | rfl
  · refine ⟨[], fun row _ => ?_⟩
    rw [tuple, unpartitioned]
    rfl
  · obtain ⟨rows, in_order, slice⟩ := List.mem_flatMap.mp member
    obtain ⟨key, -, rfl⟩ := List.mem_map.mp ((planner.groupOrder_perm _).mem_iff.mp in_order)
    have keyed : ∀ row ∈ group, planner.partitionKeyForRow row = key := by
      intro row inside
      exact of_decide_eq_true (List.mem_filter.mp (Writer.mem_of_mem_slices slice row inside)).2
    rcases group with _ | ⟨first, rest⟩
    · exact ⟨[], nofun⟩
    · refine ⟨planner.tuple first, fun row inside => ?_⟩
      have first_key := keyed first List.mem_cons_self
      exact partitionKeyForRow_inj.mp ((keyed row inside).trans first_key.symm)

/-! ## Recorded partition values -/

theorem foldl_insertValue_replicate (count : Nat) (value : JsonScalar) :
    (List.replicate count value).foldl insertValue [value] = [value] := by
  induction count with
  | zero => rfl
  | succ count ih =>
      have known : insertValue [value] value = [value] := by
        simp [insertValue, JsonScalar.same_self]
      rw [List.replicate_succ, List.foldl_cons, known, ih]

/-- Rows with one value in a column have that value there, and no other. -/
theorem distinctNonNullValues_of_forall {column : String} {rows : List R} (nonempty : rows ≠ [])
    {value : Option JsonScalar} (all : ∀ row ∈ rows, planner.jsonValue column row = value) :
    planner.distinctNonNullValues column rows = value.toList := by
  rw [distinctNonNullValues]
  cases value with
  | none =>
      rw [List.filterMap_eq_nil_iff.mpr all]
      rfl
  | some value =>
      obtain ⟨first, rest, rfl⟩ := List.exists_cons_of_ne_nil nonempty
      have values : (first :: rest).filterMap (planner.jsonValue column) =
          List.replicate (first :: rest).length value := by
        rw [List.filterMap_congr all, ← List.map_const']
        exact congrFun (@List.filterMap_eq_map _ _ fun _ => value) _
      rw [values, List.length_cons, List.replicate_succ, List.foldl_cons]
      exact foldl_insertValue_replicate rest.length value

/-- Partition values of rows with one tuple are those of the first row. -/
theorem partitionValuesFrom_eq_gather {rows : List R} {first : R} (member : first ∈ rows)
    {columns : List String}
    (agree : ∀ column ∈ columns, ∀ row ∈ rows,
      planner.jsonValue column row = planner.jsonValue column first)
    (start : HashMap String JsonScalar) :
    planner.partitionValuesFrom rows columns start =
      Writer.gather (fun column => planner.jsonValue column first) columns start := by
  induction columns generalizing start with
  | nil => rfl
  | cons column columns ih =>
      have later := ih fun other inside => agree other (List.mem_cons_of_mem column inside)
      rw [partitionValuesFrom, distinctNonNullValues_of_forall (List.ne_nil_of_mem member)
        (agree column List.mem_cons_self), Writer.gather]
      cases found : planner.jsonValue column first with
      | none => rfl
      | some value => exact later _

/-- The recorded values are exactly the values of all rows of a row group, or there is a null. -/
def Records (planner : RowGroupPlanner R) (group : List R) :
    Option (HashMap String JsonScalar) → Prop
  | some values => ∀ column,
      (column ∈ planner.partitionBy → ∃ value, values.lookup column = some value ∧
        ∀ row ∈ group, planner.jsonValue column row = some value) ∧
      (column ∉ planner.partitionBy → values.lookup column = none)
  | none => planner.partitionBy = [] ∨
      ∃ column ∈ planner.partitionBy, ∀ row ∈ group, planner.jsonValue column row = none

theorem records_computePartitionValues {group : List R} (nonempty : group ≠ [])
    {parts : List (Option JsonScalar)} (all : ∀ row ∈ group, planner.tuple row = parts) :
    planner.Records group (planner.computePartitionValues group) := by
  obtain ⟨first, rest, rfl⟩ := List.exists_cons_of_ne_nil nonempty
  have agree : ∀ column ∈ planner.partitionBy, ∀ row ∈ first :: rest,
      planner.jsonValue column row = planner.jsonValue column first := by
    intro column inside row member
    have same := (all row member).trans (all first List.mem_cons_self).symm
    exact List.map_inj_left.mp same column inside
  have gathered := Writer.gather_cases (fun column => planner.jsonValue column first)
    planner.partitionBy ∅
  rw [computePartitionValues, partitionValuesFrom_eq_gather List.mem_cons_self agree]
  split at gathered
  · next values found =>
      rw [found]
      intro column
      obtain ⟨inside, outside⟩ := gathered column
      refine ⟨fun member => ?_, outside⟩
      obtain ⟨present, recorded⟩ := inside member
      obtain ⟨value, value_eq⟩ := Option.isSome_iff_exists.mp present
      refine ⟨value, recorded.trans value_eq, fun row in_group => ?_⟩
      exact (agree column member row in_group).trans value_eq
  · next found =>
      rw [found]
      rcases gathered with ⟨-, unpartitioned⟩ | ⟨column, member, absent⟩
      · exact .inl unpartitioned
      · exact .inr ⟨column, member, fun row in_group =>
          (agree column member row in_group).trans absent⟩

/-! ## The plan -/

/-- The row groups are the buffered rows, cut into row groups of one partition each.  JSON nulls stand
for nulls and for floats that are not finite. -/
structure Partitions (planner : RowGroupPlanner R) (buffer groups : List (List R)) : Prop where
  rows : groups.flatten.Perm buffer.flatten
  ordered : ∀ parts, (groups.flatten.filter fun row => planner.tuple row = parts) =
    buffer.flatten.filter fun row => planner.tuple row = parts
  sizes : ∀ group ∈ groups, group ≠ [] ∧ group.length ≤ planner.rowGroupTargetRows
  homogeneous : ∀ group ∈ groups, ∃ parts, ∀ row ∈ group, planner.tuple row = parts
  recorded : ∀ group ∈ groups, planner.Records group (planner.computePartitionValues group)

theorem validatePartitionTypes_of_supported {columns : List String}
    (supported : ∀ column ∈ columns, ∃ cell,
      planner.columnByName column = some (.supported cell)) :
    planner.validatePartitionTypes columns = .ok () := by
  induction columns with
  | nil => rfl
  | cons column columns ih =>
      obtain ⟨cell, found⟩ := supported column List.mem_cons_self
      rw [validatePartitionTypes, found]
      exact ih fun other member => supported other (List.mem_cons_of_mem column member)

/-- Planning cuts the buffered rows into row groups of one partition each, and fails only if a
partition column is missing or has an unsupported type. -/
theorem planRowGroups_partitions (planner : RowGroupPlanner R) (buffer : List (List R)) :
    (∀ groups, planner.planRowGroups buffer = .ok groups → planner.Partitions buffer groups) ∧
      ((∀ column ∈ planner.partitionBy, ∃ cell,
          planner.columnByName column = some (.supported cell)) →
        ∃ groups, planner.planRowGroups buffer = .ok groups) := by
  constructor
  · intro groups planned
    constructor
    · exact perm_of_filter (filter_flatten_planRowGroups planned)
    · exact filter_flatten_planRowGroups planned
    · exact fun group member => length_of_mem_planRowGroups planned member
    · exact fun group member => tuple_of_mem_planRowGroups planned member
    · intro group member
      obtain ⟨parts, all⟩ := tuple_of_mem_planRowGroups planned member
      exact records_computePartitionValues (length_of_mem_planRowGroups planned member).1 all
  · intro supported
    rw [planRowGroups, validatePartitionTypes_of_supported supported]
    dsimp only
    split
    · exact ⟨_, rfl⟩
    · split
      · exact ⟨_, rfl⟩
      · exact ⟨_, rfl⟩

/-! ## The plan of a writer -/

/-- A planner reads columns without floats as a writer does. -/
structure Reads (planner : RowGroupPlanner R) (writer : Writer R) (choices : Choices R) : Prop where
  partitionBy : planner.partitionBy = writer.partitionColumns
  targetRows : planner.rowGroupTargetRows = writer.schema.rowGroupTargetRows
  targetBytes : planner.rowGroupTargetBytes = writer.schema.rowGroupTargetBytes
  memorySize : planner.memorySize = writer.kernel.memorySize
  groupOrder : planner.groupOrder = choices.groupOrder
  supported : ∀ column ∈ planner.partitionBy, ∃ cell,
    planner.columnByName column = some (.supported cell)
  values : ∀ column ∈ planner.partitionBy, ∀ row, ∃ value,
    writer.kernel.partitionValue column row = .ok value ∧
      planner.jsonValue column row = value.map .scalar
  text : ∀ parts : List (Option Scalar), planner.toString (parts.map (Option.map .scalar)) =
    String.ofList (Json.render (.arr (parts.map fun part =>
      (part.map Scalar.codec.encode).getD .null)))

theorem partitionKeyForRow_eq {writer : Writer R} {choices : Choices R}
    (reads : planner.Reads writer choices) (row : R) :
    writer.partitionKeyForRow row = .ok (planner.partitionKeyForRow row) := by
  have parts : ∀ columns : List String, (∀ column ∈ columns, column ∈ planner.partitionBy) →
      ∃ found, columns.mapM (fun column => writer.kernel.partitionValue column row) = .ok found ∧
        columns.map (fun column => planner.jsonValue column row) =
          found.map (Option.map .scalar) := by
    intro columns inside
    induction columns with
    | nil => exact ⟨[], rfl, rfl⟩
    | cons column columns ih =>
        obtain ⟨first, others⟩ := List.forall_mem_cons.mp inside
        obtain ⟨found, mapped, same⟩ := ih others
        obtain ⟨value, read, json⟩ := reads.values column first row
        refine ⟨value :: found, ?_, ?_⟩
        · rw [List.mapM_cons, read, mapped]
          rfl
        · rw [List.map_cons, List.map_cons, json, same]
  obtain ⟨found, mapped, same⟩ := parts planner.partitionBy fun _ member => member
  rw [Writer.partitionKeyForRow, ← reads.partitionBy, mapped, partitionKeyForRow, same, reads.text]
  rfl

theorem partitionKeys_eq {writer : Writer R} {choices : Choices R}
    (reads : planner.Reads writer choices) (rows : List R) :
    writer.partitionKeys rows = .ok (rows.map fun row => (planner.partitionKeyForRow row, row)) := by
  induction rows with
  | nil => rfl
  | cons row rows ih =>
      rw [Writer.partitionKeys, partitionKeyForRow_eq reads, ih]
      rfl

/-- On such columns the planner plans the row groups of the writer. -/
theorem planRowGroups_eq_writer {writer : Writer R} {choices : Choices R}
    (reads : planner.Reads writer choices) (buffer : List (List R)) :
    planner.planRowGroups buffer = writer.planRowGroups choices buffer := by
  have sliced : planner.sliceBatchIntoRowGroups = writer.sliceBatchIntoRowGroups := by
    funext rows
    rw [sliceBatchIntoRowGroups, Writer.sliceBatchIntoRowGroups, chunkRows, Writer.chunkRows,
      reads.targetRows, reads.targetBytes, reads.memorySize]
  rw [planRowGroups, Writer.planRowGroups, ← reads.partitionBy, sliced,
    partitionKeys_eq reads, validatePartitionTypes_of_supported reads.supported, reads.groupOrder]
  dsimp only
  split
  · rfl
  · split
    · next empty =>
        have nothing := (choices.groupOrder_perm []).eq_nil
        rw [List.isEmpty_iff.mp empty]
        exact congrArg (fun parts => Except.ok (List.flatMap writer.sliceBatchIntoRowGroups parts))
          nothing.symm
    · rfl

/-! ### A column of cells -/

/-- JSON text of an array, with the parts of floats. -/
def arrayText (parts : List (Option JsonScalar)) : String :=
  String.ofList (Json.render (.arr (parts.map fun
    | none => .null
    | some (.scalar value) => Scalar.codec.encode value
    | some (.float negative value) =>
        .arr [.bool negative, .num value.num, .num (value.den : Int)])))

theorem arrayText_injective : Function.Injective arrayText := by
  intro left right same
  have documents := congrArg Json.parse (String.ofList_injective same)
  rw [Json.parse_render, Json.parse_render] at documents
  refine Function.Injective.list_map ?_ (Json.arr.inj (Option.some.inj documents))
  rintro (_ | (one | ⟨minus, one⟩)) (_ | (two | ⟨sign, two⟩)) equal
  · rfl
  · exact absurd equal.symm (Scalar.codec.encode_ne_null two)
  · cases equal
  · exact absurd equal (Scalar.codec.encode_ne_null one)
  · have decoded := congrArg Scalar.codec.decode equal
    rw [Scalar.codec.decode_encode, Scalar.codec.decode_encode] at decoded
    rw [Option.some.inj decoded]
  · cases one <;> cases equal
  · cases equal
  · cases two <;> cases equal
  · simp only [Json.arr.injEq, List.cons.injEq, Json.bool.injEq, Json.num.injEq, and_true] at equal
    obtain ⟨rfl, num, den⟩ := equal
    rw [Rat.ext num (by exact_mod_cast den)]

/-- Rows that consist of one cell, partitioned by it. -/
def cells : RowGroupPlanner PartitionCell where
  table := "t"
  partitionBy := ["x"]
  rowGroupTargetRows := 2
  rowGroupTargetBytes := 1000
  memorySize rows := rows.length * 8
  columnByName name := if name = "x" then some (.supported id) else none
  toString := arrayText
  groupOrder := id
  targetRows_pos := by decide
  targetBytes_pos := by decide
  toString_injective := arrayText_injective
  groupOrder_perm groups := .refl groups

theorem planRowGroups_partitions_cells : ∃ groups,
    cells.planRowGroups [[.integer 1, .null, .integer 1], [.integer 2, .integer 1]] = .ok groups ∧
      cells.Partitions [[.integer 1, .null, .integer 1], [.integer 2, .integer 1]] groups := by
  obtain ⟨sound, total⟩ := planRowGroups_partitions cells
    [[.integer 1, .null, .integer 1], [.integer 2, .integer 1]]
  obtain ⟨groups, planned⟩ := total (by
    intro column member
    obtain rfl := List.mem_singleton.mp member
    exact ⟨id, rfl⟩)
  exact ⟨groups, planned, sound groups planned⟩

/-- All rows of a row group have one cell in the partition column, and it is the recorded one. -/
def HasOneCell (group : List PartitionCell) : Prop :=
  ∃ cell values, (∀ row ∈ group, row = cell) ∧ cells.computePartitionValues group = some values ∧
    values.lookup "x" = scalarToJsonValue cell

/-- A null and a float that is no number share a row group without recorded values. -/
theorem not_hasOneCell_null_nan :
    cells.planRowGroups [[.null, .float false .nan]] = .ok [[.null, .float false .nan]] ∧
      ¬HasOneCell [.null, .float false .nan] := by
  constructor
  · decide +kernel
  · rintro ⟨cell, values, all, -, -⟩
    have first := all .null (by decide)
    have second := all (.float false .nan) (by decide)
    rw [← first] at second
    cases second

end RowGroupPlanner

end IcefallDB
