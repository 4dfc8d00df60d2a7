import IcefallDB.ScanSelection.Cover

/-!
# Offsets of emitted rows

The Parquet reader returns the selected rows without their offsets.  The custom scan computes the
offsets from the same selection, and gives each batch the window of offsets that its rows have.
-/

namespace IcefallDB

open ScanSelection

variable {lib : RowSelections} {V T : Type}

/-! ## Batches -/

/-- A row group of a plan with its contents. -/
def ScanSelection.contents (vectors : String → DeletionVector) (rowGroup : PlannedRowGroup)
    (rows : List (DataRow V)) : ScanRowGroup V :=
  { fragmentId := rowGroup.entry.fragmentId
    rowIds := rowGroup.sidecar.rowIds
    rows
    deletions := deletionsOf vectors rowGroup }

namespace ScanExec

/-- The columns of a batch that is wide enough for the filters, with the pseudo-columns. -/
def wideLine (exec : ScanExec V T) (rowGroup : ScanRowGroup V) (batch : List Nat)
    (row : DataRow V × Nat) : DataRow V :=
  fun column =>
    if column < exec.schema.width then exec.wideRow batch row.1 column
    else columnValue exec.schema rowGroup row column

/-- The output of a batch whose rows have been given their offsets. -/
def emitBatch [DecidableEq T] (exec : ScanExec V T) (rowGroup : ScanRowGroup V)
    (rows : List (DataRow V × Nat)) : Option (List (List V)) :=
  if exec.filters.isEmpty then
    match stitch exec.schema.width exec.columns
        (fileOrder exec.schema.width exec.dataColumns) with
    | some sources =>
        if sources.map exec.schema.dataType = exec.columns.map exec.schema.dataType then
          some (rows.map fun row => sources.map (columnValue exec.schema rowGroup row))
        else none
    | none => none
  else
    let batch := fileOrder exec.schema.width exec.expandedColumns
    if batch.map exec.schema.dataType = exec.expandedColumns.map exec.schema.dataType then
      some ((rows.filter fun row => passes exec.filters (exec.wideLine rowGroup batch row)).map
        fun row => exec.columns.map (exec.wideLine rowGroup batch row))
    else none

/-- The output of the batches of a reader; `consumed` rows have been read before.  A window outside
the offsets is a panic. -/
def emitBatches [DecidableEq T] (exec : ScanExec V T) (rowGroup : ScanRowGroup V)
    (liveOffsets : List Nat) : Nat → List (List (DataRow V)) → Option (List (List V))
  | _, [] => some []
  | consumed, batch :: batches =>
      if consumed + batch.length ≤ liveOffsets.length then do
        let window := (liveOffsets.drop consumed).take batch.length
        let out ← exec.emitBatch rowGroup (batch.zip window)
        let rest ← exec.emitBatches rowGroup liveOffsets (consumed + batch.length) batches
        some (out ++ rest)
      else none

end ScanExec

/-- The reader returns the selected rows in physical order, up to the limit, in some batches. -/
def ReadsInOrder (limit : Option Nat) (selection : Option lib.Selection)
    (rows : List (DataRow V)) (batches : List (List (DataRow V))) : Prop :=
  batches.flatten = Limits.upTo limit
    ((livePhysicalOffsets selection rows.length).filterMap fun offset => rows[offset]?)

/-- The output of a partition with pseudo-columns, from the batches of its reader. -/
def ScanExec.emitPartition [DecidableEq T] (exec : ScanExec V T)
    (vectors : String → DeletionVector) (partition : ScanSelection.ScanPartition lib)
    (rows : List (DataRow V)) (batches : List (List (DataRow V))) : Option (List (List V)) :=
  exec.emitBatches (contents vectors partition.rowGroup rows)
    (livePhysicalOffsets (effectiveRowSelection vectors partition)
      partition.rowGroup.sidecar.rows) 0 batches

/-- The selection of a partition spans the rows of its row group. -/
def ScanSelection.ScanPartition.Spans (partition : ScanSelection.ScanPartition lib) : Prop :=
  ∀ selection ∈ partition.rowSelection,
    (lib.flags selection).length = partition.rowGroup.sidecar.rows

/-- A line of output holds the data of the row at an offset and names it. -/
structure ScanExec.NamesRow (exec : ScanExec V T) (rowGroup : ScanRowGroup V) (offset : Nat)
    (cells : List V) : Prop where
  length : cells.length = exec.columns.length
  /-- Data columns come from the row at the offset. -/
  data : ∃ row : DataRow V, rowGroup.rows[offset]? = some row ∧
    ∀ position column : Nat, exec.columns[position]? = some column →
      column < exec.schema.width → ∃ source < exec.schema.width, cells[position]? = some (row source)
  rowId : ∀ position : Nat, exec.columns[position]? = some exec.schema.width →
    ∃ id, (expand rowGroup.rowIds)[offset]? = some id ∧
      cells[position]? = some (exec.schema.number id)
  /-- The two halves of an address are the fragment and the offset. -/
  rowAddr : ∀ position : Nat, exec.columns[position]? = some (exec.schema.width + 1) →
    ∃ address, cells[position]? = some (exec.schema.number address) ∧
      address / 2 ^ 32 = rowGroup.fragmentId ∧ address % 2 ^ 32 = offset

/-! ## Row ids -/

theorem rowIdAtOffset_eq (segments : List RowIdSegment) (offset : Nat) :
    rowIdAtOffset segments offset = (expand segments)[offset]? := by
  induction segments generalizing offset with
  | nil => rfl
  | cons segment segments ih =>
      rw [expand, List.flatMap_cons, List.getElem?_append]
      cases segment with
      | range start count =>
          rw [rowIdAtOffset, segmentIds, List.length_range']
          split
          · next inside => rw [List.getElem?_range' inside, Nat.one_mul]
          · exact ih (offset - count)
      | sorted ids =>
          rw [rowIdAtOffset, segmentIds]
          by_cases inside : offset < ids.length
          · rw [if_pos inside, List.getElem?_eq_getElem inside]
          · rw [if_neg inside, List.getElem?_eq_none (by omega)]
            exact ih (offset - ids.length)

/-! ## Selected offsets -/

/-- A selection that spans its row group selects offsets of it, in order. -/
theorem livePhysicalOffsets_of_spans (vectors : String → DeletionVector)
    {partition : ScanSelection.ScanPartition lib} (spans : partition.Spans) :
    ∃ p, livePhysicalOffsets (effectiveRowSelection vectors partition)
      partition.rowGroup.sidecar.rows = (List.range partition.rowGroup.sidecar.rows).filter p := by
  cases selected : partition.rowSelection with
  | none =>
      refine ⟨_, livePhysicalOffsets_eq (p := fun _ => true) ?_⟩
      rw [selected]
      exact fun _ => rfl
  | some selection =>
      refine ⟨_, livePhysicalOffsets_eq (p := fun row => (lib.flags selection).getD row false) ?_⟩
      rw [selected]
      apply List.ext_getElem
      · rw [List.length_map, List.length_range]
        exact spans selection selected
      · intro row left right
        simp [left]

/-- Rows at offsets that exist, with the offsets. -/
theorem zip_filterMap_getElem {α : Type} {rows : List α} {offsets : List Nat}
    (inside : ∀ offset ∈ offsets, offset < rows.length) :
    (offsets.filterMap fun offset => rows[offset]?).zip offsets =
      offsets.filterMap fun offset => rows[offset]?.map fun row => (row, offset) := by
  induction offsets with
  | nil => rfl
  | cons offset offsets ih =>
      have rest := ih fun other member => inside other (.tail _ member)
      have found := List.getElem?_eq_getElem (inside offset List.mem_cons_self)
      simp [found, rest]

theorem map_snd_filterMap_sublist {α : Type} (rows : List α) (offsets : List Nat) :
    ((offsets.filterMap fun offset => rows[offset]?.map fun row => (row, offset)).map
      Prod.snd).Sublist offsets := by
  induction offsets with
  | nil => exact List.Sublist.slnil
  | cons offset offsets ih =>
      cases found : rows[offset]? with
      | none =>
          rw [List.filterMap_cons_none (by rw [found]; rfl)]
          exact ih.cons offset
      | some row =>
          rw [List.filterMap_cons_some (by rw [found]; rfl)]
          exact ih.cons_cons offset

theorem upTo_zip {α β : Type} (limit : Option Nat) (left : List α) (right : List β) :
    (Limits.upTo limit left).zip right = Limits.upTo limit (left.zip right) := by
  cases limit with
  | none => rfl
  | some k =>
      simp only [Limits.upTo_some]
      induction k generalizing left right with
      | zero => simp
      | succ k ih =>
          cases left with
          | nil => simp
          | cons first left =>
              cases right with
              | nil => simp
              | cons second right => simp [ih]

/-! ## Lines -/

namespace ScanExec

variable {exec : ScanExec V T} {rowGroup : ScanRowGroup V}

theorem stitch_eq_some {width : Nat} {columns batch sources : List Nat}
    (stitched : stitch width columns batch = some sources) :
    sources.length = columns.length ∧ ∀ position column : Nat, columns[position]? = some column →
      (column < width → ∃ source ∈ batch, sources[position]? = some source) ∧
      (width ≤ column → sources[position]? = some column) := by
  induction columns generalizing batch sources with
  | nil =>
      cases stitched
      exact ⟨rfl, fun position column found => by simp at found⟩
  | cons head columns ih =>
      rw [stitch.eq_def] at stitched
      dsimp only at stitched
      split at stitched
      · next data =>
          cases batch with
          | nil => cases stitched
          | cons source batch =>
              obtain ⟨rest, found_rest, rfl⟩ := Option.map_eq_some_iff.mp stitched
              obtain ⟨length, positions⟩ := ih found_rest
              refine ⟨by simp [length], fun position column found => ?_⟩
              cases position with
              | zero =>
                  obtain rfl : head = column := by simpa using found
                  exact ⟨fun _ => ⟨source, List.mem_cons_self, rfl⟩, fun wide => by omega⟩
              | succ position =>
                  obtain ⟨small, wide⟩ := positions position column (by simpa using found)
                  refine ⟨fun below => ?_, fun above => by simpa using wide above⟩
                  obtain ⟨other, member, at_position⟩ := small below
                  exact ⟨other, List.mem_cons_of_mem _ member, by simpa using at_position⟩
      · next pseudo =>
          obtain ⟨rest, found_rest, rfl⟩ := Option.map_eq_some_iff.mp stitched
          obtain ⟨length, positions⟩ := ih found_rest
          refine ⟨by simp [length], fun position column found => ?_⟩
          cases position with
          | zero =>
              obtain rfl : head = column := by simpa using found
              exact ⟨fun below => (pseudo below).elim, fun _ => rfl⟩
          | succ position => simpa using positions position column (by simpa using found)

/-- The row ids cover the rows, and the halves of the addresses are wide enough. -/
structure Addressable (rowGroup : ScanRowGroup V) : Prop where
  covered : rowGroup.rows.length ≤ (expand rowGroup.rowIds).length
  fragment : rowGroup.fragmentId < 2 ^ 32
  offsets : rowGroup.rows.length ≤ 2 ^ 32

/-- The halves of an address. -/
theorem address_halves {fragmentId offset : Nat} (fragment : fragmentId < 2 ^ 32)
    (small : offset < 2 ^ 32) :
    (fragmentId <<< 32 ||| offset) % 2 ^ 64 / 2 ^ 32 = fragmentId ∧
      (fragmentId <<< 32 ||| offset) % 2 ^ 64 % 2 ^ 32 = offset := by
  rw [← Nat.shiftLeft_add_eq_or_of_lt small, Nat.shiftLeft_eq]
  omega

/-- Pseudo-columns of a row at an offset. -/
theorem columnValue_pseudo (exec : ScanExec V T) (addressable : Addressable rowGroup)
    (row : DataRow V) {offset : Nat}
    (inside : offset < rowGroup.rows.length) :
    (∃ id, (expand rowGroup.rowIds)[offset]? = some id ∧
      columnValue exec.schema rowGroup (row, offset) exec.schema.width =
        exec.schema.number id) ∧
    ∃ address, columnValue exec.schema rowGroup (row, offset) (exec.schema.width + 1) =
      exec.schema.number address ∧ address / 2 ^ 32 = rowGroup.fragmentId ∧
        address % 2 ^ 32 = offset := by
  constructor
  · have covered : offset < (expand rowGroup.rowIds).length :=
      inside.trans_le addressable.covered
    refine ⟨_, List.getElem?_eq_getElem covered, ?_⟩
    rw [columnValue, if_neg (lt_irrefl _), if_pos rfl, rowIdAtOffset_eq,
      List.getElem?_eq_getElem covered, Option.getD_some]
  · refine ⟨(rowGroup.fragmentId <<< 32 ||| offset) % 2 ^ 64, ?_, ?_⟩
    · rw [columnValue, if_neg (by omega), if_neg (by omega)]
    · exact address_halves addressable.fragment (inside.trans_le addressable.offsets)

/-- A column of the wide batch is some column of the file. -/
theorem exists_wideRow {batch : List Nat} (length : batch.length = exec.expandedColumns.length)
    {column : Nat} (member : column ∈ exec.expandedColumns) (row : DataRow V) :
    ∃ source ∈ batch, exec.wideRow batch row column = row source := by
  have found : ∀ columns batch : List Nat, batch.length = columns.length → column ∈ columns →
      ∃ source ∈ batch, (columns.zip batch).lookup column = some source := by
    intro columns
    induction columns with
    | nil => intro batch _ inside; cases inside
    | cons head columns ih =>
        intro batch length inside
        cases batch with
        | nil => cases length
        | cons first batch =>
            rw [List.zip_cons_cons, List.lookup_cons]
            by_cases same : column = head
            · exact ⟨first, List.mem_cons_self, by simp [same]⟩
            · rw [beq_eq_false_iff_ne.mpr same]
              obtain ⟨source, present, looked⟩ := ih batch (Nat.succ.inj length)
                (List.mem_of_ne_of_mem same inside)
              exact ⟨source, List.mem_cons_of_mem _ present, looked⟩
  obtain ⟨source, present, looked⟩ := found _ batch length member
  refine ⟨source, present, ?_⟩
  rw [wideRow, looked]

section Lines

variable {row : DataRow V} {offset : Nat}

theorem namesRow_stitched (addressable : Addressable rowGroup) {sources : List Nat}
    (stitched : stitch exec.schema.width exec.columns
      (fileOrder exec.schema.width exec.dataColumns) = some sources)
    (found : rowGroup.rows[offset]? = some row) :
    exec.NamesRow rowGroup offset
      (sources.map (columnValue exec.schema rowGroup (row, offset))) := by
  have inside : offset < rowGroup.rows.length := (List.getElem?_eq_some_iff.mp found).1
  obtain ⟨length, positions⟩ := stitch_eq_some stitched
  obtain ⟨⟨id, id_eq, rowid_eq⟩, address, rowaddr_eq, halves⟩ :=
    columnValue_pseudo exec addressable row inside
  constructor
  · simp [length]
  · refine ⟨row, found, fun position column at_column data => ?_⟩
    obtain ⟨source, member, at_source⟩ := (positions position column at_column).1 data
    have below : source < exec.schema.width :=
      List.mem_range.mp (List.mem_of_mem_filter member)
    refine ⟨source, below, ?_⟩
    rw [List.getElem?_map, at_source, Option.map_some, columnValue, if_pos below]
  · intro position at_rowid
    have at_source := (positions position _ at_rowid).2 le_rfl
    refine ⟨id, id_eq, ?_⟩
    rw [List.getElem?_map, at_source, Option.map_some, rowid_eq]
  · intro position at_rowaddr
    have at_source := (positions position _ at_rowaddr).2 (Nat.le_succ _)
    refine ⟨address, ?_, halves⟩
    rw [List.getElem?_map, at_source, Option.map_some, rowaddr_eq]

theorem namesRow_wide (addressable : Addressable rowGroup)
    (length : (fileOrder exec.schema.width exec.expandedColumns).length =
      exec.expandedColumns.length)
    (found : rowGroup.rows[offset]? = some row) :
    exec.NamesRow rowGroup offset (exec.columns.map (exec.wideLine rowGroup
      (fileOrder exec.schema.width exec.expandedColumns) (row, offset))) := by
  have inside : offset < rowGroup.rows.length := (List.getElem?_eq_some_iff.mp found).1
  obtain ⟨⟨id, id_eq, rowid_eq⟩, address, rowaddr_eq, halves⟩ :=
    columnValue_pseudo exec addressable row inside
  constructor
  · simp
  · refine ⟨row, found, fun position column at_column data => ?_⟩
    have expanded : column ∈ exec.expandedColumns :=
      mem_expandedColumns data (.inl (List.mem_of_getElem? at_column))
    obtain ⟨source, member, source_eq⟩ := exists_wideRow length expanded row
    have below : source < exec.schema.width :=
      List.mem_range.mp (List.mem_of_mem_filter member)
    refine ⟨source, below, ?_⟩
    rw [List.getElem?_map, at_column, Option.map_some, wideLine, if_pos data, source_eq]
  · intro position at_rowid
    refine ⟨id, id_eq, ?_⟩
    rw [List.getElem?_map, at_rowid, Option.map_some, wideLine, if_neg (lt_irrefl _), rowid_eq]
  · intro position at_rowaddr
    refine ⟨address, ?_, halves⟩
    rw [List.getElem?_map, at_rowaddr, Option.map_some, wideLine, if_neg (by omega), rowaddr_eq]

end Lines

/-- Where batches can be built at all, each row that passes a test becomes a line, and the line
names the row. -/
theorem emitBatch_spec [DecidableEq T] (exec : ScanExec V T) (rowGroup : ScanRowGroup V) :
    (∀ rows, exec.emitBatch rowGroup rows = none) ∨
    ∃ (keep : DataRow V × Nat → Bool) (line : DataRow V × Nat → List V),
      (∀ rows, exec.emitBatch rowGroup rows = some ((rows.filter keep).map line)) ∧
      (Addressable rowGroup → ∀ row offset, rowGroup.rows[offset]? = some row →
        exec.NamesRow rowGroup offset (line (row, offset))) := by
  by_cases unfiltered : exec.filters.isEmpty = true
  · cases stitched : stitch exec.schema.width exec.columns
        (fileOrder exec.schema.width exec.dataColumns) with
    | none =>
        left
        intro rows
        rw [emitBatch, if_pos unfiltered, stitched]
    | some sources =>
        by_cases fits : sources.map exec.schema.dataType = exec.columns.map exec.schema.dataType
        · right
          refine ⟨fun _ => true, fun row => sources.map (columnValue exec.schema rowGroup row),
            fun rows => ?_, fun addressable row offset => namesRow_stitched addressable stitched⟩
          rw [emitBatch, if_pos unfiltered, stitched, List.filter_true]
          exact if_pos fits
        · left
          intro rows
          rw [emitBatch, if_pos unfiltered, stitched]
          exact if_neg fits
  · by_cases fits : (fileOrder exec.schema.width exec.expandedColumns).map exec.schema.dataType =
        exec.expandedColumns.map exec.schema.dataType
    · right
      have length := congrArg List.length fits
      rw [List.length_map, List.length_map] at length
      refine ⟨fun row => passes exec.filters (exec.wideLine rowGroup
            (fileOrder exec.schema.width exec.expandedColumns) row),
          fun row => exec.columns.map (exec.wideLine rowGroup
            (fileOrder exec.schema.width exec.expandedColumns) row),
          fun rows => ?_, fun addressable row offset => namesRow_wide addressable length⟩
      rw [emitBatch, if_neg unfiltered]
      exact if_pos fits
    · left
      intro rows
      rw [emitBatch, if_neg unfiltered]
      exact if_neg fits

/-! ## Windows -/

/-- The windows of the batches put each row together with its offset. -/
theorem emitBatches_eq [DecidableEq T] {keep : DataRow V × Nat → Bool}
    {line : DataRow V × Nat → List V}
    (emits : ∀ rows, exec.emitBatch rowGroup rows = some ((rows.filter keep).map line))
    {liveOffsets : List Nat} (batches : List (List (DataRow V))) {consumed : Nat}
    (enough : consumed + batches.flatten.length ≤ liveOffsets.length) :
    exec.emitBatches rowGroup liveOffsets consumed batches =
      some (((batches.flatten.zip (liveOffsets.drop consumed)).filter keep).map line) := by
  induction batches generalizing consumed with
  | nil => rfl
  | cons batch batches ih =>
      rw [List.flatten_cons, List.length_append] at enough
      have here : consumed + batch.length ≤ liveOffsets.length := by omega
      have split : liveOffsets.drop consumed =
          (liveOffsets.drop consumed).take batch.length ++
            liveOffsets.drop (consumed + batch.length) := by
        rw [← List.drop_drop, List.take_append_drop]
      have window : batch.length = ((liveOffsets.drop consumed).take batch.length).length := by
        rw [List.length_take, List.length_drop]
        omega
      rw [emitBatches, if_pos here]
      have later : consumed + batch.length + batches.flatten.length ≤ liveOffsets.length := by omega
      simp only [emits, ih later]
      rw [List.flatten_cons, split, List.zip_append window, List.filter_append, List.map_append,
        ← split]
      rfl

theorem emitBatches_eq_none [DecidableEq T] (fails : ∀ rows, exec.emitBatch rowGroup rows = none)
    {liveOffsets : List Nat} {batch : List (DataRow V)} {batches : List (List (DataRow V))}
    {consumed : Nat} :
    exec.emitBatches rowGroup liveOffsets consumed (batch :: batches) = none := by
  rw [emitBatches]
  split
  · simp only [fails]
    rfl
  · rfl

/-- Rows that the reader returns, each with the offset at its place. -/
theorem zip_eq_of_readsInOrder {limit : Option Nat} {vectors : String → DeletionVector}
    {partition : ScanSelection.ScanPartition lib} (spans : partition.Spans)
    {rows : List (DataRow V)} (rows_length : rows.length = partition.rowGroup.sidecar.rows)
    {batches : List (List (DataRow V))}
    (reads : ReadsInOrder limit (effectiveRowSelection vectors partition) rows batches) :
    batches.flatten.length ≤ (livePhysicalOffsets (effectiveRowSelection vectors partition)
        partition.rowGroup.sidecar.rows).length ∧
    batches.flatten.zip (livePhysicalOffsets (effectiveRowSelection vectors partition)
        partition.rowGroup.sidecar.rows) =
      Limits.upTo limit ((livePhysicalOffsets (effectiveRowSelection vectors partition)
        partition.rowGroup.sidecar.rows).filterMap fun offset =>
          rows[offset]?.map fun row => (row, offset)) := by
  obtain ⟨p, selected⟩ := livePhysicalOffsets_of_spans vectors spans
  have inside : ∀ offset ∈ livePhysicalOffsets (effectiveRowSelection vectors partition)
      partition.rowGroup.sidecar.rows, offset < rows.length := by
    intro offset member
    rw [selected] at member
    rw [rows_length]
    exact List.mem_range.mp (List.mem_of_mem_filter member)
  rw [ReadsInOrder, rows_length] at reads
  rw [reads]
  constructor
  · exact ((Limits.upTo_sublist limit _).length_le).trans (List.length_filterMap_le ..)
  · rw [upTo_zip, zip_filterMap_getElem inside]

/-- Each emitted line names the row that its data come from, and no row is emitted twice.  Where
batches can be built, a partition is emitted to its end. -/
theorem emitPartition_namesRow [DecidableEq T] (exec : ScanExec V T)
    (vectors : String → DeletionVector) (partition : ScanSelection.ScanPartition lib)
    (spans : partition.Spans) (rows : List (DataRow V))
    (rows_length : rows.length = partition.rowGroup.sidecar.rows)
    (addressable : Addressable (contents vectors partition.rowGroup rows))
    (batches : List (List (DataRow V)))
    (reads : ReadsInOrder exec.limit (effectiveRowSelection vectors partition) rows batches) :
    (∀ out, exec.emitPartition vectors partition rows batches = some out →
      ∃ offsets : List Nat, offsets.Sublist (livePhysicalOffsets
          (effectiveRowSelection vectors partition) partition.rowGroup.sidecar.rows) ∧
        List.Forall₂ (exec.NamesRow (contents vectors partition.rowGroup rows)) offsets out) ∧
    ((exec.emitBatch (contents vectors partition.rowGroup rows) []).isSome →
      (exec.emitPartition vectors partition rows batches).isSome) := by
  obtain ⟨enough, zipped⟩ := zip_eq_of_readsInOrder spans rows_length reads
  rcases exec.emitBatch_spec (contents vectors partition.rowGroup rows) with
    fails | ⟨keep, line, emits, names⟩
  · constructor
    · intro out emitted
      cases batches with
      | nil =>
          cases emitted
          exact ⟨[], List.nil_sublist _, .nil⟩
      | cons batch batches =>
          rw [emitPartition, emitBatches_eq_none fails] at emitted
          cases emitted
    · rw [fails]
      nofun
  · have from_start : 0 + batches.flatten.length ≤ (livePhysicalOffsets
        (effectiveRowSelection vectors partition) partition.rowGroup.sidecar.rows).length := by
      rw [Nat.zero_add]
      exact enough
    have emitted_eq := emitBatches_eq emits batches from_start
    rw [List.drop_zero, zipped] at emitted_eq
    constructor
    · intro out emitted
      rw [emitPartition, emitted_eq] at emitted
      obtain rfl := Option.some.inj emitted
      generalize livePhysicalOffsets (effectiveRowSelection vectors partition)
        partition.rowGroup.sidecar.rows = offsets
      have located : ∀ pair ∈ (Limits.upTo exec.limit (offsets.filterMap fun offset =>
          rows[offset]?.map fun row => (row, offset))).filter keep,
            rows[pair.2]? = some pair.1 := by
        intro pair member
        have before := (Limits.upTo_sublist exec.limit _).subset (List.mem_of_mem_filter member)
        obtain ⟨offset, -, found⟩ := List.mem_filterMap.mp before
        obtain ⟨row, at_offset, rfl⟩ := Option.map_eq_some_iff.mp found
        exact at_offset
      refine ⟨((Limits.upTo exec.limit (offsets.filterMap fun offset =>
        rows[offset]?.map fun row => (row, offset))).filter keep).map Prod.snd, ?_, ?_⟩
      · have all : ((offsets.filterMap fun offset =>
            rows[offset]?.map fun row => (row, offset)).map Prod.snd).Sublist offsets :=
          map_snd_filterMap_sublist rows offsets
        exact ((List.filter_sublist.trans (Limits.upTo_sublist exec.limit _)).map Prod.snd).trans
          all
      · rw [List.forall₂_map_left_iff, List.forall₂_map_right_iff, List.forall₂_same]
        intro pair member
        exact names addressable pair.1 pair.2 (located pair member)
    · intro _
      rw [emitPartition, emitted_eq]
      rfl

end ScanExec

/-! ## Concrete partitions -/

namespace Integers

/-- A scan of one data column and both pseudo-columns, with filters and a limit. -/
def addressScan (filters : List (ScanFilter Int)) (limit : Option Nat) : ScanExec Int Unit where
  schema := { width := 1, dataType := fun _ => (), number := Int.ofNat, absent := 0 }
  partitions := []
  columns := [2, 0, 1]
  filters
  limit

/-- The second half of the address: `_rowaddr = 2^32 * 3 + 2` -/
def isThirdRow : ScanFilter Int where
  columns := [2]
  test row := some (row 2 == 2 ^ 32 * 3 + 2)
  reads first second same := by rw [same 2 (List.mem_singleton.mpr rfl)]

/-- A partition over the whole of a row group. -/
def wholeGroup (fragmentId rows : Nat) (deletes : Option String) :
    ScanSelection.ScanPartition RowSelections.shortest where
  rowGroup := scannedGroup fragmentId rows deletes [.range 5 rows]
  rowSelection := none

theorem spans_wholeGroup (fragmentId rows : Nat) (deletes : Option String) :
    (wholeGroup fragmentId rows deletes).Spans := nofun

/-- The address of the only row of fragment 2^32 is 0. -/
theorem not_namesRow_wide :
    ¬ ∀ out, (addressScan [] none).emitPartition (fun _ => ∅) (wholeGroup (2 ^ 32) 1 none)
        [fun _ => 7] [[fun _ => 7]] = some out →
      ∃ offsets : List Nat, offsets.Sublist (livePhysicalOffsets
          (effectiveRowSelection (fun _ => ∅) (wholeGroup (2 ^ 32) 1 none)) 1) ∧
        List.Forall₂ ((addressScan [] none).NamesRow
          (contents (fun _ => ∅) (wholeGroup (2 ^ 32) 1 none).rowGroup [fun _ => 7])) offsets out := by
  intro names
  obtain ⟨offsets, -, all⟩ := names [[0, 7, 5]] (by decide)
  obtain ⟨offset, rest, named, -, -⟩ := List.forall₂_cons_right_iff.mp all
  obtain ⟨address, at_first, fragment, -⟩ := named.rowAddr 0 rfl
  have zero : (0 : Int) = Int.ofNat address := Option.some.inj at_first
  obtain rfl : address = 0 := by simpa using zero.symm
  cases fragment

/-- Of three rows of fragment 3, the first of which is deleted, the filter leaves the last. -/
theorem namesRow_thirdRow :
    (∀ out, (addressScan [isThirdRow] (some 2)).emitPartition (fun _ => {0})
        (wholeGroup 3 3 (some "deletes")) [fun _ => 7, fun _ => 8, fun _ => 9]
        [[fun _ => 8], [fun _ => 9]] = some out →
      ∃ offsets : List Nat, offsets.Sublist (livePhysicalOffsets
          (effectiveRowSelection (fun _ => {0}) (wholeGroup 3 3 (some "deletes"))) 3) ∧
        List.Forall₂ ((addressScan [isThirdRow] (some 2)).NamesRow
          (contents (fun _ => {0}) (wholeGroup 3 3 (some "deletes")).rowGroup
            [fun _ => 7, fun _ => 8, fun _ => 9])) offsets out) ∧
    (((addressScan [isThirdRow] (some 2)).emitBatch
        (contents (fun _ => {0}) (wholeGroup 3 3 (some "deletes")).rowGroup
          [fun _ => 7, fun _ => 8, fun _ => 9]) []).isSome →
      ((addressScan [isThirdRow] (some 2)).emitPartition (fun _ => {0})
        (wholeGroup 3 3 (some "deletes")) [fun _ => 7, fun _ => 8, fun _ => 9]
        [[fun _ => 8], [fun _ => 9]]).isSome) :=
  ScanExec.emitPartition_namesRow (addressScan [isThirdRow] (some 2)) (fun _ => {0})
    (wholeGroup 3 3 (some "deletes")) (spans_wholeGroup _ _ _) _ rfl
    { covered := by decide, fragment := by decide, offsets := by decide } _ rfl

end Integers

end IcefallDB
