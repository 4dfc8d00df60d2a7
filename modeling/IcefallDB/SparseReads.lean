import IcefallDB.Lib.Buffers
import IcefallDB.Lib.Options
import IcefallDB.Lib.Ranges
import IcefallDB.Metadata.Types

/-!
# Sparse reads

The writer records where the column chunks of a data file lie.  A scan that needs some columns only
fetches their recorded chunks, the leading magic and the footer, merged where they are close, and
puts them at their places in a buffer of zeros.
-/

namespace IcefallDB

namespace SparseReads

/-! ## Coalescing -/

/-- A sum of 64 bits that stays at the greatest one. -/
def saturatingAdd (window value : Nat) : Nat :=
  min (value + window) (2 ^ 64 - 1)

/-- The ranges sorted by their starts, merged where one starts within a window of the end before. -/
def coalesceRanges (ranges : List Span) (window : Nat) : List Span :=
  Span.sweep (saturatingAdd window) (ranges.mergeSort fun left right => left.start ≤ right.start)

/-! ## Parquet metadata -/

/-- Where the pages of a column chunk lie. -/
structure ColumnChunk where
  dictionaryPageOffset : Option Int
  dataPageOffset : Int
  compressedSize : Int

structure ParquetMetadata where
  /-- The paths of the leaf columns. -/
  leaves : List (List String)
  /-- The chunks of the leaf columns, by row groups. -/
  rowGroups : List (List ColumnChunk)

/-- The name of a leaf column is the last part of its path. -/
def leafName (path : List String) : String :=
  path.getLast?.getD ""

/-- A number as an unsigned number of 64 bits. -/
def asU64 (value : Int) : Nat :=
  (value % 2 ^ 64).toNat

/-- Where a chunk lies, as it is recorded. -/
def ColumnChunk.recorded (chunk : ColumnChunk) : ColumnChunkOffset :=
  { offset := asU64
      (match chunk.dictionaryPageOffset with
        | some offset => min offset (max chunk.dataPageOffset 0)
        | none => max chunk.dataPageOffset 0)
    length := asU64 (max chunk.compressedSize 0) }

/-- The recorded chunks of the columns, each that of the first leaf column of its name. -/
def computeColumnOffsets (metadata : ParquetMetadata) (columns : List String) :
    Option (HashMap String ColumnChunkOffset) :=
  match metadata.rowGroups with
  | [] => none
  | chunks :: _ =>
      columns.foldlM (fun offsets column => do
        let leaf ← metadata.leaves.findIdx? fun path => leafName path = column
        let chunk ← chunks[leaf]?
        some (offsets.insert column chunk.recorded)) ∅

/-! ## Reading -/

inductive ReadError
  | storage
  | footer (length : Nat)
  | metadata
  | stopped (fault : Fault)

/-- The bytes of a file from an offset on. -/
def readRange (bytes : List UInt8) (offset len : Nat) : Except ReadError (List UInt8) :=
  if offset + len ≤ bytes.length then .ok ((bytes.drop offset).take len) else .error .storage

/-- The length of the metadata, from the last bytes of a file. -/
def parseFooterMetadataLen (tail : List UInt8) : Except ReadError Nat :=
  if tail.length ≠ 8 then .error (.footer tail.length) else .ok (leValue (tail.take 4))

/-- A difference that must not be negative. -/
def subU64 (left right : Nat) : Except ReadError Nat :=
  if right ≤ left then .ok (left - right) else .error (.stopped .overflow)

/-- The contents of ranges with their offsets, in the order in which they arrive. -/
def readRangesConcurrent (arrival : List Span → List Span) (bytes : List UInt8)
    (ranges : List Span) : Except ReadError (List (Nat × List UInt8)) :=
  (arrival ranges).mapM fun range => do
    let data ← readRange bytes range.start (range.stop - range.start)
    .ok (range.start, data)

/-- Data put at its place in a buffer. -/
def copyInto (buffer : List UInt8) (part : Nat × List UInt8) : Except ReadError (List UInt8) :=
  (Fault.patch buffer part.1 part.2).mapError .stopped

/-- The metadata of a file and its length, from the cache or else from the file. -/
def readMetadata (decodeMetadata : List UInt8 → Option ParquetMetadata)
    (cached : Option (ParquetMetadata × Nat)) (bytes : List UInt8) :
    Except ReadError (ParquetMetadata × Nat) :=
  match cached with
  | some found => .ok found
  | none => do
      let tailStart ← subU64 bytes.length 8
      let footerTail ← readRange bytes tailStart 8
      let metadataLen ← parseFooterMetadataLen footerTail
      let footerStart ← subU64 bytes.length (metadataLen + 8)
      let footerBytes ← readRange bytes footerStart (metadataLen + 8)
      match decodeMetadata (footerBytes.take metadataLen) with
      | none => .error .metadata
      | some metadata => .ok (metadata, metadataLen)

/-- The buffer of a row group, and whether it has holes. -/
def readRowGroupBytes (decodeMetadata : List UInt8 → Option ParquetMetadata)
    (arrival : List Span → List Span) (cached : Option (ParquetMetadata × Nat))
    (bytes : List UInt8)
    (columnOffsets : Option (HashMap String ColumnChunkOffset)) (neededNames : List String)
    (ioCoalesceWindow : Nat) : Except ReadError (List UInt8 × Bool) :=
  match columnOffsets with
  | none => .ok (bytes, false)
  | some offsets =>
      if neededNames.all fun name => (offsets.lookup name).isSome then do
        let fileSize := bytes.length
        let (metadata, metadataLen) ← readMetadata decodeMetadata cached bytes
        let footerStart ← subU64 fileSize (metadataLen + 8)
        if 1 < metadata.rowGroups.length then .ok (bytes, false)
        else do
          -- Offsets and lengths are signed numbers of 64 bits, so that the sums do not overflow.
          let chunks := (neededNames.filterMap fun name => offsets.lookup name).map fun chunk =>
            ⟨chunk.offset, chunk.offset + chunk.length⟩
          let ranges := chunks ++ [⟨0, 4⟩] ++ [⟨footerStart, fileSize⟩]
          let fetched ← readRangesConcurrent arrival bytes (coalesceRanges ranges ioCoalesceWindow)
          let buffer ← fetched.foldlM copyInto (List.replicate fileSize 0)
          .ok (buffer, true)
      else .ok (bytes, false)

/-! ## Files -/

/-- The bytes of a chunk: its size from its first page on. -/
def ColumnChunk.span (chunk : ColumnChunk) : Span :=
  let start := (chunk.dictionaryPageOffset.getD chunk.dataPageOffset).toNat
  ⟨start, start + chunk.compressedSize.toNat⟩

/-- A chunk lies in a file, a dictionary before its data. -/
structure ColumnChunk.Placed (chunk : ColumnChunk) (size : Nat) : Prop where
  offset : 0 ≤ chunk.dataPageOffset
  length : 0 ≤ chunk.compressedSize
  dictionary : ∀ offset ∈ chunk.dictionaryPageOffset, 0 ≤ offset ∧ offset ≤ chunk.dataPageOffset
  inside : chunk.span.stop ≤ size

/-- A Parquet file: magic, column chunks, metadata, and the length of the metadata with magic. -/
structure ParquetFile (decodeMetadata : List UInt8 → Option ParquetMetadata) where
  bytes : List UInt8
  metadata : ParquetMetadata
  metadataLen : Nat
  room : 4 + metadataLen + 8 ≤ bytes.length
  small : bytes.length < 2 ^ 63
  footer : leValue (((bytes.drop (bytes.length - 8)).take 8).take 4) = metadataLen
  decoded : decodeMetadata (((bytes.drop (bytes.length - (metadataLen + 8))).take
    (metadataLen + 8)).take metadataLen) = some metadata
  complete : ∀ chunks ∈ metadata.rowGroups, chunks.length = metadata.leaves.length
  placed : ∀ chunks ∈ metadata.rowGroups, ∀ chunk ∈ chunks, chunk.Placed bytes.length

/-! ## What is read -/

theorem saturatingAdd_mono (window : Nat) {low high : Nat} (ordered : low ≤ high) :
    saturatingAdd window low ≤ saturatingAdd window high := by
  unfold saturatingAdd
  omega

theorem pairwise_mergeSort_start (ranges : List Span) :
    (ranges.mergeSort fun left right => left.start ≤ right.start).Pairwise
      fun left right => left.start ≤ right.start := by
  have sorted := @List.pairwise_mergeSort Span (fun left right => left.start ≤ right.start)
    (fun _ _ _ first second => by simp at *; omega) (fun _ _ => by simp; omega) ranges
  exact sorted.imp fun ordered => of_decide_eq_true ordered

/-- Merged ranges are sorted and apart, and every range is in one of them. -/
theorem coalesceRanges_spec {ranges : List Span} (window : Nat)
    (ordered : ∀ range ∈ ranges, range.start ≤ range.stop ∧ range.stop < 2 ^ 64) :
    ((coalesceRanges ranges window).Pairwise fun left right => left.stop < right.start) ∧
      (∀ range ∈ coalesceRanges ranges window, range.start ≤ range.stop) ∧
        ∀ range ∈ ranges, ∃ merged ∈ coalesceRanges ranges window, merged.Covers range := by
  have perm := List.mergeSort_perm ranges fun left right => left.start ≤ right.start
  have sorted := pairwise_mergeSort_start ranges
  have bounds : ∀ range ∈ coalesceRanges ranges window,
      range.start ≤ range.stop ∧ range.stop < 2 ^ 64 := by
    apply Span.forall_sweep
    · intro left right left_bounds right_bounds
      rw [Span.join_start, Span.join_stop]
      omega
    · intro range member
      exact ordered range (perm.mem_iff.mp member)
  refine ⟨?_, fun range member => (bounds range member).1, ?_⟩
  · apply (Span.pairwise_sweep sorted).imp_of_mem
    intro left right left_mem _ beyond
    have small := (bounds left left_mem).2
    unfold saturatingAdd at beyond
    omega
  · intro range member
    exact Span.exists_covers_sweep (perm.mem_iff.mpr member) sorted

theorem mem_coalesceRanges_iff {ranges : List Span} (window : Nat)
    (ordered : ∀ range ∈ ranges, range.start ≤ range.stop) (point : Nat) :
    (∃ range ∈ coalesceRanges ranges window, point ∈ range) ↔
      Span.Reached (saturatingAdd window) ranges point := by
  have perm := List.mergeSort_perm ranges fun left right => left.start ≤ right.start
  rw [coalesceRanges, Span.mem_sweep_iff (saturatingAdd_mono window)
    (fun range member => ordered range (perm.mem_iff.mp member)) (pairwise_mergeSort_start ranges)]
  exact ⟨.of_perm perm, .of_perm perm.symm⟩

/-- The bytes of a range. -/
def contents (bytes : List UInt8) (range : Span) : List UInt8 :=
  (bytes.drop range.start).take (range.stop - range.start)

variable {bytes : List UInt8}

theorem length_contents {range : Span} (inside : range.stop ≤ bytes.length) :
    (contents bytes range).length = range.stop - range.start := by
  rw [contents, List.length_take, List.length_drop]
  omega

/-- What is copied into a buffer is its bytes from the offset on. -/
theorem copyInto_contents {buffer : List UInt8} {range : Span} (same : buffer.length = bytes.length)
    (small : bytes.length < 2 ^ 64) (ordered : range.start ≤ range.stop)
    (inside : range.stop ≤ bytes.length) :
    ∃ copied, copyInto buffer (range.start, contents bytes range) = .ok copied ∧
      copied.length = bytes.length ∧
        ∀ point : Nat,
          copied[point]? = if point ∈ range then bytes[point]? else buffer[point]? := by
  have length_eq := length_contents inside
  have stop_eq : range.start + (range.stop - range.start) = range.stop := by omega
  refine ⟨buffer.take range.start ++ (contents bytes range ++ buffer.drop range.stop), ?_, ?_, ?_⟩
  · have sum_eq : Fault.add 64 range.start (contents bytes range).length = .ok range.stop := by
      rw [length_eq, Fault.add, stop_eq, if_pos (by omega)]
    simp only [copyInto, Fault.patch, sum_eq, Fault.ok_bind]
    rw [if_pos (by omega)]
    rfl
  · simp only [List.length_append, List.length_take, List.length_drop, length_eq]
    omega
  · intro point
    have taken : (buffer.take range.start).length = range.start := by
      rw [List.length_take]
      omega
    split
    · next member =>
        obtain ⟨starts, stops⟩ := member
        rw [List.getElem?_append_right (by omega), taken,
          List.getElem?_append_left (by omega), contents, List.getElem?_take_of_lt (by omega),
          List.getElem?_drop]
        congr 1
        omega
    · next outside =>
        rw [Span.mem_iff] at outside
        by_cases early : point < range.start
        · rw [List.getElem?_append_left (by omega), List.getElem?_take_of_lt early]
        · rw [List.getElem?_append_right (by omega), taken,
            List.getElem?_append_right (by omega), length_eq, List.getElem?_drop]
          congr 1
          omega

/-- Ranges of a file that are copied into a buffer make it equal to the file where they are. -/
theorem foldlM_copyInto (small : bytes.length < 2 ^ 64) {spans : List Span}
    (placed : ∀ span ∈ spans, span.start ≤ span.stop ∧ span.stop ≤ bytes.length)
    {initial : List UInt8} (same : initial.length = bytes.length) :
    ∃ buffer, (spans.map fun span => (span.start, contents bytes span)).foldlM copyInto initial =
      .ok buffer ∧ ∀ point : Nat, buffer[point]? =
        if ∃ span ∈ spans, point ∈ span then bytes[point]? else initial[point]? := by
  induction spans generalizing initial with
  | nil => exact ⟨initial, rfl, fun point => by simp⟩
  | cons span spans ih =>
      rw [List.forall_mem_cons] at placed
      obtain ⟨copied, copied_eq, copied_length, copied_spec⟩ :=
        copyInto_contents same small placed.1.1 placed.1.2
      obtain ⟨buffer, buffer_eq, buffer_spec⟩ := ih placed.2 copied_length
      refine ⟨buffer, ?_, fun point => ?_⟩
      · rw [List.map_cons, List.foldlM_cons, copied_eq]
        exact buffer_eq
      · rw [buffer_spec, copied_spec]
        by_cases later : ∃ other ∈ spans, point ∈ other
        · obtain ⟨other, member, inside⟩ := later
          rw [if_pos ⟨other, member, inside⟩,
            if_pos ⟨other, List.mem_cons_of_mem span member, inside⟩]
        · rw [if_neg later]
          by_cases own : point ∈ span
          · rw [if_pos own, if_pos ⟨span, List.mem_cons_self, own⟩]
          · rw [if_neg own, if_neg]
            rintro ⟨other, member, inside⟩
            rcases List.mem_cons.mp member with rfl | rest
            · exact own inside
            · exact later ⟨other, rest, inside⟩

variable {arrival : List Span → List Span}

/-- Ranges inside a file are read. -/
theorem readRangesConcurrent_eq (perm : ∀ spans, (arrival spans).Perm spans) {spans : List Span}
    (placed : ∀ span ∈ spans, span.start ≤ span.stop ∧ span.stop ≤ bytes.length) :
    readRangesConcurrent arrival bytes spans =
      .ok ((arrival spans).map fun span => (span.start, contents bytes span)) := by
  apply List.mapM_eq_ok
  intro span member
  obtain ⟨ordered, inside⟩ := placed span ((perm spans).mem_iff.mp member)
  rw [readRange, if_pos (by omega)]
  rfl

/-! ## What is recorded -/

/-- The chunk of the first leaf column of a name. -/
def ParquetMetadata.namedChunk (metadata : ParquetMetadata) (name : String) :
    Option ColumnChunk := do
  let chunks ← metadata.rowGroups.head?
  let leaf ← metadata.leaves.findIdx? fun path => leafName path = name
  chunks[leaf]?

/-- A chunk in a file is recorded where it lies. -/
theorem ColumnChunk.Placed.recorded {chunk : ColumnChunk} {size : Nat}
    (placed : chunk.Placed size) (small : size < 2 ^ 63) :
    chunk.recorded.offset = chunk.span.start ∧
      chunk.recorded.offset + chunk.recorded.length = chunk.span.stop := by
  obtain ⟨dictionary, data, length⟩ := chunk
  obtain ⟨data_nonneg, length_nonneg, dictionary_bounds, inside⟩ := placed
  have cast : ∀ value : Int, 0 ≤ value → value < 2 ^ 63 → asU64 value = value.toNat := by
    intro value nonneg below
    rw [asU64, Int.emod_eq_of_lt nonneg (by omega)]
  cases dictionary with
  | none =>
      simp only [ColumnChunk.span, Option.getD_none] at inside data_nonneg length_nonneg
      simp only [ColumnChunk.recorded, ColumnChunk.span, Option.getD_none,
        Int.max_eq_left data_nonneg, Int.max_eq_left length_nonneg]
      rw [cast data data_nonneg (by omega), cast length length_nonneg (by omega)]
      exact ⟨rfl, rfl⟩
  | some offset =>
      obtain ⟨offset_nonneg, before⟩ := dictionary_bounds offset rfl
      simp only [ColumnChunk.span, Option.getD_some] at inside data_nonneg length_nonneg before
      simp only [ColumnChunk.recorded, ColumnChunk.span, Option.getD_some,
        Int.max_eq_left data_nonneg, Int.max_eq_left length_nonneg, Int.min_eq_left before]
      rw [cast offset offset_nonneg (by omega), cast length length_nonneg (by omega)]
      exact ⟨rfl, rfl⟩

/-- Chunks are recorded for all columns, or for none if one has no leaf column of its name. -/
theorem foldlM_recorded {columns : List String} (chunkOf : String → Option ColumnChunk)
    (before : HashMap String ColumnChunkOffset) :
    (∀ column ∈ columns, (chunkOf column).isSome) ∧
      (∃ offsets, (columns.foldlM (fun (offsets : HashMap String ColumnChunkOffset) column => do
        let chunk ← chunkOf column
        some (offsets.insert column chunk.recorded)) before) = some offsets ∧
        ∀ name, offsets.lookup name =
          if name ∈ columns then (chunkOf name).map ColumnChunk.recorded else before.lookup name) ∨
    (∃ column ∈ columns, chunkOf column = none) ∧
      (columns.foldlM (fun (offsets : HashMap String ColumnChunkOffset) column => do
        let chunk ← chunkOf column
        some (offsets.insert column chunk.recorded)) before) = none := by
  induction columns generalizing before with
  | nil => exact .inl ⟨nofun, before, rfl, fun name => by simp⟩
  | cons column columns ih =>
      rw [List.foldlM_cons]
      cases found : chunkOf column with
      | none => exact .inr ⟨⟨column, List.mem_cons_self, found⟩, rfl⟩
      | some chunk =>
          simp only [Option.bind_eq_bind, Option.bind_some]
          rcases ih (before.insert column chunk.recorded) with
            ⟨all, offsets, offsets_eq, lookup_eq⟩ | ⟨⟨other, member, missing⟩, none_eq⟩
          · refine .inl ⟨?_, offsets, offsets_eq, fun name => ?_⟩
            · rw [List.forall_mem_cons, found]
              exact ⟨rfl, all⟩
            · rw [lookup_eq]
              by_cases later : name ∈ columns
              · rw [if_pos later, if_pos (List.mem_cons_of_mem column later)]
              · rw [if_neg later]
                by_cases own : name = column
                · rw [own, AList.lookup_insert, if_pos List.mem_cons_self, found]
                  rfl
                · rw [AList.lookup_insert_ne own, if_neg]
                  simp [own, later]
          · exact .inr ⟨⟨other, List.mem_cons_of_mem column member, missing⟩, none_eq⟩

theorem computeColumnOffsets_eq {metadata : ParquetMetadata} {columns : List String}
    {chunks : List ColumnChunk} {others : List (List ColumnChunk)}
    (groups : metadata.rowGroups = chunks :: others) :
    computeColumnOffsets metadata columns =
      columns.foldlM (fun (offsets : HashMap String ColumnChunkOffset) column => do
        let chunk ← metadata.namedChunk column
        some (offsets.insert column chunk.recorded)) ∅ := by
  have named : ∀ column, metadata.namedChunk column =
      (metadata.leaves.findIdx? fun path => leafName path = column).bind fun leaf =>
        chunks[leaf]? := by
    intro column
    rw [ParquetMetadata.namedChunk, groups]
    rfl
  rw [computeColumnOffsets, groups]
  simp only [named, Option.bind_eq_bind, Option.bind_assoc]

/-- Every column has a leaf of its name, every name is a column, and there is one row group. -/
structure ReadsSparsely (metadata : ParquetMetadata) (columns needed : List String) : Prop where
  single : metadata.rowGroups.length = 1
  named : ∀ column ∈ columns, ∃ path ∈ metadata.leaves, leafName path = column
  known : ∀ name ∈ needed, name ∈ columns

namespace ParquetFile

variable {decodeMetadata : List UInt8 → Option ParquetMetadata}
  (file : ParquetFile decodeMetadata)

def footerStart : Nat :=
  file.bytes.length - (file.metadataLen + 8)

/-- The chunks of the first leaf columns of the names, the leading magic and the footer. -/
def fetchedSpans (needed : List String) : List Span :=
  (needed.filterMap file.metadata.namedChunk).map ColumnChunk.span ++ [⟨0, 4⟩] ++
    [⟨file.footerStart, file.bytes.length⟩]

variable {cached : Option (ParquetMetadata × Nat)}

theorem readMetadata_eq (coherent : ∀ found ∈ cached, found = (file.metadata, file.metadataLen)) :
    readMetadata decodeMetadata cached file.bytes = .ok (file.metadata, file.metadataLen) := by
  cases cached with
  | some found => rw [readMetadata, coherent found rfl]
  | none =>
      have room := file.room
      have tail_eq : readRange file.bytes (file.bytes.length - 8) 8 =
          .ok ((file.bytes.drop (file.bytes.length - 8)).take 8) := if_pos (by omega)
      have length_eq : parseFooterMetadataLen ((file.bytes.drop (file.bytes.length - 8)).take 8) =
          .ok file.metadataLen := by
        rw [parseFooterMetadataLen, if_neg, file.footer]
        rw [List.length_take, List.length_drop]
        omega
      have footer_eq : readRange file.bytes (file.bytes.length - (file.metadataLen + 8))
          (file.metadataLen + 8) = .ok ((file.bytes.drop (file.bytes.length -
            (file.metadataLen + 8))).take (file.metadataLen + 8)) := if_pos (by omega)
      have first_sub : subU64 file.bytes.length 8 = .ok (file.bytes.length - 8) := if_pos (by omega)
      have second_sub : subU64 file.bytes.length (file.metadataLen + 8) =
          .ok (file.bytes.length - (file.metadataLen + 8)) := if_pos (by omega)
      simp only [readMetadata, first_sub, tail_eq, length_eq, second_sub, footer_eq, bind,
        Except.bind, file.decoded]

theorem placed_namedChunk {name : String} {chunk : ColumnChunk}
    (found : file.metadata.namedChunk name = some chunk) : chunk.Placed file.bytes.length := by
  obtain ⟨chunks, head, rest⟩ := Option.bind_eq_some_iff.mp found
  obtain ⟨leaf, -, at_leaf⟩ := Option.bind_eq_some_iff.mp rest
  exact file.placed chunks (List.mem_of_mem_head? head) chunk (List.mem_of_getElem? at_leaf)

/-- A name has a chunk if a leaf column has it. -/
theorem isSome_namedChunk_iff {chunks : List ColumnChunk} {others : List (List ColumnChunk)}
    (groups : file.metadata.rowGroups = chunks :: others) (name : String) :
    (file.metadata.namedChunk name).isSome ↔
      ∃ path ∈ file.metadata.leaves, leafName path = name := by
  have complete := file.complete chunks (by rw [groups]; exact List.mem_cons_self)
  have chunk_eq : file.metadata.namedChunk name =
      (file.metadata.leaves.findIdx? fun path => leafName path = name).bind fun leaf =>
        chunks[leaf]? := by
    rw [ParquetMetadata.namedChunk, groups]
    rfl
  have found_iff : (file.metadata.leaves.findIdx? fun path => leafName path = name).isSome ↔
      ∃ path ∈ file.metadata.leaves, leafName path = name := by
    simp
  rw [chunk_eq, ← found_iff]
  cases found : file.metadata.leaves.findIdx? fun path => leafName path = name with
  | none => rfl
  | some leaf =>
      obtain ⟨inside, -⟩ := List.findIdx?_eq_some_iff_getElem.mp found
      rw [Option.bind_some, List.getElem?_eq_getElem (by omega)]
      rfl

theorem ordered_fetchedSpans (needed : List String) : ∀ span ∈ file.fetchedSpans needed,
    span.start ≤ span.stop ∧ span.stop ≤ file.bytes.length := by
  have room := file.room
  intro span member
  rw [fetchedSpans, List.mem_append, List.mem_append, List.mem_map] at member
  rcases member with (⟨chunk, chunk_mem, rfl⟩ | magic) | footer
  · obtain ⟨name, -, found⟩ := List.mem_filterMap.mp chunk_mem
    exact ⟨Nat.le_add_right _ _, (file.placed_namedChunk found).inside⟩
  · obtain rfl := List.mem_singleton.mp magic
    refine ⟨Nat.zero_le _, ?_⟩
    change 4 ≤ file.bytes.length
    omega
  · obtain rfl := List.mem_singleton.mp footer
    exact ⟨Nat.sub_le _ _, Nat.le_refl _⟩

/-- A fetched buffer has the bytes that are reached, and zeros elsewhere. -/
theorem exists_fetched (perm : ∀ spans, (arrival spans).Perm spans) (needed : List String)
    (window : Nat) :
    ∃ fetched buffer, readRangesConcurrent arrival file.bytes
        (coalesceRanges (file.fetchedSpans needed) window) = .ok fetched ∧
      fetched.foldlM copyInto (List.replicate file.bytes.length 0) = .ok buffer ∧
        ∀ point < file.bytes.length,
          (Span.Reached (saturatingAdd window) (file.fetchedSpans needed) point →
            buffer[point]? = file.bytes[point]?) ∧
          (¬ Span.Reached (saturatingAdd window) (file.fetchedSpans needed) point →
            buffer[point]? = some 0) := by
  have small := file.small
  have ordered := file.ordered_fetchedSpans needed
  have merged : ∀ span ∈ coalesceRanges (file.fetchedSpans needed) window,
      span.start ≤ span.stop ∧ span.stop ≤ file.bytes.length := by
    apply Span.forall_sweep
    · intro left right left_bounds right_bounds
      rw [Span.join_start, Span.join_stop]
      omega
    · intro span member
      exact ordered span ((List.mergeSort_perm _ _).mem_iff.mp member)
  have zeros : (List.replicate file.bytes.length (0 : UInt8)).length = file.bytes.length :=
    List.length_replicate
  obtain ⟨buffer, buffer_eq, buffer_spec⟩ := foldlM_copyInto (by omega : file.bytes.length < 2 ^ 64)
    (fun span member => merged span ((perm _).mem_iff.mp member)) zeros
  refine ⟨_, buffer, readRangesConcurrent_eq perm merged, buffer_eq, ?_⟩
  intro point inside
  have reached_iff : (∃ span ∈ arrival (coalesceRanges (file.fetchedSpans needed) window),
      point ∈ span) ↔ Span.Reached (saturatingAdd window) (file.fetchedSpans needed) point := by
    rw [← mem_coalesceRanges_iff window (fun span member => (ordered span member).1)]
    simp only [(perm _).mem_iff]
  rw [buffer_spec, ← reached_iff]
  constructor
  · intro reached
    rw [if_pos reached]
  · intro missed
    rw [if_neg missed, List.getElem?_replicate, if_pos inside]

/-- What is read: the whole file, or what is reached of it. -/
theorem readRowGroupBytes_spec (perm : ∀ spans, (arrival spans).Perm spans)
    (coherent : ∀ found ∈ cached, found = (file.metadata, file.metadataLen))
    (columns needed : List String) (window : Nat) :
    (¬ ReadsSparsely file.metadata columns needed ∧
      readRowGroupBytes decodeMetadata arrival cached file.bytes
        (computeColumnOffsets file.metadata columns) needed window = .ok (file.bytes, false)) ∨
    ReadsSparsely file.metadata columns needed ∧ ∃ buffer,
      readRowGroupBytes decodeMetadata arrival cached file.bytes
        (computeColumnOffsets file.metadata columns) needed window = .ok (buffer, true) ∧
        ∀ point < file.bytes.length,
          (Span.Reached (saturatingAdd window) (file.fetchedSpans needed) point →
            buffer[point]? = file.bytes[point]?) ∧
          (¬ Span.Reached (saturatingAdd window) (file.fetchedSpans needed) point →
            buffer[point]? = some 0) := by
  cases groups : file.metadata.rowGroups with
  | nil =>
      have none_eq : computeColumnOffsets file.metadata columns = none := by
        rw [computeColumnOffsets, groups]
      refine .inl ⟨?_, by rw [none_eq]; rfl⟩
      rintro ⟨single, -, -⟩
      rw [groups] at single
      cases single
  | cons chunks others =>
      have complete := file.complete chunks (by rw [groups]; exact List.mem_cons_self)
      rw [computeColumnOffsets_eq groups]
      rcases foldlM_recorded file.metadata.namedChunk ∅ with
        ⟨all, offsets, offsets_eq, lookup_eq⟩ | ⟨⟨column, member, missing⟩, none_eq⟩
      · have lookup_isSome : ∀ name, (offsets.lookup name).isSome ↔ name ∈ columns := by
          intro name
          rw [lookup_eq]
          split
          · next member =>
              rw [Option.isSome_map, all name member]
              exact iff_of_true rfl member
          · next outside => exact iff_of_false (by simp) outside
        have named : ∀ column ∈ columns, ∃ path ∈ file.metadata.leaves, leafName path = column :=
          fun column member => (file.isSome_namedChunk_iff groups column).mp (all column member)
        rw [offsets_eq, readRowGroupBytes]
        by_cases known : ∀ name ∈ needed, name ∈ columns
        · have contained : (needed.all fun name => (offsets.lookup name).isSome) = true :=
            List.all_eq_true.mpr fun name member => (lookup_isSome name).mpr (known name member)
          have room := file.room
          have start_eq : subU64 file.bytes.length (file.metadataLen + 8) =
              .ok file.footerStart := if_pos (by omega)
          rw [if_pos contained, file.readMetadata_eq coherent]
          by_cases several : 1 < file.metadata.rowGroups.length
          · refine .inl ⟨fun sparsely => ?_, ?_⟩
            · have single := sparsely.single
              omega
            · simp only [bind, Except.bind, start_eq, if_pos several]
          · refine .inr ⟨⟨?_, named, known⟩, ?_⟩
            · rw [groups, List.length_cons] at several ⊢
              omega
            · obtain ⟨fetched, buffer, fetched_eq, buffer_eq, buffer_spec⟩ :=
                file.exists_fetched perm needed window
              have spans_eq : ((needed.filterMap fun name => offsets.lookup name).map fun chunk =>
                  (⟨chunk.offset, chunk.offset + chunk.length⟩ : Span)) ++ [⟨0, 4⟩] ++
                    [⟨file.footerStart, file.bytes.length⟩] = file.fetchedSpans needed := by
                rw [fetchedSpans, List.map_filterMap, List.map_filterMap]
                congr 2
                apply List.filterMap_congr
                intro name member
                rw [lookup_eq, if_pos (known name member), Option.map_map]
                apply Option.map_congr
                intro chunk found
                obtain ⟨start_eq, stop_eq⟩ :=
                  (file.placed_namedChunk found).recorded file.small
                rw [Function.comp_apply, stop_eq, start_eq]
              refine ⟨buffer, ?_, buffer_spec⟩
              simp only [bind, Except.bind, start_eq, if_neg several, spans_eq, fetched_eq]
              rw [buffer_eq]
        · refine .inl ⟨fun sparsely => known sparsely.known, if_neg ?_⟩
          rw [List.all_eq_true]
          exact fun contained =>
            known fun name member => (lookup_isSome name).mp (contained name member)
      · refine .inl ⟨?_, by rw [none_eq]; rfl⟩
        rintro ⟨-, named, -⟩
        have found := (file.isSome_namedChunk_iff groups column).mpr (named column member)
        rw [missing] at found
        cases found

/-- A chunk of a leaf column of a needed column, in any row group. -/
def Needs (needed : List String) (chunk : ColumnChunk) : Prop :=
  ∃ chunks ∈ file.metadata.rowGroups, ∃ (leaf : Nat) (path : List String),
    file.metadata.leaves[leaf]? = some path ∧ chunks[leaf]? = some chunk ∧
      ∃ name ∈ needed, path.head? = some name

/-- A buffer equals the file on the leading magic, the needed chunks and the footer. -/
def Reconstructs (needed : List String) (buffer : List UInt8) : Prop :=
  ∀ point : Nat, (point < 4 ∨ (file.footerStart ≤ point ∧ point < file.bytes.length) ∨
    ∃ chunk, file.Needs needed chunk ∧ point ∈ chunk.span) → buffer[point]? = file.bytes[point]?

/-- A buffer that is read equals the file where it is needed, exactly if the file is not read
sparsely, or every byte of the needed chunks is zero or reached from what is recorded. -/
theorem reconstructs_readRowGroupBytes (perm : ∀ spans, (arrival spans).Perm spans)
    (coherent : ∀ found ∈ cached, found = (file.metadata, file.metadataLen))
    (columns needed : List String) (window : Nat) :
    ∃ buffer sparse, readRowGroupBytes decodeMetadata arrival cached file.bytes
        (computeColumnOffsets file.metadata columns) needed window = .ok (buffer, sparse) ∧
      (file.Reconstructs needed buffer ↔
        (ReadsSparsely file.metadata columns needed →
          ∀ chunk, file.Needs needed chunk → ∀ point ∈ chunk.span,
            file.bytes[point]? = some 0 ∨
              Span.Reached (saturatingAdd window) (file.fetchedSpans needed) point)) := by
  rcases file.readRowGroupBytes_spec perm coherent columns needed window with
    ⟨whole, read⟩ | ⟨sparsely, buffer, read, spec⟩
  · refine ⟨_, _, read, ?_⟩
    exact iff_of_true (fun _ _ => rfl) fun sparsely => absurd sparsely whole
  · refine ⟨buffer, true, read, ?_⟩
    have inside : ∀ chunk, file.Needs needed chunk → ∀ point ∈ chunk.span,
        point < file.bytes.length := by
      rintro chunk ⟨chunks, member, leaf, path, -, at_leaf, -⟩ point in_chunk
      have placed := file.placed chunks member chunk (List.mem_of_getElem? at_leaf)
      exact Nat.lt_of_lt_of_le in_chunk.2 placed.inside
    constructor
    · intro reconstructs _ chunk needs point in_chunk
      by_cases reached : Span.Reached (saturatingAdd window) (file.fetchedSpans needed) point
      · exact .inr reached
      · have same := reconstructs point (.inr (.inr ⟨chunk, needs, in_chunk⟩))
        rw [(spec point (inside chunk needs point in_chunk)).2 reached] at same
        exact .inl same.symm
    · intro condition point wanted
      have room := file.room
      rcases wanted with magic | footer | ⟨chunk, needs, in_chunk⟩
      · apply (spec point (by omega)).1
        exact ⟨⟨0, 4⟩, by simp [fetchedSpans], Nat.zero_le _, .inl magic⟩
      · apply (spec point footer.2).1
        exact ⟨⟨file.footerStart, file.bytes.length⟩, by simp [fetchedSpans], footer.1,
          .inl footer.2⟩
      · have within := inside chunk needs point in_chunk
        by_cases reached : Span.Reached (saturatingAdd window) (file.fetchedSpans needed) point
        · exact (spec point within).1 reached
        · rw [(spec point within).2 reached]
          rcases condition sparsely chunk needs point in_chunk with zero | covered
          · exact zero.symm
          · exact absurd covered reached

end ParquetFile

/-- Ranges are coalesced to sorted and disjoint ones that cover them.  What is read of a file is
right where it is needed exactly if every needed byte that is not zero is reached. -/
theorem coalesceRanges_and_reconstructs (ranges : List Span) (window : Nat) :
    ((∀ range ∈ ranges, range.start ≤ range.stop ∧ range.stop < 2 ^ 64) →
      ((coalesceRanges ranges window).Pairwise fun left right => left.stop < right.start) ∧
        (∀ range ∈ coalesceRanges ranges window, range.start ≤ range.stop) ∧
          ∀ range ∈ ranges, ∃ merged ∈ coalesceRanges ranges window, merged.Covers range) ∧
    ∀ (decodeMetadata : List UInt8 → Option ParquetMetadata) (file : ParquetFile decodeMetadata)
      (arrival : List Span → List Span) (cached : Option (ParquetMetadata × Nat))
      (columns needed : List String), (∀ spans, (arrival spans).Perm spans) →
        (∀ found ∈ cached, found = (file.metadata, file.metadataLen)) →
          ∃ buffer sparse, readRowGroupBytes decodeMetadata arrival cached file.bytes
              (computeColumnOffsets file.metadata columns) needed window = .ok (buffer, sparse) ∧
            (file.Reconstructs needed buffer ↔
              (ReadsSparsely file.metadata columns needed →
                ∀ chunk, file.Needs needed chunk → ∀ point ∈ chunk.span,
                  file.bytes[point]? = some 0 ∨
                    Span.Reached (saturatingAdd window) (file.fetchedSpans needed) point)) := by
  constructor
  · intro ordered
    exact coalesceRanges_spec window ordered
  · intro decodeMetadata file arrival cached columns needed perm coherent
    exact file.reconstructs_readRowGroupBytes perm coherent columns needed window

/-! ## A struct column with a field of its name -/

/-- The page of a column of one number. -/
def structPage (value : UInt8) : List UInt8 :=
  [21, 0, 21, 8, 21, 8, 44, 21, 2, 21, 0, 21, 6, 21, 6, 0, 0, value, 0, 0, 0]

/-- The metadata of two such columns, the fields `x` and `y` of a struct `x`. -/
def structFooter : List UInt8 :=
  [21, 2, 25, 76, 72, 6, 115, 99, 104, 101, 109, 97, 21, 2, 0, 53, 0, 24, 1, 120, 21, 4, 0, 21, 2,
    37, 0, 24, 1, 120, 0, 21, 2, 37, 0, 24, 1, 121, 0, 22, 2, 25, 28, 25, 44, 38, 8, 28, 21, 2, 25,
    21, 0, 25, 40, 1, 120, 1, 120, 21, 0, 22, 2, 22, 42, 22, 42, 38, 8, 0, 0, 38, 50, 28, 21, 2, 25,
    21, 0, 25, 40, 1, 120, 1, 121, 21, 0, 22, 2, 22, 42, 22, 42, 38, 50, 0, 0, 22, 84, 22, 2, 0, 0]

def structMetadata : ParquetMetadata :=
  { leaves := [["x", "x"], ["x", "y"]], rowGroups := [[⟨none, 4, 21⟩, ⟨none, 25, 21⟩]] }

def decodeStruct (bytes : List UInt8) : Option ParquetMetadata :=
  if bytes = structFooter then some structMetadata else none

def structBytes : List UInt8 :=
  [80, 65, 82, 49] ++ structPage 7 ++ structPage 8 ++ structFooter ++ leBytes 4 103 ++
    [80, 65, 82, 49]

def structFile : ParquetFile decodeStruct where
  bytes := structBytes
  metadata := structMetadata
  metadataLen := 103
  room := by decide +kernel
  small := by decide +kernel
  footer := by decide +kernel
  decoded := if_pos (by decide +kernel)
  complete := by decide
  placed := by
    intro chunks chunks_mem chunk chunk_mem
    obtain rfl := List.mem_singleton.mp chunks_mem
    rcases List.mem_cons.mp chunk_mem with rfl | rest
    · exact ⟨by decide, by decide, nofun, by decide +kernel⟩
    · obtain rfl := List.mem_singleton.mp rest
      exact ⟨by decide, by decide, nofun, by decide +kernel⟩

/-- A window as long as the page of the second field fetches it with the first. -/
theorem structFile_reconstructs :
    ∃ buffer sparse, readRowGroupBytes decodeStruct id none structFile.bytes
        (computeColumnOffsets structFile.metadata ["x"]) ["x"] 21 = .ok (buffer, sparse) ∧
      structFile.Reconstructs ["x"] buffer := by
  obtain ⟨buffer, sparse, read, iff⟩ := (coalesceRanges_and_reconstructs [] 21).2 decodeStruct
    structFile id none ["x"] ["x"] (fun _ => List.Perm.refl _) (by rintro _ ⟨⟩)
  refine ⟨buffer, sparse, read, iff.mpr fun _ chunk needs point in_chunk => .inr ?_⟩
  have spans_eq : structFile.fetchedSpans ["x"] = [⟨4, 25⟩, ⟨0, 4⟩, ⟨46, 157⟩] := by
    decide +kernel
  have inside : 4 ≤ point ∧ point < 46 := by
    obtain ⟨chunks, member, leaf, -, -, at_leaf, -⟩ := needs
    obtain rfl := List.mem_singleton.mp member
    rcases List.mem_cons.mp (List.mem_of_getElem? at_leaf) with rfl | rest
    · exact ⟨in_chunk.1, in_chunk.2.trans (by decide)⟩
    · obtain rfl := List.mem_singleton.mp rest
      exact ⟨(show 4 ≤ 25 by decide).trans in_chunk.1, in_chunk.2⟩
  rw [spans_eq]
  exact ⟨⟨4, 25⟩, by simp, inside.1,
    .inr ⟨⟨46, 157⟩, by simp, inside.2, by decide⟩⟩

/-- The value of the second field of the struct is not fetched. -/
theorem not_reconstructs :
    ¬ ∀ (decodeMetadata : List UInt8 → Option ParquetMetadata) (file : ParquetFile decodeMetadata)
      (arrival : List Span → List Span) (cached : Option (ParquetMetadata × Nat))
      (columns needed : List String) (window : Nat), (∀ spans, (arrival spans).Perm spans) →
        (∀ found ∈ cached, found = (file.metadata, file.metadataLen)) →
          ∃ buffer sparse, readRowGroupBytes decodeMetadata arrival cached file.bytes
              (computeColumnOffsets file.metadata columns) needed window = .ok (buffer, sparse) ∧
            file.Reconstructs needed buffer := by
  intro claim
  obtain ⟨buffer, sparse, read, reconstructs⟩ := claim decodeStruct structFile id none ["x"] ["x"] 0
    (fun _ => List.Perm.refl _) nofun
  obtain ⟨expected, sparse', read', iff⟩ := structFile.reconstructs_readRowGroupBytes
    (fun spans => List.Perm.refl (id spans)) (show ∀ found ∈ none, found = _ from nofun)
      ["x"] ["x"] 0
  obtain ⟨rfl, -⟩ := Prod.mk.inj (Except.ok.inj (read.symm.trans read'))
  have sparsely : ReadsSparsely structFile.metadata ["x"] ["x"] :=
    ⟨rfl, by decide, fun _ member => member⟩
  have needs : structFile.Needs ["x"] ⟨none, 25, 21⟩ :=
    ⟨_, List.mem_singleton_self _, 1, ["x", "y"], rfl, rfl, "x", List.mem_singleton_self _, rfl⟩
  rcases iff.mp reconstructs sparsely _ needs 42 (by decide) with zero | ⟨left, member, reached⟩
  · exact absurd zero (by decide +kernel)
  · have spans_eq : structFile.fetchedSpans ["x"] = [⟨4, 25⟩, ⟨0, 4⟩, ⟨46, 157⟩] := by
      decide +kernel
    have apart : ∀ left ∈ structFile.fetchedSpans ["x"], ¬ (left.start ≤ 42 ∧ (42 < left.stop ∨
        ∃ right ∈ structFile.fetchedSpans ["x"],
          42 < right.start ∧ right.start ≤ saturatingAdd 0 left.stop)) := by
      rw [spans_eq]
      decide
    exact apart left member reached

end SparseReads

end IcefallDB
