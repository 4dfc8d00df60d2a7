import IcefallDB.RowIndex.Codec

/-!
# Mapped row-index files

A row-index file that is mapped into memory is searched without decoding it.  On files that were
encoded, the search answers as a lookup in the decoded segments.  Other files are searched without a
check of their segment count, so the search may leave the file.
-/

namespace IcefallDB

namespace RowIndexFile

open BinarySearch

/-! ## Lookups in segments -/

/-- Where a row id lives if it is in a segment.  Offsets have 32 bits. -/
def locateIn (segment : AddrSegment) (rowId : Nat) : Except Fault (Option (Nat × Nat)) :=
  if rowId < min (segment.startRowId + segment.len) u64Max then do
    let offset ← Fault.add 32 segment.startOffset (rowId - segment.startRowId)
    pure (some (segment.fragmentId, offset))
  else .ok none

/-- Where a row id lives according to segments in order, unless the offset overflows. -/
def lookupInSegments (segments : List AddrSegment) (rowId : Nat) :
    Except Fault (Option (Nat × Nat)) :=
  match (segments.takeWhile fun segment => segment.startRowId ≤ rowId).getLast? with
  | none => .ok none
  | some segment => locateIn segment rowId

theorem locateIn_isOk_iff (segment : AddrSegment) (rowId : Nat) :
    (∃ place, locateIn segment rowId = .ok place) ↔
      (rowId < min (segment.startRowId + segment.len) u64Max →
        segment.startOffset + (rowId - segment.startRowId) < 2 ^ 32) := by
  rw [locateIn]
  split
  · next inside =>
      constructor
      · rintro ⟨place, found⟩ _
        obtain ⟨offset, added, -⟩ := Script.except_bind_eq_ok.mp found
        exact (Fault.add_eq_ok_iff.mp added).1
      · intro fits
        rw [Fault.add_eq (fits inside)]
        exact ⟨_, rfl⟩
  · next outside =>
      constructor
      · exact fun _ inside => absurd inside outside
      · exact fun _ => ⟨none, rfl⟩

theorem lookupInSegments_singleton {segment : AddrSegment} {rowId : Nat}
    (reached : segment.startRowId ≤ rowId) :
    lookupInSegments [segment] rowId = locateIn segment rowId := by
  rw [lookupInSegments, List.takeWhile_cons_of_pos (by simpa using reached)]
  rfl

theorem takeWhile_eq_take {α : Type} {holds : α → Bool} {list : List α} {count : Nat}
    (before : ∀ element ∈ list.take count, holds element = true)
    (after : ∀ element ∈ (list.drop count).head?, holds element = false) :
    list.takeWhile holds = list.take count := by
  conv_lhs => rw [← List.take_append_drop count list]
  rw [List.takeWhile_append_of_pos before]
  cases rest : list.drop count with
  | nil => simp
  | cons element others =>
      have fails := after element (by rw [rest]; rfl)
      rw [List.takeWhile_cons_of_neg (by simp [fails]), List.append_nil]

/-! ## The mapped file -/

/-- A mapped file with the segment count in its header. -/
structure MmapBase where
  mmap : Buffer
  segCount : Nat

namespace MmapBase

/-- Map a file. -/
def openFile (mmap : Buffer) : Except Fault (Except String MmapBase) := do
  if mmap.bytes.length < headerLen then
    return .error "rowindex: file too short for header"
  let segCount ← Fault.readAt mmap.bytes 8 8
  return .ok { mmap, segCount }

/-- The first row id of a segment. -/
def segStartRowId (base : MmapBase) (index : Nat) : Except Fault Nat := do
  let skipped ← Fault.mul 64 index segmentLen
  let offset ← Fault.add 64 headerLen skipped
  Fault.readAt base.mmap.bytes offset 8

/-- The last segment of an interval that begins at or before a row id, or else the first one. -/
def search (base : MmapBase) (rowId lo hi : Nat) : Except Fault Nat :=
  if lo + 1 < hi then do
    let start ← base.segStartRowId (middle lo hi)
    if start ≤ rowId then base.search rowId (middle lo hi) hi
    else base.search rowId lo (middle lo hi)
  else .ok lo
termination_by hi - lo
decreasing_by
  · have := lt_middle ‹_›
    omega
  · have := middle_lt ‹_›
    omega

/-- Where a row id lives. -/
def lookup (base : MmapBase) (rowId : Nat) : Except Fault (Option (Nat × Nat)) := do
  if base.segCount = 0 then
    return none
  let lo ← base.search rowId 0 base.segCount
  let start ← base.segStartRowId lo
  if rowId < start then
    return none
  let segment ← decodeSeg base.mmap.bytes lo
  lookupInSegments [segment] rowId

end MmapBase

/-- Map a file and look a row id up. -/
def mmapLookup (mmap : Buffer) (rowId : Nat) :
    Except Fault (Except String (Option (Nat × Nat))) := do
  match ← MmapBase.openFile mmap with
  | .error message => return .error message
  | .ok base => do
      let place ← base.lookup rowId
      return .ok place

/-- Decode a file and look a row id up. -/
def rangedLookup (buffer : Buffer) (rowId : Nat) :
    Except Fault (Except String (Option (Nat × Nat))) := do
  match ← decodeIdx buffer with
  | .error message => return .error message
  | .ok segments => do
      let place ← lookupInSegments segments rowId
      return .ok place

/-! ## Searching inside the file -/

/-- A segment begins at or before a row id. -/
def begins (bytes : List UInt8) (rowId index : Nat) : Bool :=
  (segmentAt bytes index).startRowId ≤ rowId

section

variable {mmap : Buffer}

theorem openFile_eq (long : headerLen ≤ mmap.bytes.length) :
    MmapBase.openFile mmap = .ok (.ok { mmap, segCount := segCountOf mmap.bytes }) := by
  have small := mmap.length_lt_u64
  unfold headerLen at long
  rw [MmapBase.openFile, if_neg (Nat.not_lt.mpr long), Fault.readAt_eq small (by omega)]
  rfl

theorem segStartRowId_isOk_iff (base : MmapBase) (index : Nat) :
    (∃ start, base.segStartRowId index = .ok start) ↔
      headerLen + index * segmentLen + 8 ≤ base.mmap.bytes.length := by
  have small := base.mmap.length_lt_u64
  constructor
  · rintro ⟨start, read⟩
    obtain ⟨skipped, first, read⟩ := Script.except_bind_eq_ok.mp read
    obtain ⟨-, rfl⟩ := Fault.mul_eq_ok_iff.mp first
    obtain ⟨offset, second, read⟩ := Script.except_bind_eq_ok.mp read
    obtain ⟨-, rfl⟩ := Fault.add_eq_ok_iff.mp second
    exact (Fault.readAt_eq_ok_iff small).mp ⟨start, read⟩
  · intro inside
    rw [MmapBase.segStartRowId, Fault.mul_eq (by omega), Fault.ok_bind, Fault.add_eq (by omega),
      Fault.ok_bind]
    exact (Fault.readAt_eq_ok_iff small).mpr inside

theorem segStartRowId_eq (base : MmapBase) {index : Nat}
    (inside : headerLen + index * segmentLen + 8 ≤ base.mmap.bytes.length) :
    base.segStartRowId index = .ok (segmentAt base.mmap.bytes index).startRowId := by
  have small := base.mmap.length_lt_u64
  rw [MmapBase.segStartRowId, Fault.mul_eq (by omega), Fault.ok_bind, Fault.add_eq (by omega),
    Fault.ok_bind, Fault.readAt_eq small inside]
  rfl

/-- A search in a complete file settles where the starts of the segments point. -/
theorem search_eq (base : MmapBase) (rowId : Nat) {lo hi : Nat}
    (inside : headerLen + hi * segmentLen ≤ base.mmap.bytes.length) :
    base.search rowId lo hi = .ok (settle (begins base.mmap.bytes rowId) lo hi) := by
  fun_induction settle (begins base.mmap.bytes rowId) lo hi with
  | case1 lo hi wide holds ih =>
      have below := middle_lt wide
      rw [MmapBase.search, if_pos wide, segStartRowId_eq base (by unfold segmentLen at *; omega),
        Fault.ok_bind, if_pos (of_decide_eq_true holds), ih inside]
  | case2 lo hi wide fails ih =>
      have below := middle_lt wide
      rw [MmapBase.search, if_pos wide, segStartRowId_eq base (by unfold segmentLen at *; omega),
        Fault.ok_bind, if_neg (fun le => fails (decide_eq_true le)),
        ih (by unfold segmentLen at *; omega)]
  | case3 lo hi narrow => rw [MmapBase.search, if_neg narrow]

/-- A lookup in a complete file looks at the segment that the search settles on. -/
theorem lookup_eq (base : MmapBase) (rowId : Nat)
    (inside : headerLen + base.segCount * segmentLen ≤ base.mmap.bytes.length) :
    base.lookup rowId =
      if base.segCount = 0 then .ok none
      else if begins base.mmap.bytes rowId (settle (begins base.mmap.bytes rowId) 0 base.segCount)
        then locateIn (segmentAt base.mmap.bytes
          (settle (begins base.mmap.bytes rowId) 0 base.segCount)) rowId
      else .ok none := by
  rw [MmapBase.lookup]
  split
  · rfl
  · next nonempty =>
      have settled := (le_settle (begins base.mmap.bytes rowId) (Nat.pos_of_ne_zero nonempty)).2
      rw [search_eq base rowId inside, Fault.ok_bind]
      generalize settle (begins base.mmap.bytes rowId) 0 base.segCount = index at *
      have segment : headerLen + (index + 1) * segmentLen ≤ base.mmap.bytes.length := by
        unfold segmentLen at *
        omega
      rw [segStartRowId_eq base (by unfold segmentLen at *; omega), Fault.ok_bind]
      by_cases reached : (segmentAt base.mmap.bytes index).startRowId ≤ rowId
      · rw [if_neg (Nat.not_lt.mpr reached), decodeSeg_eq base.mmap.length_lt segment,
          Fault.ok_bind, lookupInSegments_singleton reached, begins,
          if_pos (decide_eq_true reached)]
      · rw [if_pos (Nat.lt_of_not_le reached), begins, if_neg (by simpa using reached)]
        rfl

/-! ## Agreement with the decoded file -/

/-- In segments in order the last one that begins at or before a row id is where a search over
them settles. -/
theorem lookupInSegments_eq_settle {sorted : List AddrSegment}
    (ascending : sorted.Pairwise fun left right => left.startRowId ≤ right.startRowId)
    {rowId : Nat} {starts : Nat → Bool}
    (agrees : ∀ index (inside : index < sorted.length),
      starts index = decide (sorted[index].startRowId ≤ rowId))
    (nonempty : 0 < sorted.length) (settled : settle starts 0 sorted.length < sorted.length) :
    lookupInSegments sorted rowId =
      if starts (settle starts 0 sorted.length) then
        locateIn sorted[settle starts 0 sorted.length] rowId
      else .ok none := by
  have falls : ∀ first second, first ≤ second → second < sorted.length → starts second = true →
      starts first = true := by
    intro first second le inside holds
    rw [agrees second inside] at holds
    rw [agrees first (le.trans_lt inside)]
    rcases Nat.eq_or_lt_of_le le with rfl | before
    · exact holds
    · apply decide_eq_true
      exact (List.pairwise_iff_getElem.mp ascending _ _ _ _ before).trans (of_decide_eq_true holds)
  obtain ⟨after, found⟩ := settle_of_monotone nonempty falls
  generalize settle starts 0 sorted.length = last at *
  by_cases reached : starts last = true
  · have taken : (sorted.takeWhile fun segment => segment.startRowId ≤ rowId) =
        sorted.take (last + 1) := by
      apply takeWhile_eq_take
      · intro segment member
        obtain ⟨index, inside, rfl⟩ := List.getElem_of_mem member
        rw [List.length_take] at inside
        rw [List.getElem_take, ← agrees index (by omega)]
        exact falls index last (by omega) settled reached
      · intro segment member
        rw [List.head?_drop] at member
        obtain ⟨inside, rfl⟩ := List.getElem?_eq_some_iff.mp member
        rw [← agrees (last + 1) inside]
        exact after (last + 1) (Nat.lt_succ_self last) inside
    have final : (sorted.take (last + 1)).getLast? = some sorted[last] := by
      rw [List.take_succ_eq_append_getElem settled, List.getLast?_concat]
    rw [lookupInSegments, taken, final, if_pos reached]
  · have first : last = 0 := by
      by_contra past
      exact reached (found (Nat.pos_of_ne_zero past))
    have taken : (sorted.takeWhile fun segment => segment.startRowId ≤ rowId) =
        sorted.take 0 := by
      apply takeWhile_eq_take
      · intro segment member
        cases member
      · intro segment member
        rw [List.drop_zero, List.head?_eq_getElem?] at member
        obtain ⟨inside, rfl⟩ := List.getElem?_eq_some_iff.mp member
        rw [← agrees 0 inside, ← first]
        simpa using reached
    rw [lookupInSegments, taken, if_neg reached]
    rfl

/-- On an encoded file the search of the mapped bytes answers as the lookup in the decoded
segments. -/
theorem mmapLookup_eq_rangedLookup {segs : List StoredSegment} {buffer : Buffer}
    (encoded : encodeIdx segs = .ok buffer) (rowId : Nat) :
    mmapLookup buffer rowId = rangedLookup buffer rowId := by
  have bytes := bytes_of_encodeIdx encoded
  have ascending := (stablySorted_sortSegments (segs.map Subtype.val)).ascending
  have fits : ∀ segment ∈ sortSegments (segs.map Subtype.val), segment.Fits := by
    intro segment member
    obtain ⟨stored, -, rfl⟩ := List.mem_map.mp ((List.mem_insertionSort _).mp member)
    exact stored.2
  generalize sortSegments (segs.map Subtype.val) = sorted at *
  have small := buffer.length_lt
  have whole := length_fileBytes sorted
  have count : segCountOf buffer.bytes = sorted.length := by
    rw [bytes] at small ⊢
    exact (fields_fileBytes small).1
  rw [← bytes] at whole
  have same : ∀ index (inside : index < sorted.length),
      segmentAt buffer.bytes index = sorted[index] := by
    intro index inside
    rw [bytes, segmentAt_fileBytes fits inside]
  have agrees : ∀ index (inside : index < sorted.length),
      begins buffer.bytes rowId index = decide (sorted[index].startRowId ≤ rowId) := by
    intro index inside
    rw [begins, same index inside]
  have answer : MmapBase.lookup { mmap := buffer, segCount := sorted.length } rowId =
      lookupInSegments sorted rowId := by
    rw [lookup_eq _ _ (by dsimp only; omega)]
    dsimp only
    by_cases empty : sorted.length = 0
    · rw [if_pos empty, List.length_eq_zero_iff.mp empty]
      rfl
    · have nonempty := Nat.pos_of_ne_zero empty
      have settled := (le_settle (begins buffer.bytes rowId) nonempty).2
      rw [if_neg empty, lookupInSegments_eq_settle ascending agrees nonempty settled,
        same _ settled]
  rw [mmapLookup, openFile_eq (by omega), Fault.ok_bind, count, rangedLookup,
    decodeIdx_fileBytes bytes fits, Fault.ok_bind]
  dsimp only
  rw [answer]

end

namespace ThreeSegments

/-- Two segments that follow each other, an empty one among them, and one after a gap. -/
def segments : List StoredSegment :=
  [⟨{ startRowId := 9, fragmentId := 3, startOffset := 0, len := 2 }, by constructor <;> decide⟩,
    ⟨{ startRowId := 1, fragmentId := 1, startOffset := 4, len := 3 }, by constructor <;> decide⟩,
    ⟨{ startRowId := 4, fragmentId := 2, startOffset := 7, len := 0 }, by constructor <;> decide⟩]

theorem mmapLookup_eq_rangedLookup_four : ∃ buffer, encodeIdx segments = .ok buffer ∧
    mmapLookup buffer 4 = rangedLookup buffer 4 := by
  obtain ⟨buffer, encoded⟩ := @isOk_encodeIdx segments (by decide)
  exact ⟨buffer, encoded, mmapLookup_eq_rangedLookup encoded 4⟩

end ThreeSegments

end RowIndexFile

end IcefallDB
