import IcefallDB.RowIndex.MmapBase

/-!
# Malformed row-index files

Decoding and searching read the segment count of a file from its header.  Decoding computes the size
of the segments without regard to overflow, and searching does not compare it with the size of the
file.  This is when a file stops the program.
-/

namespace IcefallDB

namespace RowIndexFile

open BinarySearch

/-- Decoding a file or looking a row id up in it does not stop the program. -/
structure Robust (mmap : Buffer) : Prop where
  decodes : ∃ result, decodeIdx mmap = .ok result
  answers : ∀ rowId < 2 ^ 64, ∃ result, mmapLookup mmap rowId = .ok result

/-- A row id leads the search to a segment. -/
def LeadsTo (bytes : List UInt8) (rowId index : Nat) : Prop :=
  (∀ point ∈ halvingPoints 0 (segCountOf bytes) index,
      begins bytes rowId point = true ↔ point ≤ index) ∧
    begins bytes rowId index = true

/-- Rows that are found in a segment have offsets of 32 bits. -/
def OffsetsFit (bytes : List UInt8) : Prop :=
  ∀ index < segCountOf bytes, ∀ rowId < 2 ^ 64, LeadsTo bytes rowId index →
    rowId < min ((segmentAt bytes index).startRowId + (segmentAt bytes index).len) u64Max →
      (segmentAt bytes index).startOffset + (rowId - (segmentAt bytes index).startRowId) < 2 ^ 32

/-- A file with a header has room for all segments that the header counts, and the rows in them have
offsets of 32 bits.  With a right checksum, the size of the segments does not overflow. -/
structure Sound (bytes : List UInt8) : Prop where
  countFits : ¬(Intact bytes ∧ 2 ^ 64 ≤ headerLen + segCountOf bytes * segmentLen)
  complete : headerLen ≤ bytes.length → segCountOf bytes ≠ 0 →
    headerLen + segCountOf bytes * segmentLen ≤ bytes.length
  offsetsFit : headerLen ≤ bytes.length → OffsetsFit bytes

variable {mmap : Buffer}

/-- The largest row id leads every search to the end of its interval. -/
theorem search_u64Max (base : MmapBase) {lo hi index : Nat} (nonempty : lo < hi)
    (found : base.search u64Max lo hi = .ok index) : index + 1 = hi := by
  fun_induction settle (fun _ => true) lo hi with
  | case1 lo hi wide _ ih =>
      rw [MmapBase.search, if_pos wide] at found
      obtain ⟨start, read, found⟩ := Script.except_bind_eq_ok.mp found
      have inside := (segStartRowId_isOk_iff base _).mp ⟨start, read⟩
      rw [segStartRowId_eq base inside] at read
      have below := (segmentAt_fits base.mmap.bytes (middle lo hi)).startRowId
      rw [if_pos (by rw [← Except.ok.inj read, u64Max]; omega)] at found
      exact ih (middle_lt wide) found
  | case2 lo hi wide fails _ => exact absurd rfl fails
  | case3 lo hi narrow =>
      rw [MmapBase.search, if_neg narrow] at found
      have := Except.ok.inj found
      omega

/-- A lookup of the largest row id reads the last segment. -/
theorem complete_of_lookup (base : MmapBase) (nonempty : base.segCount ≠ 0)
    {place : Option (Nat × Nat)} (found : base.lookup u64Max = .ok place) :
    headerLen + base.segCount * segmentLen ≤ base.mmap.bytes.length := by
  rw [MmapBase.lookup, if_neg nonempty] at found
  obtain ⟨index, searched, found⟩ := Script.except_bind_eq_ok.mp found
  have last := search_u64Max base (Nat.pos_of_ne_zero nonempty) searched
  obtain ⟨start, read, found⟩ := Script.except_bind_eq_ok.mp found
  have inside := (segStartRowId_isOk_iff base _).mp ⟨start, read⟩
  rw [segStartRowId_eq base inside] at read
  have below := (segmentAt_fits base.mmap.bytes index).startRowId
  rw [if_neg (by rw [← Except.ok.inj read, u64Max]; omega)] at found
  obtain ⟨segment, decoded, -⟩ := Script.except_bind_eq_ok.mp found
  obtain ⟨skipped, first, decoded⟩ := Script.except_bind_eq_ok.mp decoded
  obtain ⟨-, rfl⟩ := Fault.mul_eq_ok_iff.mp first
  obtain ⟨start, second, decoded⟩ := Script.except_bind_eq_ok.mp decoded
  obtain ⟨-, rfl⟩ := Fault.add_eq_ok_iff.mp second
  obtain ⟨_, -, decoded⟩ := Script.except_bind_eq_ok.mp decoded
  obtain ⟨_, -, decoded⟩ := Script.except_bind_eq_ok.mp decoded
  obtain ⟨_, -, decoded⟩ := Script.except_bind_eq_ok.mp decoded
  obtain ⟨len, fourth, -⟩ := Script.except_bind_eq_ok.mp decoded
  have end_inside := (Fault.readAt_eq_ok_iff base.mmap.length_lt_u64).mp ⟨len, fourth⟩
  unfold headerLen segmentLen at *
  omega

theorem mmapLookup_of_short (short : ¬headerLen ≤ mmap.bytes.length) (rowId : Nat) :
    ∃ message, mmapLookup mmap rowId = .ok (.error message) := by
  rw [mmapLookup, MmapBase.openFile, if_pos (Nat.lt_of_not_le short)]
  exact ⟨_, rfl⟩

theorem mmapLookup_isOk_iff (long : headerLen ≤ mmap.bytes.length) (rowId : Nat) :
    (∃ result, mmapLookup mmap rowId = .ok result) ↔
      ∃ place, MmapBase.lookup { mmap, segCount := segCountOf mmap.bytes } rowId = .ok place := by
  rw [mmapLookup, openFile_eq long, Fault.ok_bind]
  constructor
  · rintro ⟨result, found⟩
    obtain ⟨place, searched, -⟩ := Script.except_bind_eq_ok.mp found
    exact ⟨place, searched⟩
  · rintro ⟨place, searched⟩
    dsimp only
    rw [searched]
    exact ⟨_, rfl⟩

/-- In a complete file only the offset of a row that is found can overflow. -/
theorem lookup_isOk_iff (base : MmapBase) (count : base.segCount = segCountOf base.mmap.bytes)
    (inside : headerLen + base.segCount * segmentLen ≤ base.mmap.bytes.length) (rowId : Nat) :
    (∃ place, base.lookup rowId = .ok place) ↔
      ∀ index < base.segCount, LeadsTo base.mmap.bytes rowId index →
        ∃ place, locateIn (segmentAt base.mmap.bytes index) rowId = .ok place := by
  have found := lookup_eq base rowId inside
  rw [found]
  by_cases empty : base.segCount = 0
  · rw [if_pos empty]
    constructor
    · intro _ index below
      omega
    · exact fun _ => ⟨none, rfl⟩
  · have settled := le_settle (begins base.mmap.bytes rowId) (Nat.pos_of_ne_zero empty)
    have points := @settle_eq_iff (begins base.mmap.bytes rowId) _ _ _ settled.1 settled.2
    rw [if_neg empty]
    constructor
    · rintro answer index below ⟨leads, reached⟩
      rw [← count] at leads
      obtain same := (settle_eq_iff (Nat.zero_le index) below).mpr leads
      rw [same, if_pos reached] at answer
      exact answer
    · intro all
      split
      · next reached =>
          apply all _ settled.2 ⟨?_, reached⟩
          rw [← count]
          exact points.mp rfl
      · exact ⟨none, rfl⟩

/-- A file is safe to decode and to search just if it is sound. -/
theorem robust_iff (mmap : Buffer) : Robust mmap ↔ Sound mmap.bytes := by
  have decodes := decodeIdx_isOk_iff mmap
  by_cases long : headerLen ≤ mmap.bytes.length
  · constructor
    · rintro ⟨decoded, answers⟩
      have complete : segCountOf mmap.bytes ≠ 0 →
          headerLen + segCountOf mmap.bytes * segmentLen ≤ mmap.bytes.length := by
        intro nonempty
        obtain ⟨place, found⟩ := (mmapLookup_isOk_iff long _).mp (answers u64Max (by decide))
        exact complete_of_lookup { mmap, segCount := segCountOf mmap.bytes } nonempty found
      refine ⟨decodes.mp decoded, fun _ => complete, fun _ index below rowId small leads => ?_⟩
      apply (locateIn_isOk_iff _ _).mp
      have searched := (mmapLookup_isOk_iff long _).mp (answers rowId small)
      exact (lookup_isOk_iff { mmap, segCount := segCountOf mmap.bytes } rfl
        (complete (Nat.ne_zero_of_lt below)) rowId).mp searched index below leads
    · rintro ⟨countFits, complete, offsetsFit⟩
      refine ⟨decodes.mpr countFits, fun rowId small => ?_⟩
      apply (mmapLookup_isOk_iff long _).mpr
      by_cases empty : segCountOf mmap.bytes = 0
      · rw [MmapBase.lookup, if_pos empty]
        exact ⟨none, rfl⟩
      · apply (lookup_isOk_iff { mmap, segCount := segCountOf mmap.bytes } rfl
          (complete long empty) rowId).mpr
        intro index below leads
        apply (locateIn_isOk_iff _ _).mpr
        exact offsetsFit long index below rowId small leads
  · constructor
    · rintro ⟨decoded, -⟩
      exact ⟨decodes.mp decoded, fun header => absurd header long,
        fun header => absurd header long⟩
    · rintro ⟨countFits, -, -⟩
      refine ⟨decodes.mpr countFits, fun rowId _ => ?_⟩
      obtain ⟨message, answer⟩ := mmapLookup_of_short long rowId
      exact ⟨_, answer⟩

/-- Encoded files are sound if the segments end within offsets of 32 bits. -/
theorem sound_of_encodeIdx {segs : List StoredSegment} {buffer : Buffer}
    (encoded : encodeIdx segs = .ok buffer)
    (ends : ∀ stored ∈ segs, stored.val.startOffset + stored.val.len ≤ 2 ^ 32) :
    Sound buffer.bytes := by
  have bytes := bytes_of_encodeIdx encoded
  have stored : ∀ segment ∈ sortSegments (segs.map Subtype.val),
      segment.Fits ∧ segment.startOffset + segment.len ≤ 2 ^ 32 := by
    intro segment member
    obtain ⟨stored, inside, rfl⟩ := List.mem_map.mp ((List.mem_insertionSort _).mp member)
    exact ⟨stored.2, ends stored inside⟩
  generalize sortSegments (segs.map Subtype.val) = sorted at *
  have small := buffer.length_lt
  have whole := length_fileBytes sorted
  have count : segCountOf buffer.bytes = sorted.length := by
    rw [bytes] at small ⊢
    exact (fields_fileBytes small).1
  rw [← bytes] at whole
  constructor
  · rintro ⟨-, large⟩
    rw [count] at large
    omega
  · intro _ _
    rw [count]
    omega
  · rintro - index below rowId - ⟨-, reached⟩ inside
    rw [count] at below
    have same : segmentAt buffer.bytes index = sorted[index] := by
      rw [bytes, segmentAt_fileBytes (fun segment member => (stored segment member).1) below]
    have start := of_decide_eq_true reached
    have fits := (stored _ (List.getElem_mem below)).2
    rw [same] at inside start ⊢
    omega

/-- Decoding inverts encoding up to a stable sort.  A file stops the program neither when it is
decoded nor when it is searched just if it is sound. -/
theorem roundTrip_and_robust_iff (segs : List StoredSegment) (buffer mmap : Buffer) :
    (encodeIdx segs = .ok buffer → ∃ sorted, decodeIdx buffer = .ok (.ok sorted) ∧
      StablySorted sorted (segs.map Subtype.val)) ∧
      (Robust mmap ↔ Sound mmap.bytes) := by
  constructor
  · exact decodeIdx_of_encodeIdx
  · exact robust_iff mmap

theorem roundTrip_and_robust_iff_threeSegments :
    ∃ buffer, encodeIdx ThreeSegments.segments = .ok buffer ∧ Robust buffer ∧
      ∃ sorted, decodeIdx buffer = .ok (.ok sorted) ∧
        StablySorted sorted (ThreeSegments.segments.map Subtype.val) := by
  obtain ⟨buffer, encoded⟩ := @isOk_encodeIdx ThreeSegments.segments (by decide)
  have sound := sound_of_encodeIdx encoded (by decide)
  obtain ⟨roundTrip, robust⟩ := roundTrip_and_robust_iff ThreeSegments.segments buffer buffer
  exact ⟨buffer, encoded, robust.mpr sound, roundTrip encoded⟩

/-- A header that counts a segment, without the segment. -/
def headerOnly : Buffer where
  bytes := encodeHeader 1 32 32
  length_lt := by
    rw [length_encodeHeader]
    decide

/-- A file with a right checksum that counts so many segments that their size overflows to zero. -/
def uncountable : Buffer where
  bytes := encodeHeader (2 ^ 61) 36 32 ++
    leBytes trailerLen (crc32 (encodeHeader (2 ^ 61) 36 32)).toNat
  length_lt := by
    rw [List.length_append, length_encodeHeader, length_leBytes]
    decide

/-- A search leaves the one file, and decoding the other one overflows. -/
theorem not_robust_headerOnly_and_uncountable : ¬Robust headerOnly ∧ ¬Robust uncountable := by
  constructor
  · rintro ⟨-, answers⟩
    obtain ⟨result, answer⟩ := answers 0 (by decide)
    have outside : mmapLookup headerOnly 0 = .error .outOfRange := by decide +kernel
    rw [outside] at answer
    cases answer
  · rintro ⟨⟨result, decoded⟩, -⟩
    have overflows : decodeIdx uncountable = .error .overflow := by decide +kernel
    rw [overflows] at decoded
    cases decoded

end RowIndexFile

end IcefallDB
