import IcefallDB.Lib.BinarySearch
import IcefallDB.Lib.Buffers
import IcefallDB.Lib.Options
import IcefallDB.RowIndex.Segments

/-!
# Row-index files

A row-index file is a header, the segments by ascending row id, an index of every 1024th segment and
a checksum.  Decoding inverts encoding.
-/

namespace IcefallDB

/-! ## Checksums -/

/-- The polynomial of the checksum, its bits reversed. -/
def crcPolynomial : UInt32 := 0xEDB88320

/-- One bit of a checksum. -/
def crcStep (crc : UInt32) : UInt32 :=
  if crc &&& 1 ≠ 0 then crcPolynomial ^^^ (crc >>> 1) else crc >>> 1

/-- The checksums of single bytes. -/
def makeCrcTable : List UInt32 :=
  (List.range 256).map fun index => crcStep^[8] (UInt32.ofNat index)

/-- The checksum with one byte more. -/
def crcByte (crc : UInt32) (byte : UInt8) : UInt32 :=
  (crc >>> 8) ^^^ makeCrcTable.getD ((crc ^^^ byte.toUInt32) &&& 0xFF).toNat 0

/-- The checksum of bytes. -/
def crc32 (data : List UInt8) : UInt32 :=
  data.foldl crcByte 0xFFFFFFFF ^^^ 0xFFFFFFFF

example : crc32 "123456789".toUTF8.toList = 0xCBF43926 := by decide +kernel

/-! ## Encoding -/

/-- The fields of a segment are within their types. -/
structure AddrSegment.Fits (segment : AddrSegment) : Prop where
  startRowId : segment.startRowId < 2 ^ 64
  fragmentId : segment.fragmentId < 2 ^ 64
  startOffset : segment.startOffset < 2 ^ 32
  len : segment.len < 2 ^ 32

/-- A segment that has the widths of the file format. -/
abbrev StoredSegment : Type :=
  { segment : AddrSegment // segment.Fits }

namespace RowIndexFile

/-- `MRIX`. -/
def magic : List UInt8 :=
  [0x4d, 0x52, 0x49, 0x58]

/-- Version of the format. -/
abbrev formatVersion : Nat := 1

/-- Bytes of the header. -/
abbrev headerLen : Nat := 32

/-- Bytes of a segment. -/
abbrev segmentLen : Nat := 24

/-- Bytes of an entry of the block index. -/
abbrev blockEntryLen : Nat := 12

/-- Bytes of the checksum. -/
abbrev trailerLen : Nat := 4

/-- One segment out of this many is in the block index. -/
abbrev blockStride : Nat := 1024

/-- The header of a file. -/
def encodeHeader (segCount totalLen blockIndexOffset : Nat) : List UInt8 :=
  magic ++ (leBytes 2 formatVersion ++ (leBytes 2 0 ++ (leBytes 8 segCount ++
    (leBytes 8 totalLen ++ leBytes 8 blockIndexOffset))))

/-- A segment of a file. -/
def encodeSegment (segment : AddrSegment) : List UInt8 :=
  leBytes 8 segment.startRowId ++ (leBytes 8 segment.fragmentId ++
    (leBytes 4 segment.startOffset ++ leBytes 4 segment.len))

/-- The block index of a file.  Offsets of segments are cut off to 32 bits. -/
def encodeBlockIndex (sorted : List AddrSegment) : List UInt8 :=
  (sorted.zipIdx.filter fun entry => entry.2 % blockStride = 0).flatMap fun entry =>
    leBytes 8 entry.1.startRowId ++ leBytes 4 (headerLen + entry.2 * segmentLen)

/-- The file of segments, unless it is too large for memory. -/
def encodeIdx (segs : List StoredSegment) : Except Fault Buffer := do
  let sorted := sortSegments (segs.map Subtype.val)
  let segCount := sorted.length
  let blockCount := if segCount = 0 then 0 else (segCount - 1) / blockStride + 1
  let segmentsLen ← Fault.mul 64 segCount segmentLen
  let blockIndexOffset ← Fault.add 64 headerLen segmentsLen
  let blocksLen ← Fault.mul 64 blockCount blockEntryLen
  let fileLenNoTrailer ← Fault.add 64 blockIndexOffset blocksLen
  let totalLen ← Fault.add 64 fileLenNoTrailer trailerLen
  let body := encodeHeader segCount totalLen blockIndexOffset ++
    (sorted.flatMap encodeSegment ++ encodeBlockIndex sorted)
  Buffer.ofBytes (body ++ leBytes trailerLen (crc32 body).toNat)

/-! ## Decoding -/

/-- The segment at an index. -/
def decodeSeg (bytes : List UInt8) (index : Nat) : Except Fault AddrSegment := do
  let skipped ← Fault.mul 64 index segmentLen
  let base ← Fault.add 64 headerLen skipped
  let startRowId ← Fault.readAt bytes base 8
  let fragmentId ← Fault.readAt bytes (base + 8) 8
  let startOffset ← Fault.readAt bytes (base + 16) 4
  let len ← Fault.readAt bytes (base + 20) 4
  pure { startRowId, fragmentId, startOffset, len }

/-- The segments of a file with a segment count and an offset of the block index. -/
def decodeRegion (bytes : List UInt8) (segCount blockIndexOffset : Nat) :
    Except Fault (Except String (List AddrSegment)) := do
  let segmentsLen ← Fault.mul 64 segCount segmentLen
  let expectedSegEnd ← Fault.add 64 headerLen segmentsLen
  if blockIndexOffset ≠ expectedSegEnd then
    return .error "rowindex: block_index_offset is inconsistent with segment count"
  if bytes.length < expectedSegEnd then
    return .error "rowindex: buffer truncated within segments region"
  Fault.allocate segCount segmentLen
  let segments ← (List.range segCount).mapM (decodeSeg bytes)
  return .ok segments

/-- The segments of a file. -/
def decodeIdx (buffer : Buffer) : Except Fault (Except String (List AddrSegment)) := do
  let bytes := buffer.bytes
  if bytes.length < headerLen + trailerLen then
    return .error "rowindex: buffer too short for header+trailer"
  let start ← Fault.slice bytes 0 4
  if start ≠ magic then
    return .error "rowindex: bad magic bytes"
  let body ← Fault.slice bytes 0 (bytes.length - trailerLen)
  let storedCrc ← Fault.readAt bytes (bytes.length - trailerLen) trailerLen
  if storedCrc ≠ (crc32 body).toNat then
    return .error "rowindex: CRC32 mismatch — file is corrupt or truncated"
  let _version ← Fault.readAt bytes 4 2
  let segCount ← Fault.readAt bytes 8 8
  let fileLen ← Fault.readAt bytes 16 8
  let blockIndexOffset ← Fault.readAt bytes 24 8
  if bytes.length ≠ fileLen then
    return .error ("rowindex: buffer length " ++ toString bytes.length
      ++ " != recorded file_length " ++ toString fileLen)
  decodeRegion bytes segCount blockIndexOffset

/-! ### Segments of a file -/

/-- The segment that a file holds at an index. -/
def segmentAt (bytes : List UInt8) (index : Nat) : AddrSegment :=
  { startRowId := Fault.field bytes (headerLen + index * segmentLen) 8
    fragmentId := Fault.field bytes (headerLen + index * segmentLen + 8) 8
    startOffset := Fault.field bytes (headerLen + index * segmentLen + 16) 4
    len := Fault.field bytes (headerLen + index * segmentLen + 20) 4 }

variable {bytes : List UInt8}

theorem decodeSeg_eq {index : Nat} (small : bytes.length < 2 ^ 63)
    (inside : headerLen + (index + 1) * segmentLen ≤ bytes.length) :
    decodeSeg bytes index = .ok (segmentAt bytes index) := by
  have last : headerLen + index * segmentLen + 24 ≤ bytes.length := by
    unfold headerLen segmentLen at *
    omega
  rw [decodeSeg, Fault.mul_eq (by omega), Fault.ok_bind, Fault.add_eq (by omega), Fault.ok_bind,
    Fault.readAt_eq (by omega) (by omega), Fault.ok_bind, Fault.readAt_eq (by omega) (by omega),
    Fault.ok_bind, Fault.readAt_eq (by omega) (by omega), Fault.ok_bind,
    Fault.readAt_eq (by omega) (by omega), Fault.ok_bind]
  rfl

theorem segmentAt_fits (bytes : List UInt8) (index : Nat) : (segmentAt bytes index).Fits :=
  ⟨Fault.field_lt _ _ 8, Fault.field_lt _ _ 8, Fault.field_lt _ _ 4, Fault.field_lt _ _ 4⟩

@[simp]
theorem length_encodeSegment (segment : AddrSegment) :
    (encodeSegment segment).length = segmentLen := by
  simp [encodeSegment]

theorem length_encodeSegments (segments : List AddrSegment) :
    (segments.flatMap encodeSegment).length = segments.length * segmentLen := by
  induction segments with
  | nil => rfl
  | cons segment segments ih =>
      rw [List.flatMap_cons, List.length_append, length_encodeSegment, ih, List.length_cons,
        Nat.succ_mul, Nat.add_comm]

/-- A segment that was written is read again. -/
theorem segmentAt_of_append {before after : List UInt8} {segment : AddrSegment} {index : Nat}
    (split : bytes = before ++ (encodeSegment segment ++ after))
    (place : before.length = headerLen + index * segmentLen) (fits : segment.Fits) :
    segmentAt bytes index = segment := by
  obtain ⟨startRowId, fragmentId, startOffset, len⟩ := segment
  have shape : ∀ {offset width : Nat},
      Fault.field bytes (headerLen + index * segmentLen + offset) width =
        Fault.field (leBytes 8 startRowId ++ (leBytes 8 fragmentId ++
          (leBytes 4 startOffset ++ (leBytes 4 len ++ after)))) offset width := by
    intro offset width
    rw [split, Fault.field_append place, encodeSegment]
    simp only [List.append_assoc]
  have skip : ∀ {first rest : Nat} {tail : List UInt8} {offset width : Nat},
      Fault.field (leBytes first rest ++ tail) (first + offset) width =
        Fault.field tail offset width :=
    Fault.field_append (length_leBytes _ _) _ _
  have first : Fault.field bytes (headerLen + index * segmentLen) 8 = startRowId := by
    exact (shape.trans (Fault.field_leBytes _ _ _)).trans (Nat.mod_eq_of_lt fits.startRowId)
  have second : Fault.field bytes (headerLen + index * segmentLen + 8) 8 = fragmentId :=
    (shape.trans (skip.trans (Fault.field_leBytes _ _ _))).trans
      (Nat.mod_eq_of_lt fits.fragmentId)
  have third : Fault.field bytes (headerLen + index * segmentLen + 16) 4 = startOffset :=
    (shape.trans (skip.trans (skip.trans (Fault.field_leBytes _ _ _)))).trans
      (Nat.mod_eq_of_lt fits.startOffset)
  have fourth : Fault.field bytes (headerLen + index * segmentLen + 20) 4 = len :=
    (shape.trans (skip.trans (skip.trans (skip.trans (Fault.field_leBytes _ _ _))))).trans
      (Nat.mod_eq_of_lt fits.len)
  rw [segmentAt, first, second, third, fourth]

/-! ### Whole files -/

theorem length_encodeBlockIndex (sorted : List AddrSegment) :
    (encodeBlockIndex sorted).length =
      (if sorted.length = 0 then 0 else (sorted.length - 1) / blockStride + 1) * blockEntryLen := by
  induction sorted using List.reverseRecOn with
  | nil => rfl
  | append_singleton sorted last ih =>
      have split : encodeBlockIndex (sorted ++ [last]) = encodeBlockIndex sorted ++
          if sorted.length % blockStride = 0 then
            leBytes 8 last.startRowId ++ leBytes 4 (headerLen + sorted.length * segmentLen)
          else [] := by
        rw [encodeBlockIndex, List.zipIdx_append, List.filter_append, List.flatMap_append,
          List.zipIdx_singleton, List.filter_singleton]
        by_cases indexed : sorted.length % blockStride = 0 <;> simp [encodeBlockIndex, indexed]
      rw [split, List.length_append, ih, List.length_append, List.length_singleton,
        if_neg (Nat.succ_ne_zero _), Nat.add_sub_cancel]
      unfold blockStride blockEntryLen
      by_cases indexed : sorted.length % 1024 = 0
      · rw [if_pos indexed, List.length_append, length_leBytes, length_leBytes]
        split <;> omega
      · rw [if_neg indexed, List.length_nil]
        split <;> omega

/-- The bytes of the file of segments in order. -/
def fileBody (sorted : List AddrSegment) : List UInt8 :=
  encodeHeader sorted.length
      (headerLen + sorted.length * segmentLen + (encodeBlockIndex sorted).length + trailerLen)
      (headerLen + sorted.length * segmentLen) ++
    (sorted.flatMap encodeSegment ++ encodeBlockIndex sorted)

@[simp]
theorem length_encodeHeader (segCount totalLen blockIndexOffset : Nat) :
    (encodeHeader segCount totalLen blockIndexOffset).length = headerLen := by
  simp [encodeHeader, magic]

theorem length_fileBody (sorted : List AddrSegment) :
    (fileBody sorted).length =
      headerLen + sorted.length * segmentLen + (encodeBlockIndex sorted).length := by
  rw [fileBody, List.length_append, length_encodeHeader, List.length_append,
    length_encodeSegments, Nat.add_assoc]

/-- The bytes of the file of segments in order, with their checksum. -/
def fileBytes (sorted : List AddrSegment) : List UInt8 :=
  fileBody sorted ++ leBytes trailerLen (crc32 (fileBody sorted)).toNat

theorem length_fileBytes (sorted : List AddrSegment) :
    (fileBytes sorted).length = headerLen + sorted.length * segmentLen +
      (encodeBlockIndex sorted).length + trailerLen := by
  rw [fileBytes, List.length_append, length_fileBody, length_leBytes]

variable {segs : List StoredSegment} {buffer : Buffer}

/-- Encoding puts the file of the sorted segments into memory. -/
theorem bytes_of_encodeIdx (encoded : encodeIdx segs = .ok buffer) :
    buffer.bytes = fileBytes (sortSegments (segs.map Subtype.val)) := by
  obtain ⟨segmentsLen, first, encoded⟩ := Script.except_bind_eq_ok.mp encoded
  obtain ⟨-, rfl⟩ := Fault.mul_eq_ok_iff.mp first
  obtain ⟨blockIndexOffset, second, encoded⟩ := Script.except_bind_eq_ok.mp encoded
  obtain ⟨-, rfl⟩ := Fault.add_eq_ok_iff.mp second
  obtain ⟨blocksLen, third, encoded⟩ := Script.except_bind_eq_ok.mp encoded
  obtain ⟨-, rfl⟩ := Fault.mul_eq_ok_iff.mp third
  obtain ⟨fileLenNoTrailer, fourth, encoded⟩ := Script.except_bind_eq_ok.mp encoded
  obtain ⟨-, rfl⟩ := Fault.add_eq_ok_iff.mp fourth
  obtain ⟨totalLen, fifth, encoded⟩ := Script.except_bind_eq_ok.mp encoded
  obtain ⟨-, rfl⟩ := Fault.add_eq_ok_iff.mp fifth
  rw [Buffer.bytes_of_ofBytes encoded, fileBytes, fileBody, length_encodeBlockIndex]

/-! ### Outcomes of decoding -/

/-- What decoding checks before it computes with the segment count. -/
structure Intact (bytes : List UInt8) : Prop where
  long : headerLen + trailerLen ≤ bytes.length
  start : bytes.take 4 = magic
  crc : Fault.field bytes (bytes.length - trailerLen) trailerLen =
    (crc32 (bytes.take (bytes.length - trailerLen))).toNat
  fileLen : bytes.length = Fault.field bytes 16 8

/-- The segment count in the header. -/
def segCountOf (bytes : List UInt8) : Nat :=
  Fault.field bytes 8 8

theorem decodeIdx_of_intact (intact : Intact buffer.bytes) :
    decodeIdx buffer =
      decodeRegion buffer.bytes (segCountOf buffer.bytes) (Fault.field buffer.bytes 24 8) := by
  have small := buffer.length_lt_u64
  have long := intact.long
  unfold headerLen trailerLen at long
  have start : Fault.slice buffer.bytes 0 4 = .ok magic := by
    rw [Fault.slice_eq (by omega) (by omega), List.drop_zero, intact.start]
  have body : Fault.slice buffer.bytes 0 (buffer.bytes.length - trailerLen) =
      .ok (buffer.bytes.take (buffer.bytes.length - trailerLen)) :=
    Fault.slice_eq (Nat.zero_le _) (Nat.sub_le _ _)
  rw [decodeIdx, if_neg (Nat.not_lt.mpr intact.long), start, Fault.ok_bind,
    if_neg (not_not_intro rfl), body, Fault.ok_bind,
    Fault.readAt_eq small (by unfold trailerLen; omega), Fault.ok_bind,
    if_neg (not_not_intro intact.crc), Fault.readAt_eq small (by omega), Fault.ok_bind,
    Fault.readAt_eq small (by omega), Fault.ok_bind, Fault.readAt_eq small (by omega),
    Fault.ok_bind, Fault.readAt_eq small (by omega), Fault.ok_bind,
    if_neg (not_not_intro intact.fileLen)]
  rfl

theorem decodeIdx_of_not_intact (broken : ¬Intact buffer.bytes) :
    ∃ message, decodeIdx buffer = .ok (.error message) := by
  have small := buffer.length_lt_u64
  rw [decodeIdx]
  split
  · exact ⟨_, rfl⟩
  · next long =>
      unfold headerLen trailerLen at long
      rw [Fault.slice_eq (by omega) (by omega), Fault.ok_bind]
      split
      · exact ⟨_, rfl⟩
      · next start =>
          rw [Fault.slice_eq (Nat.zero_le _) (Nat.sub_le _ _), Fault.ok_bind,
            Fault.readAt_eq small (by unfold trailerLen; omega), Fault.ok_bind]
          split
          · exact ⟨_, rfl⟩
          · next crc =>
              rw [Fault.readAt_eq small (by omega), Fault.ok_bind,
                Fault.readAt_eq small (by omega), Fault.ok_bind,
                Fault.readAt_eq small (by omega), Fault.ok_bind,
                Fault.readAt_eq small (by omega), Fault.ok_bind]
              split
              · exact ⟨_, rfl⟩
              · next fileLen =>
                  exact absurd ⟨Nat.not_lt.mp long, not_not.mp start, not_not.mp crc,
                    not_not.mp fileLen⟩ broken

/-- Where the size of the segments fits, they are all inside or are rejected. -/
theorem decodeRegion_eq (small : bytes.length < 2 ^ 63) {segCount blockIndexOffset : Nat}
    (fits : headerLen + segCount * segmentLen < 2 ^ 64) :
    decodeRegion bytes segCount blockIndexOffset = .ok
      (if blockIndexOffset ≠ headerLen + segCount * segmentLen then
        .error "rowindex: block_index_offset is inconsistent with segment count"
      else if bytes.length < headerLen + segCount * segmentLen then
        .error "rowindex: buffer truncated within segments region"
      else .ok ((List.range segCount).map (segmentAt bytes))) := by
  rw [decodeRegion, Fault.mul_eq (by omega), Fault.ok_bind, Fault.add_eq fits, Fault.ok_bind]
  split
  · rfl
  · split
    · rfl
    · next inside =>
        rw [Fault.allocate_eq (by omega), Fault.ok_bind]
        have segments : (List.range segCount).mapM (decodeSeg bytes) =
            .ok ((List.range segCount).map (segmentAt bytes)) := by
          apply List.mapM_eq_ok
          intro index member
          have := List.mem_range.mp member
          apply decodeSeg_eq small
          unfold headerLen segmentLen at *
          omega
        rw [segments]
        rfl

/-- Decoding stops the program just if the checksum is right and the size of the segments
overflows. -/
theorem decodeIdx_isOk_iff (buffer : Buffer) :
    (∃ result, decodeIdx buffer = .ok result) ↔
      ¬(Intact buffer.bytes ∧ 2 ^ 64 ≤ headerLen + segCountOf buffer.bytes * segmentLen) := by
  by_cases intact : Intact buffer.bytes
  · rw [decodeIdx_of_intact intact]
    constructor
    · rintro ⟨result, decoded⟩ ⟨-, large⟩
      obtain ⟨segmentsLen, first, decoded⟩ := Script.except_bind_eq_ok.mp decoded
      obtain ⟨-, rfl⟩ := Fault.mul_eq_ok_iff.mp first
      obtain ⟨expectedSegEnd, second, -⟩ := Script.except_bind_eq_ok.mp decoded
      have := (Fault.add_eq_ok_iff.mp second).1
      omega
    · intro fits
      exact ⟨_, decodeRegion_eq buffer.length_lt (Nat.lt_of_not_le fun large =>
        fits ⟨intact, large⟩)⟩
  · obtain ⟨message, decoded⟩ := decodeIdx_of_not_intact intact
    rw [decoded]
    constructor
    · exact fun _ both => intact both.1
    · exact fun _ => ⟨_, rfl⟩

/-! ### Round trip -/

theorem field_encodeHeader (segCount totalLen blockIndexOffset offset width : Nat)
    (rest : List UInt8) :
    Fault.field (encodeHeader segCount totalLen blockIndexOffset ++ rest) (8 + offset) width =
      Fault.field (leBytes 8 segCount ++ (leBytes 8 totalLen ++
        (leBytes 8 blockIndexOffset ++ rest))) offset width := by
  have shape : encodeHeader segCount totalLen blockIndexOffset ++ rest =
      (magic ++ (leBytes 2 formatVersion ++ leBytes 2 0)) ++ (leBytes 8 segCount ++
        (leBytes 8 totalLen ++ (leBytes 8 blockIndexOffset ++ rest))) := by
    rw [encodeHeader]
    simp only [List.append_assoc]
  rw [shape]
  exact Fault.field_append rfl offset width

variable {sorted : List AddrSegment}

/-- A file begins with its header. -/
theorem fileBytes_eq (sorted : List AddrSegment) :
    fileBytes sorted = encodeHeader sorted.length (fileBytes sorted).length
        (headerLen + sorted.length * segmentLen) ++
      (sorted.flatMap encodeSegment ++ encodeBlockIndex sorted ++
        leBytes trailerLen (crc32 (fileBody sorted)).toNat) := by
  rw [length_fileBytes]
  exact List.append_assoc _ _ _

theorem fields_fileBytes (small : (fileBytes sorted).length < 2 ^ 63) :
    segCountOf (fileBytes sorted) = sorted.length ∧
      Fault.field (fileBytes sorted) 16 8 = (fileBytes sorted).length ∧
      Fault.field (fileBytes sorted) 24 8 = headerLen + sorted.length * segmentLen := by
  have whole := length_fileBytes sorted
  have shape := fileBytes_eq sorted
  generalize (fileBytes sorted).length = totalLen at *
  generalize leBytes trailerLen (crc32 (fileBody sorted)).toNat = trailer at shape
  unfold headerLen segmentLen trailerLen at whole
  rw [shape]
  have read := fun offset => field_encodeHeader sorted.length totalLen
    (headerLen + sorted.length * segmentLen) offset 8
    (sorted.flatMap encodeSegment ++ encodeBlockIndex sorted ++ trailer)
  have skip : ∀ (value : Nat) (tail : List UInt8) (offset : Nat),
      Fault.field (leBytes 8 value ++ tail) (8 + offset) 8 = Fault.field tail offset 8 :=
    fun _ _ _ => Fault.field_append (length_leBytes _ _) _ _
  refine ⟨?_, ?_, ?_⟩
  · rw [segCountOf, read 0, Fault.field_leBytes]
    exact Nat.mod_eq_of_lt (by omega)
  · rw [read 8, skip _ _ 0, Fault.field_leBytes]
    exact Nat.mod_eq_of_lt (by omega)
  · rw [read 16, skip _ _ 8, skip _ _ 0, Fault.field_leBytes]
    unfold headerLen segmentLen
    exact Nat.mod_eq_of_lt (by omega)

theorem intact_fileBytes (small : (fileBytes sorted).length < 2 ^ 63) :
    Intact (fileBytes sorted) where
  long := by
    rw [length_fileBytes]
    omega
  start := rfl
  crc := by
    have place : (fileBytes sorted).length - trailerLen = (fileBody sorted).length := by
      rw [length_fileBytes, length_fileBody, Nat.add_sub_cancel]
    rw [place, fileBytes, List.take_left]
    have read : Fault.field
        (fileBody sorted ++ (leBytes trailerLen (crc32 (fileBody sorted)).toNat ++ []))
        ((fileBody sorted).length + 0) trailerLen =
          (crc32 (fileBody sorted)).toNat % 256 ^ trailerLen :=
      (Fault.field_append rfl 0 trailerLen).trans (Fault.field_leBytes _ _ _)
    rw [List.append_nil] at read
    exact read.trans (Nat.mod_eq_of_lt (UInt32.toNat_lt _))
  fileLen := (fields_fileBytes small).2.1.symm

theorem segmentAt_fileBytes (fits : ∀ segment ∈ sorted, segment.Fits) {index : Nat}
    (inside : index < sorted.length) : segmentAt (fileBytes sorted) index = sorted[index] := by
  have around : sorted.flatMap encodeSegment = (sorted.take index).flatMap encodeSegment ++
      (encodeSegment sorted[index] ++ (sorted.drop (index + 1)).flatMap encodeSegment) := by
    rw [← List.flatMap_cons, List.getElem_cons_drop, ← List.flatMap_append,
      List.take_append_drop]
  have shape : fileBytes sorted =
      (encodeHeader sorted.length (fileBytes sorted).length
          (headerLen + sorted.length * segmentLen) ++
        (sorted.take index).flatMap encodeSegment) ++
      (encodeSegment sorted[index] ++ ((sorted.drop (index + 1)).flatMap encodeSegment ++
        (encodeBlockIndex sorted ++ leBytes trailerLen (crc32 (fileBody sorted)).toNat))) := by
    refine (fileBytes_eq sorted).trans ?_
    rw [around]
    simp only [List.append_assoc]
  refine segmentAt_of_append shape ?_ (fits _ (List.getElem_mem inside))
  rw [List.length_append, length_encodeHeader, length_encodeSegments, List.length_take,
    Nat.min_eq_left inside.le]

/-- Decoding a file gives the segments that it was made of. -/
theorem decodeIdx_fileBytes (bytes : buffer.bytes = fileBytes sorted)
    (fits : ∀ segment ∈ sorted, segment.Fits) : decodeIdx buffer = .ok (.ok sorted) := by
  have small := buffer.length_lt
  have whole := length_fileBytes sorted
  have intact : Intact buffer.bytes := by
    rw [bytes] at small ⊢
    exact intact_fileBytes small
  have segments : (List.range sorted.length).map (segmentAt buffer.bytes) = sorted := by
    apply List.ext_getElem
    · rw [List.length_map, List.length_range]
    · intro index before inside
      rw [List.getElem_map, List.getElem_range, bytes, segmentAt_fileBytes fits inside]
  rw [← bytes] at whole
  obtain ⟨segCount, -, blockIndexOffset⟩ :=
    fields_fileBytes (bytes ▸ small : (fileBytes sorted).length < 2 ^ 63)
  rw [← bytes] at segCount blockIndexOffset
  have region : headerLen + sorted.length * segmentLen ≤ buffer.bytes.length := by omega
  rw [decodeIdx_of_intact intact, segCount, blockIndexOffset,
    decodeRegion_eq small (by omega), if_neg (not_not_intro rfl),
    if_neg (Nat.not_lt.mpr region), segments]

/-- Segments are sorted by their first row ids, and those with one first row id keep their order. -/
structure StablySorted (sorted segments : List AddrSegment) : Prop where
  ascending : sorted.Pairwise fun left right => left.startRowId ≤ right.startRowId
  perm : sorted.Perm segments
  stable : ∀ rowId, (sorted.filter fun segment => segment.startRowId = rowId) =
    segments.filter fun segment => segment.startRowId = rowId

theorem filter_orderedInsert (segment : AddrSegment) (segments : List AddrSegment) (rowId : Nat) :
    ((segments.orderedInsert (fun left right => left.startRowId ≤ right.startRowId)
        segment).filter fun segment => segment.startRowId = rowId) =
      (segment :: segments).filter fun segment => segment.startRowId = rowId := by
  induction segments with
  | nil => rfl
  | cons first segments ih =>
      rw [List.orderedInsert_cons]
      split
      · rfl
      · next after =>
          rw [List.filter_cons, ih]
          by_cases found : segment.startRowId = rowId
          · have other : first.startRowId ≠ rowId := by omega
            simp [found, other]
          · simp [found, List.filter_cons]

theorem stablySorted_sortSegments (segments : List AddrSegment) :
    StablySorted (sortSegments segments) segments where
  ascending := List.pairwise_insertionSort
    (fun left right : AddrSegment => left.startRowId ≤ right.startRowId) segments
  perm := List.perm_insertionSort _ _
  stable := by
    intro rowId
    induction segments with
    | nil => rfl
    | cons segment segments ih =>
        rw [sortSegments, List.insertionSort_cons, filter_orderedInsert, List.filter_cons,
          List.filter_cons, ← ih]
        rfl

/-- Decoding what was encoded gives the segments stably sorted. -/
theorem decodeIdx_of_encodeIdx (encoded : encodeIdx segs = .ok buffer) :
    ∃ sorted, decodeIdx buffer = .ok (.ok sorted) ∧ StablySorted sorted (segs.map Subtype.val) := by
  refine ⟨_, decodeIdx_fileBytes (bytes_of_encodeIdx encoded) ?_, stablySorted_sortSegments _⟩
  intro segment member
  obtain ⟨stored, -, rfl⟩ := List.mem_map.mp ((List.mem_insertionSort _).mp member)
  exact stored.2

/-- Segments that leave room for the block index are encoded. -/
theorem isOk_encodeIdx (room : segs.length < 2 ^ 58) : ∃ buffer, encodeIdx segs = .ok buffer := by
  generalize sorted_eq : sortSegments (segs.map Subtype.val) = sorted
  have count : sorted.length = segs.length := by
    rw [← sorted_eq, sortSegments, List.length_insertionSort, List.length_map]
  have index := length_encodeBlockIndex sorted
  have blocks : (if sorted.length = 0 then 0 else (sorted.length - 1) / blockStride + 1) ≤
      sorted.length / 1024 + 1 := by
    unfold blockStride
    split <;> omega
  rw [encodeIdx]
  dsimp only
  rw [sorted_eq]
  generalize (if sorted.length = 0 then 0 else (sorted.length - 1) / blockStride + 1) =
    blockCount at *
  have total : headerLen + sorted.length * segmentLen + blockCount * blockEntryLen + trailerLen <
      2 ^ 63 := by
    unfold headerLen segmentLen blockEntryLen trailerLen
    omega
  rw [Fault.mul_eq (by omega), Fault.ok_bind, Fault.add_eq (by omega), Fault.ok_bind,
    Fault.mul_eq (by omega), Fault.ok_bind, Fault.add_eq (by omega), Fault.ok_bind,
    Fault.add_eq (by omega), Fault.ok_bind]
  refine ⟨_, dif_pos ?_⟩
  rw [List.length_append, List.length_append, length_encodeHeader, List.length_append,
    length_encodeSegments, index, length_leBytes]
  omega

end RowIndexFile

end IcefallDB
