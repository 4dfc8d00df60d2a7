import IcefallDB.IndexBinary

/-!
# Reading binary indexes back

Serializing an index gives one layout of bytes.  Every part of the layout lies where the directory
says, so parsing the bytes and looking a value up finds the row ids of the value.
-/

namespace IcefallDB

namespace BinaryIndex

open BinarySearch

/-! ## The bytes of an index -/

/-- Zeros. -/
abbrev zeros (count : Nat) : List UInt8 :=
  List.replicate count 0

/-- An entry of the directory. -/
def record (keyOff postOff : Nat) (entry : Entry) : List UInt8 :=
  leBytes 8 keyOff ++ leBytes 8 (keyBytes entry).length ++ leBytes 8 postOff ++
    leBytes 8 entry.2.length

/-- The directory of entries whose keys and row ids begin at offsets. -/
def directory (keyOff postOff : Nat) : List Entry → List UInt8
  | [] => []
  | entry :: rest => record keyOff postOff entry ++
      directory (keyOff + (keyBytes entry).length) (postOff + entry.2.length * 8) rest

/-- The bytes of all keys. -/
def keyBlob (entries : List Entry) : List UInt8 :=
  entries.flatMap keyBytes

/-- The bytes of all row ids. -/
def postingsBlob (entries : List Entry) : List UInt8 :=
  entries.flatMap fun entry => entry.2.flatMap (leBytes 8)

@[simp]
theorem length_record (keyOff postOff : Nat) (entry : Entry) :
    (record keyOff postOff entry).length = dirEntryLen := by
  simp [record]

theorem length_ids (ids : List Nat) : (ids.flatMap (leBytes 8)).length = ids.length * 8 :=
  length_flatMap_of_width (length_leBytes 8) ids

theorem length_keyBlob_cons (entry : Entry) (rest : List Entry) :
    (keyBlob (entry :: rest)).length = (keyBytes entry).length + (keyBlob rest).length := by
  rw [keyBlob, List.flatMap_cons, List.length_append]
  rfl

theorem length_postingsBlob_cons (entry : Entry) (rest : List Entry) :
    (postingsBlob (entry :: rest)).length = entry.2.length * 8 + (postingsBlob rest).length := by
  rw [postingsBlob, List.flatMap_cons, List.length_append, length_ids]
  rfl

theorem writeHeader_eq {count : Nat} {defJson : List UInt8}
    (room : headerLen + defJson.length ≤ count) (small : count < 2 ^ 64)
    (snapshotSequence keyCount : Nat) :
    writeHeader (zeros count) snapshotSequence keyCount defJson =
      .ok (magic ++ leBytes 8 snapshotSequence ++ leBytes 8 keyCount ++
        leBytes 8 defJson.length ++ defJson ++ zeros (count - (headerLen + defJson.length))) := by
  unfold headerLen at room
  have lengths : ∀ value, (leBytes 8 value).length = 8 := length_leBytes 8
  have eight : magic.length = 8 := rfl
  have start : zeros count = [] ++ (zeros count ++ []) := by
    rw [List.append_nil, List.nil_append]
  rw [writeHeader, start, Fault.patch_zeros (by rfl) (by rw [eight]; omega) (by rw [eight]; omega),
    Fault.ok_bind, Fault.patch_zeros (by rfl) (by rw [lengths, eight]; omega)
      (by rw [lengths]; omega),
    Fault.ok_bind, Fault.patch_zeros
      (by rw [List.length_append, lengths]; rfl)
      (by rw [lengths, lengths, eight]; omega) (by rw [lengths]; omega),
    Fault.ok_bind, Fault.patch_zeros
      (by rw [List.length_append, List.length_append, lengths, lengths]; rfl)
      (by rw [lengths, lengths, lengths, eight]; omega) (by rw [lengths]; omega),
    Fault.ok_bind, Fault.patch_zeros
      (by rw [List.length_append, List.length_append, List.length_append, lengths, lengths,
        lengths]; rfl)
      (by rw [lengths, lengths, lengths, eight]; omega) (by unfold headerLen; omega)]
  have left : count - 8 - 8 - 8 - 8 - defJson.length = count - (headerLen + defJson.length) := by
    unfold headerLen
    omega
  rw [lengths, lengths, lengths, eight, left, List.nil_append, List.append_nil]

theorem writeRecord_eq {front after : List UInt8} {dir count : Nat} (place : front.length = dir)
    (room : dirEntryLen ≤ count) (small : dir + dirEntryLen < 2 ^ 64)
    (keyOff postOff : Nat) (entry : Entry) :
    writeRecord (front ++ (zeros count ++ after)) dir keyOff (keyBytes entry).length postOff
        entry.2.length =
      .ok (front ++ record keyOff postOff entry ++ (zeros (count - dirEntryLen) ++ after)) := by
  unfold dirEntryLen at room small
  have lengths : ∀ value, (leBytes 8 value).length = 8 := length_leBytes 8
  rw [writeRecord, Fault.patch_zeros place (by rw [lengths]; omega) (by rw [lengths]; omega),
    Fault.ok_bind, Fault.patch_zeros (by rw [List.length_append, lengths, place])
      (by rw [lengths, lengths]; omega) (by rw [lengths]; omega),
    Fault.ok_bind, Fault.patch_zeros
      (by rw [List.length_append, List.length_append, lengths, lengths, place])
      (by rw [lengths, lengths, lengths]; omega) (by rw [lengths]; omega),
    Fault.ok_bind, Fault.patch_zeros
      (by rw [List.length_append, List.length_append, List.length_append, lengths, lengths,
        lengths, place])
      (by rw [lengths, lengths, lengths, lengths]; omega) (by rw [lengths]; omega)]
  have left : count - 8 - 8 - 8 - 8 = count - dirEntryLen := by
    unfold dirEntryLen
    omega
  simp only [lengths, left, record, List.append_assoc]

theorem writeIds_eq (ids : List Nat) {front after : List UInt8} {cursor count : Nat}
    (place : front.length = cursor) (room : ids.length * 8 ≤ count)
    (small : cursor + ids.length * 8 < 2 ^ 64) :
    writeIds (front ++ (zeros count ++ after)) cursor ids =
      .ok (front ++ (ids.flatMap (leBytes 8) ++ (zeros (count - ids.length * 8) ++ after)),
        cursor + ids.length * 8) := by
  induction ids generalizing front cursor count with
  | nil => simp [writeIds]
  | cons id ids ih =>
      have length := length_leBytes 8 id
      rw [List.length_cons] at room small
      rw [writeIds, Fault.patch_zeros place (by omega) (by omega), Fault.ok_bind,
        Fault.add_eq (by omega), Fault.ok_bind,
        ih (by rw [List.length_append, length, place]) (by omega) (by omega)]
      have left : count - 8 - ids.length * 8 = count - (ids.length + 1) * 8 := by omega
      have stop : cursor + 8 + ids.length * 8 = cursor + (ids.length + 1) * 8 := by omega
      rw [length, left, stop, List.flatMap_cons, List.length_cons, List.append_assoc,
        List.append_assoc]

/-- Entries fill the directory, the keys and the row ids from the front. -/
theorem writeEntries_eq (dirOff pad : Nat) (entries : List Entry) :
    ∀ {front keysDone postsDone after : List UInt8} {i keyCursor postCursor : Nat},
      front.length = dirOff + i * dirEntryLen →
      keyCursor = front.length + (entries.length * dirEntryLen + keysDone.length) →
      postCursor = keyCursor + ((keyBlob entries).length + pad + postsDone.length) →
      postCursor + (postingsBlob entries).length < 2 ^ 63 →
      writeEntries dirOff i keyCursor postCursor
          (front ++ (zeros (entries.length * dirEntryLen) ++ (keysDone ++
            (zeros ((keyBlob entries).length + pad) ++ (postsDone ++
              (zeros (postingsBlob entries).length ++ after)))))) entries =
        .ok (front ++ (directory keyCursor postCursor entries ++ (keysDone ++
          (keyBlob entries ++ (zeros pad ++
            (postsDone ++ (postingsBlob entries ++ after))))))) := by
  induction entries with
  | nil =>
      intro front keysDone postsDone after i keyCursor postCursor _ _ _ _
      simp [writeEntries, directory, keyBlob, postingsBlob]
  | cons entry rest ih =>
      intro front keysDone postsDone after i keyCursor postCursor place keyPlace postPlace small
      rw [length_keyBlob_cons, length_postingsBlob_cons, List.length_cons] at *
      unfold dirEntryLen at *
      have size : (record keyCursor postCursor entry).length = 32 :=
        length_record keyCursor postCursor entry
      have keyed : Fault.patch (front ++ record keyCursor postCursor entry ++
          (zeros ((rest.length + 1) * 32 - 32) ++ (keysDone ++
            (zeros ((keyBytes entry).length + (keyBlob rest).length + pad) ++ (postsDone ++
              (zeros (entry.2.length * 8 + (postingsBlob rest).length) ++ after))))))
          keyCursor (keyBytes entry) =
        .ok (front ++ record keyCursor postCursor entry ++
          (zeros (rest.length * 32) ++ (keysDone ++ keyBytes entry ++
            (zeros ((keyBlob rest).length + pad) ++ (postsDone ++
              (zeros (entry.2.length * 8 + (postingsBlob rest).length) ++ after)))))) := by
        have wrote := @Fault.patch_zeros (front ++ record keyCursor postCursor entry ++
          (zeros (rest.length * 32) ++ keysDone)) (keyBytes entry)
          (postsDone ++ (zeros (entry.2.length * 8 + (postingsBlob rest).length) ++ after))
          keyCursor ((keyBytes entry).length + (keyBlob rest).length + pad) ?_ (by omega) (by omega)
        · have first : (rest.length + 1) * 32 - 32 = rest.length * 32 := by omega
          have second : (keyBytes entry).length + (keyBlob rest).length + pad -
              (keyBytes entry).length = (keyBlob rest).length + pad := by omega
          rw [second] at wrote
          rw [first]
          simpa only [List.append_assoc] using wrote
        · simp only [List.length_append, List.length_replicate, size]
          omega
      have listed : writeIds (front ++ record keyCursor postCursor entry ++
          (zeros (rest.length * 32) ++ (keysDone ++ keyBytes entry ++
            (zeros ((keyBlob rest).length + pad) ++ (postsDone ++
              (zeros (entry.2.length * 8 + (postingsBlob rest).length) ++ after))))))
          postCursor entry.2 =
        .ok (front ++ record keyCursor postCursor entry ++
          (zeros (rest.length * 32) ++ (keysDone ++ keyBytes entry ++
            (zeros ((keyBlob rest).length + pad) ++ (postsDone ++ entry.2.flatMap (leBytes 8) ++
              (zeros (postingsBlob rest).length ++ after))))),
          postCursor + entry.2.length * 8) := by
        have wrote := @writeIds_eq entry.2 (front ++ record keyCursor postCursor entry ++
          (zeros (rest.length * 32) ++ (keysDone ++ keyBytes entry ++
            (zeros ((keyBlob rest).length + pad) ++ postsDone)))) after
          postCursor (entry.2.length * 8 + (postingsBlob rest).length) ?_ (by omega) (by omega)
        · rw [Nat.add_sub_cancel_left] at wrote
          simpa only [List.append_assoc] using wrote
        · simp only [List.length_append, List.length_replicate, size]
          omega
      have multiple : i * dirEntryLen = i * 32 := rfl
      have width : dirEntryLen = 32 := rfl
      rw [writeEntries, Fault.mul_eq (by omega), Fault.ok_bind, Fault.add_eq (by omega),
        Fault.ok_bind, writeRecord_eq place (by omega) (by omega), Fault.ok_bind, width, keyed,
        Fault.ok_bind, Fault.add_eq (by omega), Fault.ok_bind, listed, Fault.ok_bind]
      dsimp only
      rw [ih]
      · simp only [directory, keyBlob, postingsBlob, List.flatMap_cons, List.append_assoc]
      · rw [List.length_append, size, place]
        omega
      · rw [List.length_append, List.length_append, size]
        omega
      · rw [List.length_append, length_ids]
        omega
      · omega

section

variable (format : DefinitionFormat) (index : BTreeIndex)

/-- Where the definition ends. -/
def defEnd : Nat :=
  headerLen + (format.toVec index.definition).length

/-- Where the keys begin. -/
def keyBlobOff : Nat :=
  aligned (defEnd format index) + index.entries.entries.length * dirEntryLen

/-- Where the keys end. -/
def keysEnd : Nat :=
  keyBlobOff format index + (keyBlob index.entries.entries).length

/-- The size of the binary form of an index. -/
def totalLen : Nat :=
  aligned (keysEnd format index) + (postingsBlob index.entries.entries).length

/-- The header, the definition and the zeros up to the directory. -/
def preamble : List UInt8 :=
  magic ++ leBytes 8 index.snapshotSequence ++ leBytes 8 index.entries.entries.length ++
    leBytes 8 (format.toVec index.definition).length ++ format.toVec index.definition ++
      zeros (aligned (defEnd format index) - defEnd format index)

/-- The binary form of an index. -/
def image : List UInt8 :=
  preamble format index ++
    (directory (keyBlobOff format index) (aligned (keysEnd format index)) index.entries.entries ++
      (keyBlob index.entries.entries ++
        (zeros (aligned (keysEnd format index) - keysEnd format index) ++
          postingsBlob index.entries.entries)))

theorem length_preamble : (preamble format index).length = aligned (defEnd format index) := by
  simp only [preamble, List.length_append, length_leBytes, List.length_replicate, defEnd, magic,
    List.length_cons, List.length_nil]
  have := le_aligned (headerLen + (format.toVec index.definition).length)
  unfold headerLen at *
  omega

theorem length_directory (keyOff postOff : Nat) (entries : List Entry) :
    (directory keyOff postOff entries).length = entries.length * dirEntryLen := by
  induction entries generalizing keyOff postOff with
  | nil => rw [directory, List.length_nil, List.length_nil, Nat.zero_mul]
  | cons entry rest ih =>
      rw [directory, List.length_append, length_record, ih, List.length_cons, Nat.succ_mul,
        Nat.add_comm]

theorem length_image : (image format index).length = totalLen format index := by
  have keys := le_aligned (keysEnd format index)
  have ends : keysEnd format index =
      keyBlobOff format index + (keyBlob index.entries.entries).length := rfl
  have begins : keyBlobOff format index =
      aligned (defEnd format index) + index.entries.entries.length * dirEntryLen := rfl
  simp only [image, List.length_append, length_preamble, length_directory, List.length_replicate]
  rw [totalLen]
  omega

variable {format index}

theorem sum_keyLengths (entries : List Entry) :
    (entries.map fun entry => (keyBytes entry).length).sum = (keyBlob entries).length := by
  rw [keyBlob, List.length_flatMap]

theorem sum_idCounts (entries : List Entry) :
    (entries.map idCount).sum * 8 = (postingsBlob entries).length := by
  induction entries with
  | nil => rfl
  | cons entry rest ih =>
      rw [List.map_cons, List.sum_cons, Nat.add_mul, ih, length_postingsBlob_cons]
      rfl

/-- The entries are written behind the preamble. -/
theorem writeEntries_preamble (room : totalLen format index < 2 ^ 63) :
    writeEntries (aligned (defEnd format index)) 0 (keyBlobOff format index)
        (aligned (keysEnd format index))
        (preamble format index ++ zeros (totalLen format index - aligned (defEnd format index)))
        index.entries.entries =
      .ok (image format index) := by
  have head := length_preamble format index
  have keys := le_aligned (keysEnd format index)
  have ends : keysEnd format index =
      keyBlobOff format index + (keyBlob index.entries.entries).length := rfl
  have begins : keyBlobOff format index =
      aligned (defEnd format index) + index.entries.entries.length * dirEntryLen := rfl
  have whole : totalLen format index =
      aligned (keysEnd format index) + (postingsBlob index.entries.entries).length := rfl
  have wrote := @writeEntries_eq (aligned (defEnd format index))
    (aligned (keysEnd format index) - keysEnd format index) index.entries.entries
    (preamble format index) [] [] [] 0 (keyBlobOff format index) (aligned (keysEnd format index))
    (by rw [head, Nat.zero_mul, Nat.add_zero]) (by rw [head, begins]; rfl)
    (by rw [List.length_nil]; omega) (by omega)
  have rest : totalLen format index - aligned (defEnd format index) =
      index.entries.entries.length * dirEntryLen + ((keyBlob index.entries.entries).length +
        (aligned (keysEnd format index) - keysEnd format index) +
          (postingsBlob index.entries.entries).length) := by
    omega
  rw [rest, zeros, ← List.replicate_append_replicate, ← List.replicate_append_replicate]
  simpa only [List.nil_append, List.append_nil, image] using wrote

/-- An index that fits into memory is serialized. -/
theorem serialize_eq (room : totalLen format index < 2 ^ 63) :
    ∃ buffer, serialize format index = .ok buffer ∧ buffer.bytes = image format index := by
  have blob := sum_keyLengths index.entries.entries
  have counts := sum_idCounts index.entries.entries
  have written := writeEntries_preamble room
  have size := length_image format index
  have head := le_aligned (defEnd format index)
  have keys := le_aligned (keysEnd format index)
  have defined : defEnd format index = headerLen + (format.toVec index.definition).length := rfl
  have begins : keyBlobOff format index =
      aligned (defEnd format index) + index.entries.entries.length * dirEntryLen := rfl
  have ends : keysEnd format index =
      keyBlobOff format index + (keyBlob index.entries.entries).length := rfl
  have whole : totalLen format index =
      aligned (keysEnd format index) + (postingsBlob index.entries.entries).length := rfl
  have preface : magic ++ leBytes 8 index.snapshotSequence ++
      leBytes 8 index.entries.entries.length ++ leBytes 8 (format.toVec index.definition).length ++
      format.toVec index.definition ++ zeros (totalLen format index - defEnd format index) =
        preamble format index ++
          zeros (totalLen format index - aligned (defEnd format index)) := by
    have parts : totalLen format index - defEnd format index =
        (aligned (defEnd format index) - defEnd format index) +
          (totalLen format index - aligned (defEnd format index)) := by
      omega
    rw [parts, zeros, ← List.replicate_append_replicate, preamble]
    simp only [List.append_assoc]
  rw [serialize, Fault.add_eq (by omega), Fault.ok_bind, ← defined, align8_eq (by omega),
    Fault.ok_bind, Fault.mul_eq (by omega), Fault.ok_bind, Fault.add_eq (by omega),
    Fault.ok_bind, Fault.sum_eq (by omega), Fault.ok_bind, blob, ← begins,
    Fault.add_eq (by omega), Fault.ok_bind, ← ends, align8_eq (by omega), Fault.ok_bind,
    Fault.sum_eq (by omega), Fault.ok_bind, Fault.mul_eq (by omega), Fault.ok_bind, counts,
    Fault.add_eq (by omega), Fault.ok_bind, ← whole, Fault.allocate_eq (by omega),
    Fault.ok_bind, writeHeader_eq (by omega) (by omega), Fault.ok_bind, ← defined, preface,
    written, Fault.ok_bind]
  refine ⟨⟨image format index, ?_⟩, dif_pos ?_, rfl⟩
  · rw [size]
    exact room
  · rw [size]
    exact room

end

/-! ## Reading an index back -/

theorem u64At_eq {bytes : List UInt8} {off value : Nat} (small : bytes.length < 2 ^ 63)
    (lies : LiesAt bytes off (leBytes 8 value)) (fits : value < 2 ^ 64) :
    u64At bytes off = some value := by
  have inside := lies.le
  rw [length_leBytes] at inside
  have read : leValue ((bytes.drop off).take (off + 8 - off)) = value := by
    rw [Nat.add_sub_cancel_left]
    exact lies.field.trans (Nat.mod_eq_of_lt fits)
  rw [u64At, checkedAdd_eq_some_iff.mpr ⟨by omega, rfl⟩, Option.bind_eq_bind, Option.bind_some,
    getRange_eq_some_iff.mpr ⟨⟨by omega, inside⟩, rfl⟩, Option.bind_eq_bind, Option.bind_some,
    read]
  rfl

theorem getRange_eq {bytes data : List UInt8} {off : Nat} (lies : LiesAt bytes off data) :
    getRange bytes off (off + data.length) = some data := by
  have inside := lies.le
  apply getRange_eq_some_iff.mpr
  refine ⟨⟨by omega, inside⟩, ?_⟩
  rw [Nat.add_sub_cancel_left]
  exact lies.take_drop

theorem keyBlob_append (before after : List Entry) :
    keyBlob (before ++ after) = keyBlob before ++ keyBlob after :=
  List.flatMap_append

theorem postingsBlob_append (before after : List Entry) :
    postingsBlob (before ++ after) = postingsBlob before ++ postingsBlob after :=
  List.flatMap_append

theorem directory_append (keyOff postOff : Nat) (before after : List Entry) :
    directory keyOff postOff (before ++ after) = directory keyOff postOff before ++
      directory (keyOff + (keyBlob before).length) (postOff + (postingsBlob before).length)
        after := by
  induction before generalizing keyOff postOff with
  | nil => rfl
  | cons entry before ih =>
      rw [List.cons_append, directory, directory, ih, length_keyBlob_cons,
        length_postingsBlob_cons, List.append_assoc, Nat.add_assoc, Nat.add_assoc]

section

variable {format : DefinitionFormat} {index : BTreeIndex}

theorem liesAt_directory : LiesAt (image format index) (aligned (defEnd format index))
    (directory (keyBlobOff format index) (aligned (keysEnd format index))
      index.entries.entries) := by
  have lies := (LiesAt.refl (image format index)).right.left
  rwa [length_preamble, Nat.zero_add] at lies

theorem liesAt_keyBlob : LiesAt (image format index) (keyBlobOff format index)
    (keyBlob index.entries.entries) := by
  have lies := (LiesAt.refl (image format index)).right.right.left
  rwa [length_preamble, Nat.zero_add, length_directory] at lies

theorem liesAt_postingsBlob : LiesAt (image format index) (aligned (keysEnd format index))
    (postingsBlob index.entries.entries) := by
  have lies := (LiesAt.refl (image format index)).right.right.right.right
  have keys := le_aligned (keysEnd format index)
  have place : 0 + (preamble format index).length + (directory (keyBlobOff format index)
      (aligned (keysEnd format index)) index.entries.entries).length +
      (keyBlob index.entries.entries).length +
      (zeros (aligned (keysEnd format index) - keysEnd format index)).length =
        aligned (keysEnd format index) := by
    rw [length_preamble, length_directory, List.length_replicate]
    unfold keysEnd keyBlobOff at *
    omega
  rwa [place] at lies

/-- What the header of an index says. -/
def refOf (format : DefinitionFormat) (index : BTreeIndex) : BinaryIndexRef where
  bytes := image format index
  keyCount := index.entries.entries.length
  snapshotSequence := index.snapshotSequence
  dirOff := aligned (defEnd format index)
  definition := index.definition

theorem parse_image {buffer : Buffer} (bytes : buffer.bytes = image format index) :
    parse format buffer = .ok (some (refOf format index)) := by
  have small := buffer.length_lt
  rw [bytes] at small
  have head := le_aligned (defEnd format index)
  have directory_inside := (@liesAt_directory format index).le
  rw [length_directory] at directory_inside
  have defined : defEnd format index = headerLen + (format.toVec index.definition).length := rfl
  have lies := (LiesAt.refl (image format index)).left.left
  have magic_lies := lies.left.left.left.left
  have sequence_lies := lies.left.left.left.right
  have count_lies := lies.left.left.right
  have length_lies := lies.left.right
  have definition_lies := lies.right
  simp only [List.length_append, length_leBytes, magic, List.length_cons, List.length_nil]
    at sequence_lies count_lies length_lies definition_lies
  have sequence := u64At_eq small sequence_lies index.snapshotSequence_lt
  have count := u64At_eq small count_lies (by unfold dirEntryLen at directory_inside; omega)
  have length := u64At_eq small length_lies (by omega)
  have definition := getRange_eq definition_lies
  have fits : aligned (headerLen + (format.toVec index.definition).length) +
      index.entries.entries.length * dirEntryLen < 2 ^ 64 :=
    directory_inside.trans_lt (small.trans (by decide))
  have magic_read : ((image format index).drop 0).take (8 - 0) = magic := magic_lies.take_drop
  unfold headerLen at defined
  rw [parse, bytes, if_neg (by unfold headerLen; omega), Fault.slice_eq (by omega) (by omega),
    Fault.ok_bind, magic_read, if_neg (not_not_intro rfl), sequence]
  dsimp only
  rw [count]
  dsimp only
  rw [length]
  dsimp only
  rw [checkedAdd_eq_some_iff.mpr ⟨by unfold headerLen; omega, rfl⟩]
  dsimp only
  rw [definition]
  dsimp only
  rw [format.fromSlice_toVec]
  dsimp only
  rw [align8_eq (by unfold headerLen; omega), Fault.ok_bind,
    checkedMul_eq_some_iff.mpr ⟨by unfold dirEntryLen at *; omega, rfl⟩]
  dsimp only
  rw [checkedAdd_eq_some_iff.mpr ⟨fits, rfl⟩]
  dsimp only
  rw [if_neg]
  · rfl
  · exact Nat.not_lt.mpr directory_inside

/-- The entries before an index. -/
abbrev before (index : BTreeIndex) (i : Nat) : List Entry :=
  index.entries.entries.take i

section

variable {i : Nat} (inside : i < index.entries.entries.length)

include inside

theorem entries_split : index.entries.entries =
    before index i ++ (index.entries.entries[i] :: index.entries.entries.drop (i + 1)) := by
  rw [List.getElem_cons_drop, List.take_append_drop]

theorem liesAt_record : LiesAt (image format index)
    (aligned (defEnd format index) + i * dirEntryLen)
    (record (keyBlobOff format index + (keyBlob (before index i)).length)
      (aligned (keysEnd format index) + (postingsBlob (before index i)).length)
      index.entries.entries[i]) := by
  have lies := @liesAt_directory format index
  rw [entries_split inside] at lies
  rw [directory_append, directory] at lies
  have found := lies.right.left
  rwa [length_directory, List.length_take, Nat.min_eq_left inside.le] at found

theorem liesAt_key : LiesAt (image format index)
    (keyBlobOff format index + (keyBlob (before index i)).length)
    (keyBytes index.entries.entries[i]) := by
  have lies := @liesAt_keyBlob format index
  rw [entries_split inside] at lies
  rw [keyBlob_append, keyBlob, keyBlob, List.flatMap_cons] at lies
  exact lies.right.left

theorem liesAt_ids : LiesAt (image format index)
    (aligned (keysEnd format index) + (postingsBlob (before index i)).length)
    (index.entries.entries[i].2.flatMap (leBytes 8)) := by
  have lies := @liesAt_postingsBlob format index
  rw [entries_split inside] at lies
  rw [postingsBlob_append, postingsBlob, postingsBlob, List.flatMap_cons] at lies
  exact lies.right.left


variable (small : totalLen format index < 2 ^ 63)

include small

theorem fields_small :
    keyBlobOff format index + (keyBlob (before index i)).length < 2 ^ 64 ∧
      (keyBytes index.entries.entries[i]).length < 2 ^ 64 ∧
      aligned (keysEnd format index) + (postingsBlob (before index i)).length < 2 ^ 64 ∧
      index.entries.entries[i].2.length * 8 < 2 ^ 63 := by
  have key := (@liesAt_key format index i inside).le
  have ids := (@liesAt_ids format index i inside).le
  rw [length_image] at key ids
  rw [length_ids] at ids
  omega

theorem readKey_image :
    readKey (image format index) (keyBlobOff format index + (keyBlob (before index i)).length)
        (keyBytes index.entries.entries[i]).length = some index.entries.entries[i].1 := by
  have lies := @liesAt_key format index i inside
  have ends := lies.le
  rw [length_image] at ends
  rw [readKey, checkedAdd_eq_some_iff.mpr ⟨by omega, rfl⟩, Option.bind_eq_bind, Option.bind_some,
    getRange_eq lies, Option.bind_eq_bind, Option.bind_some, keyBytes, Json.utf8Decode_utf8,
    Option.bind_eq_bind, Option.bind_some, String.ofList_toList]
  rfl

theorem readPostings_image :
    readPostings (image format index)
        (aligned (keysEnd format index) + (postingsBlob (before index i)).length)
        index.entries.entries[i].2.length =
      some (index.entries.entries[i].2.flatMap (leBytes 8)) := by
  have lies := @liesAt_ids format index i inside
  have ends := lies.le
  have range := getRange_eq lies
  rw [length_ids] at ends range
  rw [length_image] at ends
  rw [readPostings, checkedMul_eq_some_iff.mpr ⟨by omega, rfl⟩, Option.bind_eq_bind,
    Option.bind_some, checkedAdd_eq_some_iff.mpr ⟨by omega, rfl⟩, Option.bind_some, range]

theorem keyAt_image :
    (refOf format index).keyAt i = .ok (some index.entries.entries[i].1) := by
  have bytes_small : (image format index).length < 2 ^ 63 := by
    rw [length_image]
    exact small
  have lies := @liesAt_record format index i inside
  have room := lies.le
  obtain ⟨keySmall, lenSmall, -⟩ := @fields_small format index i inside small
  have first := u64At_eq bytes_small lies.left.left.left keySmall
  have second := u64At_eq bytes_small lies.left.left.right lenSmall
  rw [length_leBytes] at second
  rw [length_record] at room
  unfold dirEntryLen at *
  rw [BinaryIndexRef.keyAt, Fault.mul_eq (by unfold dirEntryLen; omega), Fault.ok_bind]
  dsimp only [refOf]
  rw [Fault.add_eq (by unfold dirEntryLen; omega), Fault.ok_bind, first]
  dsimp only
  rw [Fault.add_eq (by unfold dirEntryLen; omega), Fault.ok_bind, second]
  dsimp only
  rw [readKey_image inside small]
  rfl


theorem entry_image :
    (refOf format index).entry i =
      .ok (some (index.entries.entries[i].1, index.entries.entries[i].2)) := by
  have bytes_small : (image format index).length < 2 ^ 63 := by
    rw [length_image]
    exact small
  have lies := @liesAt_record format index i inside
  have room := lies.le
  obtain ⟨keySmall, lenSmall, idsSmall, countSmall⟩ := @fields_small format index i inside small
  have first := u64At_eq bytes_small lies.left.left.left keySmall
  have second := u64At_eq bytes_small lies.left.left.right lenSmall
  have third := u64At_eq bytes_small lies.left.right idsSmall
  have fourth := u64At_eq bytes_small lies.right (by omega)
  have ids : (chunksExact 8 (index.entries.entries[i].2.flatMap (leBytes 8))).map leValue =
      index.entries.entries[i].2 := by
    rw [chunksExact_flatMap (by decide) (length_leBytes 8), List.map_map]
    have same : ∀ id ∈ index.entries.entries[i].2, (leValue ∘ leBytes 8) id = id := by
      intro id member
      have fits := index.rowId_lt _ (List.getElem_mem inside) id member
      exact (leValue_leBytes 8 id).trans (Nat.mod_eq_of_lt fits)
    exact (List.map_congr_left same).trans (List.map_id' _)
  simp only [List.length_append, length_leBytes] at second third fourth
  rw [length_record] at room
  unfold dirEntryLen at *
  rw [BinaryIndexRef.entry, Fault.mul_eq (by unfold dirEntryLen; omega), Fault.ok_bind]
  dsimp only [refOf]
  rw [Fault.add_eq (by unfold dirEntryLen; omega), Fault.ok_bind, first]
  dsimp only
  rw [Fault.add_eq (by unfold dirEntryLen; omega), Fault.ok_bind, second]
  dsimp only
  rw [Fault.add_eq (by unfold dirEntryLen; omega), Fault.ok_bind, third]
  dsimp only
  rw [Fault.add_eq (by unfold dirEntryLen; omega), Fault.ok_bind, fourth]
  dsimp only
  rw [readKey_image inside small, readPostings_image inside small]
  dsimp only
  rw [length_ids, Nat.mul_div_cancel _ (by decide), Fault.allocate_eq countSmall, Fault.ok_bind,
    ids]
  rfl


end

/-- How a value compares with the key of an entry. -/
def order (index : BTreeIndex) (value : String) (i : Nat) : Ordering :=
  match index.entries.entries[i]? with
  | some entry => compareKeys value entry.1
  | none => .lt

theorem order_eq (value : String) {i : Nat} (inside : i < index.entries.entries.length) :
    order index value i = compareKeys value index.entries.entries[i].1 := by
  rw [order, List.getElem?_eq_getElem inside]

/-- The search in the bytes is the search over the entries. -/
theorem search_image (small : totalLen format index < 2 ^ 63) (value : String) {lo hi : Nat}
    (inside : hi ≤ index.entries.entries.length) :
    (refOf format index).search value lo hi = .ok (some
      (match locate (order index value) lo hi with
        | some i => (index.entries.entries[i]?.map fun entry => entry.2).getD []
        | none => [])) := by
  fun_induction locate (order index value) lo hi with
  | case1 lo hi nonempty equal =>
      have below := (middle_lt_of_lt nonempty).trans_le inside
      rw [order_eq value below] at equal
      rw [BinaryIndexRef.search, if_pos nonempty, keyAt_image below small, Fault.ok_bind]
      dsimp only
      rw [equal]
      dsimp only
      rw [entry_image below small, Fault.ok_bind, List.getElem?_eq_getElem below]
      rfl
  | case2 lo hi nonempty less ih =>
      have below := (middle_lt_of_lt nonempty).trans_le inside
      rw [order_eq value below] at less
      rw [BinaryIndexRef.search, if_pos nonempty, keyAt_image below small, Fault.ok_bind]
      dsimp only
      rw [less]
      exact ih below.le
  | case3 lo hi nonempty greater ih =>
      have below := (middle_lt_of_lt nonempty).trans_le inside
      rw [order_eq value below] at greater
      rw [BinaryIndexRef.search, if_pos nonempty, keyAt_image below small, Fault.ok_bind]
      dsimp only
      rw [greater]
      exact ih inside
  | case4 lo hi empty => rw [BinaryIndexRef.search, if_neg empty]

end

/-! ## Round trip -/

theorem compareKeys_eq_iff {left right : String} : compareKeys left right = .eq ↔ left = right := by
  constructor
  · intro equal
    have compared : compare (Json.utf8 left.toList) (Json.utf8 right.toList) = .eq := equal
    have bytes := Std.LawfulEqCmp.eq_of_compare compared
    have texts : some left.toList = some right.toList := by
      rw [← Json.utf8Decode_utf8 left.toList, bytes, Json.utf8Decode_utf8]
    exact String.toList_injective (Option.some.inj texts)
  · rintro rfl
    have same : compare (Json.utf8 left.toList) (Json.utf8 left.toList) = .eq :=
      Std.ReflCmp.compare_self
    exact same

theorem compareKeys_gt_of_lt {left right : String} (less : compareKeys left right = .lt) :
    compareKeys right left = .gt := by
  have compared : compare (Json.utf8 left.toList) (Json.utf8 right.toList) = .lt := less
  have reversed : compare (Json.utf8 right.toList) (Json.utf8 left.toList) = .gt :=
    Std.OrientedCmp.gt_iff_lt.mpr compared
  exact reversed

section

variable {format : DefinitionFormat} {index : BTreeIndex}

theorem ascending_getElem {first second : Nat} (before : first < second)
    (inside : second < index.entries.entries.length) :
    compareKeys index.entries.entries[first].1 index.entries.entries[second].1 = .lt :=
  List.pairwise_iff_getElem.mp index.ascending _ _ _ _ before

/-- Over the keys in order, the search finds a value just if it is a key. -/
theorem lookup_eq (index : BTreeIndex) (value : String) :
    index.lookup value =
      match locate (order index value) 0 index.entries.entries.length with
      | some i => (index.entries.entries[i]?.map fun entry => entry.2).getD []
      | none => [] := by
  by_cases present : ∃ i, ∃ inside : i < index.entries.entries.length,
      index.entries.entries[i].1 = value
  · obtain ⟨i, inside, rfl⟩ := present
    have found : locate (order index index.entries.entries[i].1) 0
        index.entries.entries.length = some i := by
      apply locate_eq_some (Nat.zero_le i) inside
      · rw [order_eq _ inside]
        exact compareKeys_eq_iff.mpr rfl
      · intro other smaller
        rw [order_eq _ (smaller.trans inside)]
        exact compareKeys_gt_of_lt (ascending_getElem smaller inside)
      · intro other larger below
        rw [order_eq _ below]
        exact ascending_getElem larger below
    have listed : index.entries.lookup index.entries.entries[i].1 =
        some index.entries.entries[i].2 :=
      (List.mem_dlookup_iff index.entries.nodupKeys).mpr (List.getElem_mem inside)
    rw [found, BTreeIndex.lookup, postings, listed]
    dsimp only
    rw [List.getElem?_eq_getElem inside]
    rfl
  · have missing : locate (order index value) 0 index.entries.entries.length = none := by
      by_contra found
      obtain ⟨i, found⟩ := Option.ne_none_iff_exists'.mp found
      obtain ⟨inside, equal⟩ := eq_of_locate found
      rw [order_eq _ inside] at equal
      exact present ⟨i, inside, (compareKeys_eq_iff.mp equal).symm⟩
    have unlisted : index.entries.lookup value = none := by
      apply List.dlookup_eq_none.mpr
      intro member
      obtain ⟨ids, listed⟩ := List.mem_keys.mp member
      obtain ⟨i, inside, same⟩ := List.getElem_of_mem listed
      exact present ⟨i, inside, congrArg Sigma.fst same⟩
    rw [missing, BTreeIndex.lookup, postings, unlisted]
    rfl

theorem lookupChecked_image (room : totalLen format index < 2 ^ 63) (value : String) :
    (refOf format index).lookupChecked value = .ok (some (index.lookup value)) := by
  rw [lookup_eq, BinaryIndexRef.lookupChecked]
  exact search_image room value le_rfl

/-- An index that fits into memory is read back from its serialization, with the row ids of all
values.  Whatever the bytes, parsing them and looking values up has an outcome. -/
theorem lookupChecked_serialize (format : DefinitionFormat) :
    (∀ index : BTreeIndex, totalLen format index < 2 ^ 63 →
      ∃ buffer ref, serialize format index = .ok buffer ∧ parse format buffer = .ok (some ref) ∧
        ∀ value, ref.lookupChecked value = .ok (some (index.lookup value))) ∧
      ∀ buffer : Buffer, ∃ parsed, parse format buffer = .ok parsed ∧
        ∀ ref ∈ parsed, ∀ value, ∃ found, ref.lookupChecked value = .ok found := by
  constructor
  · intro index room
    obtain ⟨buffer, serialized, bytes⟩ := serialize_eq room
    exact ⟨buffer, refOf format index, serialized, parse_image bytes, lookupChecked_image room⟩
  · intro buffer
    obtain ⟨parsed, result, bounded⟩ := parse_bounded format buffer
    refine ⟨parsed, result, fun ref member value => ?_⟩
    exact BinaryIndexRef.search_isOk (bounded ref member) value le_rfl

end

/-! ## Snapshots -/

/-! ### A small index -/

/-- Flags as JSON. -/
def flagCodec : Json.Codec Bool where
  encode := .bool
  decode
    | .bool value => some value
    | _ => none
  decode_encode _ := rfl
  encode_ne_null _ := nofun

/-- Definitions as JSON records. -/
def definitionCodec : Json.Codec IndexDefinition where
  encode definition := Json.record
    [("name", some (Json.Codec.string.encode definition.name)),
     ("table", some (Json.Codec.string.encode definition.table)),
     ("column", some (Json.Codec.string.encode definition.column)),
     ("unique", some (flagCodec.encode definition.unique))]
  decode document := do
    let name ← Json.requiredField Json.Codec.string "name" document
    let table ← Json.requiredField Json.Codec.string "table" document
    let column ← Json.requiredField Json.Codec.string "column" document
    let unique ← Json.defaultedField flagCodec false "unique" document
    some { name, table, column, unique }
  decode_encode definition := by
    simp [Json.requiredField, Json.defaultedField, Json.field_record, List.lookup,
      Json.readDefaulted]
  encode_ne_null _ := nofun

/-- The text form of definitions as JSON. -/
def definitionJson : DefinitionFormat where
  toVec definition := Json.toBytes (definitionCodec.encode definition)
  fromSlice bytes := (Json.ofBytes bytes).bind definitionCodec.decode
  fromSlice_toVec definition := by
    rw [Json.ofBytes_toBytes, Option.bind_some, definitionCodec.decode_encode]

/-- Two keys, one of them with two row ids. -/
def colors : BTreeIndex where
  definition := { name := "idx", table := "t", column := "c", unique := false }
  snapshotSequence := 17
  entries := ⟨[⟨"blue", [1, 7]⟩, ⟨"red", [2]⟩], by simp [List.NodupKeys]⟩
  snapshotSequence_lt := by decide
  rowId_lt := by decide
  ascending := by decide

theorem lookupChecked_serialize_colors : ∃ buffer ref,
    serialize definitionJson colors = .ok buffer ∧
      parse definitionJson buffer = .ok (some ref) ∧
        ref.lookupChecked "blue" = .ok (some [1, 7]) := by
  obtain ⟨buffer, ref, serialized, parsed, found⟩ :=
    (lookupChecked_serialize definitionJson).1 colors (by decide +kernel)
  exact ⟨buffer, ref, serialized, parsed, found "blue"⟩

end BinaryIndex

end IcefallDB
