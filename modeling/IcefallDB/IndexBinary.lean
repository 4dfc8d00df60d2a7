import IcefallDB.IndexDelta
import IcefallDB.Lib.BinarySearch
import IcefallDB.Lib.Buffers

/-!
# Binary secondary indexes

The binary form of an index is a header, the definition of the index, a directory with one entry for
each key, the keys, and the row ids of all keys.  A lookup searches the directory in the bytes, and
whatever the bytes are, it finds row ids or nothing.
-/

namespace IcefallDB

/-- What an index is about. -/
structure IndexDefinition where
  name : String
  table : String
  column : String
  unique : Bool

/-- A text form of definitions. -/
structure DefinitionFormat where
  toVec : IndexDefinition → List UInt8
  fromSlice : List UInt8 → Option IndexDefinition
  fromSlice_toVec : ∀ definition, fromSlice (toVec definition) = some definition

/-- The order of keys is that of their bytes. -/
def compareKeys (left right : String) : Ordering :=
  compare (Json.utf8 left.toList) (Json.utf8 right.toList)

/-- The row ids of each value, by ascending value. -/
structure BTreeIndex where
  definition : IndexDefinition
  snapshotSequence : Nat
  entries : HashMap String (List Nat)
  snapshotSequence_lt : snapshotSequence < 2 ^ 64
  rowId_lt : ∀ entry ∈ entries.entries, ∀ rowId ∈ entry.2, rowId < 2 ^ 64
  ascending : entries.entries.Pairwise fun left right => compareKeys left.1 right.1 = .lt

/-- The row ids of a value. -/
def BTreeIndex.lookup (index : BTreeIndex) (value : String) : List Nat :=
  postings index.entries value

namespace BinaryIndex

open BinarySearch

/-! ## Layout -/

/-- `BLZIDX01`. -/
def magic : List UInt8 :=
  [0x42, 0x4c, 0x5a, 0x49, 0x44, 0x58, 0x30, 0x31]

/-- Bytes of the header. -/
abbrev headerLen : Nat := 32

/-- Bytes of an entry of the directory. -/
abbrev dirEntryLen : Nat := 32

/-- The next multiple of eight. -/
def align8 (n : Nat) : Except Fault Nat := do
  let raised ← Fault.add 64 n 7
  pure (raised / 8 * 8)

/-- A key with its row ids. -/
abbrev Entry : Type :=
  Sigma fun _ : String => List Nat

/-- The bytes of a key. -/
def keyBytes (entry : Entry) : List UInt8 :=
  Json.utf8 entry.1.toList

/-- The number of row ids of a key. -/
def idCount (entry : Entry) : Nat :=
  entry.2.length

/-! ## Serializing -/

/-- Write the header and the definition. -/
def writeHeader (buf : List UInt8) (snapshotSequence keyCount : Nat) (defJson : List UInt8) :
    Except Fault (List UInt8) := do
  let buf ← Fault.patch buf 0 magic
  let buf ← Fault.patch buf 8 (leBytes 8 snapshotSequence)
  let buf ← Fault.patch buf 16 (leBytes 8 keyCount)
  let buf ← Fault.patch buf 24 (leBytes 8 defJson.length)
  Fault.patch buf headerLen defJson

/-- Write an entry of the directory. -/
def writeRecord (buf : List UInt8) (dir keyOff keyLen postOff postCount : Nat) :
    Except Fault (List UInt8) := do
  let buf ← Fault.patch buf dir (leBytes 8 keyOff)
  let buf ← Fault.patch buf (dir + 8) (leBytes 8 keyLen)
  let buf ← Fault.patch buf (dir + 16) (leBytes 8 postOff)
  Fault.patch buf (dir + 24) (leBytes 8 postCount)

/-- Write row ids, and return where they end. -/
def writeIds (buf : List UInt8) (postCursor : Nat) : List Nat → Except Fault (List UInt8 × Nat)
  | [] => .ok (buf, postCursor)
  | id :: ids => do
      let buf ← Fault.patch buf postCursor (leBytes 8 id)
      let postCursor ← Fault.add 64 postCursor 8
      writeIds buf postCursor ids

/-- Write entries of the directory with their keys and row ids. -/
def writeEntries (dirOff i keyCursor postCursor : Nat) (buf : List UInt8) :
    List Entry → Except Fault (List UInt8)
  | [] => .ok buf
  | entry :: rest => do
      let skipped ← Fault.mul 64 i dirEntryLen
      let dir ← Fault.add 64 dirOff skipped
      let buf ← writeRecord buf dir keyCursor (keyBytes entry).length postCursor entry.2.length
      let buf ← Fault.patch buf keyCursor (keyBytes entry)
      let keyCursor ← Fault.add 64 keyCursor (keyBytes entry).length
      let (buf, postCursor) ← writeIds buf postCursor entry.2
      writeEntries dirOff (i + 1) keyCursor postCursor buf rest

/-- The binary form of an index, unless it is too large for memory. -/
def serialize (format : DefinitionFormat) (index : BTreeIndex) : Except Fault Buffer := do
  let entries := index.entries.entries
  let keyCount := entries.length
  let defJson := format.toVec index.definition
  let defEnd ← Fault.add 64 headerLen defJson.length
  let dirOff ← align8 defEnd
  let dirLen ← Fault.mul 64 keyCount dirEntryLen
  let keyBlobOff ← Fault.add 64 dirOff dirLen
  let keyBlobLen ← Fault.sum 64 (entries.map fun entry => (keyBytes entry).length)
  let keysEnd ← Fault.add 64 keyBlobOff keyBlobLen
  let postingsOff ← align8 keysEnd
  let totalPostings ← Fault.sum 64 (entries.map idCount)
  let postingsLen ← Fault.mul 64 totalPostings 8
  let totalLen ← Fault.add 64 postingsOff postingsLen
  Fault.allocate totalLen 1
  let buf ← writeHeader (List.replicate totalLen 0) index.snapshotSequence keyCount defJson
  let buf ← writeEntries dirOff 0 keyBlobOff postingsOff buf entries
  Buffer.ofBytes buf

/-! ## Parsing -/

/-- The sum of offsets, if there is one. -/
def checkedAdd (left right : Nat) : Option Nat :=
  if left + right < 2 ^ 64 then some (left + right) else none

/-- The product of sizes, if there is one. -/
def checkedMul (left right : Nat) : Option Nat :=
  if left * right < 2 ^ 64 then some (left * right) else none

/-- The bytes from one offset up to another, if they are there. -/
def getRange (bytes : List UInt8) (start stop : Nat) : Option (List UInt8) :=
  if start ≤ stop ∧ stop ≤ bytes.length then some ((bytes.drop start).take (stop - start))
  else none

/-- The number at an offset, if it is there. -/
def u64At (bytes : List UInt8) (off : Nat) : Option Nat := do
  let stop ← checkedAdd off 8
  let slice ← getRange bytes off stop
  pure (leValue slice)

/-- Bytes of an index with what their header says. -/
structure BinaryIndexRef where
  bytes : List UInt8
  keyCount : Nat
  snapshotSequence : Nat
  dirOff : Nat
  definition : IndexDefinition

/-- Read the header, if all of the directory is there. -/
def parse (format : DefinitionFormat) (buffer : Buffer) :
    Except Fault (Option BinaryIndexRef) := do
  let bytes := buffer.bytes
  if bytes.length < headerLen then
    return none
  let start ← Fault.slice bytes 0 8
  if start ≠ magic then
    return none
  let some snapshotSequence := u64At bytes 8 | return none
  let some keyCount := u64At bytes 16 | return none
  let some defLen := u64At bytes 24 | return none
  let some defEnd := checkedAdd headerLen defLen | return none
  let some defBytes := getRange bytes headerLen defEnd | return none
  let some definition := format.fromSlice defBytes | return none
  let dirOff ← align8 defEnd
  let some dirLen := checkedMul keyCount dirEntryLen | return none
  let some dirEnd := checkedAdd dirOff dirLen | return none
  if bytes.length < dirEnd then
    return none
  return some { bytes, keyCount, snapshotSequence, dirOff, definition }

/-- The key at an offset, if it is there. -/
def readKey (bytes : List UInt8) (keyOff keyLen : Nat) : Option String := do
  let stop ← checkedAdd keyOff keyLen
  let slice ← getRange bytes keyOff stop
  let text ← Json.utf8Decode slice
  pure (String.ofList text)

/-- The bytes of row ids at an offset, if they are there. -/
def readPostings (bytes : List UInt8) (postOff postCount : Nat) : Option (List UInt8) := do
  let size ← checkedMul postCount 8
  let stop ← checkedAdd postOff size
  getRange bytes postOff stop

namespace BinaryIndexRef

variable (ref : BinaryIndexRef)

/-- The key of an entry of the directory. -/
def keyAt (i : Nat) : Except Fault (Option String) := do
  let skipped ← Fault.mul 64 i dirEntryLen
  let dir ← Fault.add 64 ref.dirOff skipped
  let some keyOff := u64At ref.bytes dir | return none
  let second ← Fault.add 64 dir 8
  let some keyLen := u64At ref.bytes second | return none
  return readKey ref.bytes keyOff keyLen

/-- The key of an entry of the directory with its row ids. -/
def entry (i : Nat) : Except Fault (Option (String × List Nat)) := do
  let skipped ← Fault.mul 64 i dirEntryLen
  let dir ← Fault.add 64 ref.dirOff skipped
  let some keyOff := u64At ref.bytes dir | return none
  let second ← Fault.add 64 dir 8
  let some keyLen := u64At ref.bytes second | return none
  let third ← Fault.add 64 dir 16
  let some postOff := u64At ref.bytes third | return none
  let fourth ← Fault.add 64 dir 24
  let some postCount := u64At ref.bytes fourth | return none
  let some key := readKey ref.bytes keyOff keyLen | return none
  let some postBytes := readPostings ref.bytes postOff postCount | return none
  Fault.allocate (postBytes.length / 8) 8
  return some (key, (chunksExact 8 postBytes).map leValue)

/-- The row ids of a value according to an interval of the directory. -/
def search (value : String) (lo hi : Nat) : Except Fault (Option (List Nat)) :=
  if lo < hi then do
    match ← ref.keyAt (middle lo hi) with
    | none => return none
    | some key =>
        match compareKeys value key with
        | .eq =>
            let found ← ref.entry (middle lo hi)
            return found.map Prod.snd
        | .lt => search value lo (middle lo hi)
        | .gt => search value (middle lo hi + 1) hi
  else .ok (some [])
termination_by hi - lo
decreasing_by
  · have := middle_lt_of_lt ‹_›
    have := le_middle lo hi
    omega
  · have := le_middle lo hi
    omega

/-- The row ids of a value. -/
def lookupChecked (value : String) : Except Fault (Option (List Nat)) :=
  ref.search value 0 ref.keyCount

end BinaryIndexRef

/-! ## Malformed bytes -/

section

variable {format : DefinitionFormat}

/-- The whole directory is inside the bytes. -/
structure BinaryIndexRef.Bounded (ref : BinaryIndexRef) : Prop where
  small : ref.bytes.length < 2 ^ 63
  inside : ref.dirOff + ref.keyCount * dirEntryLen ≤ ref.bytes.length

/-- The next multiple of eight, of numbers of any size. -/
def aligned (n : Nat) : Nat :=
  (n + 7) / 8 * 8

theorem le_aligned (n : Nat) : n ≤ aligned n ∧ aligned n ≤ n + 7 := by
  unfold aligned
  omega

theorem align8_eq {n : Nat} (small : n < 2 ^ 63) : align8 n = .ok (aligned n) := by
  rw [align8, Fault.add_eq (by omega)]
  rfl

theorem getRange_eq_some_iff {bytes slice : List UInt8} {start stop : Nat} :
    getRange bytes start stop = some slice ↔
      (start ≤ stop ∧ stop ≤ bytes.length) ∧ (bytes.drop start).take (stop - start) = slice := by
  rw [getRange, Option.ite_none_right_eq_some, Option.some.injEq]

theorem checkedAdd_eq_some_iff {left right sum : Nat} :
    checkedAdd left right = some sum ↔ left + right < 2 ^ 64 ∧ left + right = sum := by
  rw [checkedAdd, Option.ite_none_right_eq_some, Option.some.injEq]

theorem checkedMul_eq_some_iff {left right product : Nat} :
    checkedMul left right = some product ↔ left * right < 2 ^ 64 ∧ left * right = product := by
  rw [checkedMul, Option.ite_none_right_eq_some, Option.some.injEq]

/-- Parsing gives nothing or a directory inside the bytes. -/
theorem parse_bounded (format : DefinitionFormat) (buffer : Buffer) :
    ∃ result, parse format buffer = .ok result ∧ ∀ ref ∈ result, ref.Bounded := by
  have small := buffer.length_lt
  have nothing : ∃ result : Option BinaryIndexRef,
      (Except.ok none : Except Fault _) = .ok result ∧ ∀ ref ∈ result, ref.Bounded :=
    ⟨none, rfl, nofun⟩
  rw [parse]
  by_cases short : buffer.bytes.length < headerLen
  · rw [if_pos short]
    exact nothing
  unfold headerLen at short
  rw [if_neg short, Fault.slice_eq (Nat.zero_le _) (by omega), Fault.ok_bind]
  split
  · exact nothing
  rcases u64At buffer.bytes 8 with _ | snapshotSequence
  · exact nothing
  rcases u64At buffer.bytes 16 with _ | keyCount
  · exact nothing
  rcases u64At buffer.bytes 24 with _ | defLen
  · exact nothing
  dsimp only
  rcases checkedAdd headerLen defLen with _ | defEnd
  · exact nothing
  dsimp only
  rcases ranged : getRange buffer.bytes headerLen defEnd with _ | defBytes
  · exact nothing
  obtain ⟨⟨-, inside⟩, -⟩ := getRange_eq_some_iff.mp ranged
  dsimp only
  rcases format.fromSlice defBytes with _ | definition
  · exact nothing
  dsimp only
  rw [align8_eq (by omega), Fault.ok_bind]
  rcases product : checkedMul keyCount dirEntryLen with _ | dirLen
  · exact nothing
  obtain ⟨-, rfl⟩ := checkedMul_eq_some_iff.mp product
  dsimp only
  rcases sum : checkedAdd (aligned defEnd) (keyCount * dirEntryLen) with _ | dirEnd
  · exact nothing
  obtain ⟨-, rfl⟩ := checkedAdd_eq_some_iff.mp sum
  dsimp only
  split
  · exact nothing
  · next fits =>
      refine ⟨_, rfl, ?_⟩
      rintro ref ⟨⟩
      exact ⟨small, Nat.not_lt.mp fits⟩

namespace BinaryIndexRef

variable {ref : BinaryIndexRef}

theorem keyAt_isOk (bounded : ref.Bounded) {i : Nat} (inside : i < ref.keyCount) :
    ∃ key, ref.keyAt i = .ok key := by
  have last := bounded.inside
  have small := bounded.small
  unfold dirEntryLen at last
  rw [keyAt, Fault.mul_eq (by unfold dirEntryLen; omega), Fault.ok_bind,
    Fault.add_eq (by unfold dirEntryLen; omega), Fault.ok_bind]
  split
  · rw [Fault.add_eq (by unfold dirEntryLen; omega), Fault.ok_bind]
    split
    · exact ⟨_, rfl⟩
    · exact ⟨none, rfl⟩
  · exact ⟨none, rfl⟩

theorem entry_isOk (bounded : ref.Bounded) {i : Nat} (inside : i < ref.keyCount) :
    ∃ found, ref.entry i = .ok found := by
  have last := bounded.inside
  have small := bounded.small
  unfold dirEntryLen at last
  rw [entry, Fault.mul_eq (by unfold dirEntryLen; omega), Fault.ok_bind,
    Fault.add_eq (by unfold dirEntryLen; omega), Fault.ok_bind]
  split
  · rw [Fault.add_eq (by unfold dirEntryLen; omega), Fault.ok_bind]
    split
    · rw [Fault.add_eq (by unfold dirEntryLen; omega), Fault.ok_bind]
      split
      · rw [Fault.add_eq (by unfold dirEntryLen; omega), Fault.ok_bind]
        split
        · split
          · split
            · next postBytes found =>
                obtain ⟨size, -, rest⟩ := Option.bind_eq_some_iff.mp found
                obtain ⟨stop, -, range⟩ := Option.bind_eq_some_iff.mp rest
                obtain ⟨⟨-, within⟩, rfl⟩ := getRange_eq_some_iff.mp range
                rw [Fault.allocate_eq]
                · exact ⟨_, rfl⟩
                · rw [List.length_take, List.length_drop]
                  omega
            · exact ⟨none, rfl⟩
          · exact ⟨none, rfl⟩
        · exact ⟨none, rfl⟩
      · exact ⟨none, rfl⟩
    · exact ⟨none, rfl⟩
  · exact ⟨none, rfl⟩

/-- A search inside the directory has an outcome. -/
theorem search_isOk (bounded : ref.Bounded) (value : String) {lo hi : Nat}
    (inside : hi ≤ ref.keyCount) : ∃ found, ref.search value lo hi = .ok found := by
  fun_induction ref.search value lo hi with
  | case1 lo hi nonempty before after =>
      have middle_inside := (middle_lt_of_lt nonempty).trans_le inside
      obtain ⟨read, readable⟩ := keyAt_isOk bounded middle_inside
      rw [readable, Fault.ok_bind]
      rcases read with _ | key
      · exact ⟨none, rfl⟩
      dsimp only
      split
      · obtain ⟨found, entered⟩ := entry_isOk bounded middle_inside
        rw [entered]
        exact ⟨_, rfl⟩
      · exact before middle_inside.le
      · exact after inside
  | case2 lo hi empty => exact ⟨_, rfl⟩

end BinaryIndexRef

end

end BinaryIndex

end IcefallDB
