import Mathlib.Data.Nat.Digits.Lemmas

/-!
# Buffers of bytes

Numbers are written to buffers as little-endian bytes and read at offsets that are computed with
machine integers.  An operation that a program must not reach stops it with a `Fault`: a sum or
product that overflows, an access outside a buffer, or a request for more memory than there can be.
-/

/-! ## Little-endian bytes -/

/-- The lowest bytes of a number, the lowest first. -/
def leBytes : Nat → Nat → List UInt8
  | 0, _ => []
  | width + 1, value => UInt8.ofNat value :: leBytes width (value / 256)

/-- The number with the given bytes, the lowest first. -/
def leValue (bytes : List UInt8) : Nat :=
  Nat.ofDigits 256 (bytes.map UInt8.toNat)

@[simp]
theorem length_leBytes (width value : Nat) : (leBytes width value).length = width := by
  induction width generalizing value with
  | zero => rfl
  | succ width ih => rw [leBytes, List.length_cons, ih]

@[simp]
theorem leValue_leBytes (width value : Nat) :
    leValue (leBytes width value) = value % 256 ^ width := by
  induction width generalizing value with
  | zero => simp [leBytes, leValue, Nat.mod_one]
  | succ width ih =>
      have rest : Nat.ofDigits 256 ((leBytes width (value / 256)).map UInt8.toNat) =
          value / 256 % 256 ^ width := ih (value / 256)
      rw [leBytes, leValue, List.map_cons, Nat.ofDigits_cons, rest, pow_succ', Nat.mod_mul]
      simp

theorem leValue_lt (bytes : List UInt8) : leValue bytes < 256 ^ bytes.length := by
  have digits : ∀ digit ∈ bytes.map UInt8.toNat, digit < 256 := by
    intro digit member
    obtain ⟨byte, -, rfl⟩ := List.mem_map.mp member
    exact byte.toNat_lt
  have below := Nat.ofDigits_lt_base_pow_length (by decide : 1 < 256) digits
  rwa [List.length_map] at below

/-! ## Operations that can stop a program -/

/-- Why a program is stopped. -/
inductive Fault
  | overflow
  | outOfRange
  | capacity
  deriving DecidableEq

namespace Fault

/-- The sum of two machine integers. -/
def add (width left right : Nat) : Except Fault Nat :=
  if left + right < 2 ^ width then .ok (left + right) else .error .overflow

/-- The product of two machine integers. -/
def mul (width left right : Nat) : Except Fault Nat :=
  if left * right < 2 ^ width then .ok (left * right) else .error .overflow

/-- The bytes from one offset up to another. -/
def slice (bytes : List UInt8) (start stop : Nat) : Except Fault (List UInt8) :=
  if start ≤ stop ∧ stop ≤ bytes.length then .ok ((bytes.drop start).take (stop - start))
  else .error .outOfRange

/-- The number in the bytes at an offset. -/
def readAt (bytes : List UInt8) (offset width : Nat) : Except Fault Nat := do
  let stop ← add 64 offset width
  let field ← slice bytes offset stop
  .ok (leValue field)

/-- Request memory for elements of a size. -/
def allocate (count size : Nat) : Except Fault Unit :=
  if count * size < 2 ^ 63 then .ok () else .error .capacity

/-- Put data in the place of the bytes at an offset. -/
def patch (bytes : List UInt8) (start : Nat) (data : List UInt8) :
    Except Fault (List UInt8) := do
  let stop ← add 64 start data.length
  if stop ≤ bytes.length then .ok (bytes.take start ++ (data ++ bytes.drop stop))
  else .error .outOfRange

/-- The sum of machine integers. -/
def sum (width : Nat) (terms : List Nat) : Except Fault Nat :=
  terms.foldlM (add width) 0

/-- The number in the bytes at an offset, wherever that is. -/
def field (bytes : List UInt8) (offset width : Nat) : Nat :=
  leValue ((bytes.drop offset).take width)

@[simp]
theorem ok_bind {α β : Type} (value : α) (next : α → Except Fault β) :
    (Except.ok value >>= next) = next value :=
  rfl

@[simp]
theorem error_bind {α β : Type} (fault : Fault) (next : α → Except Fault β) :
    (Except.error fault >>= next) = .error fault :=
  rfl

theorem add_eq_ok_iff {width left right sum : Nat} :
    add width left right = .ok sum ↔ left + right < 2 ^ width ∧ left + right = sum := by
  rw [add]
  split
  · next fits => simp [fits]
  · next overflows => simp [overflows]

theorem mul_eq_ok_iff {width left right product : Nat} :
    mul width left right = .ok product ↔ left * right < 2 ^ width ∧ left * right = product := by
  rw [mul]
  split
  · next fits => simp [fits]
  · next overflows => simp [overflows]

theorem add_eq {width left right : Nat} (fits : left + right < 2 ^ width) :
    add width left right = .ok (left + right) :=
  if_pos fits

theorem mul_eq {width left right : Nat} (fits : left * right < 2 ^ width) :
    mul width left right = .ok (left * right) :=
  if_pos fits

theorem slice_eq {bytes : List UInt8} {start stop : Nat} (ordered : start ≤ stop)
    (inside : stop ≤ bytes.length) :
    slice bytes start stop = .ok ((bytes.drop start).take (stop - start)) :=
  if_pos ⟨ordered, inside⟩

theorem allocate_eq {count size : Nat} (fits : count * size < 2 ^ 63) :
    allocate count size = .ok () :=
  if_pos fits

theorem readAt_eq {bytes : List UInt8} {offset width : Nat} (small : bytes.length < 2 ^ 64)
    (inside : offset + width ≤ bytes.length) :
    readAt bytes offset width = .ok (field bytes offset width) := by
  rw [readAt, add_eq (inside.trans_lt small)]
  rw [ok_bind, slice_eq (Nat.le_add_right _ _) inside, Nat.add_sub_cancel_left]
  rfl

theorem readAt_eq_ok_iff {bytes : List UInt8} {offset width : Nat}
    (small : bytes.length < 2 ^ 64) :
    (∃ value, readAt bytes offset width = .ok value) ↔ offset + width ≤ bytes.length := by
  constructor
  · rintro ⟨value, read⟩
    by_contra outside
    rw [readAt, add] at read
    split at read
    · rw [ok_bind, slice, if_neg fun both => outside both.2] at read
      cases read
    · cases read
  · exact fun inside => ⟨_, readAt_eq small inside⟩

theorem patch_eq {before old data after : List UInt8} {start : Nat}
    (place : before.length = start) (same : old.length = data.length)
    (small : start + data.length < 2 ^ 64) :
    patch (before ++ (old ++ after)) start data = .ok (before ++ (data ++ after)) := by
  have rest : (before ++ (old ++ after)).drop (start + data.length) = after := by
    rw [← place, ← List.drop_drop, List.drop_left, ← same, List.drop_left]
  rw [patch, add_eq small, ok_bind, if_pos, rest, List.take_left' place]
  rw [List.length_append, List.length_append, place, same]
  omega

/-- Data is written into zeros from their start. -/
theorem patch_zeros {before data after : List UInt8} {start count : Nat}
    (place : before.length = start) (room : data.length ≤ count)
    (small : start + data.length < 2 ^ 64) :
    patch (before ++ (List.replicate count 0 ++ after)) start data =
      .ok (before ++ data ++ (List.replicate (count - data.length) 0 ++ after)) := by
  have split : List.replicate count (0 : UInt8) ++ after =
      List.replicate data.length 0 ++ (List.replicate (count - data.length) 0 ++ after) := by
    rw [← List.append_assoc, List.replicate_append_replicate, Nat.add_sub_cancel' room]
  rw [split, patch_eq place (List.length_replicate ..) small, List.append_assoc]

theorem sum_eq {width : Nat} {terms : List Nat} (fits : terms.sum < 2 ^ width) :
    sum width terms = .ok terms.sum := by
  have general : ∀ start, start + terms.sum < 2 ^ width →
      terms.foldlM (add width) start = .ok (start + terms.sum) := by
    induction terms with
    | nil =>
        intro start _
        rfl
    | cons term terms ih =>
        intro start fits
        rw [List.sum_cons] at fits ⊢
        rw [List.foldlM_cons, add_eq (by omega), ok_bind, ih (by omega) _ (by omega),
          Nat.add_assoc]
  rw [sum, general 0 (by omega), Nat.zero_add]

theorem field_lt (bytes : List UInt8) (offset width : Nat) :
    field bytes offset width < 256 ^ width := by
  apply (leValue_lt _).trans_le
  exact Nat.pow_le_pow_right (by decide) (List.length_take_le _ _)

theorem field_append {before rest : List UInt8} {skipped : Nat} (place : before.length = skipped)
    (offset width : Nat) :
    field (before ++ rest) (skipped + offset) width = field rest offset width := by
  rw [field, ← place, ← List.drop_drop, List.drop_left, field]

/-- What was written is read again. -/
theorem field_leBytes (width value : Nat) (after : List UInt8) :
    field (leBytes width value ++ after) 0 width = value % 256 ^ width := by
  have found : (leBytes width value ++ after).take width = leBytes width value :=
    List.take_left' (length_leBytes width value)
  rw [field, List.drop_zero, found, leValue_leBytes]

end Fault

/-! ## Where data lies -/

/-- Data lies at an offset of bytes. -/
def LiesAt (bytes : List UInt8) (offset : Nat) (data : List UInt8) : Prop :=
  ∃ before after, bytes = before ++ (data ++ after) ∧ before.length = offset

namespace LiesAt

variable {bytes first second data : List UInt8} {offset : Nat}

theorem refl (bytes : List UInt8) : LiesAt bytes 0 bytes :=
  ⟨[], [], by simp, rfl⟩

theorem left (lies : LiesAt bytes offset (first ++ second)) : LiesAt bytes offset first := by
  obtain ⟨before, after, rfl, place⟩ := lies
  exact ⟨before, second ++ after, by simp only [List.append_assoc], place⟩

theorem right (lies : LiesAt bytes offset (first ++ second)) :
    LiesAt bytes (offset + first.length) second := by
  obtain ⟨before, after, rfl, place⟩ := lies
  refine ⟨before ++ first, after, by simp only [List.append_assoc], ?_⟩
  rw [List.length_append, place]

theorem le (lies : LiesAt bytes offset data) : offset + data.length ≤ bytes.length := by
  obtain ⟨before, after, rfl, place⟩ := lies
  rw [List.length_append, List.length_append, place]
  omega

theorem take_drop (lies : LiesAt bytes offset data) :
    (bytes.drop offset).take data.length = data := by
  obtain ⟨before, after, rfl, place⟩ := lies
  rw [List.drop_left' place, List.take_left' rfl]

/-- A number that lies at an offset is read there. -/
theorem field {width value : Nat} (lies : LiesAt bytes offset (leBytes width value)) :
    Fault.field bytes offset width = value % 256 ^ width := by
  have found := lies.take_drop
  rw [length_leBytes] at found
  rw [Fault.field, found, leValue_leBytes]

end LiesAt

/-! ## Records of one width -/

/-- The bytes in whole pieces of a width. -/
def chunksExact (width : Nat) (bytes : List UInt8) : List (List UInt8) :=
  (List.range (bytes.length / width)).map fun index => (bytes.drop (index * width)).take width

section

variable {α : Type} {width : Nat} {encode : α → List UInt8}

theorem length_flatMap_of_width (lengths : ∀ value, (encode value).length = width)
    (values : List α) : (values.flatMap encode).length = values.length * width := by
  induction values with
  | nil => rw [List.flatMap_nil, List.length_nil, List.length_nil, Nat.zero_mul]
  | cons value values ih =>
      rw [List.flatMap_cons, List.length_append, lengths, ih, List.length_cons, Nat.succ_mul,
        Nat.add_comm]

/-- The records of values are found one after the other. -/
theorem chunksExact_flatMap (positive : 0 < width)
    (lengths : ∀ value, (encode value).length = width) (values : List α) :
    chunksExact width (values.flatMap encode) = values.map encode := by
  have whole := length_flatMap_of_width lengths values
  rw [chunksExact, whole, Nat.mul_div_cancel _ positive]
  apply List.ext_getElem
  · rw [List.length_map, List.length_range, List.length_map]
  · intro index left right
    rw [List.getElem_map, List.getElem_range, List.getElem_map]
    rw [List.length_map] at right
    have around : values.flatMap encode = (values.take index).flatMap encode ++
        (encode values[index] ++ (values.drop (index + 1)).flatMap encode) := by
      rw [← List.flatMap_cons, List.getElem_cons_drop, ← List.flatMap_append,
        List.take_append_drop]
    have before : ((values.take index).flatMap encode).length = index * width := by
      rw [length_flatMap_of_width lengths, List.length_take, Nat.min_eq_left right.le]
    rw [around, List.drop_left' before, List.take_left' (lengths _)]

end

/-- Bytes in memory.  There is less memory than a signed machine integer counts. -/
structure Buffer where
  bytes : List UInt8
  length_lt : bytes.length < 2 ^ 63

namespace Buffer

variable (buffer : Buffer)

theorem length_lt_u64 : buffer.bytes.length < 2 ^ 64 :=
  buffer.length_lt.trans (by decide)

/-- Put bytes into memory. -/
def ofBytes (bytes : List UInt8) : Except Fault Buffer :=
  if small : bytes.length < 2 ^ 63 then .ok { bytes, length_lt := small } else .error .capacity

theorem bytes_of_ofBytes {bytes : List UInt8} {buffer : Buffer}
    (allocated : ofBytes bytes = .ok buffer) : buffer.bytes = bytes := by
  rw [ofBytes] at allocated
  split at allocated
  · rw [← Except.ok.inj allocated]
  · cases allocated

end Buffer
