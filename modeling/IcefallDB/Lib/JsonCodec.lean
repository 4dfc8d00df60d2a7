import IcefallDB.Lib.Json
import Mathlib

/-!
# Records and maps as JSON objects

A `Codec` carries the proof that decoding inverts encoding.  Records are objects whose default
fields may be left out; maps are objects written in the iteration order of the map.  Two encodings
that differ in the iteration order of maps only have one canonical form.
-/

/-- A finite map together with the order in which it is iterated. -/
abbrev HashMap (κ ν : Type) : Type :=
  AList fun _ : κ => ν

namespace HashMap

variable {κ ν : Type}

/-- Two instances of one map: the same keys with related values, iterated in any two orders. -/
def Same (related : ν → ν → Prop) (left right : HashMap κ ν) : Prop :=
  ∃ aligned, left.entries.Perm aligned ∧
    List.Forall₂ (fun one other => one.1 = other.1 ∧ related one.2 other.2) aligned right.entries

variable {left right : HashMap κ ν}

theorem Same.of_perm (perm : left.entries.Perm right.entries) : Same Eq left right := by
  refine ⟨right.entries, perm, ?_⟩
  exact List.forall₂_same.mpr fun entry _ => ⟨rfl, rfl⟩

theorem Same.perm (same : Same Eq left right) : left.entries.Perm right.entries := by
  obtain ⟨aligned, perm, pointwise⟩ := same
  have equal : List.Forall₂ Eq aligned right.entries := by
    refine pointwise.imp fun one other both => ?_
    obtain ⟨key, value⟩ := one
    obtain ⟨key', value'⟩ := other
    obtain ⟨rfl, rfl⟩ := both
    rfl
  have aligned_eq : aligned = right.entries := List.forall₂_eq_eq_eq ▸ equal
  exact aligned_eq ▸ perm

variable (map : HashMap κ ν)

theorem Same.refl : Same Eq map map :=
  Same.of_perm (.refl _)

/-- A map with at most one entry has one instance only. -/
theorem Same.eq_of_length_le_one (same : Same Eq left right) (short : left.entries.length ≤ 1) :
    left = right := by
  have perm := same.perm
  have entries_eq : left.entries = right.entries := by
    match left_eq : left.entries, short with
    | [], _ =>
        rw [left_eq] at perm
        exact perm.nil_eq
    | [entry], _ =>
        rw [left_eq] at perm
        exact (List.perm_singleton.mp perm.symm).symm
  exact AList.ext entries_eq

/-- The instance of a map that iterates its first two entries the other way round. -/
def swapped (map : HashMap κ ν) : HashMap κ ν :=
  match map with
  | ⟨first :: second :: rest, nodup⟩ =>
      ⟨second :: first :: rest, (List.perm_nodupKeys (List.Perm.swap ..)).mpr nodup⟩
  | map => map

theorem same_swapped : Same Eq map (swapped map) := by
  apply Same.of_perm
  obtain ⟨entries, nodup⟩ := map
  match entries with
  | [] => exact .refl _
  | [_] => exact .refl _
  | first :: second :: rest => exact .swap ..

theorem entries_swapped_ne (long : 1 < map.entries.length) :
    (swapped map).entries ≠ map.entries := by
  obtain ⟨entries, nodup⟩ := map
  match entries with
  | [] => simp at long
  | [_] => simp at long
  | first :: second :: rest =>
      intro same
      have first_eq : second = first := (List.cons.inj same).1
      have fresh := (List.nodupKeys_cons.mp nodup).1
      rw [first_eq] at fresh
      simp at fresh

/-- The two instances of a map with two entries. -/
theorem Same.eq_or_eq_swapped (same : Same Eq left right) (two : left.entries.length = 2) :
    right = left ∨ right = swapped left := by
  have perm := same.perm
  obtain ⟨first, second, left_eq⟩ := List.length_eq_two.mp two
  obtain ⟨third, fourth, right_eq⟩ := List.length_eq_two.mp (perm.length_eq ▸ two)
  obtain ⟨left, left_nodup⟩ := left
  obtain ⟨right, right_nodup⟩ := right
  subst left_eq right_eq
  by_cases head_eq : first = third
  · subst head_eq
    have tail_perm := (List.perm_cons first).mp perm
    have tail_eq := List.perm_singleton.mp tail_perm.symm
    exact .inl (AList.ext (congrArg (first :: ·) tail_eq))
  · have first_eq : first = fourth := by
      have member : first ∈ [third, fourth] := perm.mem_iff.mp List.mem_cons_self
      simpa [head_eq] using member
    subst first_eq
    have swapped_perm : [third, first].Perm [first, second] := perm.symm
    have tail_perm := (List.perm_cons first).mp ((List.Perm.swap ..).trans swapped_perm)
    have third_eq : third = second := by simpa using tail_perm
    subst third_eq
    exact .inr rfl

/-! ### Replacing values -/

section

variable {μ : Type} [DecidableEq κ]

/-- Replace the values of a map, and drop the keys that get none. -/
def filterMap (replace : κ → ν → Option μ) (map : HashMap κ ν) : HashMap κ μ :=
  (map.entries.filterMap fun entry =>
    (replace entry.1 entry.2).map fun value => (⟨entry.1, value⟩ : Sigma fun _ => μ)).toAList

theorem lookup_filterMap (replace : κ → ν → Option μ) (map : HashMap κ ν) (key : κ) :
    (filterMap replace map).lookup key = (map.lookup key).bind (replace key) := by
  rw [filterMap, AList.lookup_to_alist, AList.lookup]
  have nodup := map.nodupKeys
  generalize map.entries = entries at nodup
  induction entries with
  | nil => rfl
  | cons entry entries ih =>
      rw [List.nodupKeys_cons] at nodup
      by_cases same : key = entry.1
      · subst same
        rw [List.dlookup_cons_eq, List.filterMap_cons]
        cases replaced : replace entry.1 entry.2 with
        | some value => simp [replaced]
        | none =>
            have absent : List.dlookup entry.1 entries = none := by
              rw [List.dlookup_eq_none]
              exact nodup.1
            have rest := ih nodup.2
            rw [absent] at rest
            simpa [replaced] using rest
      · rw [List.dlookup_cons_ne _ _ same, ← ih nodup.2, List.filterMap_cons]
        cases replace entry.1 entry.2 with
        | none => rfl
        | some value => exact List.dlookup_cons_ne _ _ same

end

end HashMap

namespace Json

/-! ## Codecs -/

/-- An encoding of values as JSON documents other than `null`. -/
structure Codec (α : Type) where
  /-- The document of a value. -/
  encode : α → Json
  /-- Read a document, failing on one of another shape. -/
  decode : Json → Option α
  /-- Decoding inverts encoding. -/
  decode_encode : ∀ value, decode (encode value) = some value
  /-- A value is never written as `null`, which stands for an absent optional field. -/
  encode_ne_null : ∀ value, encode value ≠ null

namespace Codec

attribute [simp] decode_encode encode_ne_null

/-- Unsigned integers. -/
def nat : Codec Nat where
  encode value := num value
  decode
    | num (.ofNat value) => some value
    | _ => none
  decode_encode _ := rfl
  encode_ne_null _ := nofun

/-- Strings. -/
def string : Codec String where
  encode := str
  decode
    | str value => some value
    | _ => none
  decode_encode _ := rfl
  encode_ne_null _ := nofun

variable {α : Type} (codec : Codec α)

/-- Decode every element of an array. -/
def decodeItems : List Json → Option (List α)
  | [] => some []
  | item :: items => do
      let value ← codec.decode item
      let values ← decodeItems items
      some (value :: values)

theorem decodeItems_map (values : List α) :
    codec.decodeItems (values.map codec.encode) = some values := by
  induction values with
  | nil => rfl
  | cons value values ih => simp [decodeItems, ih]

/-- Arrays. -/
def list : Codec (List α) where
  encode values := arr (values.map codec.encode)
  decode
    | arr items => codec.decodeItems items
    | _ => none
  decode_encode values := codec.decodeItems_map values
  encode_ne_null _ := nofun

/-- Object entries of a map, in iteration order. -/
def encodeEntries (map : HashMap String α) : List (String × Json) :=
  map.entries.map fun entry => (entry.1, codec.encode entry.2)

/-- Read object entries into a map; of two entries with one key the later wins. -/
def decodeEntries : List (String × Json) → Option (HashMap String α)
  | [] => some ∅
  | (key, value) :: entries => do
      let value ← codec.decode value
      let map ← decodeEntries entries
      some (if key ∈ map then map else map.insert key value)

theorem decodeEntries_encodeEntries (map : HashMap String α) :
    codec.decodeEntries (codec.encodeEntries map) = some map := by
  obtain ⟨entries, nodup⟩ := map
  induction entries with
  | nil => rfl
  | cons entry entries ih =>
      have tail_nodup : entries.NodupKeys := (List.nodupKeys_cons.mp nodup).2
      have fresh : entry.1 ∉ (⟨entries, tail_nodup⟩ : HashMap String α) :=
        (List.nodupKeys_cons.mp nodup).1
      have tail_decoded := ih tail_nodup
      simp only [encodeEntries] at tail_decoded ⊢
      simp only [List.map_cons, decodeEntries, decode_encode, tail_decoded, Option.bind_eq_bind,
        Option.bind_some, if_neg fresh, Option.some.injEq]
      exact AList.ext (AList.entries_insert_of_notMem fresh)

/-- Maps. -/
def map : Codec (HashMap String α) where
  encode map := obj (codec.encodeEntries map)
  decode
    | obj entries => codec.decodeEntries entries
    | _ => none
  decode_encode map := codec.decodeEntries_encodeEntries map
  encode_ne_null _ := nofun

end Codec

/-! ## Records -/

/-- The object of a record, without the fields that are skipped. -/
def record (fields : List (String × Option Json)) : Json :=
  obj (fields.filterMap fun field => field.2.map fun value => (field.1, value))

/-- The value of a field of an object, if it is there; a field given twice is an error. -/
def field (name : String) : Json → Option (Option Json)
  | obj entries =>
      match entries.filter fun entry => entry.1 = name with
      | [] => some none
      | [entry] => some (some entry.2)
      | _ => none
  | _ => none

section Fields

variable {α : Type} (codec : Codec α)

/-- Read a field that must be there. -/
def readRequired : Option Json → Option α
  | some value => codec.decode value
  | none => none

/-- Read a field whose absence, or `null`, means `none`. -/
def readOptional : Option Json → Option (Option α)
  | none => some none
  | some null => some none
  | some value => (codec.decode value).map some

/-- Read a field with a default. -/
def readDefaulted (default : α) : Option Json → Option α
  | none => some default
  | some value => codec.decode value

/-- Write a field unless it has its default value. -/
def unlessDefault [DecidableEq α] (default value : α) : Option Json :=
  if value = default then none else some (codec.encode value)

/-- Write a map unless it is empty. -/
def unlessEmpty (map : HashMap String α) : Option Json :=
  if map.entries.isEmpty then none else some (codec.map.encode map)

/-- A field that must be there. -/
def requiredField (name : String) (document : Json) : Option α :=
  (field name document).bind (readRequired codec)

/-- A field whose absence, or `null`, means `none`. -/
def optionalField (name : String) (document : Json) : Option (Option α) :=
  (field name document).bind (readOptional codec)

/-- A field with a default. -/
def defaultedField (default : α) (name : String) (document : Json) : Option α :=
  (field name document).bind (readDefaulted codec default)

@[simp]
theorem readRequired_some (value : α) : readRequired codec (some (codec.encode value)) = some value :=
  codec.decode_encode value

@[simp]
theorem readOptional_map (value : Option α) :
    readOptional codec (value.map codec.encode) = some value := by
  cases value with
  | none => rfl
  | some value =>
      rw [Option.map_some]
      unfold readOptional
      split
      · next absent => cases absent
      · next isNull => exact absurd (Option.some.inj isNull) (codec.encode_ne_null value)
      · next document same =>
          obtain rfl := Option.some.inj same
          simp

@[simp]
theorem readDefaulted_unlessDefault [DecidableEq α] (default value : α) :
    readDefaulted codec default (unlessDefault codec default value) = some value := by
  by_cases same : value = default
  · simp [readDefaulted, unlessDefault, same]
  · simp [readDefaulted, unlessDefault, same]

@[simp]
theorem readDefaulted_unlessEmpty (map : HashMap String α) :
    readDefaulted codec.map ∅ (unlessEmpty codec map) = some map := by
  by_cases empty : map.entries.isEmpty
  · have map_eq : (∅ : HashMap String α) = map := AList.ext (List.isEmpty_iff.mp empty).symm
    simp [readDefaulted, unlessEmpty, empty, map_eq]
  · simp [readDefaulted, unlessEmpty, empty]

end Fields

theorem field_record {fields : List (String × Option Json)} (nodup : (fields.map Prod.fst).Nodup)
    (name : String) : field name (record fields) = some (fields.lookup name).join := by
  have single : (fields.filterMap fun field => field.2.map fun value => (field.1, value)).filter
      (fun entry => entry.1 = name) = ((fields.lookup name).join.map fun value =>
        (name, value)).toList := by
    induction fields with
    | nil => rfl
    | cons first fields ih =>
        obtain ⟨key, value⟩ := first
        obtain ⟨fresh, tail_nodup⟩ := List.nodup_cons.mp nodup
        have tail := ih tail_nodup
        by_cases same : key = name
        · subst same
          have absent : fields.lookup key = none := by
            rw [List.lookup_eq_none_iff]
            intro entry member
            simp only [bne_iff_ne, ne_eq]
            rintro rfl
            exact fresh (List.mem_map.mpr ⟨entry, member, rfl⟩)
          rw [absent] at tail
          cases value with
          | none => simpa using tail
          | some value => simpa using tail
        · have differs : (name == key) = false := by simpa using Ne.symm same
          cases value with
          | none => simpa [List.lookup, differs] using tail
          | some value => simpa [List.lookup, differs, same] using tail
  rw [record, field, single]
  cases (fields.lookup name).join <;> rfl

/-! ## Iteration order and canonical form -/

/-- Entries with distinct keys have one sorted arrangement. -/
theorem sortEntries_perm {left right : List (String × Json)} (perm : left.Perm right)
    (nodup : (left.map Prod.fst).Nodup) : sortEntries left = sortEntries right := by
  have left_perm : (sortEntries left).Perm left := List.perm_insertionSort _ left
  have right_perm : (sortEntries right).Perm right := List.perm_insertionSort _ right
  have sorted (entries : List (String × Json)) :
      (sortEntries entries).Pairwise fun one other => one.1 ≤ other.1 := by
    have : Std.Total fun one other : String × Json => one.1 ≤ other.1 :=
      ⟨fun one other => le_total one.1 other.1⟩
    have : IsTrans (String × Json) fun one other => one.1 ≤ other.1 :=
      ⟨fun _ _ _ => le_trans⟩
    exact List.pairwise_insertionSort _ entries
  refine List.Perm.eq_of_pairwise ?_ (sorted left) (sorted right)
    (left_perm.trans (perm.trans right_perm.symm))
  intro one other one_mem other_mem below above
  have one_mem' : one ∈ left := left_perm.mem_iff.mp one_mem
  have other_mem' : other ∈ left := (perm.mem_iff).mpr (right_perm.mem_iff.mp other_mem)
  exact List.inj_on_of_nodup_map nodup one_mem' other_mem' (le_antisymm below above)

/-- The canonical form of a record depends on the canonical forms of its fields only. -/
theorem canonicalize_record_congr {left right : List (String × Option Json)}
    (same : left.map (fun field => (field.1, field.2.map canonicalize)) =
      right.map fun field => (field.1, field.2.map canonicalize)) :
    canonicalize (record left) = canonicalize (record right) := by
  have entries (fields : List (String × Option Json)) :
      canonicalizeEntries (fields.filterMap fun field => field.2.map fun value => (field.1, value)) =
        (fields.map fun field => (field.1, field.2.map canonicalize)).filterMap
          fun field => field.2.map fun value => (field.1, value) := by
    rw [canonicalizeEntries_eq_map, List.map_filterMap, List.filterMap_map]
    congr 1
    funext field
    simp [Function.comp_def]
  rw [record, record, canonicalize, canonicalize, entries, entries, same]

theorem canonicalize_list_congr {α : Type} (codec : Codec α) {left right : List α}
    (same : List.Forall₂ (fun one other =>
      canonicalize (codec.encode one) = canonicalize (codec.encode other)) left right) :
    canonicalize (codec.list.encode left) = canonicalize (codec.list.encode right) := by
  simp only [Codec.list, canonicalize, canonicalizeItems_eq_map, List.map_map]
  congr 1
  induction same with
  | nil => rfl
  | cons head _ ih => simpa using ⟨head, ih⟩

/-- The canonical form of a map does not depend on the order in which the map is iterated. -/
theorem canonicalize_map_congr {α : Type} (codec : Codec α) {related : α → α → Prop}
    (respects : ∀ one other, related one other →
      canonicalize (codec.encode one) = canonicalize (codec.encode other))
    {left right : HashMap String α} (same : HashMap.Same related left right) :
    canonicalize (codec.map.encode left) = canonicalize (codec.map.encode right) := by
  obtain ⟨aligned, perm, pointwise⟩ := same
  let written : (_ : String) × α → String × Json :=
    fun entry => (entry.1, canonicalize (codec.encode entry.2))
  have form (map : HashMap String α) : canonicalize (codec.map.encode map) =
      obj (sortEntries (map.entries.map written)) := by
    simp only [Codec.map, Codec.encodeEntries, canonicalize, canonicalizeEntries_eq_map,
      List.map_map, written]
    rfl
  have aligned_eq : aligned.map written = right.entries.map written := by
    clear perm
    generalize right.entries = entries at pointwise
    induction pointwise with
    | nil => rfl
    | cons head _ ih =>
        obtain ⟨key_eq, value_related⟩ := head
        simp only [List.map_cons, written, key_eq, respects _ _ value_related]
        exact congrArg _ ih
  have keys_nodup : ((left.entries.map written).map Prod.fst).Nodup := by
    rw [List.map_map]
    exact left.nodupKeys
  rw [form left, form right, ← aligned_eq]
  rw [sortEntries_perm (perm.map written) keys_nodup]

/-- An optional field whose values have one canonical form. -/
theorem canonicalize_option_congr {α : Type} (codec : Codec α) {related : α → α → Prop}
    (respects : ∀ one other, related one other →
      canonicalize (codec.encode one) = canonicalize (codec.encode other))
    {left right : Option α} (same : Option.Rel related left right) :
    (left.map codec.encode).map canonicalize = (right.map codec.encode).map canonicalize := by
  cases same with
  | none => rfl
  | some related => simp [respects _ _ related]

/-- A map field that is skipped when empty. -/
theorem canonicalize_unlessEmpty_congr {α : Type} (codec : Codec α) {related : α → α → Prop}
    (respects : ∀ one other, related one other →
      canonicalize (codec.encode one) = canonicalize (codec.encode other))
    {left right : HashMap String α} (same : HashMap.Same related left right) :
    (unlessEmpty codec left).map canonicalize = (unlessEmpty codec right).map canonicalize := by
  have canonical := canonicalize_map_congr codec respects same
  obtain ⟨aligned, perm, pointwise⟩ := same
  have lengths : left.entries.length = right.entries.length :=
    perm.length_eq.trans pointwise.length_eq
  by_cases empty : left.entries.isEmpty
  · have right_empty : right.entries.isEmpty := by
      rw [List.isEmpty_iff_length_eq_zero] at empty ⊢
      omega
    simp [unlessEmpty, empty, right_empty]
  · have right_nonempty : ¬right.entries.isEmpty := by
      rw [List.isEmpty_iff_length_eq_zero] at empty ⊢
      omega
    simp [unlessEmpty, empty, right_nonempty, canonical]

end Json
