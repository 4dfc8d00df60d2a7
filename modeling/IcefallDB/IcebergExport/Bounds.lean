import IcefallDB.ColumnBounds
import IcefallDB.IcebergExport

/-!
# Bounds of exported data files

A bound is found under the field id of its column, and reads as the value of the statistic if it is
a truth value or a text.  An integer is written as its digits, which are not the bytes of that
number: four characters are some other `int` and eight characters some other `long`.
-/

namespace IcefallDB

namespace Iceberg

open Json (utf8 utf8Decode)

/-! ## Bounds by field ids -/

theorem mem_mapToAvroArray {ν : Type} {map : HashMap Int32 ν} {key : Int32} {value : ν} :
    (key, value) ∈ mapToAvroArray map ↔ map.lookup key = some value := by
  rw [mapToAvroArray, (List.mergeSort_perm _ _).mem_iff, List.mem_map, ← Option.mem_def,
    AList.mem_lookup_iff]
  constructor
  · rintro ⟨⟨own, held⟩, member, same⟩
    cases same
    exact member
  · intro member
    exact ⟨⟨key, value⟩, member, rfl⟩

/-- A value is found in the array of a map where it is in the map. -/
theorem find?_mapToAvroArray {ν : Type} (map : HashMap Int32 ν) (key : Int32) :
    ((mapToAvroArray map).find? fun entry => entry.1.toInt = key.toInt).map Prod.snd =
      map.lookup key := by
  cases found : (mapToAvroArray map).find? fun entry => entry.1.toInt = key.toInt with
  | none =>
      cases held : map.lookup key with
      | none => rfl
      | some value =>
          have missed := List.find?_eq_none.mp found (key, value) (mem_mapToAvroArray.mpr held)
          exact absurd (decide_eq_true rfl) missed
  | some entry =>
      obtain ⟨own, value⟩ := entry
      have same : own.toInt = key.toInt := by
        have holds := List.find?_some found
        exact of_decide_eq_true holds
      obtain rfl := Int32.toInt_inj.mp same
      exact (mem_mapToAvroArray.mp (List.mem_of_find?_eq_some found)).symm

/-- Entries with distinct keys are all found. -/
theorem lookup_collect {κ ν : Type} [DecidableEq κ] {entries : List (κ × ν)}
    (distinct : (entries.map Prod.fst).Nodup) (key : κ) (value : ν) :
    (collect entries).lookup key = some value ↔ (key, value) ∈ entries := by
  induction entries using List.reverseRecOn with
  | nil => simp [collect]
  | append_singleton entries entry ih =>
      obtain ⟨own, held⟩ := entry
      rw [List.map_append, List.nodup_append] at distinct
      obtain ⟨earlier, -, apart⟩ := distinct
      have fresh : ∀ other, (own, other) ∉ entries := by
        intro other member
        exact apart own (List.mem_map_of_mem (f := Prod.fst) member) own List.mem_cons_self rfl
      have step : collect (entries ++ [(own, held)]) = (collect entries).insert own held := by
        rw [collect, List.foldl_append]
        rfl
      rw [step, List.mem_append, List.mem_singleton]
      by_cases same : key = own
      · subst same
        rw [AList.lookup_insert]
        constructor
        · intro equal
          obtain rfl := Option.some.inj equal
          exact .inr rfl
        · rintro (before | last)
          · exact absurd before (fresh value)
          · obtain ⟨-, rfl⟩ := Prod.mk.inj last
            rfl
      · rw [AList.lookup_insert_ne same, ih earlier]
        constructor
        · exact .inl
        · rintro (before | last)
          · exact before
          · exact absurd (Prod.mk.inj last).1 same

section

variable {ν : Type} {fieldIds : HashMap String Int32} {valueOf : ColumnStatistics → Option ν}

theorem fieldEntry_eq_some {column : String × ColumnStatistics} {fieldId : Int32} {value : ν} :
    fieldEntry fieldIds valueOf column = some (fieldId, value) ↔
      fieldIds.lookup column.1 = some fieldId ∧ valueOf column.2 = some value := by
  rw [fieldEntry]
  cases fieldIds.lookup column.1 <;> cases valueOf column.2 <;> simp

/-- Every column with a value is found under its field id, if no two columns share one. -/
theorem lookup_byFieldId (distinct : ∀ left right fieldId, fieldIds.lookup left = some fieldId →
    fieldIds.lookup right = some fieldId → left = right) (sidecar : Sidecar) {name : String}
    {fieldId : Int32} (known : fieldIds.lookup name = some fieldId) :
    (byFieldId fieldIds valueOf sidecar.columnList).lookup fieldId =
      (sidecar.columns.lookup name).bind valueOf := by
  have names : (sidecar.columnList.map Prod.fst).Nodup := by
    rw [Sidecar.columnList, List.map_map]
    exact sidecar.columns.nodupKeys
  have keys :
      ((sidecar.columnList.filterMap (fieldEntry fieldIds valueOf)).map Prod.fst).Nodup := by
    rw [List.map_filterMap]
    rw [List.Nodup, List.pairwise_map] at names
    apply List.Pairwise.filterMap _ _ names
    intro left right apart left_id left_eq right_id right_eq
    obtain ⟨⟨_, held⟩, left_entry, rfl⟩ := Option.map_eq_some_iff.mp left_eq
    obtain ⟨⟨_, held'⟩, right_entry, rfl⟩ := Option.map_eq_some_iff.mp right_eq
    rintro rfl
    exact apart (distinct _ _ _ (fieldEntry_eq_some.mp left_entry).1
      (fieldEntry_eq_some.mp right_entry).1)
  have mem_iff : ∀ stats, (name, stats) ∈ sidecar.columnList ↔
      sidecar.columns.lookup name = some stats := by
    intro stats
    rw [Sidecar.columnList, List.mem_map, ← Option.mem_def, AList.mem_lookup_iff]
    constructor
    · rintro ⟨⟨own, held⟩, member, same⟩
      cases same
      exact member
    · intro member
      exact ⟨⟨name, stats⟩, member, rfl⟩
  apply Option.ext
  intro value
  rw [byFieldId, lookup_collect keys, List.mem_filterMap, Option.bind_eq_some_iff]
  constructor
  · rintro ⟨⟨other, stats⟩, member, found⟩
    obtain ⟨other_id, value_eq⟩ := fieldEntry_eq_some.mp found
    obtain rfl := distinct _ _ _ known other_id
    exact ⟨stats, (mem_iff stats).mp member, value_eq⟩
  · rintro ⟨stats, held, value_eq⟩
    exact ⟨(name, stats), (mem_iff stats).mpr held, fieldEntry_eq_some.mpr ⟨known, value_eq⟩⟩

end

/-! ## Statistics -/

/-- The value that a statistic of a column of some type stands for. -/
def SingleType.shows : SingleType → StatisticValue → Option SingleValue
  | .boolean, .bool value => some (.boolean value)
  | .int, .int value | .date, .int value | .long, .int value | .timestamp, .int value =>
      some (.integer value)
  | .string, .string value => some (.text value)
  | _, _ => none

/-- A statistic shows an extreme value of a column.  The text of a float may be any. -/
def Shows (type : SingleType) (values : List SingleValue)
    (extreme : SingleValue → SingleValue → Prop) (statistic : StatisticValue) : Prop :=
  ((type = .float ∨ type = .double) ∧ ∃ text, statistic = .float text) ∨
    ∃ value ∈ values, type.shows statistic = some value ∧ ∀ other ∈ values, extreme value other

/-- The statistics of a column are its least and its greatest value. -/
structure Recorded (type : SingleType) (stats : ColumnStatistics) (values : List SingleValue) :
    Prop where
  min : ∀ statistic ∈ stats.min, Shows type values (· ≤ ·) statistic
  max : ∀ statistic ∈ stats.max, Shows type values (· ≥ ·) statistic

/-- A bound of a column is read as another number: a least value with as many characters as a number
of the type has bytes, or a float whose text reads as a float beyond some value. -/
def Misread (type : SingleType) (stats : ColumnStatistics) (values : List SingleValue) : Prop :=
  match type with
  | .int | .date =>
      ∃ number, stats.min = some (.int number) ∧ (toString number).toList.length = 4
  | .long | .timestamp =>
      ∃ number, stats.min = some (.int number) ∧ (toString number).toList.length = 8
  | .float | .double =>
      (∃ text bound, stats.min = some (.float text) ∧
        decodeSingle type (utf8 text.toList) = some bound ∧ ∃ value ∈ values, value < bound) ∨
      ∃ text bound, stats.max = some (.float text) ∧
        decodeSingle type (utf8 text.toList) = some bound ∧ ∃ value ∈ values, bound < value
  | _ => False

/-! ## Digits as bytes -/

theorem utf8_of_ascii {text : List Char} {low high : Nat}
    (within : ∀ char ∈ text, low ≤ char.toNat ∧ char.toNat ≤ high) (ascii : high ≤ 127) :
    (utf8 text).length = text.length ∧
      ∀ byte ∈ utf8 text, low ≤ byte.toNat ∧ byte.toNat ≤ high := by
  induction text with
  | nil => exact ⟨rfl, nofun⟩
  | cons char text ih =>
      rw [List.forall_mem_cons] at within
      obtain ⟨⟨above, below⟩, others⟩ := within
      obtain ⟨length_eq, bytes⟩ := ih others
      have encoded : String.utf8EncodeChar char = [char.val.toUInt8] := by
        apply String.utf8EncodeChar_eq_singleton
        rw [Char.utf8Size_eq_one_iff, UInt32.le_iff_toNat_le]
        exact below.trans ascii
      have step : utf8 (char :: text) = char.val.toUInt8 :: utf8 text := by
        rw [utf8, List.flatMap_cons, encoded]
        rfl
      have byte_eq : char.val.toUInt8.toNat = char.toNat := by
        rw [UInt32.toNat_toUInt8]
        exact Nat.mod_eq_of_lt (show char.toNat < 256 by omega)
      rw [step, List.length_cons, List.length_cons, length_eq, List.forall_mem_cons, byte_eq]
      exact ⟨rfl, ⟨above, below⟩, bytes⟩

/-- Bytes of digits and a sign are a large number, whose highest bit is not set. -/
theorem leValue_bounds {bytes : List UInt8} {width : Nat} (length_eq : bytes.length = width + 1)
    (within : ∀ byte ∈ bytes, 45 ≤ byte.toNat ∧ byte.toNat ≤ 57) :
    45 * 256 ^ width ≤ leValue bytes ∧ leValue bytes < 58 * 256 ^ width := by
  induction bytes generalizing width with
  | nil => cases length_eq
  | cons byte bytes ih =>
      have value_eq : leValue (byte :: bytes) = byte.toNat + 256 * leValue bytes := by
        rw [leValue, List.map_cons, Nat.ofDigits_cons]
        rfl
      rw [List.forall_mem_cons] at within
      obtain ⟨own, others⟩ := within
      rw [value_eq]
      cases width with
      | zero =>
          obtain rfl := List.length_eq_zero_iff.mp (Nat.succ.inj length_eq)
          have empty : leValue [] = 0 := rfl
          rw [empty]
          omega
      | succ width =>
          obtain ⟨low, high⟩ := ih (Nat.succ.inj length_eq) others
          rw [pow_succ]
          omega

/-- The bytes of a type of integers. -/
def SingleType.width : SingleType → Option Nat
  | .int | .date => some 4
  | .long | .timestamp => some 8
  | _ => none

/-- The text of a number is read as a greater one if it has as many characters as the type has
bytes, and as nothing otherwise. -/
theorem decodeSingle_digits {type : SingleType} {width : Nat} (typed : type.width = some width)
    (number : Int) :
    ((toString number).toList.length ≠ width ∧
      decodeSingle type (utf8 (toString number).toList) = none) ∨
    ((toString number).toList.length = width ∧ ∃ read : Int, number < read ∧
      decodeSingle type (utf8 (toString number).toList) = some (.integer read)) := by
  obtain ⟨length_eq, digits⟩ := utf8_of_ascii (fun _ member => mem_toString member) (by decide)
  have small := lt_pow_length_toString number
  generalize utf8 (toString number).toList = bytes at length_eq digits
  rw [← length_eq] at small ⊢
  have four : bytes.length = 4 → number < asSigned 32 (leValue bytes) := by
    intro width_eq
    obtain ⟨low, high⟩ := @leValue_bounds bytes 3 width_eq digits
    rw [width_eq] at small
    rw [asSigned, if_pos (by omega)]
    omega
  have eight : bytes.length = 8 → number < asSigned 64 (leValue bytes) := by
    intro width_eq
    obtain ⟨low, high⟩ := @leValue_bounds bytes 7 width_eq digits
    rw [width_eq] at small
    rw [asSigned, if_pos (by omega)]
    omega
  cases type with
  | int | date =>
      obtain rfl := Option.some.inj typed
      by_cases width_eq : bytes.length = 4
      · exact .inr ⟨width_eq, _, four width_eq, if_pos width_eq⟩
      · exact .inl ⟨width_eq, if_neg width_eq⟩
  | long | timestamp =>
      obtain rfl := Option.some.inj typed
      by_cases width_eq : bytes.length = 8
      · exact .inr ⟨width_eq, _, eight width_eq, if_pos width_eq⟩
      · exact .inl ⟨width_eq, if_neg width_eq⟩
  | _ => cases typed

/-! ## Bounds as they are read -/

open Skipping (Comparing)

/-- What a reader takes for the bound of a statistic. -/
def readBound (type : SingleType) (statistic : Option StatisticValue) : Option SingleValue :=
  (boundBytes statistic).bind (decodeSingle type)

variable {type : SingleType} {stats : ColumnStatistics} {values : List SingleValue}

theorem exists_of_mem_readBound {type : SingleType} {held : Option StatisticValue}
    {bound : SingleValue} (bound_mem : bound ∈ readBound type held) :
    ∃ statistic, held = some statistic ∧ readBound type (some statistic) = some bound := by
  cases held with
  | none => cases bound_mem
  | some statistic => exact ⟨statistic, rfl, bound_mem⟩

variable {statistic : StatisticValue}

/-- A truth value or a text is read as it was shown. -/
theorem readBound_of_shows (plain : type = .boolean ∨ type = .string) {value : SingleValue}
    (shown : type.shows statistic = some value) : readBound type (some statistic) = some value := by
  rcases plain with rfl | rfl
  · cases statistic with
    | bool own =>
        cases shown
        cases own <;> rfl
    | _ => cases shown
  · cases statistic with
    | string own =>
        cases shown
        rw [readBound, boundBytes, Option.bind_some, decodeSingle, Json.utf8Decode_utf8,
          Option.map_some, String.ofList_toList]
    | _ => cases shown

/-- The statistics of types with a width are integers. -/
theorem Shows.integer {width : Nat} (typed : type.width = some width)
    {extreme : SingleValue → SingleValue → Prop} (shows' : Shows type values extreme statistic) :
    ∃ number, statistic = .int number ∧ .integer number ∈ values ∧
      ∀ other ∈ values, extreme (.integer number) other := by
  rcases shows' with ⟨rfl | rfl, -⟩ | ⟨value, member, shown, bound⟩
  · cases typed
  · cases typed
  · cases type <;> cases typed <;> cases statistic <;> cases shown <;>
      exact ⟨_, rfl, member, bound⟩

theorem within_integer_iff {width : Nat} (typed : type.width = some width)
    (recorded : Recorded type stats values) :
    (∀ value ∈ values, Comparing.Within (readBound type stats.min) (readBound type stats.max)
      value) ↔
      ¬ ∃ number, stats.min = some (.int number) ∧ (toString number).toList.length = width := by
  constructor
  · rintro within ⟨number, min_eq, length_eq⟩
    obtain ⟨own, same, member, -⟩ := (recorded.min _ min_eq).integer typed
    cases same
    rcases decodeSingle_digits typed number with ⟨other, -⟩ | ⟨-, read, less, read_eq⟩
    · exact other length_eq
    · have low := (within _ member).1 (.integer read) (by rw [min_eq]; exact read_eq)
      rw [SingleValue.integer_le] at low
      omega
  · intro unread value member
    constructor
    · intro bound bound_eq
      obtain ⟨statistic, min_eq, bound_eq⟩ := exists_of_mem_readBound bound_eq
      obtain ⟨number, rfl, -, -⟩ := (recorded.min _ min_eq).integer typed
      rcases decodeSingle_digits typed number with ⟨-, none_eq⟩ | ⟨length_eq, -⟩
      · exact absurd (bound_eq.symm.trans none_eq) (by simp)
      · exact absurd ⟨number, min_eq, length_eq⟩ unread
    · intro bound bound_eq
      obtain ⟨statistic, max_eq, bound_eq⟩ := exists_of_mem_readBound bound_eq
      obtain ⟨number, rfl, -, greatest⟩ := (recorded.max _ max_eq).integer typed
      rcases decodeSingle_digits typed number with ⟨-, none_eq⟩ | ⟨-, read, less, read_eq⟩
      · exact absurd (bound_eq.symm.trans none_eq) (by simp)
      · obtain rfl := Option.some.inj (bound_eq.symm.trans read_eq)
        exact (greatest value member).trans (SingleValue.integer_le.mpr less.le)

theorem within_of_exact (plain : type = .boolean ∨ type = .string)
    (recorded : Recorded type stats values) :
    ∀ value ∈ values, Comparing.Within (readBound type stats.min) (readBound type stats.max)
      value := by
  have shown : ∀ {extreme : SingleValue → SingleValue → Prop} {statistic : StatisticValue},
      Shows type values extreme statistic → ∀ bound ∈ readBound type (some statistic),
        ∀ value ∈ values, extreme bound value := by
    rintro extreme statistic (⟨rfl | rfl, -⟩ | ⟨least, -, least_eq, extremal⟩) bound bound_eq
    · rcases plain with same | same <;> cases same
    · rcases plain with same | same <;> cases same
    · rw [readBound_of_shows plain least_eq] at bound_eq
      obtain rfl := Option.some.inj bound_eq
      exact extremal
  intro value member
  constructor
  · intro bound bound_eq
    obtain ⟨statistic, min_eq, bound_eq⟩ := exists_of_mem_readBound bound_eq
    exact shown (recorded.min _ min_eq) bound bound_eq value member
  · intro bound bound_eq
    obtain ⟨statistic, max_eq, bound_eq⟩ := exists_of_mem_readBound bound_eq
    exact shown (recorded.max _ max_eq) bound bound_eq value member

/-- The statistics of floats are floats. -/
theorem Shows.float (float : type = .float ∨ type = .double)
    {extreme : SingleValue → SingleValue → Prop} (shows' : Shows type values extreme statistic) :
    ∃ text, statistic = .float text := by
  rcases shows' with ⟨-, shown⟩ | ⟨value, -, shown, -⟩
  · exact shown
  · rcases float with rfl | rfl <;> cases statistic <;> cases shown

theorem within_float_iff (float : type = .float ∨ type = .double)
    (recorded : Recorded type stats values) :
    (∀ value ∈ values, Comparing.Within (readBound type stats.min) (readBound type stats.max)
      value) ↔
      ¬ ((∃ text bound, stats.min = some (.float text) ∧
          decodeSingle type (utf8 text.toList) = some bound ∧ ∃ value ∈ values, value < bound) ∨
        ∃ text bound, stats.max = some (.float text) ∧
          decodeSingle type (utf8 text.toList) = some bound ∧ ∃ value ∈ values, bound < value) := by
  constructor
  · rintro within (⟨text, bound, min_eq, bound_eq, value, member, less⟩ |
      ⟨text, bound, max_eq, bound_eq, value, member, less⟩)
    · have low := (within value member).1 bound (by rw [min_eq]; exact bound_eq)
      exact absurd less low.not_gt
    · have high := (within value member).2 bound (by rw [max_eq]; exact bound_eq)
      exact absurd less high.not_gt
  · intro unread value member
    constructor
    · intro bound bound_eq
      obtain ⟨statistic, min_eq, bound_eq⟩ := exists_of_mem_readBound bound_eq
      obtain ⟨text, rfl⟩ := (recorded.min _ min_eq).float float
      by_contra beyond
      exact unread (.inl ⟨text, bound, min_eq, bound_eq, value, member, not_le.mp beyond⟩)
    · intro bound bound_eq
      obtain ⟨statistic, max_eq, bound_eq⟩ := exists_of_mem_readBound bound_eq
      obtain ⟨text, rfl⟩ := (recorded.max _ max_eq).float float
      by_contra beyond
      exact unread (.inr ⟨text, bound, max_eq, bound_eq, value, member, not_le.mp beyond⟩)

/-- Columns of other types have no statistics. -/
theorem within_other (other : type = .binary ∨ type = .fixed ∨ type = .decimal)
    (recorded : Recorded type stats values) (value : SingleValue) :
    Comparing.Within (readBound type stats.min) (readBound type stats.max) value := by
  have absent : ∀ {extreme : SingleValue → SingleValue → Prop} {statistic : StatisticValue},
      ¬ Shows type values extreme statistic := by
    rintro extreme statistic (⟨same, -⟩ | ⟨_, -, shown, -⟩)
    · rcases other with rfl | rfl | rfl <;> rcases same with same | same <;> cases same
    · rcases other with rfl | rfl | rfl <;> cases shown
  have min_eq : stats.min = none :=
    Option.eq_none_iff_forall_not_mem.mpr fun statistic held => absent (recorded.min _ held)
  have max_eq : stats.max = none :=
    Option.eq_none_iff_forall_not_mem.mpr fun statistic held => absent (recorded.max _ held)
  rw [min_eq, max_eq]
  exact ⟨nofun, nofun⟩

/-- All values of a column lie between its bounds as they are read, unless one is misread. -/
theorem within_iff (recorded : Recorded type stats values) :
    (∀ value ∈ values, Comparing.Within (readBound type stats.min) (readBound type stats.max)
      value) ↔ ¬ Misread type stats values := by
  cases type with
  | boolean => exact iff_of_true (within_of_exact (.inl rfl) recorded) id
  | int => exact within_integer_iff rfl recorded
  | long => exact within_integer_iff rfl recorded
  | float => exact within_float_iff (.inl rfl) recorded
  | double => exact within_float_iff (.inr rfl) recorded
  | date => exact within_integer_iff rfl recorded
  | timestamp => exact within_integer_iff rfl recorded
  | string => exact iff_of_true (within_of_exact (.inr rfl) recorded) id
  | binary => exact iff_of_true (fun value _ => within_other (.inl rfl) recorded value) id
  | fixed => exact iff_of_true (fun value _ => within_other (.inr (.inl rfl)) recorded value) id
  | decimal => exact iff_of_true (fun value _ => within_other (.inr (.inr rfl)) recorded value) id

/-! ## What is recorded -/

/-- A statistic is written as a JSON value, a float as some text. -/
inductive Writes : Statistic → StatisticValue → Prop
  | bool (value : Bool) : Writes (.scalar (.bool value)) (.bool value)
  | int (value : Int) : Writes (.scalar (.int value)) (.int value)
  | string (value : String) : Writes (.scalar (.string value)) (.string value)
  | float (value : ℚ) (text : String) : Writes (.float value) (.float text)

/-- A value as a reader gets it.  It compares no float with one that is no number. -/
def singleOf : CellValue → Option SingleValue
  | .scalar (.bool value) => some (.boolean value)
  | .scalar (.int value) => some (.integer value)
  | .scalar (.string value) => some (.text value)
  | .float (.number value) => some (.float value)
  | .float .nan => none

/-- The types that columns are exported as. -/
inductive ExportedAs : ColumnArray → SingleType → Prop
  | boolean (values : List (Option Bool)) : ExportedAs (.boolean values) .boolean
  | int (values : List (Option Int)) : ExportedAs (.integer values) .int
  | long (values : List (Option Int)) : ExportedAs (.integer values) .long
  | timestamp (values : List (Option Int)) : ExportedAs (.integer values) .timestamp
  | float (values : List (Option FloatValue)) : ExportedAs (.float32 values) .float
  | double (values : List (Option FloatValue)) : ExportedAs (.float64 values) .double
  | string (values : List (Option String)) : ExportedAs (.text values) .string
  | other (valid : List Bool) (type : SingleType) : ExportedAs (.other valid) type

theorem exists_of_rel_map {α : Type} {found : Option α} {json : α → Statistic}
    (rel : Option.Rel Writes (found.map json) (some statistic)) :
    ∃ value, found = some value ∧ Writes (json value) statistic := by
  cases found with
  | none => cases rel
  | some value =>
      cases rel with
      | some writes => exact ⟨value, rfl, writes⟩

/-- Bounds that are elements of a column are recorded as its extreme values. -/
theorem recorded_of_extremes {α : Type} [LinearOrder α] {list : List α} {json : α → Statistic}
    {single : α → SingleValue} (monotone : ∀ left right, left ≤ right → single left ≤ single right)
    (shown : ∀ value statistic, Writes (json value) statistic →
      type.shows statistic = some (single value))
    (min : Option.Rel Writes (ColumnBounds.record json (ColumnBounds.extremes id list)).1 stats.min)
    (max : Option.Rel Writes (ColumnBounds.record json (ColumnBounds.extremes id list)).2
      stats.max) : Recorded type stats (list.map single) := by
  constructor
  · intro statistic statistic_eq
    rw [Option.mem_def.mp statistic_eq] at min
    obtain ⟨least, least_eq, writes⟩ := exists_of_rel_map min
    refine .inr ⟨single least, List.mem_map_of_mem (List.argmin_mem least_eq),
      shown least statistic writes, ?_⟩
    rw [List.forall_mem_map]
    exact fun other member => monotone least other (List.le_of_mem_argmin member least_eq)
  · intro statistic statistic_eq
    rw [Option.mem_def.mp statistic_eq] at max
    obtain ⟨greatest, greatest_eq, writes⟩ := exists_of_rel_map max
    refine .inr ⟨single greatest, List.mem_map_of_mem (List.argmax_mem greatest_eq),
      shown greatest statistic writes, ?_⟩
    rw [List.forall_mem_map]
    exact fun other member => monotone other greatest (List.le_of_mem_argmax member greatest_eq)

/-- Bounds of floats are recorded as floats. -/
theorem recorded_of_floats {reparse : ℚ → ℚ} (float : type = .float ∨ type = .double)
    {bounds : Option ℚ × Option ℚ}
    (min : Option.Rel Writes
      (ColumnBounds.record (ColumnBounds.canonicalizeJsonValue reparse) bounds).1 stats.min)
    (max : Option.Rel Writes
      (ColumnBounds.record (ColumnBounds.canonicalizeJsonValue reparse) bounds).2 stats.max) :
    Recorded type stats values := by
  constructor
  · intro statistic statistic_eq
    rw [Option.mem_def.mp statistic_eq] at min
    obtain ⟨_, -, writes⟩ := exists_of_rel_map min
    cases writes with
    | float _ text => exact .inl ⟨float, text, rfl⟩
  · intro statistic statistic_eq
    rw [Option.mem_def.mp statistic_eq] at max
    obtain ⟨_, -, writes⟩ := exists_of_rel_map max
    cases writes with
    | float _ text => exact .inl ⟨float, text, rfl⟩

/-- The statistics that are computed for a column record its values. -/
theorem recorded_computeMinMax {reparse : ℚ → ℚ} {array : ColumnArray}
    (typed : ExportedAs array type)
    (min : Option.Rel Writes (ColumnBounds.computeMinMax reparse array).1 stats.min)
    (max : Option.Rel Writes (ColumnBounds.computeMinMax reparse array).2 stats.max) :
    Recorded type stats (array.values.filterMap singleOf) := by
  have integers : ∀ list : List (Option Int), ColumnArray.integer list = array →
      (∀ value, type.shows (.int value) = some (.integer value)) →
        Recorded type stats (array.values.filterMap singleOf) := by
    rintro list rfl shown
    have recorded : Recorded type stats (list.reduceOption.map SingleValue.integer) := by
      apply recorded_of_extremes (fun _ _ le => SingleValue.integer_le.mpr le) _ min max
      intro value statistic writes
      cases writes
      exact shown value
    simpa [ColumnArray.values, singleOf, List.filterMap_map, Function.comp_def] using recorded
  cases typed with
  | boolean list =>
      have recorded : Recorded .boolean stats (list.reduceOption.map SingleValue.boolean) := by
        apply recorded_of_extremes (fun _ _ le => SingleValue.boolean_le.mpr le) _ min max
        intro value statistic writes
        cases writes
        rfl
      simpa [ColumnArray.values, singleOf, List.filterMap_map, Function.comp_def] using recorded
  | int list => exact integers list rfl fun _ => rfl
  | long list => exact integers list rfl fun _ => rfl
  | timestamp list => exact integers list rfl fun _ => rfl
  | float list => exact recorded_of_floats (.inl rfl) min max
  | double list =>
      simp only [ColumnBounds.computeMinMax] at min max
      split at min
      · next unbounded =>
          rw [if_pos unbounded] at max
          exact recorded_of_floats (.inr rfl) min max
      · next bounded =>
          rw [if_neg bounded] at max
          exact recorded_of_floats (.inr rfl) min max
  | string list =>
      have recorded : Recorded .string stats (list.reduceOption.map SingleValue.text) := by
        apply recorded_of_extremes (fun _ _ le => SingleValue.text_le.mpr le) _ min max
        intro value statistic writes
        cases writes
        rfl
      simpa [ColumnArray.values, singleOf, List.filterMap_map, Function.comp_def] using recorded
  | other valid =>
      constructor
      · intro statistic statistic_eq
        rw [Option.mem_def.mp statistic_eq] at min
        cases min
      · intro statistic statistic_eq
        rw [Option.mem_def.mp statistic_eq] at max
        cases max

end Iceberg

end IcefallDB
