import IcefallDB.FooterStats

/-!
# Statistics of columns from footers

The footer of a Parquet file holds the least and greatest value of each column as they are stored.
Where they are there and tell the values, they are recorded as those of the rows are.
-/

namespace IcefallDB

open ColumnBounds

namespace InsertParquet

/-! ## Stored integers -/

/-- Integers as they are stored in 32 bits, without a sign. -/
theorem toNat_ofInt32 (value : Int) :
    (Int32.ofInt value).toUInt32.toNat = (value % 2 ^ 32).toNat :=
  BitVec.toNat_ofInt value

/-- Integers as they are stored in 64 bits, without a sign. -/
theorem toNat_ofInt64 (value : Int) :
    (Int64.ofInt value).toUInt64.toNat = (value % 2 ^ 64).toNat :=
  BitVec.toNat_ofInt value

theorem castInt32_ofInt {dataType : DataType} {cast : Int32 → Int}
    (casts : castInt32 dataType = some cast) (value : Int) :
    cast (Int32.ofInt value) = value ↔ InRange dataType value := by
  cases dataType <;> cases casts <;>
    simp only [InRange, Int32.toInt_toInt8, Int32.toInt_toInt16, Int32.toInt_ofInt,
      UInt32.toNat_toUInt8, UInt32.toNat_toUInt16, toNat_ofInt32, Int.bmod_def, Int32.size] <;>
    (try split) <;> (try split) <;> omega

theorem castInt64_ofInt {dataType : DataType} {cast : Int64 → Int}
    (casts : castInt64 dataType = some cast) (value : Int) :
    cast (Int64.ofInt value) = value ↔ InRange dataType value := by
  cases dataType <;> cases casts <;>
    simp only [InRange, Int64.toInt_ofInt, toNat_ofInt64, Int.bmod_def, Int64.size] <;>
    (try split) <;> omega

theorem inRange_of_le {dataType : DataType} {least value greatest : Int}
    (least_fits : InRange dataType least) (greatest_fits : InRange dataType greatest)
    (least_le : least ≤ value) (le_greatest : value ≤ greatest) : InRange dataType value := by
  cases dataType <;> simp only [InRange] at least_fits greatest_fits ⊢ <;> omega

/-! ## Bounds -/

/-- A bound that is an extreme value as it is stored is recorded as the value is, if it is there and
read as the value. -/
theorem bind_eq_map_iff {α β : Type} {bound : Option β} {extreme : Option α} {stored : α → β}
    {read : β → Option Statistic} {json : α → Statistic}
    (exact : ∀ value, bound = some value → extreme.map stored = some value) :
    bound.bind read = extreme.map json ↔
      ∀ value, extreme = some value → bound.isSome ∧ read (stored value) = some (json value) := by
  cases extreme with
  | none =>
      cases bound with
      | none => simp
      | some value => exact absurd (exact value rfl) (Option.some_ne_none value).symm
  | some least =>
      cases bound with
      | none => simp
      | some value =>
          obtain rfl := Option.some.inj (exact value rfl)
          simp


/-! ## Finite floats -/

theorem filterMap_finite?_filter (floats : List FloatValue) :
    (floats.filter (· ≠ .nan)).filterMap FloatValue.finite? =
      floats.filterMap FloatValue.finite? := by
  rw [List.filterMap_filter]
  apply List.filterMap_congr
  intro float _
  cases float <;> rfl

section

variable {reparse : ℚ → ℚ} {bound extreme : Option FloatValue} {finite : Option ℚ}

/-- A bound of floats that is an extreme float is recorded as the extreme finite float is, if it is
there, finite and read back as it is. -/
theorem bind_ofFloat_eq_map_iff (exact : ∀ value, bound = some value → extreme = some value)
    (of_finite : ∀ value, extreme = some (.number (.finite value)) → finite = some value) :
    bound.bind ofFloat = finite.map (canonicalizeJsonValue reparse) ↔
      ∀ value, finite = some value → ∃ float, bound = some float ∧
        ∃ value, float = .number (.finite value) ∧ reparse value = value := by
  cases recorded : bound.bind ofFloat with
  | none =>
      constructor
      · intro same value found
        rw [found] at same
        cases same
      · intro told
        cases found : finite with
        | none => rfl
        | some value =>
            obtain ⟨float, rfl, value, rfl, -⟩ := told value found
            cases recorded
  | some statistic =>
      obtain ⟨float, rfl, json⟩ := Option.bind_eq_some_iff.mp recorded
      obtain ⟨value, value_eq, rfl⟩ := Option.map_eq_some_iff.mp json
      obtain rfl := FloatValue.finite?_eq_some.mp value_eq
      rw [of_finite value (exact _ rfl)]
      constructor
      · intro same _ _
        have fixed := Statistic.float.inj (Option.some.inj same)
        exact ⟨_, rfl, value, rfl, fixed.symm⟩
      · intro told
        obtain ⟨_, same, own, rfl, fixed⟩ := told value rfl
        obtain rfl := Extended.finite_inj.mp (FloatValue.number.inj (Option.some.inj same))
        rw [Option.map_some, canonicalizeJsonValue, fixed]

end

/-! ## Texts -/

theorem ofUtf8_utf8 (text : String) : ofUtf8 (Json.utf8 text.toList) = some (ofText text) := by
  rw [ofUtf8, Json.utf8Decode_utf8, Option.map_some, String.ofList_toList]

theorem utf8_of_ofUtf8 {bytes : List UInt8} {text : String}
    (read : ofUtf8 bytes = some (ofText text)) : bytes = Json.utf8 text.toList := by
  obtain ⟨chars, decoded, same⟩ := Option.map_eq_some_iff.mp read
  have texts : String.ofList chars = text := by
    rw [ofText, ofText] at same
    exact Scalar.string.inj (Statistic.scalar.inj same)
  rw [← texts, String.toList_ofList, Json.utf8_of_utf8Decode decoded]

/-- A bound of texts is recorded as the extreme text is, if it is there and is one of the texts. -/
theorem bind_ofUtf8_eq_map_iff {texts : List String} {bound : Option (List UInt8)}
    {extreme : Option String} (nonempty : bound.isSome → texts ≠ [])
    (member : ∀ text, extreme = some text → text ∈ texts)
    (none_iff : extreme = none ↔ texts = [])
    (of_member : ∀ text ∈ texts, bound = some (Json.utf8 text.toList) → extreme = some text) :
    bound.bind ofUtf8 = extreme.map ofText ↔
      ∀ text, extreme = some text → ∃ bytes, bound = some bytes ∧
        ∃ text ∈ texts, bytes = Json.utf8 text.toList := by
  constructor
  · intro same text found
    rw [found] at same
    obtain ⟨bytes, rfl, read⟩ := Option.bind_eq_some_iff.mp same
    exact ⟨bytes, rfl, text, member text found, utf8_of_ofUtf8 read⟩
  · intro told
    cases found : extreme with
    | none =>
        cases bound with
        | none => rfl
        | some bytes => exact absurd (none_iff.mp found) (nonempty rfl)
    | some text =>
        obtain ⟨bytes, rfl, own, own_mem, rfl⟩ := told text found
        have same := of_member own own_mem rfl
        rw [found] at same
        obtain rfl := Option.some.inj same
        exact ofUtf8_utf8 text

/-! ## Statistics of a column -/

section

variable {α β κ : Type} [LinearOrder κ] {key : α → κ} {list : List α}

theorem record_extremes_eq_none_iff {json : α → Statistic} :
    record json (extremes key list) = (none, none) ↔ list = [] := by
  rcases extremes_cases key list with ⟨rfl, found⟩ | ⟨least, greatest, found⟩
  · simp [found, record]
  · have nonempty : list ≠ [] := List.ne_nil_of_mem (mem_of_extremes found).1
    simp [found, record, nonempty]

/-- What holds of both extremes holds if there are any. -/
theorem forall_extremes_iff {low high : Prop} :
    ((∀ value, (extremes key list).1 = some value → low) ∧
        ∀ value, (extremes key list).2 = some value → high) ↔ (list ≠ [] → low ∧ high) := by
  rcases extremes_cases key list with ⟨rfl, found⟩ | ⟨least, greatest, found⟩
  · simp [found]
  · have nonempty : list ≠ [] := List.ne_nil_of_mem (mem_of_extremes found).1
    simp [found, nonempty]

/-- Exact bounds are recorded as the extremes are, if they are there and read as these. -/
theorem toJson_eq_record_iff {stats : ValueStatistics β} {stored : α → β}
    {read : β → Option Statistic} {json : α → Statistic}
    (exact : stats.Exact stored (extremes key list)) :
    stats.toJson read = record json (extremes key list) ↔
      ∀ least greatest, extremes key list = (some least, some greatest) →
        (stats.Bounded fun _ => True) ∧ read (stored least) = some (json least) ∧
          read (stored greatest) = some (json greatest) := by
  rw [ValueStatistics.toJson, record, Prod.mk.injEq, bind_eq_map_iff exact.min,
    bind_eq_map_iff exact.max]
  rcases extremes_cases key list with ⟨-, found⟩ | ⟨least, greatest, found⟩
  · simp [found]
  · rw [found]
    constructor
    · rintro ⟨low, high⟩ _ _ same
      obtain ⟨rfl, rfl⟩ : least = _ ∧ greatest = _ := by simpa using same
      obtain ⟨min_some, low_read⟩ := low least rfl
      obtain ⟨max_some, high_read⟩ := high greatest rfl
      obtain ⟨min, min_eq⟩ := Option.isSome_iff_exists.mp min_some
      obtain ⟨max, max_eq⟩ := Option.isSome_iff_exists.mp max_some
      exact ⟨⟨⟨min, min_eq, trivial⟩, max, max_eq, trivial⟩, low_read, high_read⟩
    · intro both
      obtain ⟨⟨⟨min, min_eq, -⟩, max, max_eq, -⟩, low_read, high_read⟩ := both least greatest rfl
      constructor
      · rintro _ ⟨⟩
        exact ⟨Option.isSome_iff_exists.mpr ⟨min, min_eq⟩, low_read⟩
      · rintro _ ⟨⟩
        exact ⟨Option.isSome_iff_exists.mpr ⟨max, max_eq⟩, high_read⟩

end

theorem finiteValues_boolean (values : List (Option Bool)) :
    finiteValues (.boolean values) =
      values.reduceOption.map fun value => .scalar (.bool value) := by
  rw [finiteValues, ColumnArray.values, List.filterMap_map]
  exact congrFun List.filterMap_eq_map _

theorem finiteValues_integer (values : List (Option Int)) :
    finiteValues (.integer values) = values.reduceOption.map ofInt := by
  rw [finiteValues, ColumnArray.values, List.filterMap_map]
  exact congrFun List.filterMap_eq_map _

theorem finiteValues_text (values : List (Option String)) :
    finiteValues (.text values) = values.reduceOption.map ofText := by
  rw [finiteValues, ColumnArray.values, List.filterMap_map]
  exact congrFun List.filterMap_eq_map _

theorem filterMap_finiteStatistic_float (floats : List FloatValue) :
    (floats.map CellValue.float).filterMap finiteStatistic =
      (floats.filterMap FloatValue.finite?).map .float := by
  rw [List.filterMap_map, List.map_filterMap]
  rfl

theorem finiteValues_float32 (values : List (Option FloatValue)) :
    finiteValues (.float32 values) =
      (values.reduceOption.filterMap FloatValue.finite?).map .float :=
  filterMap_finiteStatistic_float _

theorem finiteValues_float64 (values : List (Option FloatValue)) :
    finiteValues (.float64 values) =
      (values.reduceOption.filterMap FloatValue.finite?).map .float :=
  filterMap_finiteStatistic_float _

section

variable {reparse : ℚ → ℚ} {dataType : DataType}

theorem computeMinMax_eq_none_iff (array : ColumnArray) :
    computeMinMax reparse array = (none, none) ↔ finiteValues array = [] := by
  cases array with
  | boolean values =>
      rw [computeMinMax, record_extremes_eq_none_iff, finiteValues_boolean, List.map_eq_nil_iff]
  | integer values =>
      rw [computeMinMax, record_extremes_eq_none_iff, finiteValues_integer, List.map_eq_nil_iff]
  | text values =>
      rw [computeMinMax, record_extremes_eq_none_iff, finiteValues_text, List.map_eq_nil_iff]
  | float32 values =>
      rw [computeMinMax, finiteFloatMinMax, record_extremes_eq_none_iff, finiteValues_float32,
        List.map_eq_nil_iff]
  | float64 values =>
      rw [computeMinMax_float64, finiteFloatMinMax, record_extremes_eq_none_iff,
        finiteValues_float64, List.map_eq_nil_iff]
  | other valid => exact ⟨fun _ => rfl, fun _ => rfl⟩

theorem boolean_bounds_iff {stats : ValueStatistics Bool} {values : List (Option Bool)}
    (exact : stats.Exact id (extremes id values.reduceOption)) :
    stats.toJson (fun value => some (.scalar (.bool value))) =
        computeMinMax reparse (.boolean values) ↔
      (finiteValues (.boolean values) ≠ [] → stats.Bounded fun _ => True) := by
  have read := @toJson_eq_record_iff Bool Bool Bool _ id values.reduceOption stats id
    (fun value => some (.scalar (.bool value))) (fun value => .scalar (.bool value)) exact
  rw [computeMinMax, read, finiteValues_boolean, ne_eq, List.map_eq_nil_iff]
  constructor
  · intro told nonempty
    rcases extremes_cases id values.reduceOption with ⟨empty, -⟩ | ⟨least, greatest, found⟩
    · exact absurd empty nonempty
    · exact (told least greatest found).1
  · intro told least greatest found
    exact ⟨told (List.ne_nil_of_mem (mem_of_extremes found).1), rfl, rfl⟩

theorem integer_bounds_iff {β : Type} {stats : ValueStatistics β} {stored : Int → β}
    {cast : β → Int} {values : List (Option Int)}
    (casts : ∀ value, cast (stored value) = value ↔ InRange dataType value)
    (exact : stats.Exact stored (extremes id values.reduceOption)) :
    stats.toJson (fun value => some (ofInt (cast value))) =
        computeMinMax reparse (.integer values) ↔
      (finiteValues (.integer values) ≠ [] →
        (∀ value ∈ values.reduceOption, InRange dataType value) ∧
          stats.Bounded fun _ => True) := by
  have read_iff : ∀ value, some (ofInt (cast (stored value))) = some (ofInt value) ↔
      InRange dataType value := by
    intro value
    rw [← casts value]
    simp [ofInt]
  rw [computeMinMax]
  rw [show record (fun value => .scalar (.int value)) (extremes id values.reduceOption) =
    record ofInt (extremes id values.reduceOption) from rfl, toJson_eq_record_iff exact,
    finiteValues_integer, ne_eq, List.map_eq_nil_iff]
  simp only [read_iff]
  constructor
  · intro told nonempty
    rcases extremes_cases id values.reduceOption with ⟨empty, -⟩ | ⟨least, greatest, found⟩
    · exact absurd empty nonempty
    · obtain ⟨bounded, least_fits, greatest_fits⟩ := told least greatest found
      refine ⟨fun value member => ?_, bounded⟩
      obtain ⟨least_le, le_greatest⟩ := extremes_bound found member
      exact inRange_of_le least_fits greatest_fits least_le le_greatest
  · intro told least greatest found
    obtain ⟨least_mem, greatest_mem⟩ := mem_of_extremes found
    obtain ⟨fits, bounded⟩ := told (List.ne_nil_of_mem least_mem)
    exact ⟨bounded, fits least least_mem, fits greatest greatest_mem⟩

theorem float_bounds_iff {stats : ValueStatistics FloatValue} {floats : List FloatValue}
    (exact : stats.Exact id (extremes FloatValue.rank (floats.filter (· ≠ .nan)))) :
    stats.toJson ofFloat = finiteFloatMinMax reparse floats ↔
      (floats.filterMap FloatValue.finite? ≠ [] → stats.Bounded fun bound =>
        ∃ value, bound = .number (.finite value) ∧ reparse value = value) := by
  have low_exact : ∀ value, stats.min = some value →
      (floats.filter (· ≠ .nan)).argmin FloatValue.rank = some value := by
    intro value found
    have same := exact.min value found
    rwa [Option.map_id] at same
  have high_exact : ∀ value, stats.max = some value →
      (floats.filter (· ≠ .nan)).argmax FloatValue.rank = some value := by
    intro value found
    have same := exact.max value found
    rwa [Option.map_id] at same
  have low := @bind_ofFloat_eq_map_iff reparse _ _ _ low_exact fun value found =>
    argmin_finite found
  have high := @bind_ofFloat_eq_map_iff reparse _ _ _ high_exact fun value found =>
    argmax_finite found
  rw [filterMap_finite?_filter] at low high
  rw [finiteFloatMinMax, ValueStatistics.toJson, record, Prod.mk.injEq, extremes, low, high]
  exact forall_extremes_iff.trans
    (imp_congr_right fun _ => ⟨fun both => ⟨both.1, both.2⟩, fun both => ⟨both.min, both.max⟩⟩)

theorem text_bounds_iff {stats : ValueStatistics (List UInt8)} {texts : List String}
    (valid : stats.BoundsTexts texts) :
    stats.toJson ofUtf8 = record ofText (extremes id texts) ↔
      (texts ≠ [] → stats.Bounded fun bound => ∃ text ∈ texts, bound = Json.utf8 text.toList) := by
  have low := bind_ofUtf8_eq_map_iff (fun there => valid.nonempty (.inl there))
    (fun text found => List.argmin_mem found) (List.argmin_eq_none (f := id) (l := texts)) (by
      intro text member found
      rw [argmin_id_eq_some]
      refine ⟨member, fun other inside => not_lt.mp fun less => ?_⟩
      exact valid.min _ found other inside (Json.utf8_lt_utf8 (String.lt_iff_toList_lt.mp less)))
  have high := bind_ofUtf8_eq_map_iff (fun there => valid.nonempty (.inr there))
    (fun text found => List.argmax_mem found) (List.argmax_eq_none (f := id) (l := texts)) (by
      intro text member found
      rw [argmax_id_eq_some]
      refine ⟨member, fun other inside => not_lt.mp fun less => ?_⟩
      exact valid.max _ found other inside (Json.utf8_lt_utf8 (String.lt_iff_toList_lt.mp less)))
  rw [ValueStatistics.toJson, record, Prod.mk.injEq, extremes, low, high]
  exact forall_extremes_iff.trans
    (imp_congr_right fun _ => ⟨fun both => ⟨both.1, both.2⟩, fun both => ⟨both.min, both.max⟩⟩)

/-- Bounds that are stored as no value of the type of the column are not read, and tell nothing. -/
theorem eq_iff_of_unread {stats : Statistics} {array : ColumnArray}
    (unread : parquetStatsToJson dataType stats = (none, none))
    (untold : ¬stats.Tells reparse dataType array) :
    parquetStatsToJson dataType stats = computeMinMax reparse array ↔
      (finiteValues array ≠ [] → stats.Tells reparse dataType array) := by
  rw [unread, eq_comm, computeMinMax_eq_none_iff]
  constructor
  · intro empty nonempty
    exact absurd empty nonempty
  · intro told
    by_contra nonempty
    exact untold (told nonempty)

/-- Valid bounds of the footer are recorded as those of the rows are exactly if they tell them. -/
theorem parquetStatsToJson_eq_iff {stats : Statistics} {array : ColumnArray}
    (valid : stats.ValidBounds array) :
    parquetStatsToJson dataType stats = computeMinMax reparse array ↔
      (finiteValues array ≠ [] → stats.Tells reparse dataType array) := by
  match stats, array, valid with
  | .boolean stats, .boolean values, exact =>
      by_cases fits : dataType = .boolean
      · subst fits
        exact boolean_bounds_iff exact
      · apply eq_iff_of_unread
        · cases dataType <;> first | rfl | exact absurd rfl fits
        · cases dataType <;> first | exact id | exact absurd rfl fits
  | .int32 stats, .integer values, exact =>
      cases casts : castInt32 dataType with
      | none =>
          apply eq_iff_of_unread
          · cases dataType <;> simp only [parquetStatsToJson, casts]
          · cases dataType <;> simp [Statistics.Tells, casts]
      | some cast =>
          have read : parquetStatsToJson dataType (.int32 stats) =
              stats.toJson fun value => some (ofInt (cast value)) := by
            cases dataType <;> simp only [parquetStatsToJson, casts]
          have told_iff : (Statistics.int32 stats).Tells reparse dataType (.integer values) ↔
              (∀ value ∈ values.reduceOption, InRange dataType value) ∧
                stats.Bounded fun _ => True := by
            cases dataType <;> simp [Statistics.Tells, casts]
          rw [read, integer_bounds_iff (castInt32_ofInt casts) exact, told_iff]
  | .int64 stats, .integer values, exact =>
      cases casts : castInt64 dataType with
      | none =>
          apply eq_iff_of_unread
          · cases dataType <;> simp only [parquetStatsToJson, casts]
          · cases dataType <;> simp [Statistics.Tells, casts]
      | some cast =>
          have read : parquetStatsToJson dataType (.int64 stats) =
              stats.toJson fun value => some (ofInt (cast value)) := by
            cases dataType <;> simp only [parquetStatsToJson, casts]
          have told_iff : (Statistics.int64 stats).Tells reparse dataType (.integer values) ↔
              (∀ value ∈ values.reduceOption, InRange dataType value) ∧
                stats.Bounded fun _ => True := by
            cases dataType <;> simp [Statistics.Tells, casts]
          rw [read, integer_bounds_iff (castInt64_ofInt casts) exact, told_iff]
  | .float stats, .float32 values, exact =>
      by_cases fits : dataType = .float32
      · subst fits
        rw [parquetStatsToJson, computeMinMax, float_bounds_iff exact, finiteValues_float32, ne_eq,
          ne_eq, List.map_eq_nil_iff]
        rfl
      · apply eq_iff_of_unread
        · cases dataType <;> first | rfl | exact absurd rfl fits
        · cases dataType <;> first | exact id | exact absurd rfl fits
  | .double stats, .float64 values, exact =>
      by_cases fits : dataType = .float64
      · subst fits
        rw [parquetStatsToJson, computeMinMax_float64, float_bounds_iff exact,
          finiteValues_float64, ne_eq, ne_eq, List.map_eq_nil_iff]
        rfl
      · apply eq_iff_of_unread
        · cases dataType <;> first | rfl | exact absurd rfl fits
        · cases dataType <;> first | exact id | exact absurd rfl fits
  | .byteArray stats, .text values, valid =>
      by_cases fits : dataType = .utf8 ∨ dataType = .largeUtf8
      · have texts := text_bounds_iff valid
        rw [computeMinMax, finiteValues_text, ne_eq, List.map_eq_nil_iff]
        rcases fits with rfl | rfl
        · exact texts
        · exact texts
      · apply eq_iff_of_unread
        · cases dataType <;> first | rfl | exact absurd (by simp) fits
        · cases dataType <;> first | exact id | exact absurd (by simp) fits
  | .other count, array, _ =>
      apply eq_iff_of_unread
      · cases dataType <;> rfl
      · cases dataType <;> cases array <;> exact id

end

/-! ## One value -/

/-- The value that a list repeats, if it repeats one. -/
def soleValue : List Statistic → Option Statistic
  | [] => none
  | first :: rest => if ∀ other ∈ rest, other = first then some first else none

/-- A column has finite values, and these are one value. -/
def Single (array : ColumnArray) : Prop :=
  finiteValues array ≠ [] ∧ ∃ value, ∀ other ∈ finiteValues array, other = value

theorem soleValue_eq_some_iff {list : List Statistic} {value : Statistic} :
    soleValue list = some value ↔ list ≠ [] ∧ ∀ other ∈ list, other = value := by
  cases list with
  | nil => simp [soleValue]
  | cons first rest =>
      rw [soleValue]
      split
      · next same =>
          constructor
          · intro sole
            obtain rfl := Option.some.inj sole
            exact ⟨List.cons_ne_nil _ _, List.forall_mem_cons.mpr ⟨rfl, same⟩⟩
          · rintro ⟨-, all⟩
            exact congrArg some (all first List.mem_cons_self)
      · next differ =>
          constructor
          · nofun
          · rintro ⟨-, all⟩
            obtain ⟨rfl, rest_all⟩ := List.forall_mem_cons.mp all
            exact absurd rest_all differ

variable {array : ColumnArray}

theorem isSome_soleValue_iff : (soleValue (finiteValues array)).isSome ↔ Single array := by
  rw [Option.isSome_iff_exists]
  simp only [soleValue_eq_some_iff]
  exact ⟨fun ⟨value, some_values, all⟩ => ⟨some_values, value, all⟩,
    fun ⟨some_values, value, all⟩ => ⟨value, some_values, all⟩⟩

/-- Least and greatest value are recorded as one exactly if there is one value. -/
theorem record_extremes_single {α : Type} [LinearOrder α] {json : α → Statistic}
    (injective : Function.Injective json) (list : List α) :
    (if (record json (extremes id list)).1 = (record json (extremes id list)).2 then
      (record json (extremes id list)).1 else none) = soleValue (list.map json) := by
  rcases extremes_cases id list with ⟨rfl, found⟩ | ⟨least, greatest, found⟩
  · rw [found]
    rfl
  · obtain ⟨least_mem, greatest_mem⟩ := mem_of_extremes found
    rw [found]
    simp only [record, Option.map_some, Option.some.injEq]
    split
    · next same =>
        symm
        rw [soleValue_eq_some_iff, ne_eq, List.map_eq_nil_iff, List.forall_mem_map]
        refine ⟨List.ne_nil_of_mem least_mem, fun value member => congrArg json ?_⟩
        obtain ⟨least_le, le_greatest⟩ := extremes_bound found member
        rw [← injective same] at le_greatest
        exact le_antisymm le_greatest least_le
    · next differ =>
        symm
        rw [Option.eq_none_iff_forall_ne_some]
        intro value sole
        obtain ⟨-, all⟩ := soleValue_eq_some_iff.mp sole
        have low := all _ (List.mem_map_of_mem least_mem)
        have high := all _ (List.mem_map_of_mem greatest_mem)
        exact differ (low.trans high.symm)

theorem computeMinMax_single (array : ColumnArray) :
    (if (computeMinMax id array).1 = (computeMinMax id array).2 then (computeMinMax id array).1
      else none) = soleValue (finiteValues array) := by
  cases array with
  | boolean values =>
      rw [finiteValues_boolean]
      exact record_extremes_single (fun _ _ same => by simpa using same) _
  | integer values =>
      rw [finiteValues_integer]
      exact record_extremes_single (fun _ _ same => by simpa [ofInt] using same) _
  | text values =>
      rw [finiteValues_text]
      exact record_extremes_single (fun _ _ same => by simpa [ofText] using same) _
  | float32 values =>
      rw [finiteValues_float32]
      exact record_extremes_single (fun _ _ same => Statistic.float.inj same) _
  | float64 values =>
      rw [finiteValues_float64, computeMinMax_float64]
      exact record_extremes_single (fun _ _ same => Statistic.float.inj same) _
  | other valid => rfl

/-! ## Recorded statistics -/

/-- Statistics of a column, from those of its column chunk. -/
def footerStats (dataType : DataType) (stats : Statistics) : ArrayStats :=
  { min := (parquetStatsToJson dataType stats).1
    max := (parquetStatsToJson dataType stats).2
    nulls := stats.nullCount.getD 0 }

variable {stats : Statistics}

/-- Valid statistics of the footer are recorded as those of the rows are exactly if they are
complete. -/
theorem footerStats_eq_iff {reparse : ℚ → ℚ} {dataType : DataType} (valid : stats.Valid array) :
    footerStats dataType stats = columnStats reparse array ↔
      stats.Complete reparse dataType array := by
  have nulls_iff : stats.nullCount.getD 0 = array.nullCount ↔
      (stats.nullCount = none → array.nullCount = 0) := by
    cases found : stats.nullCount with
    | none => simp [eq_comm]
    | some count => simp [valid.nulls count found]
  rw [footerStats, columnStats, ArrayStats.mk.injEq, ← and_assoc, ← Prod.ext_iff,
    parquetStatsToJson_eq_iff valid.bounds, nulls_iff]
  exact ⟨fun both => ⟨both.2, both.1⟩, fun complete => ⟨complete.bounds, complete.nulls⟩⟩

/-- Bounds that tell the values tell them also without writing floats as JSON. -/
theorem Statistics.Tells.of_reparse {reparse : ℚ → ℚ} {dataType : DataType}
    (tells : stats.Tells reparse dataType array) : stats.Tells id dataType array := by
  have finite {bound : Option FloatValue} (fixed : ∃ float, bound = some float ∧
      ∃ value, float = .number (.finite value) ∧ reparse value = value) :
      ∃ float, bound = some float ∧
        ∃ value, float = .number (.finite value) ∧ id value = value := by
    obtain ⟨float, there, value, is_finite, -⟩ := fixed
    exact ⟨float, there, value, is_finite, rfl⟩
  cases dataType <;> cases stats <;> cases array <;>
    first | exact tells | exact ⟨finite tells.min, finite tells.max⟩

/-- Complete statistics of a column show its one value, unless it has nulls. -/
theorem singleValue_columnStats {reparse : ℚ → ℚ} {dataType : DataType} (valid : stats.Valid array)
    (complete : stats.Complete reparse dataType array) :
    singleValue (columnStats reparse array) =
      if array.nullCount = 0 then soleValue (finiteValues array) else none := by
  have reparsed := (parquetStatsToJson_eq_iff valid.bounds).mpr complete.bounds
  have exact := (parquetStatsToJson_eq_iff valid.bounds).mpr fun some_values =>
    (complete.bounds some_values).of_reparse
  rw [singleValue, columnStats, ← reparsed, exact, ← computeMinMax_single, ite_and]

end InsertParquet

end IcefallDB
