import IcefallDB.TypeStrings.Parsing
import Mathlib

/-!
# Printing and parsing types

The text of a type stands for the type if its names are names of the parser and no number in it is
negative.  The parser does not look at what follows a type, nor at the range of a number.
-/

namespace IcefallDB

/-! ## Printed types -/

/-- The names of the fields of a struct. -/
def ArrowType.fieldNames : ArrowType → List String
  | .struct fields => fields.map ArrowField.name
  | _ => []

mutual

/-- The types that the printer has a text for. -/
def ArrowType.Supported : ArrowType → Prop
  | .list item => item.Supported
  | .largeList item => item.Supported
  | .struct fields => SupportedFields fields
  | .map (.mk _ entries _) _ => entries.fieldNames.length = 2 ∧ entries.Supported
  | .date32 => False
  | .date64 => False
  | .other _ => False
  | _ => True

def ArrowField.Supported : ArrowField → Prop
  | .mk _ dataType _ => dataType.Supported

def SupportedFields : List ArrowField → Prop
  | [] => True
  | field :: fields => field.Supported ∧ SupportedFields fields

end

mutual

/-- A type up to the nullability of its fields and the sortedness of its maps. -/
def ArrowType.erase : ArrowType → ArrowType
  | .list item => .list item.erase
  | .largeList item => .largeList item.erase
  | .struct fields => .struct (eraseFields fields)
  | .map entries _ => .map entries.erase false
  | dataType => dataType

def ArrowField.erase : ArrowField → ArrowField
  | .mk name dataType _ => .mk name dataType.erase true

def eraseFields : List ArrowField → List ArrowField
  | [] => []
  | field :: fields => field.erase :: eraseFields fields

end

mutual

/-- The names in a type are those that the parser gives or reads, and timestamps have no zone. -/
def ArrowType.Named (unicode : UnicodeTables) : ArrowType → Prop
  | .timestamp zone => zone = none
  | .list (.mk name item _) => name = "item" ∧ item.Named unicode
  | .largeList (.mk name item _) => name = "item" ∧ item.Named unicode
  | .struct fields => NamedFields unicode fields
  | .map (.mk name entries _) _ =>
      name = "entries" ∧ entries.fieldNames = ["key", "value"] ∧ entries.Named unicode
  | _ => True

def NamedFields (unicode : UnicodeTables) : List ArrowField → Prop
  | [] => True
  | .mk name dataType _ :: fields =>
      IsName unicode name.toList ∧ dataType.Named unicode ∧ NamedFields unicode fields

end

mutual

/-- No number in a type is negative. -/
def ArrowType.Unsigned : ArrowType → Prop
  | .fixedSizeBinary size => 0 ≤ size.toInt
  | .decimal128 _ scale => 0 ≤ scale.toInt
  | .list item => item.Unsigned
  | .largeList item => item.Unsigned
  | .struct fields => UnsignedFields fields
  | .map entries _ => entries.Unsigned
  | _ => True

def ArrowField.Unsigned : ArrowField → Prop
  | .mk _ dataType _ => dataType.Unsigned

def UnsignedFields : List ArrowField → Prop
  | [] => True
  | field :: fields => field.Unsigned ∧ UnsignedFields fields

end

namespace TypeParser

variable {unicode : UnicodeTables} {exact : Bool}

/-! ## Names -/

theorem fieldNames_eraseFields (fields : List ArrowField) :
    (eraseFields fields).map ArrowField.name = fields.map ArrowField.name := by
  induction fields with
  | nil => rfl
  | cons field fields ih =>
      cases field
      rw [eraseFields, List.map_cons, List.map_cons, ih]
      rfl

theorem fieldNames_erase (dataType : ArrowType) :
    dataType.erase.fieldNames = dataType.fieldNames := by
  cases dataType with
  | struct fields => exact fieldNames_eraseFields fields
  | _ => rfl

mutual

/-- Names do not depend on what is erased. -/
theorem named_erase : ∀ dataType : ArrowType,
    dataType.erase.Named unicode ↔ dataType.Named unicode
  | .list (.mk name item _) => and_congr_right' (named_erase item)
  | .largeList (.mk name item _) => and_congr_right' (named_erase item)
  | .struct fields => namedFields_erase fields
  | .map (.mk name entries _) _ => by
      change _ ∧ entries.erase.fieldNames = _ ∧ entries.erase.Named unicode ↔
        _ ∧ entries.fieldNames = _ ∧ entries.Named unicode
      rw [fieldNames_erase, named_erase entries]
  | .primitive _ => Iff.rfl
  | .timestamp _ => Iff.rfl
  | .fixedSizeBinary _ => Iff.rfl
  | .decimal128 _ _ => Iff.rfl
  | .date32 => Iff.rfl
  | .date64 => Iff.rfl
  | .other _ => Iff.rfl

theorem namedFields_erase : ∀ fields : List ArrowField,
    NamedFields unicode (eraseFields fields) ↔ NamedFields unicode fields
  | [] => Iff.rfl
  | .mk _ dataType _ :: fields =>
      and_congr_right' (and_congr (named_erase dataType) (namedFields_erase fields))

end

/-- A word of letters in ASCII is a name. -/
theorem isName_of_alpha {text : List Char} (nonempty : text ≠ [])
    (letters : text.all (fun c => decide (c.toNat < 128) && c.isAlpha) = true) :
    IsName unicode text := by
  have letters : ∀ c ∈ text, c.toNat < 128 ∧ c.isAlpha = true := by
    intro c member
    obtain ⟨ascii, alphabetic⟩ := (Bool.and_eq_true _ _).mp (List.all_eq_true.mp letters c member)
    exact ⟨of_decide_eq_true ascii, alphabetic⟩
  cases text with
  | nil => exact absurd rfl nonempty
  | cons c rest =>
      refine ⟨c, rest, rfl, ?_, ?_⟩
      · obtain ⟨ascii, alphabetic⟩ := letters c List.mem_cons_self
        rw [UnicodeTables.startsName, unicode.ascii_alphabetic c ascii, alphabetic]
        rfl
      · intro other later
        obtain ⟨ascii, alphabetic⟩ := letters other (List.mem_cons_of_mem c later)
        rw [UnicodeTables.continuesName, unicode.ascii_alphabetic other ascii, alphabetic]
        rfl

theorem isName_ofList {name : List Char} (isName : IsName unicode name) :
    IsName unicode (String.ofList name).toList := by
  rw [String.toList_ofList]
  exact isName

mutual

/-- The parser gives or reads every name. -/
theorem named_of_isType {text : List Char} {dataType : ArrowType}
    (isType : IsType unicode exact text dataType) : dataType.Named unicode := by
  cases isType with
  | plain head =>
      have plain : ∀ entry ∈ typeWords, entry.2 = .plain dataType → dataType.Named unicode := by
        cases dataType with
        | primitive primitive => exact fun _ _ _ => trivial
        | timestamp zone => simp [typeWords, ArrowType.Named, eq_comm]
        | _ => simp [typeWords]
      exact plain _ (mem_typeWords_of_typeHead head) rfl
  | resolution white => exact rfl
  | list white padded isType => exact ⟨rfl, named_of_isType isType⟩
  | largeList white padded isType => exact ⟨rfl, named_of_isType isType⟩
  | struct white isFields => exact named_of_isFields isFields
  | map white key_padded value_padded key_isType value_isType =>
      have key_name : IsName unicode "key".toList := isName_of_alpha (by decide) (by decide)
      have value_name : IsName unicode "value".toList := isName_of_alpha (by decide) (by decide)
      exact ⟨rfl, rfl, key_name, named_of_isType key_isType, value_name,
        named_of_isType value_isType, trivial⟩
  | decimal128 => exact trivial
  | fixedSizeBinary => exact trivial

theorem named_of_isFields {text : List Char} {fields : List ArrowField}
    (isFields : IsFields unicode exact text fields) : NamedFields unicode fields := by
  cases isFields with
  | none white => exact trivial
  | @last nameText name typeText text dataType name_padded isName type_padded isType =>
      exact ⟨isName_ofList isName, named_of_isType isType, trivial⟩
  | @more nameText name typeText text rest dataType fields name_padded isName type_padded isType
      isFields =>
      exact ⟨isName_ofList isName, named_of_isType isType,
        named_of_isFields isFields⟩

end

/-! ## Texts of types -/

theorem Padded.self (text : List Char) : Padded text text :=
  ⟨[], [], White.nil, White.nil, (List.append_nil text).symm⟩

/-- The words of the printer are those of the parser with an opening bracket. -/
theorem opened_words : "list<".toList = "list".toList ++ ['<'] ∧
    "large_list<".toList = "large_list".toList ++ ['<'] ∧
      "struct<".toList = "struct".toList ++ ['<'] ∧ "map<".toList = "map".toList ++ ['<'] ∧
        "decimal128(".toList = "decimal128".toList ++ ['('] ∧
          "fixed_size_binary(".toList = "fixed_size_binary".toList ++ ['('] := by
  decide +kernel

/-- The bracket that a word is printed with follows it without white space. -/
theorem opened_append {opened word : List Char} {c : Char} (same : opened = word ++ [c])
    (rest : List Char) : opened ++ rest = word ++ ([] ++ c :: rest) := by
  rw [same, List.append_assoc]
  rfl

theorem render_list (item : ArrowField) : (ArrowType.list item).render =
    "list".toList ++ ([] ++ '<' :: (item.render ++ ['>'])) :=
  opened_append opened_words.1 _

theorem render_largeList (item : ArrowField) : (ArrowType.largeList item).render =
    "large_list".toList ++ ([] ++ '<' :: (item.render ++ ['>'])) :=
  opened_append opened_words.2.1 _

theorem render_struct (fields : List ArrowField) : (ArrowType.struct fields).render =
    "struct".toList ++ ([] ++ '<' :: (renderFields fields ++ ['>'])) :=
  opened_append opened_words.2.2.1 _

theorem render_map (name : String) (key value : ArrowType)
    (keyNull valueNull nullable sorted : Bool) :
    (ArrowType.map (.mk name (.struct [.mk "key" key keyNull, .mk "value" value valueNull])
      nullable) sorted).render =
      "map".toList ++ ([] ++ '<' :: (key.render ++ ',' :: (value.render ++ ['>']))) :=
  opened_append opened_words.2.2.2.1 _

theorem render_decimal128 (precision : UInt8) (scale : Int8) :
    (ArrowType.decimal128 precision scale).render = "decimal128".toList ++
      ([] ++ '(' :: (showInt precision.toNat ++ ',' :: (showInt scale.toInt ++ [')']))) :=
  opened_append opened_words.2.2.2.2.1 _

theorem render_fixedSizeBinary (size : Int32) : (ArrowType.fixedSizeBinary size).render =
    "fixed_size_binary".toList ++ ([] ++ '(' :: (showInt size.toInt ++ [')'])) :=
  opened_append opened_words.2.2.2.2.2 _

theorem renderFields_last (name : String) (dataType : ArrowType) (nullable : Bool) :
    renderFields [.mk name dataType nullable] =
      name.toList ++ ':' :: ([' '] ++ dataType.render) := by
  simp only [renderFields, ArrowField.name, ArrowField.render, List.append_assoc]
  rfl

theorem renderFields_more (name : String) (dataType : ArrowType) (nullable : Bool)
    (next : ArrowField) (fields : List ArrowField) :
    renderFields (.mk name dataType nullable :: next :: fields) =
      name.toList ++ ':' :: (([' '] ++ dataType.render) ++ ',' ::
        ([' '] ++ renderFields (next :: fields))) := by
  simp only [renderFields, ArrowField.name, ArrowField.render, List.append_assoc]
  rfl

theorem white_space : White [' '] := by
  intro c member
  obtain rfl := List.mem_singleton.mp member
  rfl

theorem parseDigits_showInt {value : Int} (nonneg : 0 ≤ value) :
    parseDigits (showInt value) = some value.toNat := by
  obtain ⟨number, rfl⟩ := Int.eq_ofNat_of_zero_le nonneg
  have text : showInt (number : Int) = Nat.toDigits 10 number := String.toList_ofList
  rw [text, parseDigits_toDigits, Int.toNat_natCast]

/-- A negative number starts with its sign, which the parser does not read. -/
theorem parseUsize_showInt {value : Int} (negative : value < 0) (rest : List Char) :
    parseUsize (showInt value ++ rest) = none := by
  cases value with
  | ofNat number =>
      rw [Int.ofNat_eq_natCast] at negative
      omega
  | negSucc number =>
      have text : showInt (Int.negSucc number) = '-' :: Nat.toDigits 10 (number + 1) := by
        change ("-" ++ Nat.repr (number + 1)).toList = _
        rw [String.toList_append, Nat.repr,
          @String.toList_ofList (Nat.toDigits 10 (number + 1))]
        rfl
      rw [text, List.cons_append, parseUsize]
      rfl

theorem isFields_prepend {gap text : List Char} {fields : List ArrowField} (white : White gap)
    (isFields : IsFields unicode exact text fields) :
    IsFields unicode exact (gap ++ text) fields := by
  cases isFields with
  | none others =>
      apply IsFields.none
      intro c member
      rcases List.mem_append.mp member with early | late
      · exact white c early
      · exact others c late
  | last name_padded isName type_padded isType =>
      rw [← List.append_assoc]
      exact .last (prepend_padded white name_padded) isName type_padded isType
  | more name_padded isName type_padded isType isFields =>
      rw [← List.append_assoc]
      exact .more (prepend_padded white name_padded) isName type_padded isType isFields

theorem isFields_last {name : String} {typeText text : List Char} {dataType : ArrowType}
    (isName : IsName unicode name.toList) (padded : Padded typeText text)
    (isType : IsType unicode exact text dataType) :
    IsFields unicode exact (name.toList ++ ':' :: typeText) [.mk name dataType true] := by
  have isFields := IsFields.last (Padded.self name.toList) isName padded isType
  rwa [String.ofList_toList] at isFields

theorem isFields_more {name : String} {typeText text rest : List Char} {dataType : ArrowType}
    {fields : List ArrowField} (isName : IsName unicode name.toList)
    (padded : Padded typeText text) (isType : IsType unicode exact text dataType)
    (others : IsFields unicode exact rest fields) :
    IsFields unicode exact (name.toList ++ ':' :: (typeText ++ ',' :: rest))
      (.mk name dataType true :: fields) := by
  have isFields := IsFields.more (Padded.self name.toList) isName padded isType others
  rwa [String.ofList_toList] at isFields

theorem Fits.of_lt {bound value : Nat} (small : value < bound) (narrow : bound ≤ 2 ^ 64) :
    Fits exact bound value := by
  unfold Fits
  split
  · exact small
  · omega

mutual

/-- The text of a type without other names and negative numbers is in the grammar. -/
theorem isType_render : ∀ dataType : ArrowType, dataType.Supported → dataType.Named unicode →
    dataType.Unsigned →
      ∃ read, IsType unicode exact dataType.render read ∧ read.erase = dataType.erase
  | .primitive primitive, _, _, _ => by
      refine ⟨.primitive primitive, .plain ?_, rfl⟩
      cases primitive <;> rfl
  | .timestamp zone, _, named, _ => by
      obtain rfl : zone = none := named
      exact ⟨.timestamp none, .resolution White.nil, rfl⟩
  | .fixedSizeBinary size, _, _, unsigned => by
      have nonneg : 0 ≤ size.toInt := unsigned
      have same : Int32.ofNat size.toInt.toNat = size := by
        rw [← Int32.ofInt_eq_ofNat, Int.toNat_of_nonneg nonneg, Int32.ofInt_toInt]
      have fits : Fits exact (2 ^ 31) size.toInt.toNat := by
        have bound := Int32.toInt_lt size
        exact Fits.of_lt (by omega) (by decide)
      rw [render_fixedSizeBinary]
      refine ⟨.fixedSizeBinary (Int32.ofNat size.toInt.toNat),
        .fixedSizeBinary White.nil (Padded.self _) (parseDigits_showInt nonneg) fits, ?_⟩
      rw [same]
  | .decimal128 precision scale, _, _, unsigned => by
      have nonneg : 0 ≤ scale.toInt := unsigned
      have same : Int8.ofNat scale.toInt.toNat = scale := by
        rw [← Int8.ofInt_eq_ofNat, Int.toNat_of_nonneg nonneg, Int8.ofInt_toInt]
      have digits_fit : Fits exact (2 ^ 8) precision.toNat :=
        Fits.of_lt (UInt8.toNat_lt precision) (by decide)
      have places_fit : Fits exact (2 ^ 7) scale.toInt.toNat := by
        have bound := Int8.toInt_lt scale
        exact Fits.of_lt (by omega) (by decide)
      rw [render_decimal128]
      refine ⟨.decimal128 (UInt8.ofNat precision.toNat) (Int8.ofNat scale.toInt.toNat),
        .decimal128 White.nil (Padded.self _) (Padded.self _)
          (parseDigits_showInt (Int.natCast_nonneg _)) (parseDigits_showInt nonneg) digits_fit
            places_fit, ?_⟩
      rw [same, UInt8.ofNat_toNat]
  | .list (.mk name item _), supported, named, unsigned => by
      obtain ⟨rfl, named⟩ : name = "item" ∧ item.Named unicode := named
      obtain ⟨read, isType, erased⟩ := isType_render item supported named unsigned
      rw [render_list]
      refine ⟨.list (.mk "item" read true), .list White.nil (Padded.self _) isType, ?_⟩
      simp only [ArrowType.erase, ArrowField.erase, erased]
  | .largeList (.mk name item _), supported, named, unsigned => by
      obtain ⟨rfl, named⟩ : name = "item" ∧ item.Named unicode := named
      obtain ⟨read, isType, erased⟩ := isType_render item supported named unsigned
      rw [render_largeList]
      refine ⟨.largeList (.mk "item" read true), .largeList White.nil (Padded.self _) isType, ?_⟩
      simp only [ArrowType.erase, ArrowField.erase, erased]
  | .struct fields, supported, named, unsigned => by
      obtain ⟨read, isFields, erased⟩ := isFields_renderFields fields supported named unsigned
      rw [render_struct]
      refine ⟨.struct read, .struct White.nil isFields, ?_⟩
      simp only [ArrowType.erase, erased]
  | .map (.mk name entries nullable) sorted, supported, named, unsigned => by
      cases entries with
      | struct fields =>
          match fields with
          | [.mk keyName key _, .mk valueName value _] =>
              obtain ⟨rfl, names, -, key_named, -, value_named, -⟩ : name = "entries" ∧
                [keyName, valueName] = ["key", "value"] ∧
                  _ ∧ key.Named unicode ∧ _ ∧ value.Named unicode ∧ _ := named
              obtain ⟨rfl, rfl⟩ : keyName = "key" ∧ valueName = "value" := by simpa using names
              obtain ⟨key_read, key_isType, key_erased⟩ :=
                isType_render key supported.2.1 key_named unsigned.1
              obtain ⟨value_read, value_isType, value_erased⟩ :=
                isType_render value supported.2.2.1 value_named unsigned.2.1
              rw [render_map]
              refine ⟨.map (mapEntries key_read value_read) false,
                .map White.nil (Padded.self _) (Padded.self _) key_isType value_isType, ?_⟩
              simp only [mapEntries, ArrowType.erase, ArrowField.erase, eraseFields, key_erased,
                value_erased]
          | [] => cases supported.1
          | [_] => cases supported.1
          | _ :: _ :: _ :: _ => cases supported.1
      | _ => cases named.2.1
  | .date32, supported, _, _ => supported.elim
  | .date64, supported, _, _ => supported.elim
  | .other _, supported, _, _ => supported.elim

theorem isFields_renderFields : ∀ fields : List ArrowField, SupportedFields fields →
    NamedFields unicode fields → UnsignedFields fields →
      ∃ read, IsFields unicode exact (renderFields fields) read ∧
        eraseFields read = eraseFields fields
  | [], _, _, _ => ⟨[], .none White.nil, rfl⟩
  | [.mk name dataType nullable], supported, named, unsigned => by
      obtain ⟨read, isType, erased⟩ :=
        isType_render dataType supported.1 named.2.1 unsigned.1
      refine ⟨[.mk name read true], ?_, ?_⟩
      · rw [renderFields_last]
        exact isFields_last named.1 (prepend_padded white_space (Padded.self _)) isType
      · simp only [eraseFields, ArrowField.erase, erased]
  | .mk name dataType nullable :: next :: fields, supported, named, unsigned => by
      obtain ⟨read, isType, erased⟩ :=
        isType_render dataType supported.1 named.2.1 unsigned.1
      obtain ⟨others, isFields, others_erased⟩ :=
        isFields_renderFields (next :: fields) supported.2 named.2.2 unsigned.2
      refine ⟨.mk name read true :: others, ?_, ?_⟩
      · rw [renderFields_more]
        exact isFields_more named.1 (prepend_padded white_space (Padded.self _)) isType
          (isFields_prepend white_space isFields)
      · rw [eraseFields, eraseFields, others_erased]
        simp only [ArrowField.erase, erased]

end

/-! ## Signs -/

/-- A printed type is read in front of a closing character. -/
theorem exists_parseType_render {dataType : ArrowType} (supported : dataType.Supported)
    (named : dataType.Named unicode) (unsigned : dataType.Unsigned) {gap : List Char}
    (white : White gap) {c : Char} (closing : c ∈ ['<', '>', '(', ')', ',', ':', ']'])
    (rest : List Char) (fuel : Nat) (enough : (gap ++ dataType.render).length < fuel) :
    ∃ read behind, parseType unicode fuel (gap ++ (dataType.render ++ c :: rest)) =
      some (read, behind) ∧ expect c behind = some rest := by
  obtain ⟨read, isType, -⟩ :
      ∃ read, IsType unicode false dataType.render read ∧ read.erase = dataType.erase :=
    isType_render dataType supported named unsigned
  obtain ⟨behind, parsed, closed⟩ := (readsType_of_isType isType).padded
    (prepend_padded white (Padded.self _)) closing rest fuel enough
  rw [List.append_assoc] at parsed
  exact ⟨read, behind, parsed, closed⟩

/-! A type is read only if what it consists of is. -/

section

variable {input word behind opened between separated : List Char} {fuel : Nat}

theorem isSome_item_of_list (worded : parseWord unicode input = some (word, behind))
    (head : typeHead word = some .list) (opening : expect '<' (skipWs behind) = some opened)
    (parsed : (parseType unicode (fuel + 1) input).isSome) :
    (parseType unicode fuel opened).isSome := by
  rw [parseType, worded] at parsed
  simp only [Option.bind_eq_bind, Option.bind_some, head, opening] at parsed
  exact Option.isSome_of_isSome_bind parsed

theorem isSome_item_of_largeList (worded : parseWord unicode input = some (word, behind))
    (head : typeHead word = some .largeList) (opening : expect '<' (skipWs behind) = some opened)
    (parsed : (parseType unicode (fuel + 1) input).isSome) :
    (parseType unicode fuel opened).isSome := by
  rw [parseType, worded] at parsed
  simp only [Option.bind_eq_bind, Option.bind_some, head, opening] at parsed
  exact Option.isSome_of_isSome_bind parsed

theorem isSome_fields_of_struct (worded : parseWord unicode input = some (word, behind))
    (head : typeHead word = some .struct) (opening : expect '<' (skipWs behind) = some opened)
    (parsed : (parseType unicode (fuel + 1) input).isSome) :
    (parseStructFields unicode fuel opened).isSome := by
  rw [parseType, worded] at parsed
  simp only [Option.bind_eq_bind, Option.bind_some, head, opening] at parsed
  exact Option.isSome_of_isSome_bind parsed

theorem isSome_key_of_map (worded : parseWord unicode input = some (word, behind))
    (head : typeHead word = some .map) (opening : expect '<' (skipWs behind) = some opened)
    (parsed : (parseType unicode (fuel + 1) input).isSome) :
    (parseType unicode fuel opened).isSome := by
  rw [parseType, worded] at parsed
  simp only [Option.bind_eq_bind, Option.bind_some, head, opening] at parsed
  exact Option.isSome_of_isSome_bind parsed

theorem isSome_value_of_map {key : ArrowType}
    (worded : parseWord unicode input = some (word, behind))
    (head : typeHead word = some .map) (opening : expect '<' (skipWs behind) = some opened)
    (key_parsed : parseType unicode fuel opened = some (key, between))
    (separating : expect ',' between = some separated)
    (parsed : (parseType unicode (fuel + 1) input).isSome) :
    (parseType unicode fuel separated).isSome := by
  rw [parseType, worded] at parsed
  simp only [Option.bind_eq_bind, Option.bind_some, head, opening, key_parsed, separating] at parsed
  exact Option.isSome_of_isSome_bind parsed

theorem isSome_scale_of_decimal128 {precision : Nat}
    (worded : parseWord unicode input = some (word, behind))
    (head : typeHead word = some .decimal128) (opening : expect '(' (skipWs behind) = some opened)
    (digits_parsed : parseUsize opened = some (precision, between))
    (separating : expect ',' between = some separated)
    (parsed : (parseType unicode (fuel + 1) input).isSome) : (parseUsize separated).isSome := by
  rw [parseType, worded] at parsed
  simp only [Option.bind_eq_bind, Option.bind_some, head, opening, digits_parsed, separating]
    at parsed
  exact Option.isSome_of_isSome_bind parsed

theorem isSome_size_of_fixedSizeBinary (worded : parseWord unicode input = some (word, behind))
    (head : typeHead word = some .fixedSizeBinary)
    (opening : expect '(' (skipWs behind) = some opened)
    (parsed : (parseType unicode (fuel + 1) input).isSome) : (parseUsize opened).isSome := by
  rw [parseType, worded] at parsed
  simp only [Option.bind_eq_bind, Option.bind_some, head, opening] at parsed
  exact Option.isSome_of_isSome_bind parsed

end

/-- A field is read only if its type is. -/
theorem isSome_parseType_of_fields {input others behind separated name : List Char} {first : Char}
    {fuel : Nat} (skipped : skipWs input = first :: others) (opening : first ≠ '>')
    (same : parseFieldName unicode (first :: others) = parseFieldName unicode input)
    (named : parseFieldName unicode input = some (name, behind))
    (colon : expect ':' behind = some separated)
    (parsed : (parseStructFields unicode (fuel + 1) input).isSome) :
    (parseType unicode fuel separated).isSome := by
  rw [parseStructFields, skipped] at parsed
  split at parsed
  · next rest closes => exact absurd (List.cons.inj closes).1 opening
  · rw [same, named] at parsed
    simp only [Option.bind_eq_bind, Option.bind_some, colon] at parsed
    exact Option.isSome_of_isSome_bind parsed

mutual

/-- A printed type is read only if no number in it is negative. -/
theorem unsigned_of_parseType : ∀ dataType : ArrowType, dataType.Supported →
    dataType.Named unicode → ∀ (rest : List Char) (fuel : Nat), dataType.render.length < fuel →
      (parseType unicode fuel (dataType.render ++ rest)).isSome → dataType.Unsigned
  | .primitive _, _, _, _, _, _, _ => trivial
  | .timestamp _, _, _, _, _, _, _ => trivial
  | .fixedSizeBinary size, _, _, rest, fuel, enough, parsed => by
      obtain ⟨fuel, rfl, -⟩ := exists_fuel enough
      obtain ⟨behind, worded, opened⟩ := parseWord_bracket unicode typeHead_words.2.2.2.2.2.1
        White.nil (by decide : '(' ∈ _) (showInt size.toInt ++ ')' :: rest)
      rw [render_fixedSizeBinary] at parsed
      simp only [List.append_assoc, List.cons_append, List.nil_append] at worded parsed
      have sized := isSome_size_of_fixedSizeBinary worded typeHead_words.2.2.2.2.2.1 opened parsed
      by_contra negative
      rw [parseUsize_showInt (Int.not_le.mp negative)] at sized
      cases sized
  | .decimal128 precision scale, _, _, rest, fuel, enough, parsed => by
      obtain ⟨fuel, rfl, -⟩ := exists_fuel enough
      obtain ⟨behind, worded, opened⟩ := parseWord_bracket unicode typeHead_words.2.2.2.2.1
        White.nil (by decide : '(' ∈ _)
          (showInt precision.toNat ++ ',' :: (showInt scale.toInt ++ ')' :: rest))
      have small := UInt8.toNat_lt precision
      obtain ⟨between, digits_parsed, separated⟩ := parseUsize_padded (Padded.self _)
        (parseDigits_showInt (Int.natCast_nonneg precision.toNat)) (by omega)
          (by decide : ',' ∈ _) (showInt scale.toInt ++ ')' :: rest)
      rw [render_decimal128] at parsed
      simp only [List.append_assoc, List.cons_append, List.nil_append] at worded parsed
      have scaled := isSome_scale_of_decimal128 worded typeHead_words.2.2.2.2.1 opened
        digits_parsed separated parsed
      by_contra negative
      rw [parseUsize_showInt (Int.not_le.mp negative)] at scaled
      cases scaled
  | .list (.mk name item _), supported, named, rest, fuel, enough, parsed => by
      obtain ⟨fuel, rfl, room⟩ := exists_fuel enough
      obtain ⟨behind, worded, opened⟩ := parseWord_bracket unicode typeHead_words.1 White.nil
        (by decide : '<' ∈ _) (item.render ++ '>' :: rest)
      rw [render_list] at room parsed
      simp only [List.append_assoc, List.cons_append, List.nil_append, ArrowField.render]
        at worded parsed
      apply unsigned_of_parseType item supported named.2 ('>' :: rest) fuel
      · simp [ArrowField.render] at room
        omega
      · exact isSome_item_of_list worded typeHead_words.1 opened parsed
  | .largeList (.mk name item _), supported, named, rest, fuel, enough, parsed => by
      obtain ⟨fuel, rfl, room⟩ := exists_fuel enough
      obtain ⟨behind, worded, opened⟩ := parseWord_bracket unicode typeHead_words.2.1 White.nil
        (by decide : '<' ∈ _) (item.render ++ '>' :: rest)
      rw [render_largeList] at room parsed
      simp only [List.append_assoc, List.cons_append, List.nil_append, ArrowField.render]
        at worded parsed
      apply unsigned_of_parseType item supported named.2 ('>' :: rest) fuel
      · simp [ArrowField.render] at room
        omega
      · exact isSome_item_of_largeList worded typeHead_words.2.1 opened parsed
  | .struct fields, supported, named, rest, fuel, enough, parsed => by
      obtain ⟨fuel, rfl, room⟩ := exists_fuel enough
      obtain ⟨behind, worded, opened⟩ := parseWord_bracket unicode typeHead_words.2.2.1 White.nil
        (by decide : '<' ∈ _) (renderFields fields ++ '>' :: rest)
      rw [render_struct] at room parsed
      simp only [List.append_assoc, List.cons_append, List.nil_append] at worded parsed
      apply unsigned_of_parseStructFields fields supported named [] rest fuel White.nil
      · simp at room
        omega
      · exact isSome_fields_of_struct worded typeHead_words.2.2.1 opened parsed
  | .map (.mk name entries nullable) sorted, supported, named, rest, fuel, enough, parsed => by
      cases entries with
      | struct fields =>
          match fields with
          | [.mk keyName key _, .mk valueName value _] =>
              obtain ⟨rfl, names, -, key_named, -, value_named, -⟩ : name = "entries" ∧
                [keyName, valueName] = ["key", "value"] ∧
                  _ ∧ key.Named unicode ∧ _ ∧ value.Named unicode ∧ _ := named
              obtain ⟨rfl, rfl⟩ : keyName = "key" ∧ valueName = "value" := by simpa using names
              obtain ⟨fuel, rfl, room⟩ := exists_fuel enough
              obtain ⟨behind, worded, opened⟩ := parseWord_bracket unicode
                typeHead_words.2.2.2.1 White.nil (by decide : '<' ∈ _)
                  (key.render ++ ',' :: (value.render ++ '>' :: rest))
              rw [render_map] at room parsed
              simp only [List.append_assoc, List.cons_append, List.nil_append] at worded parsed
              have key_unsigned : key.Unsigned := by
                apply unsigned_of_parseType key supported.2.1 key_named
                  (',' :: (value.render ++ '>' :: rest)) fuel
                · simp at room
                  omega
                · exact isSome_key_of_map worded typeHead_words.2.2.2.1 opened parsed
              obtain ⟨read, between, key_parsed, separated⟩ := exists_parseType_render
                supported.2.1 key_named key_unsigned White.nil (by decide : ',' ∈ _)
                  (value.render ++ '>' :: rest) fuel (by simp at room ⊢; omega)
              rw [List.nil_append] at key_parsed
              have value_unsigned : value.Unsigned := by
                apply unsigned_of_parseType value supported.2.2.1 value_named ('>' :: rest) fuel
                · simp at room
                  omega
                · exact isSome_value_of_map worded typeHead_words.2.2.2.1 opened key_parsed separated
                    parsed
              exact ⟨key_unsigned, value_unsigned, trivial⟩
          | [] => cases supported.1
          | [_] => cases supported.1
          | _ :: _ :: _ :: _ => cases supported.1
      | _ => cases named.2.1
  | .date32, supported, _, _, _, _, _ => supported.elim
  | .date64, supported, _, _, _, _, _ => supported.elim
  | .other _, supported, _, _, _, _, _ => supported.elim

theorem unsigned_of_parseStructFields : ∀ fields : List ArrowField, SupportedFields fields →
    NamedFields unicode fields → ∀ (gap rest : List Char) (fuel : Nat), White gap →
      (renderFields fields).length < fuel →
        (parseStructFields unicode fuel (gap ++ (renderFields fields ++ '>' :: rest))).isSome →
          UnsignedFields fields
  | [], _, _, _, _, _, _, _, _ => trivial
  | [.mk name dataType nullable], supported, named, gap, rest, fuel, white, enough, parsed => by
      obtain ⟨fuel, rfl, room⟩ := exists_fuel enough
      rw [renderFields_last] at room parsed
      have padded := prepend_padded white (Padded.self name.toList)
      obtain ⟨first, others, skipped, opening, same⟩ :=
        skipWs_name padded named.1 (':' :: ([' '] ++ (dataType.render ++ '>' :: rest)))
      obtain ⟨behind, read, colon⟩ :=
        parseFieldName_padded padded named.1 ([' '] ++ (dataType.render ++ '>' :: rest))
      simp only [List.append_assoc, List.cons_append] at parsed skipped read same
      have typed := isSome_parseType_of_fields skipped opening same read colon parsed
      rw [parseType_skip white_space] at typed
      refine ⟨unsigned_of_parseType dataType supported.1 named.2.1 ('>' :: rest) fuel ?_ typed,
        trivial⟩
      simp at room
      omega
  | .mk name dataType nullable :: next :: fields, supported, named, gap, rest, fuel, white, enough,
      parsed => by
      obtain ⟨fuel, rfl, room⟩ := exists_fuel enough
      rw [renderFields_more] at room parsed
      have padded := prepend_padded white (Padded.self name.toList)
      obtain ⟨first, others, skipped, opening, same⟩ := skipWs_name padded named.1
        (':' :: ([' '] ++ (dataType.render ++
          ',' :: ([' '] ++ (renderFields (next :: fields) ++ '>' :: rest)))))
      obtain ⟨behind, read, colon⟩ := parseFieldName_padded padded named.1
        ([' '] ++ (dataType.render ++
          ',' :: ([' '] ++ (renderFields (next :: fields) ++ '>' :: rest))))
      simp only [List.append_assoc, List.cons_append] at parsed skipped read same
      have typed := isSome_parseType_of_fields skipped opening same read colon parsed
      rw [parseType_skip white_space] at typed
      have shorter : ([' '] ++ dataType.render).length < fuel ∧
          (renderFields (next :: fields)).length < fuel := by
        simp at room ⊢
        omega
      have type_shorter : dataType.render.length < fuel := by
        simp at room
        omega
      have unsigned := unsigned_of_parseType dataType supported.1 named.2.1 _ fuel type_shorter
        typed
      obtain ⟨type_read, after, type_parsed, comma⟩ := exists_parseType_render supported.1
        named.2.1 unsigned white_space (by decide : ',' ∈ _)
          ([' '] ++ (renderFields (next :: fields) ++ '>' :: rest)) fuel shorter.1
      rw [parseField_eq skipped opening same read colon type_parsed, skipWs_of_expect comma]
        at parsed
      refine ⟨unsigned, unsigned_of_parseStructFields (next :: fields) supported.2 named.2.2 [' ']
        rest fuel white_space shorter.2 (Option.isSome_of_isSome_bind parsed)⟩

end

end TypeParser

open TypeParser

/-! ## Trimmed texts -/

variable {unicode : UnicodeTables}

theorem trim_of_visible {text : List Char} (first : ∀ c ∈ text.head?, isWhitespace c = false)
    (last : ∀ c ∈ text.getLast?, isWhitespace c = false) : trim text = text := by
  have kept : ∀ other : List Char, (∀ c ∈ other.head?, isWhitespace c = false) →
      other.dropWhile isWhitespace = other := by
    intro other visible
    cases other with
    | nil => rfl
    | cons c rest => exact skipWs_cons (visible c rfl) rest
  rw [trim, kept text first, kept, List.reverse_reverse]
  rw [List.head?_reverse]
  exact last

/-- Any text ends where nothing follows. -/
theorem ends_nil (text : List Char) : Ends unicode text [] :=
  ⟨nofun, nofun⟩

/-- A text that is trimmed does not end in white space. -/
theorem eq_nil_of_trim {input text rest : List Char} (split : trim input = text ++ rest)
    (white : White rest) : rest = [] := by
  have reversed : (trim input).reverse =
      (input.dropWhile isWhitespace).reverse.dropWhile isWhitespace := List.reverse_reverse _
  have last := List.head?_dropWhile_not isWhitespace (input.dropWhile isWhitespace).reverse
  rw [← reversed, split] at last
  rcases List.eq_nil_or_concat rest with none | ⟨others, c, rfl⟩
  · exact none
  · have visible : isWhitespace c = false := by simpa using last
    rw [white c (by simp)] at visible
    cases visible

/-- A text that is trimmed does not start with white space. -/
theorem eq_nil_of_trim_eq {input gap rest : List Char} (split : trim input = gap ++ rest)
    (white : White gap) : gap = [] := by
  cases gap with
  | nil => rfl
  | cons c others =>
      have first := List.head?_dropWhile_not isWhitespace input
      have leading : trim input <+: input.dropWhile isWhitespace := by
        rw [← List.reverse_suffix, trim, List.reverse_reverse]
        exact List.dropWhile_suffix _
      obtain ⟨tail, whole⟩ := leading
      rw [← whole, split] at first
      have visible : isWhitespace c = false := by simpa using first
      rw [white c List.mem_cons_self] at visible
      cases visible

theorem trim_of_plain {text : List Char} (plain : ∀ c ∈ text, isWhitespace c = false) :
    trim text = text := by
  apply trim_of_visible
  · exact fun c head => plain c (List.mem_of_mem_head? head)
  · exact fun c last => plain c (List.mem_of_getLast? last)

theorem trim_bracketed {opened inner : List Char} {c : Char}
    (first : ∃ other ∈ opened.head?, isWhitespace other = false) (last : isWhitespace c = false) :
    trim (opened ++ (inner ++ [c])) = opened ++ (inner ++ [c]) := by
  obtain ⟨other, first_eq, visible⟩ := first
  apply trim_of_visible
  · intro head head_eq
    rw [List.head?_append, Option.mem_def.mp first_eq] at head_eq
    obtain rfl := Option.some.inj head_eq
    exact visible
  · intro closing closing_eq
    rw [← List.append_assoc, List.getLast?_concat] at closing_eq
    obtain rfl := Option.some.inj closing_eq
    exact last

/-- The words without brackets have no white space. -/
theorem visible_words : ∀ word ∈ ["int8", "int16", "int32", "int64", "uint8", "uint16", "uint32",
    "uint64", "float32", "float64", "bool", "utf8", "large_utf8", "binary", "large_binary",
    "timestamp[us]"], ∀ c ∈ word.toList, isWhitespace c = false := by
  have visible : ∀ word ∈ ["int8", "int16", "int32", "int64", "uint8", "uint16", "uint32",
      "uint64", "float32", "float64", "bool", "utf8", "large_utf8", "binary", "large_binary",
      "timestamp[us]"], word.toList.all (fun c => !isWhitespace c) = true := by
    decide +kernel
  intro word listed c member
  exact (Bool.not_eq_true' _).mp (List.all_eq_true.mp (visible word listed) c member)

theorem visible_opened : ∀ word ∈ ["list<", "large_list<", "struct<", "map<", "decimal128(",
    "fixed_size_binary("], ∃ c ∈ word.toList.head?, isWhitespace c = false := by
  have visible : ∀ word ∈ ["list<", "large_list<", "struct<", "map<", "decimal128(",
      "fixed_size_binary("], word.toList.head?.any (fun c => !isWhitespace c) = true := by
    decide +kernel
  intro word listed
  obtain ⟨c, first, seen⟩ := (Option.any_eq_true _ _).mp (visible word listed)
  exact ⟨c, first, (Bool.not_eq_true' _).mp seen⟩

/-- The text of a type has no white space around it. -/
theorem trim_render {dataType : ArrowType} (supported : dataType.Supported) :
    trim dataType.render = dataType.render := by
  have bracketed : ∀ word ∈ ["list<", "large_list<", "struct<", "map<", "decimal128(",
      "fixed_size_binary("], ∀ inner : List Char, ∀ c : Char, isWhitespace c = false →
        trim (word.toList ++ (inner ++ [c])) = word.toList ++ (inner ++ [c]) :=
    fun word member _ _ last => trim_bracketed (visible_opened word member) last
  cases dataType with
  | primitive primitive =>
      apply trim_of_plain
      apply visible_words
      cases primitive <;> simp [Primitive.word]
  | timestamp zone =>
      apply trim_of_plain
      exact visible_words "timestamp[us]" (by simp)
  | fixedSizeBinary size =>
      exact bracketed "fixed_size_binary(" (by simp) (showInt size.toInt) ')' rfl
  | decimal128 precision scale =>
      have text := bracketed "decimal128(" (by simp)
        (showInt precision.toNat ++ ',' :: showInt scale.toInt) ')' rfl
      rw [List.append_assoc, List.cons_append] at text
      exact text
  | list item => exact bracketed "list<" (by simp) item.render '>' rfl
  | largeList item => exact bracketed "large_list<" (by simp) item.render '>' rfl
  | struct fields => exact bracketed "struct<" (by simp) (renderFields fields) '>' rfl
  | map field sorted =>
      obtain ⟨name, entries, nullable⟩ := field
      cases entries with
      | struct fields =>
          have text := bracketed "map<" (by simp)
            ((renderNamed "key" fields).getD "utf8".toList ++
              ',' :: (renderNamed "value" fields).getD "utf8".toList) '>' rfl
          rw [List.append_assoc, List.cons_append] at text
          exact text
      | _ => cases supported.1
  | date32 => exact supported.elim
  | date64 => exact supported.elim
  | other debug => exact supported.elim

/-! ## The type of a text -/

variable (unicode)

/-- The type of a printed type is the type again, if its names are those of the parser and no number
in it is negative. -/
theorem icefalldbTypeToArrow_arrowTypeToIcefalldb_iff {dataType : ArrowType}
    (supported : dataType.Supported) :
    (∃ read, icefalldbTypeToArrow unicode (arrowTypeToIcefalldb dataType) = some read ∧
      read.erase = dataType.erase) ↔ dataType.Named unicode ∧ dataType.Unsigned := by
  have text : trim (arrowTypeToIcefalldb dataType).toList = dataType.render := by
    rw [arrowTypeToIcefalldb, String.toList_ofList, trim_render supported]
  have whole : dataType.render = dataType.render ++ [] := (List.append_nil _).symm
  rw [icefalldbTypeToArrow, text]
  constructor
  · rintro ⟨read, found, erased⟩
    obtain ⟨⟨parsed, behind⟩, parsed_eq, rfl⟩ := Option.map_eq_some_iff.mp found
    obtain ⟨gap, inner, rest, -, -, isType, -⟩ :=
      (hasRead_of_parseType _).1 _ _ _ parsed_eq
    have named : dataType.Named unicode := by
      rw [← named_erase, ← erased, named_erase]
      exact named_of_isType isType
    refine ⟨named, unsigned_of_parseType dataType supported named [] _ (Nat.lt_succ_self _) ?_⟩
    rw [← whole, parsed_eq]
    rfl
  · rintro ⟨named, unsigned⟩
    obtain ⟨read, isType, erased⟩ :
        ∃ read, IsType unicode false dataType.render read ∧ read.erase = dataType.erase :=
      isType_render dataType supported named unsigned
    obtain ⟨behind, parsed, -⟩ := readsType_of_isType isType [] _ (ends_nil _) (Nat.lt_succ_self _)
    rw [← whole] at parsed
    exact ⟨read, by rw [parsed]; rfl, erased⟩

/-- A text that is accepted is a type of the grammar, if no type that the text starts with ends
before it or has a number out of range. -/
theorem isType_of_icefalldbTypeToArrow_iff (typeStr : String) :
    ((icefalldbTypeToArrow unicode typeStr).isSome →
      ∃ dataType, IsType unicode true (trim typeStr.toList) dataType) ↔
    ∀ text rest dataType, trim typeStr.toList = text ++ rest → Ends unicode text rest →
      IsType unicode false text dataType → rest = [] ∧ IsType unicode true text dataType := by
  constructor
  · intro exact_type text rest dataType split ends isType
    have room : text.length < (trim typeStr.toList).length + 1 := by
      rw [split, List.length_append]
      omega
    obtain ⟨behind, parsed, skipped⟩ := readsType_of_isType isType rest _ ends room
    rw [← split] at parsed
    obtain ⟨other, other_isType⟩ := exact_type (by rw [icefalldbTypeToArrow, parsed]; rfl)
    obtain ⟨end_behind, other_parsed, end_skipped⟩ := readsType_of_isType other_isType.loosen []
      ((trim typeStr.toList).length + 1) (ends_nil _) (Nat.lt_succ_self _)
    rw [List.append_nil, parsed] at other_parsed
    obtain ⟨rfl, rfl⟩ := Prod.mk.inj (Option.some.inj other_parsed)
    have nothing : rest = [] := by
      apply eq_nil_of_trim split
      rw [skipped] at end_skipped
      exact List.dropWhile_eq_nil_iff.mp end_skipped
    rw [split, nothing, List.append_nil] at other_isType
    exact ⟨nothing, other_isType⟩
  · intro condition accepted
    obtain ⟨dataType, found⟩ := Option.isSome_iff_exists.mp accepted
    obtain ⟨⟨parsed, behind⟩, parsed_eq, rfl⟩ := Option.map_eq_some_iff.mp found
    obtain ⟨gap, text, rest, white, input_eq, isType, ends, -⟩ :=
      (hasRead_of_parseType _).1 _ _ _ parsed_eq
    obtain rfl : gap = [] := eq_nil_of_trim_eq input_eq white
    rw [List.nil_append] at input_eq
    obtain ⟨rfl, exact_type⟩ := condition text rest parsed input_eq ends isType
    rw [input_eq, List.append_nil]
    exact ⟨parsed, exact_type⟩

/-- Printed types are read back up to what the text leaves out, exactly those whose names are names
of the parser and whose numbers are not negative.  Only types are accepted, exactly where no type
that the text starts with ends before it or has a number out of range. -/
theorem typeStrings_iff :
    (∀ dataType : ArrowType, dataType.Supported →
      ((∃ read, icefalldbTypeToArrow unicode (arrowTypeToIcefalldb dataType) = some read ∧
        read.erase = dataType.erase) ↔ dataType.Named unicode ∧ dataType.Unsigned)) ∧
    ∀ typeStr : String,
      ((icefalldbTypeToArrow unicode typeStr).isSome →
        ∃ dataType, IsType unicode true (trim typeStr.toList) dataType) ↔
      ∀ text rest dataType, trim typeStr.toList = text ++ rest → Ends unicode text rest →
        IsType unicode false text dataType → rest = [] ∧ IsType unicode true text dataType := by
  constructor
  · intro dataType supported
    exact icefalldbTypeToArrow_arrowTypeToIcefalldb_iff unicode supported
  · exact isType_of_icefalldbTypeToArrow_iff unicode

/-- The letters and numbers of ASCII only. -/
def asciiTables : UnicodeTables where
  isAlphabetic c := c.toNat < 128 && c.isAlpha
  isNumeric c := c.toNat < 128 && c.isDigit
  ascii_alphabetic c small := by simp [small]
  ascii_numeric c small := by simp [small]
  not_whitespace := by
    intro c own
    have small : c.toNat < 128 ∧ (c.isAlpha || c.isDigit) = true := by
      rcases own with alphabetic | numeric
      · obtain ⟨ascii, letter⟩ := Bool.and_eq_true_iff.mp alphabetic
        exact ⟨of_decide_eq_true ascii, by rw [letter, Bool.true_or]⟩
      · obtain ⟨ascii, digit⟩ := Bool.and_eq_true_iff.mp numeric
        exact ⟨of_decide_eq_true ascii, by rw [digit, Bool.or_true]⟩
    have visible : ∀ code < 128, ((Char.ofNat code).isAlpha || (Char.ofNat code).isDigit) = true →
        isWhitespace (Char.ofNat code) = false := by
      decide +kernel
    have own := visible c.toNat small.1
    rw [Char.ofNat_toNat] at own
    exact own small.2

/-- Decimals without a negative scale are read back, inside a list as well. -/
theorem typeStrings_decimals : ∃ read, icefalldbTypeToArrow asciiTables
    (arrowTypeToIcefalldb (.list (.mk "item" (.decimal128 10 2) false))) = some read ∧
      read.erase = (ArrowType.list (.mk "item" (.decimal128 10 2) false)).erase :=
  ((typeStrings_iff asciiTables).1 (.list (.mk "item" (.decimal128 10 2) false)) trivial).mpr
    ⟨⟨rfl, trivial⟩, show (0 : Int) ≤ (2 : Int8).toInt by decide⟩

/-- A negative scale is not read back, and a type is accepted with other text behind it. -/
theorem not_typeStrings :
    (¬ ∃ read, icefalldbTypeToArrow asciiTables (arrowTypeToIcefalldb (.decimal128 10 (-2))) =
      some read ∧ read.erase = (ArrowType.decimal128 10 (-2)).erase) ∧
    (icefalldbTypeToArrow asciiTables "int32 garbage").isSome ∧
      ¬ ∃ dataType, IsType asciiTables true (trim "int32 garbage".toList) dataType := by
  constructor
  · intro found
    have supported : (ArrowType.decimal128 10 (-2)).Supported := trivial
    have unsigned :=
      ((icefalldbTypeToArrow_arrowTypeToIcefalldb_iff asciiTables supported).mp found).2
    have nonneg : 0 ≤ (-2 : Int8).toInt := unsigned
    exact absurd nonneg (by decide)
  · constructor
    · decide +kernel
    · intro found
      have text : trim "int32 garbage".toList = "int32".toList ++ " garbage".toList := by
        decide +kernel
      have ends : Ends asciiTables "int32".toList " garbage".toList := by
        constructor
        · intro _ c first
          have space : " garbage".toList.head? = some ' ' := by decide +kernel
          obtain rfl := Option.some.inj (space.symm.trans first)
          decide +kernel
        · intro same
          exact absurd same (by decide +kernel)
      have whole := (isType_of_icefalldbTypeToArrow_iff asciiTables "int32 garbage").mp
        (fun _ => found) _ _ _ text ends (.plain rfl)
      exact absurd whole.1 (by decide +kernel)

end IcefallDB
