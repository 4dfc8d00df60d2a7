import IcefallDB.TypeStrings.Grammar
import Mathlib

/-!
# Parsing type strings

The parser reads the texts of the grammar and nothing else.  Fuel for the length of the input is
enough.
-/

namespace IcefallDB

namespace TypeParser

variable {unicode : UnicodeTables}

variable {c : Char}

theorem skipWs_of_expect {input rest : List Char} (found : expect c input = some rest) :
    skipWs input = c :: rest := by
  unfold expect at found
  split at found
  · next first others skipped =>
      split at found
      · next same =>
          obtain rfl := Option.some.inj found
          rw [skipped, same]
      · cases found
  · cases found

/-! ## Ends of texts -/

theorem not_continues_of_white_append {after rest : List Char} (white : White after)
    (stops : unicode.continuesName c = false) :
    ∀ first ∈ (after ++ c :: rest).head?, unicode.continuesName first = false := by
  intro first head
  cases after with
  | nil =>
      obtain rfl := Option.some.inj head
      exact stops
  | cons space spaces =>
      obtain rfl := Option.some.inj head
      exact not_continuesName_of_whitespace unicode (white space List.mem_cons_self)

/-- A text ends before a closing character, with white space in between. -/
theorem ends_of_closing (rest : List Char) {text after : List Char} {c : Char} (white : White after)
    (stops : unicode.continuesName c = false) (visible : isWhitespace c = false)
    (other : c ≠ '[') : Ends unicode text (after ++ c :: rest) := by
  refine ⟨fun _ => not_continues_of_white_append white stops, ?_⟩
  intro _ first head
  rw [skipWs_append white, skipWs_cons visible] at head
  obtain rfl := Option.some.inj head
  exact other

variable {text : List Char}

/-- A text that ends in a bracket ends anywhere. -/
theorem ends_of_bracket {rest : List Char} (stops : unicode.continuesName c = false)
    (last : c ∉ "timestamp".toList) : Ends unicode (text ++ [c]) rest := by
  constructor
  · intro continues
    have own := continues c List.getLast?_concat
    rw [stops] at own
    cases own
  · intro same
    exact absurd (same ▸ List.mem_append_right text (List.mem_singleton_self c)) last

theorem parseType_skip {gap : List Char} (white : White gap) (fuel : Nat) (input : List Char) :
    parseType unicode fuel (gap ++ input) = parseType unicode fuel input := by
  cases fuel with
  | zero => rw [parseType, parseType]
  | succ fuel =>
      have same : parseWord unicode (gap ++ input) = parseWord unicode input := by
        rw [parseWord, parseWord, parseFieldName, parseFieldName, skipWs_append white]
      rw [parseType, parseType, same]

/-- The brackets and separators of types. -/
theorem bracket_facts (unicode : UnicodeTables) : ∀ c ∈ ['<', '>', '(', ')', ',', ':', ']'],
    unicode.continuesName c = false ∧ isWhitespace c = false ∧ c ≠ '[' ∧ c.isDigit = false ∧
      c ∉ "timestamp".toList := by
  have plain : ∀ c ∈ ['<', '>', '(', ')', ',', ':', ']'], c.toNat < 128 ∧
      (c.isAlpha || c.isDigit || c = '_') = false ∧ isWhitespace c = false ∧ c ≠ '[' ∧
        c.isDigit = false ∧ c ∉ "timestamp".toList := by
    exact @of_decide_eq_true _ (List.decidableBAll _ _) (by decide +kernel)
  intro c member
  obtain ⟨ascii, own, rest⟩ := plain c member
  exact ⟨punctuation ascii own, rest⟩

/-- A word and an opening bracket are read off the front of a type. -/
theorem parseWord_bracket (unicode : UnicodeTables) {word gap : List Char} {head : TypeHead}
    (found : typeHead word = some head) (white : White gap) {c : Char}
    (opening : c ∈ ['<', '>', '(', ')', ',', ':', ']']) (rest : List Char) :
    ∃ behind, parseWord unicode (word ++ (gap ++ c :: rest)) = some (word, behind) ∧
      expect c (skipWs behind) = some rest := by
  obtain ⟨stops, visible, other, -⟩ := bracket_facts unicode c opening
  have ends : Ends unicode word (gap ++ c :: rest) := ends_of_closing rest white stops visible other
  obtain ⟨behind, worded, skipped⟩ := parseWord_append White.nil
    (isName_of_typeHead unicode found) (not_continues_of_white_append white stops) ends.2
  refine ⟨behind, worded, expect_of_skipWs ?_⟩
  rw [skipWs_skipWs, skipped, skipWs_append white, skipWs_cons visible]

/-! ## Reading the texts of the grammar -/

/-- The text of a type is read in front of any text that it ends before. -/
def ReadsType (unicode : UnicodeTables) (text : List Char) (dataType : ArrowType) : Prop :=
  ∀ (rest : List Char) (fuel : Nat), Ends unicode text rest → text.length < fuel →
    ∃ behind, parseType unicode fuel (text ++ rest) = some (dataType, behind) ∧
      skipWs behind = skipWs rest

/-- A type between white space is read up to a closing character. -/
theorem ReadsType.padded {text item : List Char} {dataType : ArrowType}
    (reads : ReadsType unicode item dataType) (padded : Padded text item) {c : Char}
    (closing : c ∈ ['<', '>', '(', ')', ',', ':', ']']) (rest : List Char) (fuel : Nat)
    (enough : text.length < fuel) :
    ∃ behind, parseType unicode fuel (text ++ c :: rest) = some (dataType, behind) ∧
      expect c behind = some rest := by
  obtain ⟨stops, visible, other, -⟩ := bracket_facts unicode c closing
  obtain ⟨before, after, white_before, white_after, rfl⟩ := padded
  have shorter : item.length < fuel := by
    rw [List.length_append, List.length_append] at enough
    omega
  obtain ⟨behind, parsed, skipped⟩ :=
    reads _ _ (ends_of_closing rest white_after stops visible other) shorter
  refine ⟨behind, ?_, expect_of_skipWs ?_⟩
  · rw [List.append_assoc, List.append_assoc, parseType_skip white_before, parsed]
  · rw [skipped, skipWs_append white_after, skipWs_cons visible]

theorem parseUsize_padded {text number : List Char} {value : Nat} (padded : Padded text number)
    (number_eq : parseDigits number = some value) (fits : value < 2 ^ 64) {c : Char}
    (closing : c ∈ ['<', '>', '(', ')', ',', ':', ']']) (rest : List Char) :
    ∃ behind, parseUsize (text ++ c :: rest) = some (value, behind) ∧
      expect c behind = some rest := by
  have anyTables : ∀ c ∈ ['<', '>', '(', ')', ',', ':', ']'],
      isWhitespace c = false ∧ c.isDigit = false := by
    exact @of_decide_eq_true _ (List.decidableBAll _ _) (by decide +kernel)
  obtain ⟨visible, stops⟩ := anyTables c closing
  obtain ⟨behind, parsed, skipped⟩ :=
    parseUsize_append rest padded number_eq fits stops visible
  exact ⟨behind, parsed, expect_of_skipWs skipped⟩

theorem parseFieldName_padded {name : List Char} (padded : Padded text name)
    (isName : IsName unicode name) (rest : List Char) :
    ∃ behind, parseFieldName unicode (text ++ ':' :: rest) = some (name, behind) ∧
      expect ':' behind = some rest := by
  obtain ⟨stops, visible, -⟩ := bracket_facts unicode ':' (by decide)
  obtain ⟨before, after, white_before, white_after, rfl⟩ := padded
  refine ⟨after ++ ':' :: rest, ?_, expect_of_skipWs ?_⟩
  · rw [List.append_assoc, List.append_assoc]
    exact parseFieldName_append white_before isName
      (not_continues_of_white_append white_after stops)
  · rw [skipWs_append white_after, skipWs_cons visible]

/-- The name of a field does not start with the closing bracket of its struct. -/
theorem skipWs_name {name : List Char} (padded : Padded text name) (isName : IsName unicode name)
    (rest : List Char) :
    ∃ c others, skipWs (text ++ rest) = c :: others ∧ c ≠ '>' ∧
      parseFieldName unicode (c :: others) = parseFieldName unicode (text ++ rest) := by
  obtain ⟨before, after, white, -, rfl⟩ := padded
  obtain ⟨first, others, rfl, starts, -⟩ := isName
  have skipped : skipWs (before ++ (first :: others ++ after) ++ rest) =
      first :: (others ++ (after ++ rest)) := by
    rw [List.append_assoc, skipWs_append white, List.append_assoc, List.cons_append,
      skipWs_cons (visible_of_startsName starts)]
  refine ⟨first, _, skipped, ?_, ?_⟩
  · rintro rfl
    have stops := (bracket_facts unicode '>' (by decide)).1
    rw [continuesName_of_startsName starts] at stops
    cases stops
  · have same : parseFieldName unicode (skipWs (before ++ (first :: others ++ after) ++ rest)) =
        parseFieldName unicode (before ++ (first :: others ++ after) ++ rest) := by
      rw [parseFieldName, skipWs_skipWs]
      rfl
    rw [← same, skipped]

theorem typeHead_words : typeHead "list".toList = some .list ∧
    typeHead "large_list".toList = some .largeList ∧ typeHead "struct".toList = some .struct ∧
      typeHead "map".toList = some .map ∧ typeHead "decimal128".toList = some .decimal128 ∧
        typeHead "fixed_size_binary".toList = some .fixedSizeBinary ∧
          typeHead "timestamp".toList = some (.plain (.timestamp none)) :=
  ⟨rfl, rfl, rfl, rfl, rfl, rfl, rfl⟩

/-- There is fuel for one more call. -/
theorem exists_fuel {fuel : Nat} (enough : text.length < fuel) :
    ∃ less, fuel = less + 1 ∧ text.length ≤ less :=
  ⟨fuel - 1, by omega, by omega⟩

/-- A field is read, and what comes next decides whether there are others. -/
theorem parseField_eq {input others behind separated after name : List Char} {first : Char}
    {fuel : Nat} {dataType : ArrowType} (skipped : skipWs input = first :: others)
    (opening : first ≠ '>')
    (same : parseFieldName unicode (first :: others) = parseFieldName unicode input)
    (named : parseFieldName unicode input = some (name, behind))
    (colon : expect ':' behind = some separated)
    (parsed : parseType unicode fuel separated = some (dataType, after)) :
    parseStructFields unicode (fuel + 1) input =
      match skipWs after with
      | ',' :: rest => do
          let (fields, rest) ← parseStructFields unicode fuel rest
          some (.mk (String.ofList name) dataType true :: fields, rest)
      | '>' :: rest => some ([.mk (String.ofList name) dataType true], '>' :: rest)
      | _ => none := by
  rw [parseStructFields, skipped]
  split
  · next rest closes => exact absurd (List.cons.inj closes).1 opening
  · rw [same, named]
    change (expect ':' behind).bind _ = _
    rw [colon]
    change (parseType unicode fuel separated).bind _ = _
    rw [parsed]
    rfl

/-! What a word lets the parser go on with. -/

section

variable {input word behind opened after rest : List Char} {fuel : Nat} {item : ArrowType}

theorem parseType_plain (worded : parseWord unicode input = some (word, behind))
    (head : typeHead word = some (.plain item)) :
    parseType unicode (fuel + 1) input = some (item, skipWs behind) := by
  rw [parseType, worded]
  simp only [Option.bind_eq_bind, Option.bind_some, head]

theorem parseType_list (worded : parseWord unicode input = some (word, behind))
    (head : typeHead word = some .list) (opening : expect '<' (skipWs behind) = some opened)
    (parsed : parseType unicode fuel opened = some (item, after))
    (closing : expect '>' after = some rest) :
    parseType unicode (fuel + 1) input = some (.list (.mk "item" item true), rest) := by
  rw [parseType, worded]
  simp only [Option.bind_eq_bind, Option.bind_some, head, opening, parsed, closing]

theorem parseType_largeList (worded : parseWord unicode input = some (word, behind))
    (head : typeHead word = some .largeList) (opening : expect '<' (skipWs behind) = some opened)
    (parsed : parseType unicode fuel opened = some (item, after))
    (closing : expect '>' after = some rest) :
    parseType unicode (fuel + 1) input = some (.largeList (.mk "item" item true), rest) := by
  rw [parseType, worded]
  simp only [Option.bind_eq_bind, Option.bind_some, head, opening, parsed, closing]

theorem parseType_struct {fields : List ArrowField}
    (worded : parseWord unicode input = some (word, behind))
    (head : typeHead word = some .struct) (opening : expect '<' (skipWs behind) = some opened)
    (parsed : parseStructFields unicode fuel opened = some (fields, after))
    (closing : expect '>' after = some rest) :
    parseType unicode (fuel + 1) input = some (.struct fields, rest) := by
  rw [parseType, worded]
  simp only [Option.bind_eq_bind, Option.bind_some, head, opening, parsed, closing]

variable {between separated : List Char}

theorem parseType_map {value : ArrowType} (worded : parseWord unicode input = some (word, behind))
    (head : typeHead word = some .map) (opening : expect '<' (skipWs behind) = some opened)
    (key_parsed : parseType unicode fuel opened = some (item, between))
    (separating : expect ',' between = some separated)
    (value_parsed : parseType unicode fuel separated = some (value, after))
    (closing : expect '>' after = some rest) :
    parseType unicode (fuel + 1) input = some (.map (mapEntries item value) false, rest) := by
  rw [parseType, worded]
  simp only [Option.bind_eq_bind, Option.bind_some, head, opening, key_parsed, separating,
    value_parsed, closing]

variable (fuel) in
theorem parseType_decimal128 {precision scale : Nat}
    (worded : parseWord unicode input = some (word, behind))
    (head : typeHead word = some .decimal128) (opening : expect '(' (skipWs behind) = some opened)
    (digits_parsed : parseUsize opened = some (precision, between))
    (separating : expect ',' between = some separated)
    (places_parsed : parseUsize separated = some (scale, after))
    (closing : expect ')' after = some rest) :
    parseType unicode (fuel + 1) input =
      some (.decimal128 (UInt8.ofNat precision) (Int8.ofNat scale), rest) := by
  rw [parseType, worded]
  simp only [Option.bind_eq_bind, Option.bind_some, head, opening, digits_parsed, separating,
    places_parsed, closing]

variable (fuel) in
theorem parseType_fixedSizeBinary {size : Nat}
    (worded : parseWord unicode input = some (word, behind))
    (head : typeHead word = some .fixedSizeBinary)
    (opening : expect '(' (skipWs behind) = some opened)
    (parsed : parseUsize opened = some (size, after)) (closing : expect ')' after = some rest) :
    parseType unicode (fuel + 1) input = some (.fixedSizeBinary (Int32.ofNat size), rest) := by
  rw [parseType, worded]
  simp only [Option.bind_eq_bind, Option.bind_some, head, opening, parsed, closing]

end

mutual

/-- The texts of types are read. -/
theorem readsType_of_isType {text : List Char} {dataType : ArrowType}
    (isType : IsType unicode false text dataType) : ReadsType unicode text dataType := by
  obtain ⟨list_eq, largeList_eq, struct_eq, map_eq, decimal_eq, binary_eq, timestamp_eq⟩ :=
    typeHead_words
  cases isType with
  | plain head =>
      intro rest fuel ends enough
      obtain ⟨fuel, rfl, -⟩ := exists_fuel enough
      have isName := isName_of_typeHead unicode head
      have stops := ends.1 fun c last =>
        continuesName_of_isName isName c (List.mem_of_getLast? last)
      obtain ⟨behind, worded, skipped⟩ := parseWord_append White.nil isName stops ends.2
      rw [List.nil_append] at worded
      refine ⟨skipWs behind, ?_, ?_⟩
      · exact parseType_plain worded head
      · rw [skipWs_skipWs, skipped]
  | @resolution gap white =>
      intro rest fuel _ enough
      obtain ⟨fuel, rfl, -⟩ := exists_fuel enough
      have stops : ∀ c ∈ (gap ++ ("[us]".toList ++ rest)).head?, unicode.continuesName c = false :=
        not_continues_of_white_append white (punctuation (by decide) (by decide))
      have worded : parseWord unicode ("timestamp".toList ++ (gap ++ ("[us]".toList ++ rest))) =
          some ("timestamp".toList, rest) := by
        have named := parseFieldName_append White.nil
          (isName_of_typeHead unicode timestamp_eq) stops
        rw [List.nil_append] at named
        rw [parseWord, named, Option.bind_eq_bind, Option.bind_some]
        dsimp only
        rw [if_pos rfl, parseResolution_us white]
        rfl
      refine ⟨skipWs rest, ?_, skipWs_skipWs rest⟩
      rw [List.append_assoc, List.append_assoc]
      exact parseType_plain worded timestamp_eq
  | @list gap text item dataType white padded isType =>
      intro rest fuel _ enough
      obtain ⟨fuel, rfl, room⟩ := exists_fuel enough
      obtain ⟨behind, worded, opened⟩ := parseWord_bracket unicode list_eq white
        (by decide : '<' ∈ _) (text ++ '>' :: rest)
      obtain ⟨after, parsed, closed⟩ := (readsType_of_isType isType).padded padded
        (by decide : '>' ∈ _) rest fuel (by simp at room; omega)
      refine ⟨rest, ?_, rfl⟩
      rw [← parseType_list worded list_eq opened parsed closed]
      simp only [List.append_assoc, List.cons_append, List.nil_append]
  | @largeList gap text item dataType white padded isType =>
      intro rest fuel _ enough
      obtain ⟨fuel, rfl, room⟩ := exists_fuel enough
      obtain ⟨behind, worded, opened⟩ := parseWord_bracket unicode largeList_eq white
        (by decide : '<' ∈ _) (text ++ '>' :: rest)
      obtain ⟨after, parsed, closed⟩ := (readsType_of_isType isType).padded padded
        (by decide : '>' ∈ _) rest fuel (by simp at room; omega)
      refine ⟨rest, ?_, rfl⟩
      rw [← parseType_largeList worded largeList_eq opened parsed closed]
      simp only [List.append_assoc, List.cons_append, List.nil_append]
  | @struct gap text fields white isFields =>
      intro rest fuel _ enough
      obtain ⟨fuel, rfl, room⟩ := exists_fuel enough
      obtain ⟨behind, worded, opened⟩ := parseWord_bracket unicode struct_eq white
        (by decide : '<' ∈ _) (text ++ '>' :: rest)
      have parsed := parseStructFields_append isFields rest fuel (by simp at room; omega)
      have closed : expect '>' ('>' :: rest) = some rest := rfl
      refine ⟨rest, ?_, rfl⟩
      rw [← parseType_struct worded struct_eq opened parsed closed]
      simp only [List.append_assoc, List.cons_append, List.nil_append]
  | @map gap keyText key valueText value keyType valueType white key_padded value_padded
      key_isType value_isType =>
      intro rest fuel _ enough
      obtain ⟨fuel, rfl, room⟩ := exists_fuel enough
      obtain ⟨behind, worded, opened⟩ := parseWord_bracket unicode map_eq white
        (by decide : '<' ∈ _) (keyText ++ ',' :: (valueText ++ '>' :: rest))
      obtain ⟨between, key_parsed, separated⟩ := (readsType_of_isType key_isType).padded
        key_padded (by decide : ',' ∈ _) (valueText ++ '>' :: rest) fuel (by simp at room; omega)
      obtain ⟨after, value_parsed, closed⟩ := (readsType_of_isType value_isType).padded
        value_padded (by decide : '>' ∈ _) rest fuel (by simp at room; omega)
      refine ⟨rest, ?_, rfl⟩
      rw [← parseType_map worded map_eq opened key_parsed separated value_parsed closed]
      simp only [List.append_assoc, List.cons_append, List.nil_append]
  | @decimal128 gap precisionText precision scaleText scale digits places white precision_padded
      scale_padded precision_eq scale_eq precision_fits scale_fits =>
      intro rest fuel _ enough
      obtain ⟨fuel, rfl, -⟩ := exists_fuel enough
      obtain ⟨behind, worded, opened⟩ := parseWord_bracket unicode decimal_eq white
        (by decide : '(' ∈ _) (precisionText ++ ',' :: (scaleText ++ ')' :: rest))
      obtain ⟨between, digits_parsed, separated⟩ := parseUsize_padded precision_padded
        precision_eq precision_fits (by decide : ',' ∈ _) (scaleText ++ ')' :: rest)
      obtain ⟨after, places_parsed, closed⟩ := parseUsize_padded scale_padded scale_eq
        scale_fits (by decide : ')' ∈ _) rest
      refine ⟨rest, ?_, rfl⟩
      rw [← parseType_decimal128 fuel worded decimal_eq opened digits_parsed separated places_parsed
        closed]
      simp only [List.append_assoc, List.cons_append, List.nil_append]
  | @fixedSizeBinary gap text number size white padded number_eq fits =>
      intro rest fuel _ enough
      obtain ⟨fuel, rfl, -⟩ := exists_fuel enough
      obtain ⟨behind, worded, opened⟩ := parseWord_bracket unicode binary_eq white
        (by decide : '(' ∈ _) (text ++ ')' :: rest)
      obtain ⟨after, parsed, closed⟩ := parseUsize_padded padded number_eq fits
        (by decide : ')' ∈ _) rest
      refine ⟨rest, ?_, rfl⟩
      rw [← parseType_fixedSizeBinary fuel worded binary_eq opened parsed closed]
      simp only [List.append_assoc, List.cons_append, List.nil_append]

/-- The texts of fields are read up to the closing bracket of their struct. -/
theorem parseStructFields_append {text : List Char} {fields : List ArrowField}
    (isFields : IsFields unicode false text fields) :
    ∀ (rest : List Char) (fuel : Nat), text.length < fuel →
      parseStructFields unicode fuel (text ++ '>' :: rest) = some (fields, '>' :: rest) := by
  cases isFields with
  | none white =>
      intro rest fuel enough
      obtain ⟨fuel, rfl, -⟩ := exists_fuel enough
      have skipped : skipWs (text ++ '>' :: rest) = '>' :: rest := by
        rw [skipWs_append white]
        rfl
      rw [parseStructFields, skipped]
      rfl
  | @last nameText name typeText text dataType name_padded isName type_padded isType =>
      intro rest fuel enough
      obtain ⟨fuel, rfl, room⟩ := exists_fuel enough
      obtain ⟨first, others, skipped, opening, same⟩ :=
        skipWs_name name_padded isName (':' :: (typeText ++ '>' :: rest))
      obtain ⟨behind, named, separated⟩ :=
        parseFieldName_padded name_padded isName (typeText ++ '>' :: rest)
      obtain ⟨after, parsed, closed⟩ := (readsType_of_isType isType).padded type_padded
        (by decide : '>' ∈ _) rest fuel (by simp at room; omega)
      have field := parseField_eq skipped opening same named separated parsed
      simp only [List.append_assoc, List.cons_append]
      rw [field, skipWs_of_expect closed]
      rfl
  | @more nameText name typeText text others dataType fields name_padded isName type_padded isType
      isFields =>
      intro rest fuel enough
      obtain ⟨fuel, rfl, room⟩ := exists_fuel enough
      obtain ⟨first, characters, skipped, opening, same⟩ :=
        skipWs_name name_padded isName (':' :: (typeText ++ ',' :: (others ++ '>' :: rest)))
      obtain ⟨behind, named, separated⟩ :=
        parseFieldName_padded name_padded isName (typeText ++ ',' :: (others ++ '>' :: rest))
      obtain ⟨after, parsed, closed⟩ := (readsType_of_isType isType).padded type_padded
        (by decide : ',' ∈ _) (others ++ '>' :: rest) fuel (by simp at room; omega)
      have remaining := parseStructFields_append isFields rest fuel (by simp at room; omega)
      have field := parseField_eq skipped opening same named separated parsed
      simp only [List.append_assoc, List.cons_append]
      rw [field, skipWs_of_expect closed]
      simp only [remaining, Option.bind_eq_bind, Option.bind_some]

end

/-! ## What has been read -/

/-- The input starts with the text of a type, and what is behind it is left. -/
def HasRead (unicode : UnicodeTables) (input : List Char) (dataType : ArrowType)
    (behind : List Char) : Prop :=
  ∃ gap text rest, White gap ∧ input = gap ++ (text ++ rest) ∧
    IsType unicode false text dataType ∧ Ends unicode text rest ∧ skipWs rest = skipWs behind

/-- A type that a closing character has been read behind. -/
theorem HasRead.padded {input behind rest : List Char} {dataType : ArrowType}
    (read : HasRead unicode input dataType behind) (closed : expect c behind = some rest) :
    ∃ text item, Padded text item ∧ IsType unicode false item dataType ∧
      input = text ++ c :: rest := by
  obtain ⟨gap, item, following, white, rfl, isType, -, skipped⟩ := read
  obtain ⟨between, white_between, following_eq⟩ := exists_skipWs following
  rw [skipped, skipWs_of_expect closed] at following_eq
  refine ⟨gap ++ (item ++ between), item, ⟨gap, between, white, white_between, rfl⟩, isType, ?_⟩
  rw [following_eq]
  simp only [List.append_assoc]

/-- A number that a closing character has been read behind. -/
theorem padded_of_parseUsize {input behind rest : List Char} {value : Nat}
    (parsed : parseUsize input = some (value, behind)) (closed : expect c behind = some rest) :
    ∃ text number, Padded text number ∧ parseDigits number = some value ∧ value < 2 ^ 64 ∧
      input = text ++ c :: rest := by
  obtain ⟨gap, number, white, rfl, number_eq, fits⟩ := parseUsize_eq_some parsed
  obtain ⟨between, white_between, rfl⟩ := expect_eq_some closed
  refine ⟨gap ++ (number ++ between), number, ⟨gap, between, white, white_between, rfl⟩, number_eq,
    fits, ?_⟩
  simp only [List.append_assoc]

/-- A name that a colon has been read behind. -/
theorem padded_of_parseFieldName {input name behind rest : List Char}
    (named : parseFieldName unicode input = some (name, behind))
    (closed : expect ':' behind = some rest) :
    ∃ text, Padded text name ∧ IsName unicode name ∧ input = text ++ ':' :: rest := by
  obtain ⟨gap, white, rfl, isName, -⟩ := parseFieldName_eq_some named
  obtain ⟨between, white_between, rfl⟩ := expect_eq_some closed
  refine ⟨gap ++ (name ++ between), ⟨gap, between, white, white_between, rfl⟩, isName, ?_⟩
  simp only [List.append_assoc]

/-- A word that an opening bracket has been read behind. -/
theorem split_of_parseWord {input word behind rest : List Char}
    (worded : parseWord unicode input = some (word, behind)) (other : word ≠ "timestamp".toList)
    (opened : expect c (skipWs behind) = some rest) :
    ∃ gap between, White gap ∧ White between ∧ input = gap ++ (word ++ (between ++ c :: rest)) := by
  rcases parseWord_eq_some worded with ⟨gap, following, white, rfl, -, -, -, skipped⟩ | ⟨same, -⟩
  · obtain ⟨between, white_between, following_eq⟩ := exists_skipWs following
    have found := skipWs_of_expect opened
    rw [skipWs_skipWs, skipped] at found
    rw [found] at following_eq
    exact ⟨gap, between, white, white_between, by rw [following_eq]⟩
  · exact absurd same other

/-- The word of a head, if only one stands for it. -/
theorem word_of_typeHead (text : String) {word : List Char} {head : TypeHead}
    (found : typeHead word = some head)
    (only : ∀ entry ∈ typeWords, entry.2 = head → entry.1 = text) : word = text.toList := by
  have same := only _ (mem_typeWords_of_typeHead found) rfl
  rw [← same, String.toList_ofList]

/-- A type that ends in a bracket has been read. -/
theorem HasRead.of_bracket (text rest : List Char) {gap whole : List Char} {dataType : ArrowType}
    {c : Char} (white : White gap) (closing : c ∈ ['<', '>', '(', ')', ',', ':', ']'])
    (isType : IsType unicode false whole dataType) (whole_eq : whole = text ++ [c]) :
    HasRead unicode (gap ++ (text ++ c :: rest)) dataType rest := by
  obtain ⟨stops, -, -, -, last⟩ := bracket_facts unicode c closing
  refine ⟨gap, whole, rest, white, ?_, isType, whole_eq ▸ ends_of_bracket stops last, rfl⟩
  rw [whole_eq, List.append_assoc, List.singleton_append]

/-- A bracketed type has been read. -/
theorem HasRead.of_bracketed (inner rest : List Char) {gap word between : List Char}
    {dataType : ArrowType} {opening c : Char} (white : White gap)
    (closing : c ∈ ['<', '>', '(', ')', ',', ':', ']'])
    (isType : IsType unicode false (word ++ (between ++ opening :: (inner ++ [c]))) dataType) :
    HasRead unicode (gap ++ (word ++ (between ++ opening :: (inner ++ c :: rest)))) dataType
      rest := by
  have read := HasRead.of_bracket (word ++ (between ++ opening :: inner)) rest white closing isType
    (by simp only [List.append_assoc, List.cons_append])
  simpa only [List.append_assoc, List.cons_append] using read

theorem prepend_padded {gap inner : List Char} (white : White gap) (padded : Padded text inner) :
    Padded (gap ++ text) inner := by
  obtain ⟨before, after, white_before, white_after, rfl⟩ := padded
  refine ⟨gap ++ before, after, ?_, white_after, (List.append_assoc ..).symm⟩
  intro c member
  rcases List.mem_append.mp member with early | late
  · exact white c early
  · exact white_before c late

/-- Whatever the parser reads is a text of the grammar. -/
theorem hasRead_of_parseType (fuel : Nat) :
    (∀ input dataType behind, parseType unicode fuel input = some (dataType, behind) →
      HasRead unicode input dataType behind) ∧
    ∀ input fields behind, parseStructFields unicode fuel input = some (fields, behind) →
      ∃ text rest, behind = '>' :: rest ∧ input = text ++ behind ∧
        IsFields unicode false text fields := by
  induction fuel with
  | zero => exact ⟨nofun, nofun⟩
  | succ fuel ih =>
      obtain ⟨reads, reads_fields⟩ := ih
      constructor
      · intro input dataType behind parsed
        rw [parseType] at parsed
        obtain ⟨⟨word, after⟩, worded, at_head⟩ := Option.bind_eq_some_iff.mp parsed
        obtain ⟨head, found, at_rest⟩ := Option.bind_eq_some_iff.mp at_head
        clear parsed at_head
        cases head with
        | plain own =>
            obtain ⟨rfl, rfl⟩ := Prod.mk.inj (Option.some.inj at_rest)
            rcases parseWord_eq_some worded with
              ⟨gap, rest, white, rfl, -, stops, absent, skipped⟩ |
              ⟨rfl, gap, between, white, white_between, rfl⟩
            · refine ⟨gap, word, rest, white, rfl, .plain found, ⟨fun _ => stops, absent⟩, ?_⟩
              rw [skipWs_skipWs, skipped]
            · rw [typeHead_words.2.2.2.2.2.2] at found
              obtain rfl := TypeHead.plain.inj (Option.some.inj found)
              have read : HasRead unicode
                  (gap ++ ("timestamp".toList ++ (between ++ "[us".toList) ++ ']' :: after))
                    (.timestamp none) after :=
                .of_bracket _ after white (by decide) (.resolution white_between)
                  (by simp only [List.append_assoc]; rfl)
              obtain ⟨gap', text, rest, white', input_eq, isType, ends, skipped⟩ := read
              refine ⟨gap', text, rest, white', ?_, isType, ends, ?_⟩
              · rw [← input_eq]
                simp only [List.append_assoc]
                rfl
              · rw [skipped, skipWs_skipWs]
        | list =>
            obtain ⟨first, opened, at_item⟩ := Option.bind_eq_some_iff.mp at_rest
            obtain ⟨⟨item, second⟩, item_parsed, at_close⟩ := Option.bind_eq_some_iff.mp at_item
            obtain ⟨third, closed, same⟩ := Option.bind_eq_some_iff.mp at_close
            obtain ⟨rfl, rfl⟩ := Prod.mk.inj (Option.some.inj same)
            obtain rfl := word_of_typeHead "list" found (by simp [typeWords])
            obtain ⟨gap, between, white, white_between, rfl⟩ :=
              split_of_parseWord worded (by decide) opened
            obtain ⟨text, inner, padded, isType, rfl⟩ := (reads _ _ _ item_parsed).padded closed
            exact .of_bracketed _ _ white (by decide) (.list white_between padded isType)
        | largeList =>
            obtain ⟨first, opened, at_item⟩ := Option.bind_eq_some_iff.mp at_rest
            obtain ⟨⟨item, second⟩, item_parsed, at_close⟩ := Option.bind_eq_some_iff.mp at_item
            obtain ⟨third, closed, same⟩ := Option.bind_eq_some_iff.mp at_close
            obtain ⟨rfl, rfl⟩ := Prod.mk.inj (Option.some.inj same)
            obtain rfl := word_of_typeHead "large_list" found (by simp [typeWords])
            obtain ⟨gap, between, white, white_between, rfl⟩ :=
              split_of_parseWord worded (by decide) opened
            obtain ⟨text, inner, padded, isType, rfl⟩ := (reads _ _ _ item_parsed).padded closed
            exact .of_bracketed _ _ white (by decide) (.largeList white_between padded isType)
        | struct =>
            obtain ⟨first, opened, at_fields⟩ := Option.bind_eq_some_iff.mp at_rest
            obtain ⟨⟨fields, second⟩, fields_parsed, at_close⟩ :=
              Option.bind_eq_some_iff.mp at_fields
            obtain ⟨third, closed, same⟩ := Option.bind_eq_some_iff.mp at_close
            obtain ⟨rfl, rfl⟩ := Prod.mk.inj (Option.some.inj same)
            obtain rfl := word_of_typeHead "struct" found (by simp [typeWords])
            obtain ⟨gap, between, white, white_between, rfl⟩ :=
              split_of_parseWord worded (by decide) opened
            obtain ⟨text, rest, rfl, rfl, isFields⟩ := reads_fields _ _ _ fields_parsed
            obtain rfl := Option.some.inj closed
            exact .of_bracketed _ _ white (by decide) (.struct white_between isFields)
        | map =>
            obtain ⟨first, opened, at_key⟩ := Option.bind_eq_some_iff.mp at_rest
            obtain ⟨⟨key, second⟩, key_parsed, at_comma⟩ := Option.bind_eq_some_iff.mp at_key
            obtain ⟨third, separated, at_value⟩ := Option.bind_eq_some_iff.mp at_comma
            obtain ⟨⟨value, fourth⟩, value_parsed, at_close⟩ := Option.bind_eq_some_iff.mp at_value
            obtain ⟨fifth, closed, same⟩ := Option.bind_eq_some_iff.mp at_close
            obtain ⟨rfl, rfl⟩ := Prod.mk.inj (Option.some.inj same)
            obtain rfl := word_of_typeHead "map" found (by simp [typeWords])
            obtain ⟨gap, between, white, white_between, rfl⟩ :=
              split_of_parseWord worded (by decide) opened
            obtain ⟨keyText, keyInner, key_padded, key_isType, rfl⟩ :=
              (reads _ _ _ key_parsed).padded separated
            obtain ⟨valueText, valueInner, value_padded, value_isType, rfl⟩ :=
              (reads _ _ _ value_parsed).padded closed
            have isType := IsType.map white_between key_padded value_padded key_isType value_isType
            have read := HasRead.of_bracketed (keyText ++ ',' :: valueText) fifth white
              (by decide : '>' ∈ _)
              (by simpa only [List.append_assoc, List.cons_append] using isType)
            simpa only [List.append_assoc, List.cons_append] using read
        | decimal128 =>
            obtain ⟨first, opened, at_precision⟩ := Option.bind_eq_some_iff.mp at_rest
            obtain ⟨⟨precision, second⟩, precision_parsed, at_comma⟩ :=
              Option.bind_eq_some_iff.mp at_precision
            obtain ⟨third, separated, at_scale⟩ := Option.bind_eq_some_iff.mp at_comma
            obtain ⟨⟨scale, fourth⟩, scale_parsed, at_close⟩ := Option.bind_eq_some_iff.mp at_scale
            obtain ⟨fifth, closed, same⟩ := Option.bind_eq_some_iff.mp at_close
            obtain ⟨rfl, rfl⟩ := Prod.mk.inj (Option.some.inj same)
            obtain rfl := word_of_typeHead "decimal128" found (by simp [typeWords])
            obtain ⟨gap, between, white, white_between, rfl⟩ :=
              split_of_parseWord worded (by decide) opened
            obtain ⟨precisionText, digits, precision_padded, digits_eq, digits_fit, rfl⟩ :=
              padded_of_parseUsize precision_parsed separated
            obtain ⟨scaleText, places, scale_padded, places_eq, places_fit, rfl⟩ :=
              padded_of_parseUsize scale_parsed closed
            have isType : IsType unicode false _ _ := .decimal128 white_between precision_padded
              scale_padded digits_eq places_eq digits_fit places_fit
            have read := HasRead.of_bracketed (precisionText ++ ',' :: scaleText) fifth white
              (by decide : ')' ∈ _)
              (by simpa only [List.append_assoc, List.cons_append] using isType)
            simpa only [List.append_assoc, List.cons_append] using read
        | fixedSizeBinary =>
            obtain ⟨first, opened, at_size⟩ := Option.bind_eq_some_iff.mp at_rest
            obtain ⟨⟨size, second⟩, size_parsed, at_close⟩ := Option.bind_eq_some_iff.mp at_size
            obtain ⟨third, closed, same⟩ := Option.bind_eq_some_iff.mp at_close
            obtain ⟨rfl, rfl⟩ := Prod.mk.inj (Option.some.inj same)
            obtain rfl := word_of_typeHead "fixed_size_binary" found
              (by simp [typeWords])
            obtain ⟨gap, between, white, white_between, rfl⟩ :=
              split_of_parseWord worded (by decide) opened
            obtain ⟨text, number, padded, number_eq, fits, rfl⟩ :=
              padded_of_parseUsize size_parsed closed
            exact .of_bracketed _ _ white (by decide)
              (.fixedSizeBinary white_between padded number_eq fits)
      · intro input fields behind parsed
        rw [parseStructFields] at parsed
        obtain ⟨gap, white, input_eq⟩ := exists_skipWs input
        split at parsed
        · next rest skipped =>
            obtain ⟨rfl, rfl⟩ := Prod.mk.inj (Option.some.inj parsed)
            exact ⟨gap, rest, rfl, skipped ▸ input_eq, .none white⟩
        · obtain ⟨⟨name, first⟩, named, at_colon⟩ := Option.bind_eq_some_iff.mp parsed
          obtain ⟨second, colon, at_type⟩ := Option.bind_eq_some_iff.mp at_colon
          obtain ⟨⟨dataType, third⟩, type_parsed, at_next⟩ := Option.bind_eq_some_iff.mp at_type
          obtain ⟨nameText, name_padded, isName, visible_eq⟩ :=
            padded_of_parseFieldName named colon
          dsimp only at at_next
          split at at_next
          · next rest comma =>
              obtain ⟨⟨others, fourth⟩, others_parsed, same⟩ := Option.bind_eq_some_iff.mp at_next
              obtain ⟨rfl, rfl⟩ := Prod.mk.inj (Option.some.inj same)
              obtain ⟨typeText, text, type_padded, isType, rfl⟩ :=
                (reads _ _ _ type_parsed).padded (expect_of_skipWs comma)
              obtain ⟨othersText, following, rfl, rfl, isFields⟩ := reads_fields _ _ _ others_parsed
              refine ⟨_, following, rfl, ?_,
                .more (prepend_padded white name_padded) isName type_padded isType isFields⟩
              rw [input_eq, visible_eq]
              simp only [List.append_assoc, List.cons_append]
          · next rest closes =>
              obtain ⟨rfl, rfl⟩ := Prod.mk.inj (Option.some.inj at_next)
              obtain ⟨typeText, text, type_padded, isType, rfl⟩ :=
                (reads _ _ _ type_parsed).padded (expect_of_skipWs closes)
              refine ⟨_, rest, rfl, ?_,
                .last (prepend_padded white name_padded) isName type_padded isType⟩
              rw [input_eq, visible_eq]
              simp only [List.append_assoc, List.cons_append]
          · cases at_next

end TypeParser

end IcefallDB
