import IcefallDB.Lib.Json
import Mathlib.Tactic.IntervalCases

/-!
# Reading back compact JSON text

`parse` inverts `render`, and rendered text contains no line break.  The induction is over the
document; text after a nested document starts with a separator or a closing bracket, which is what
keeps a number literal from running into its surroundings.
-/

namespace Json

/-! ## String literals -/

private theorem hexValue_hexDigit {digit : Nat} (bound : digit < 16) :
    hexValue (hexDigit digit) = some digit := by
  interval_cases digit <;> decide

private theorem parseUnicode_control {char : Char} (control : char.toNat < 32) (rest : List Char) :
    parseUnicode
        ('0' :: '0' :: hexDigit (char.toNat / 16) :: hexDigit (char.toNat % 16) :: rest) =
      some (char, rest) := by
  have high : hexValue (hexDigit (char.toNat / 16)) = some (char.toNat / 16) :=
    hexValue_hexDigit (by omega)
  have low : hexValue (hexDigit (char.toNat % 16)) = some (char.toNat % 16) :=
    hexValue_hexDigit (by omega)
  have zero : hexValue '0' = some 0 := by decide
  have code : ((0 * 16 + 0) * 16 + char.toNat / 16) * 16 + char.toNat % 16 = char.toNat := by
    omega
  have scalar : char.toNat < 0xD800 ∨ 0xE000 ≤ char.toNat := by omega
  simp only [parseUnicode, parseHex4, zero, high, low, Option.bind_eq_bind, Option.bind_some, code]
  rw [if_pos scalar, Char.ofNat_toNat]

/-- Reading an escaped character costs one unit of fuel. -/
private theorem parseChars_escapeChar (char : Char) (fuel : Nat) (rest : List Char) :
    parseChars (fuel + 1) (escapeChar char ++ rest) =
      (parseChars fuel rest).map fun parsed => (char :: parsed.1, parsed.2) := by
  unfold escapeChar
  split_ifs with quote backslash newline carriage tab backspace feed control
  all_goals try subst char
  all_goals try simp [parseChars, simpleEscape, Option.map_eq_bind]
  · simp only [parseUnicode_control control, Option.bind_some]
  · simp [quote, backslash]
    omega

private theorem parseChars_escaped (chars : List Char) (fuel : Nat)
    (enough : chars.length < fuel) (rest : List Char) :
    parseChars fuel (chars.flatMap escapeChar ++ '"' :: rest) = some (chars, rest) := by
  induction chars generalizing fuel with
  | nil =>
      obtain ⟨fuel, rfl⟩ : ∃ more, fuel = more + 1 := ⟨fuel - 1, by simp at enough; omega⟩
      simp [parseChars]
  | cons char chars ih =>
      obtain ⟨fuel, rfl⟩ : ∃ more, fuel = more + 1 := ⟨fuel - 1, by omega⟩
      have fewer : chars.length < fuel := by simpa using enough
      rw [List.flatMap_cons, List.append_assoc, parseChars_escapeChar, ih fuel fewer]
      rfl

private theorem length_le_length_flatMap_escapeChar (chars : List Char) :
    chars.length ≤ (chars.flatMap escapeChar).length := by
  induction chars with
  | nil => simp
  | cons char chars ih =>
      have one : 1 ≤ (escapeChar char).length := by
        unfold escapeChar
        split_ifs <;> simp
      simp only [List.length_cons, List.flatMap_cons, List.length_append]
      omega

private theorem parseString_renderString (text : String) (rest : List Char) :
    parseString (text.toList.flatMap escapeChar ++ '"' :: rest) = some (text, rest) := by
  have escaped := length_le_length_flatMap_escapeChar text.toList
  have enough : text.toList.length <
      (text.toList.flatMap escapeChar ++ '"' :: rest).length + 1 := by
    simp only [List.length_append, List.length_cons]
    omega
  rw [parseString, parseChars_escaped text.toList _ enough rest]
  simp

/-! ## Number literals -/

/-- Text that may follow a document: nothing, a separator or a closing bracket. -/
def Stops (rest : List Char) : Prop :=
  ∀ char tail, rest = char :: tail → char = ',' ∨ char = ']' ∨ char = '\x7d'

private theorem takeDigits_append {digits rest : List Char} (stops : Stops rest)
    (all : ∀ char ∈ digits, char.isDigit = true) :
    takeDigits (digits ++ rest) = (digits, rest) := by
  induction digits with
  | nil =>
      cases rest with
      | nil => rfl
      | cons char tail =>
          have not_digit : char.isDigit = false := by
            rcases stops char tail rfl with rfl | rfl | rfl <;> decide
          simp [takeDigits, not_digit]
  | cons char digits ih =>
      have head_digit : char.isDigit = true := all char List.mem_cons_self
      have tail_digits := ih fun digit member => all digit (List.mem_cons_of_mem char member)
      simp [takeDigits, head_digit, tail_digits]

private theorem toDigits_isDigit (value : Nat) :
    ∀ char ∈ Nat.toDigits 10 value, char.isDigit = true :=
  fun _ member => Nat.isDigit_of_mem_toDigits (by omega) (by omega) member

/-- Only zero has a decimal form that starts with the digit zero. -/
private theorem toDigits_head (value : Nat) (positive : 0 < value) :
    (Nat.toDigits 10 value).head? ≠ some '0' := by
  induction value using Nat.strong_induction_on with
  | _ value ih =>
      rw [Nat.toDigits_eq_if (by omega)]
      split
      · next small =>
          interval_cases value <;> decide
      · next large =>
          have shorter := ih (value / 10) (by omega) (by omega)
          rw [List.head?_append_of_ne_nil _ Nat.toDigits_ne_nil]
          exact shorter

private theorem parseNat_toDigits (value : Nat) {rest : List Char} (stops : Stops rest) :
    parseNat (Nat.toDigits 10 value ++ rest) = some (value, rest) := by
  have no_leading_zero : ¬((Nat.toDigits 10 value).head? = some '0' ∧
      (Nat.toDigits 10 value).length ≠ 1) := by
    rcases Nat.eq_zero_or_pos value with rfl | positive
    · decide
    · exact fun leading => toDigits_head value positive leading.1
  have value_eq : Nat.ofDigitChars 10 (Nat.toDigits 10 value) 0 = value :=
    Nat.ofDigitChars_ten_toDigits
  rw [parseNat, takeDigits_append stops (toDigits_isDigit value)]
  cases digits_eq : Nat.toDigits 10 value with
  | nil => exact absurd digits_eq Nat.toDigits_ne_nil
  | cons digit digits =>
      rw [digits_eq] at no_leading_zero value_eq
      simp only
      rw [if_neg no_leading_zero, value_eq]
      cases rest with
      | nil => rfl
      | cons char tail =>
          rcases stops char tail rfl with rfl | rfl | rfl <;> rfl

private theorem isNumberChar_of_isDigit {char : Char} (digit : char.isDigit = true) :
    isNumberChar char = true := by
  simp [isNumberChar, digit]

/-- A number literal ends where the text after it starts. -/
private theorem takeWhile_number {literal rest : List Char} (stops : Stops rest)
    (all : ∀ char ∈ literal, isNumberChar char = true) :
    (literal ++ rest).takeWhile isNumberChar = literal ∧
      (literal ++ rest).dropWhile isNumberChar = rest := by
  rw [List.takeWhile_append_of_pos all, List.dropWhile_append_of_pos all]
  cases rest with
  | nil => simp
  | cons char tail =>
      have ends : isNumberChar char = false := by
        rcases stops char tail rfl with rfl | rfl | rfl <;> decide
      simp [ends]

private theorem isNumberChar_of_mem (literal : FloatText) :
    ∀ char ∈ literal.chars, isNumberChar char = true := by
  have isFloat := literal.isFloat
  simp only [Json.isFloat, Bool.and_eq_true, List.all_eq_true] at isFloat
  exact isFloat.1.1

private theorem parseNumber_float (literal : FloatText) {rest : List Char} (stops : Stops rest) :
    parseNumber (literal.chars ++ rest) = some (float literal, rest) := by
  obtain ⟨taken, dropped⟩ := takeWhile_number stops (isNumberChar_of_mem literal)
  simp [parseNumber, taken, dropped, literal.isFloat]

/-- A decimal integer literal has neither fraction nor exponent. -/
private theorem isFloat_renderInt (value : Int) : isFloat (renderInt value) = false := by
  have whole (value : Nat) : takeDigits (Nat.toDigits 10 value) = (Nat.toDigits 10 value, []) := by
    have stops : Stops [] := by rintro _ _ ⟨⟩
    simpa using takeDigits_append stops (toDigits_isDigit value)
  have unfinished : isFraction [] = false := rfl
  cases value with
  | ofNat value =>
      have unsigned : (Nat.toDigits 10 value).head? ≠ some '-' := by
        intro leading
        have member := List.mem_of_head? leading
        exact absurd (toDigits_isDigit value _ member) (by decide)
      simp [isFloat, renderInt, unsigned, whole, unfinished]
  | negSucc value => simp [isFloat, renderInt, whole, unfinished]

private theorem isNumberChar_of_mem_renderInt (value : Int) :
    ∀ char ∈ renderInt value, isNumberChar char = true := by
  have digits (value : Nat) : ∀ char ∈ Nat.toDigits 10 value, isNumberChar char = true :=
    fun char member => isNumberChar_of_isDigit (toDigits_isDigit value char member)
  cases value with
  | ofNat value => exact digits value
  | negSucc value =>
      intro char member
      rcases List.mem_cons.mp member with rfl | member
      · decide
      · exact digits _ char member

private theorem parseInt_renderInt (value : Int) {rest : List Char} (stops : Stops rest) :
    parseInt (renderInt value ++ rest) = some (value, rest) := by
  cases value with
  | ofNat value =>
      have parsed := parseNat_toDigits value stops
      obtain ⟨char, tail, digits⟩ := List.exists_cons_of_ne_nil
        (Nat.toDigits_ne_nil (b := 10) (n := value))
      have unsigned : char ≠ '-' := by
        rintro rfl
        exact absurd (toDigits_isDigit value '-' (by simp [digits])) (by decide)
      rw [renderInt]
      rw [digits, List.cons_append] at parsed ⊢
      unfold parseInt
      split
      · next same => exact absurd (List.cons.inj same).1 unsigned
      · rw [parsed]
        rfl
  | negSucc value =>
      have parsed := parseNat_toDigits (value + 1) stops
      have negated : (-((value + 1 : Nat) : Int)) = Int.negSucc value := rfl
      simp [renderInt, parseInt, parsed, ← negated]

private theorem parseNumber_renderInt (value : Int) {rest : List Char} (stops : Stops rest) :
    parseNumber (renderInt value ++ rest) = some (num value, rest) := by
  have taken := (takeWhile_number stops (isNumberChar_of_mem_renderInt value)).1
  have whole : ¬isFloat ((renderInt value ++ rest).takeWhile isNumberChar) = true := by
    rw [taken, isFloat_renderInt]
    decide
  rw [parseNumber, dif_neg whole, parseInt_renderInt value stops]
  rfl

/-! ## Documents -/

private theorem isNumberChar_facts {char : Char} (number : isNumberChar char = true) :
    isSpace char = false ∧ char ≠ ']' ∧ char ≠ '\x7d' := by
  refine ⟨?_, ?_, ?_⟩
  · by_contra space
    simp only [isSpace, Bool.not_eq_false, Bool.or_eq_true, decide_eq_true_eq] at space
    rcases space with ((rfl | rfl) | rfl) | rfl <;> exact absurd number (by decide)
  · rintro rfl
    exact absurd number (by decide)
  · rintro rfl
    exact absurd number (by decide)

private theorem parseValue_number {char : Char} (number : isNumberChar char = true) (fuel : Nat)
    (tail : List Char) : parseValue (fuel + 1) (char :: tail) = parseNumber (char :: tail) := by
  rw [parseValue]
  simp only [skipSpace, (isNumberChar_facts number).1, Bool.false_eq_true, if_false]
  split
  case h_1 same => cases same
  case h_8 => rfl
  all_goals
    rename_i same
    obtain ⟨rfl, -⟩ := List.cons.inj same
    exact absurd number (by decide)

/-- The text of a number is not empty. -/
private theorem renderInt_cons (value : Int) : ∃ char tail, renderInt value = char :: tail := by
  cases value with
  | ofNat value => exact List.exists_cons_of_ne_nil Nat.toDigits_ne_nil
  | negSucc value => exact ⟨_, _, rfl⟩

private theorem FloatText.chars_cons (literal : FloatText) :
    ∃ char tail, literal.chars = char :: tail := by
  refine List.exists_cons_of_ne_nil fun empty => ?_
  have isFloat := literal.isFloat
  rw [empty] at isFloat
  exact absurd isFloat (by decide)

/-- A rendered document starts with a character that is neither whitespace nor a closing
bracket. -/
private theorem render_head (value : Json) :
    ∃ char tail, render value = char :: tail ∧
      isSpace char = false ∧ char ≠ ']' ∧ char ≠ '\x7d' := by
  cases value with
  | null => exact ⟨_, _, by rw [render], by decide, by decide, by decide⟩
  | bool value =>
      cases value
      · exact ⟨_, _, by rw [render], by decide, by decide, by decide⟩
      · exact ⟨_, _, by rw [render], by decide, by decide, by decide⟩
  | num value =>
      obtain ⟨char, tail, text⟩ := renderInt_cons value
      have number := isNumberChar_of_mem_renderInt value char (by simp [text])
      exact ⟨char, tail, by rw [render, text], isNumberChar_facts number⟩
  | float literal =>
      obtain ⟨char, tail, text⟩ := literal.chars_cons
      have number := isNumberChar_of_mem literal char (by simp [text])
      exact ⟨char, tail, by rw [render, text], isNumberChar_facts number⟩
  | str value => exact ⟨_, _, by rw [render, renderString], by decide, by decide, by decide⟩
  | arr items => exact ⟨_, _, by rw [render], by decide, by decide, by decide⟩
  | obj entries => exact ⟨_, _, by rw [render], by decide, by decide, by decide⟩

private theorem parseValue_arr {char : Char} (not_space : isSpace char = false)
    (not_close : char ≠ ']') (fuel : Nat) (tail : List Char) :
    parseValue (fuel + 1) ('[' :: char :: tail) =
      (parseItems fuel (char :: tail)).map fun parsed => (arr parsed.1, parsed.2) := by
  have bracket : isSpace '[' = false := by decide
  rw [parseValue]
  simp only [skipSpace, bracket, not_space, Bool.false_eq_true, if_false]
  split
  · next same => exact absurd (List.cons.inj same).1 not_close
  · simp [Option.map_eq_bind]

private theorem renderItems_head (item : Json) (items : List Json) (rest : List Char) :
    ∃ char tail, renderItems (item :: items) ++ rest = char :: tail ∧
      isSpace char = false ∧ char ≠ ']' := by
  obtain ⟨char, tail, text, not_space, not_close, -⟩ := render_head item
  cases items with
  | nil => exact ⟨char, _, by rw [renderItems, text]; rfl, not_space, not_close⟩
  | cons next items => exact ⟨char, _, by rw [renderItems, text]; rfl, not_space, not_close⟩

private theorem stops_cons {char : Char} (rest : List Char)
    (closing : char = ',' ∨ char = ']' ∨ char = '\x7d') : Stops (char :: rest) := by
  intro first tail same
  obtain ⟨rfl, -⟩ := List.cons.inj same
  exact closing

/-- With this much fuel, every rendered document, element list and entry list that is short enough
is read back. -/
private structure Reads (fuel : Nat) : Prop where
  value : ∀ (value : Json) (rest : List Char), (render value).length < fuel → Stops rest →
    parseValue fuel (render value ++ rest) = some (value, rest)
  items : ∀ (item : Json) (items : List Json) (rest : List Char),
    (renderItems (item :: items)).length + 1 < fuel →
      parseItems fuel (renderItems (item :: items) ++ ']' :: rest) = some (item :: items, rest)
  entries : ∀ (key : String) (value : Json) (entries : List (String × Json)) (rest : List Char),
    (renderEntries ((key, value) :: entries)).length + 1 < fuel →
      parseEntries fuel (renderEntries ((key, value) :: entries) ++ '\x7d' :: rest) =
        some ((key, value) :: entries, rest)

private theorem Reads.value_succ {fuel : Nat} (reads : Reads fuel) (value : Json) (rest : List Char)
    (enough : (render value).length < fuel + 1) (stops : Stops rest) :
    parseValue (fuel + 1) (render value ++ rest) = some (value, rest) := by
  match value with
  | null => simp [render, parseValue, skipSpace, isSpace, parseWord, List.isPrefixOf]
  | bool true => simp [render, parseValue, skipSpace, isSpace, parseWord, List.isPrefixOf]
  | bool false => simp [render, parseValue, skipSpace, isSpace, parseWord, List.isPrefixOf]
  | num value =>
      have parsed := parseNumber_renderInt value stops
      obtain ⟨char, tail, text⟩ := renderInt_cons value
      have number := isNumberChar_of_mem_renderInt value char (by simp [text])
      rw [render]
      rw [text, List.cons_append] at parsed ⊢
      rw [parseValue_number number, parsed]
  | float literal =>
      have parsed := parseNumber_float literal stops
      obtain ⟨char, tail, text⟩ := literal.chars_cons
      have number := isNumberChar_of_mem literal char (by simp [text])
      rw [render]
      rw [text, List.cons_append] at parsed ⊢
      rw [parseValue_number number, parsed]
  | str value =>
      have parsed := parseString_renderString value rest
      simp [render, renderString, parseValue, skipSpace, isSpace, parsed]
  | arr [] => simp [render, renderItems, parseValue, skipSpace, isSpace]
  | arr (item :: items) =>
      have fits : (renderItems (item :: items)).length + 1 < fuel := by
        simp only [render, List.length_cons, List.length_append, List.length_nil] at enough
        omega
      have parsed := reads.items item items rest fits
      obtain ⟨char, tail, text, not_space, not_close⟩ := renderItems_head item items (']' :: rest)
      rw [text] at parsed
      simp only [render, List.cons_append, List.append_assoc, List.nil_append]
      rw [text, parseValue_arr not_space not_close, parsed]
      rfl
  | obj [] => simp [render, renderEntries, parseValue, skipSpace, isSpace]
  | obj ((key, value) :: entries) =>
      have fits : (renderEntries ((key, value) :: entries)).length + 1 < fuel := by
        simp only [render, List.length_cons, List.length_append, List.length_nil] at enough
        omega
      have parsed := reads.entries key value entries rest fits
      obtain ⟨tail, text⟩ : ∃ tail,
          renderEntries ((key, value) :: entries) ++ '\x7d' :: rest = '"' :: tail := by
        cases entries <;> exact ⟨_, by rw [renderEntries, renderString]; rfl⟩
      rw [text] at parsed
      simp only [render, List.cons_append, List.append_assoc, List.nil_append]
      rw [text, parseValue]
      simp [skipSpace, isSpace, parsed]

private theorem Reads.items_succ {fuel : Nat} (reads : Reads fuel) (item : Json)
    (items : List Json) (rest : List Char)
    (enough : (renderItems (item :: items)).length + 1 < fuel + 1) :
    parseItems (fuel + 1) (renderItems (item :: items) ++ ']' :: rest) =
      some (item :: items, rest) := by
  cases items with
  | nil =>
      rw [renderItems] at enough ⊢
      have parsed := reads.value item (']' :: rest) (by omega) (stops_cons rest (by simp))
      simp [parseItems, parsed, skipSpace, isSpace]
  | cons next items =>
      rw [renderItems] at enough ⊢
      simp only [List.length_append, List.length_cons] at enough
      have first := reads.value item (',' :: (renderItems (next :: items) ++ ']' :: rest))
        (by omega) (stops_cons _ (by simp))
      have others := reads.items next items rest (by omega)
      simp [parseItems, first, others, skipSpace, isSpace]

private theorem Reads.entries_succ {fuel : Nat} (reads : Reads fuel) (key : String) (value : Json)
    (entries : List (String × Json)) (rest : List Char)
    (enough : (renderEntries ((key, value) :: entries)).length + 1 < fuel + 1) :
    parseEntries (fuel + 1) (renderEntries ((key, value) :: entries) ++ '\x7d' :: rest) =
      some ((key, value) :: entries, rest) := by
  cases entries with
  | nil =>
      rw [renderEntries] at enough ⊢
      simp only [List.length_append, List.length_cons] at enough
      have name := parseString_renderString key (':' :: (render value ++ '\x7d' :: rest))
      have parsed := reads.value value ('\x7d' :: rest) (by omega) (stops_cons rest (by simp))
      simp [parseEntries, renderString, name, parsed, skipSpace, isSpace]
  | cons next entries =>
      obtain ⟨nextKey, nextValue⟩ := next
      rw [renderEntries] at enough ⊢
      simp only [List.length_append, List.length_cons] at enough
      have name := parseString_renderString key
        (':' :: (render value ++
          ',' :: (renderEntries ((nextKey, nextValue) :: entries) ++ '\x7d' :: rest)))
      have first := reads.value value
        (',' :: (renderEntries ((nextKey, nextValue) :: entries) ++ '\x7d' :: rest))
        (by omega) (stops_cons _ (by simp))
      have others := reads.entries nextKey nextValue entries rest (by omega)
      simp [parseEntries, renderString, name, first, others, skipSpace, isSpace]

private theorem reads (fuel : Nat) : Reads fuel := by
  induction fuel with
  | zero =>
      refine ⟨?_, ?_, ?_⟩
      · intro value rest enough
        exact absurd enough (Nat.not_lt_zero _)
      · intro item items rest enough
        exact absurd enough (Nat.not_lt_zero _)
      · intro key value entries rest enough
        exact absurd enough (Nat.not_lt_zero _)
  | succ fuel ih => exact ⟨ih.value_succ, ih.items_succ, ih.entries_succ⟩

/-- Compact text determines its document. -/
theorem parse_render (value : Json) : parse (render value) = some value := by
  have parsed := (reads ((render value).length + 1)).value value [] (Nat.lt_succ_self _)
    (fun _ _ same => by cases same)
  rw [List.append_nil] at parsed
  simp [parse, parsed, skipSpace]

/-! ## Line breaks -/

private theorem newline_not_mem_escapeChar (char : Char) : '\n' ∉ escapeChar char := by
  unfold escapeChar
  split_ifs with quote backslash newline carriage tab backspace feed control
  iterate 7 simp
  · have digits : ∀ digit < 16, '\n' ≠ hexDigit digit := by decide
    have first := digits (char.toNat / 16) (by omega)
    have second := digits (char.toNat % 16) (by omega)
    simp [first, second]
  · simpa using Ne.symm newline

private theorem newline_not_mem_renderString (text : String) : '\n' ∉ renderString text := by
  simp only [renderString, List.mem_cons, List.mem_append, List.mem_flatMap, not_or]
  refine ⟨by decide, ?_, by decide, by simp⟩
  rintro ⟨char, -, escaped⟩
  exact newline_not_mem_escapeChar char escaped

mutual

/-- Rendered text is a single line. -/
theorem newline_not_mem_render : ∀ value : Json, '\n' ∉ render value
  | null => by simp [render]
  | bool true => by simp [render]
  | bool false => by simp [render]
  | num value => by
      rw [render]
      exact fun member => absurd (isNumberChar_of_mem_renderInt value _ member) (by decide)
  | float literal => by
      rw [render]
      exact fun member => absurd (isNumberChar_of_mem _ _ member) (by decide)
  | str value => by simpa [render] using newline_not_mem_renderString value
  | arr items => by simpa [render] using newline_not_mem_renderItems items
  | obj entries => by simpa [render] using newline_not_mem_renderEntries entries

private theorem newline_not_mem_renderItems : ∀ items : List Json, '\n' ∉ renderItems items
  | [] => by simp [renderItems]
  | [item] => by simpa [renderItems] using newline_not_mem_render item
  | item :: next :: items => by
      simpa [renderItems] using
        And.intro (newline_not_mem_render item) (newline_not_mem_renderItems (next :: items))

private theorem newline_not_mem_renderEntries :
    ∀ entries : List (String × Json), '\n' ∉ renderEntries entries
  | [] => by simp [renderEntries]
  | [(key, value)] => by
      simpa [renderEntries] using
        And.intro (newline_not_mem_renderString key) (newline_not_mem_render value)
  | (key, value) :: next :: entries => by
      simpa [renderEntries] using
        And.intro (newline_not_mem_renderString key)
          (And.intro (newline_not_mem_render value)
            (newline_not_mem_renderEntries (next :: entries)))

end

/-! ## Bytes -/

/-- The UTF-8 bytes of a text. -/
def utf8 (text : List Char) : List UInt8 :=
  text.flatMap String.utf8EncodeChar

/-- Decode UTF-8, failing on bytes that are not the encoding of a text. -/
def utf8Decode (bytes : List UInt8) : Option (List Char) :=
  bytes.toByteArray.utf8Decode?.map Array.toList

theorem utf8Decode_utf8 (text : List Char) : utf8Decode (utf8 text) = some text := by
  have encoded : (utf8 text).toByteArray = text.utf8Encode := rfl
  rw [utf8Decode, encoded, List.utf8Decode?_utf8Encode]
  simp

/-- Only the encoding of a text is decoded to it. -/
theorem utf8_of_utf8Decode {bytes : List UInt8} {text : List Char}
    (decoded : utf8Decode bytes = some text) : utf8 text = bytes := by
  obtain ⟨chars, found, rfl⟩ := Option.map_eq_some_iff.mp decoded
  have some_chars : bytes.toByteArray.utf8Decode?.isSome := by simp [found]
  have encoded := ByteArray.utf8Encode_get_utf8Decode? (h := some_chars)
  rw [Option.get_of_eq_some some_chars found] at encoded
  exact List.toByteArray_inj.mp encoded

/-- Digits of two codes that are encoded in four bytes compare as the codes. -/
theorem fourDigits_lt {low high : Nat} (less : low < high) (small : high < 0x110000) :
    low / 262144 % 8 < high / 262144 % 8 ∨ low / 262144 % 8 = high / 262144 % 8 ∧
      (low / 4096 % 64 < high / 4096 % 64 ∨ low / 4096 % 64 = high / 4096 % 64 ∧
        (low / 64 % 64 < high / 64 % 64 ∨ low / 64 % 64 = high / 64 % 64 ∧
          low % 64 < high % 64)) := by
  have digits (code : Nat) (below : code < 0x110000) : ∃ first second third fourth,
      code / 262144 % 8 = first ∧ code / 4096 % 64 = second ∧ code / 64 % 64 = third ∧
        code % 64 = fourth ∧ second < 64 ∧ third < 64 ∧ fourth < 64 ∧
        code = 262144 * first + 4096 * second + 64 * third + fourth := by
    have two_digits := Nat.div_div_eq_div_mul code 64 64
    have three_digits := Nat.div_div_eq_div_mul code 4096 64
    refine ⟨_, _, _, _, rfl, rfl, rfl, rfl, ?_⟩
    omega
  obtain ⟨_, _, _, _, low_first, low_second, low_third, low_fourth, _⟩ :=
    digits low (less.trans small)
  obtain ⟨_, _, _, _, high_first, high_second, high_third, high_fourth, _⟩ := digits high small
  rw [low_first, low_second, low_third, low_fourth, high_first, high_second, high_third,
    high_fourth]
  clear low_first low_second low_third low_fourth high_first high_second high_third high_fourth
  omega

/-- The encodings of two characters compare as the characters, whatever follows. -/
theorem utf8EncodeChar_append_lt {left right : Char} (less : left < right)
    (left_rest right_rest : List UInt8) :
    String.utf8EncodeChar left ++ left_rest < String.utf8EncodeChar right ++ right_rest := by
  have codes : left.val.toNat < right.val.toNat := less
  have small : right.val.toNat < 0x110000 := by
    rcases right.valid with below | ⟨-, above⟩
    · exact below.trans (by decide)
    · exact above
  have four_digits := fourDigits_lt codes small
  have byte {modulus marker : Nat} (positive : 0 < modulus) (fits : modulus + marker ≤ 256)
      (code : Nat) : (code % modulus + marker) % 2 ^ 8 = code % modulus + marker := by
    have below := Nat.mod_lt code positive
    exact Nat.mod_eq_of_lt (by omega)
  rw [String.utf8EncodeChar, String.utf8EncodeChar]
  generalize left.val.toNat = low at *
  generalize right.val.toNat = high at *
  split <;> split <;> (try split) <;> (try split) <;> (try split) <;> (try split) <;>
    simp (disch := decide) only [List.cons_append, List.nil_append, List.cons_lt_cons_iff,
      UInt8.lt_iff_toNat_lt, ← UInt8.toNat_inj, UInt8.toNat_ofNat', byte, Nat.add_lt_add_iff_right,
      Nat.add_right_cancel_iff] <;>
    omega

/-- Encodings of texts compare, byte by byte, as the texts. -/
theorem utf8_lt_utf8 {left right : List Char} (less : left < right) : utf8 left < utf8 right := by
  induction less with
  | @nil first rest =>
      obtain ⟨byte, bytes, encoded⟩ := List.exists_cons_of_ne_nil
        (@String.utf8EncodeChar_ne_nil first)
      rw [utf8, utf8, List.flatMap_nil, List.flatMap_cons, encoded]
      exact .nil
  | cons _ ih => exact List.append_left_lt ih
  | rel first => exact utf8EncodeChar_append_lt first _ _

/-- The line-break byte only encodes the line-break character. -/
theorem newline_not_mem_utf8 {text : List Char} (single_line : '\n' ∉ text) : 10 ∉ utf8 text := by
  simp only [utf8, List.mem_flatMap, not_exists, not_and]
  intro char member byte_mem
  have not_newline : char ≠ '\n' := fun same => single_line (same ▸ member)
  have code : char.val.toNat ≠ 10 := by
    intro same
    apply not_newline
    apply Char.ext
    exact UInt32.toNat_inj.mp (by simpa using same)
  revert byte_mem
  fun_cases String.utf8EncodeChar char <;>
    simp only [List.mem_cons, List.not_mem_nil, or_false, ← UInt8.toNat_inj] <;>
    simp <;> omega

/-- Compact text of a document as bytes. -/
def toBytes (document : Json) : List UInt8 :=
  utf8 (render document)

/-- Read bytes as one document. -/
def ofBytes (bytes : List UInt8) : Option Json := do
  let text ← utf8Decode bytes
  parse text

theorem ofBytes_toBytes (document : Json) : ofBytes (toBytes document) = some document := by
  simp [ofBytes, toBytes, utf8Decode_utf8, parse_render]

theorem newline_not_mem_toBytes (document : Json) : 10 ∉ toBytes document :=
  newline_not_mem_utf8 (newline_not_mem_render document)

end Json
