import IcefallDB.TypeStrings
import Mathlib

/-!
# The grammar of type strings

What the parser of type strings accepts, as a grammar: a type starts with a word, and white space
may stand between words, numbers and brackets.  The parser reads a type off the front of its input,
with numbers of 64 bits that it cuts off to the width of their fields.
-/

namespace IcefallDB

/-! ## Grammar -/

/-- White space only. -/
def White (text : List Char) : Prop :=
  ∀ c ∈ text, isWhitespace c = true

theorem White.nil : White [] := nofun

/-- A text between white space. -/
def Padded (text inner : List Char) : Prop :=
  ∃ before after, White before ∧ White after ∧ text = before ++ (inner ++ after)

/-- A name of a field. -/
def IsName (unicode : UnicodeTables) (text : List Char) : Prop :=
  ∃ c rest, text = c :: rest ∧ unicode.startsName c = true ∧
    ∀ other ∈ rest, unicode.continuesName other = true

/-- A number is below a bound, or only below `2 ^ 64` if bounds are not observed. -/
def Fits (exact : Bool) (bound value : Nat) : Prop :=
  value < if exact then bound else 2 ^ 64

mutual

/-- The texts of types, with numbers that fit their fields or with any numbers of 64 bits. -/
inductive IsType (unicode : UnicodeTables) (exact : Bool) : List Char → ArrowType → Prop
  | plain {word : List Char} {dataType : ArrowType}
      (head : typeHead word = some (.plain dataType)) : IsType unicode exact word dataType
  | resolution {gap : List Char} (white : White gap) :
      IsType unicode exact ("timestamp".toList ++ (gap ++ "[us]".toList)) (.timestamp none)
  | list {gap text item : List Char} {dataType : ArrowType} (white : White gap)
      (padded : Padded text item) (isType : IsType unicode exact item dataType) :
      IsType unicode exact ("list".toList ++ (gap ++ '<' :: (text ++ ['>'])))
        (.list (.mk "item" dataType true))
  | largeList {gap text item : List Char} {dataType : ArrowType} (white : White gap)
      (padded : Padded text item) (isType : IsType unicode exact item dataType) :
      IsType unicode exact ("large_list".toList ++ (gap ++ '<' :: (text ++ ['>'])))
        (.largeList (.mk "item" dataType true))
  | struct {gap text : List Char} {fields : List ArrowField} (white : White gap)
      (isFields : IsFields unicode exact text fields) :
      IsType unicode exact ("struct".toList ++ (gap ++ '<' :: (text ++ ['>']))) (.struct fields)
  | map {gap keyText key valueText value : List Char} {keyType valueType : ArrowType}
      (white : White gap) (key_padded : Padded keyText key) (value_padded : Padded valueText value)
      (key_isType : IsType unicode exact key keyType)
      (value_isType : IsType unicode exact value valueType) :
      IsType unicode exact
        ("map".toList ++ (gap ++ '<' :: (keyText ++ ',' :: (valueText ++ ['>']))))
        (.map (TypeParser.mapEntries keyType valueType) false)
  | decimal128 {gap precisionText precision scaleText scale : List Char} {digits places : Nat}
      (white : White gap) (precision_padded : Padded precisionText precision)
      (scale_padded : Padded scaleText scale) (precision_eq : parseDigits precision = some digits)
      (scale_eq : parseDigits scale = some places) (precision_fits : Fits exact (2 ^ 8) digits)
      (scale_fits : Fits exact (2 ^ 7) places) :
      IsType unicode exact
        ("decimal128".toList ++ (gap ++ '(' :: (precisionText ++ ',' :: (scaleText ++ [')']))))
        (.decimal128 (UInt8.ofNat digits) (Int8.ofNat places))
  | fixedSizeBinary {gap text number : List Char} {size : Nat} (white : White gap)
      (padded : Padded text number) (number_eq : parseDigits number = some size)
      (fits : Fits exact (2 ^ 31) size) :
      IsType unicode exact ("fixed_size_binary".toList ++ (gap ++ '(' :: (text ++ [')'])))
        (.fixedSizeBinary (Int32.ofNat size))

/-- The texts of the fields of a struct.  A comma may follow the last field. -/
inductive IsFields (unicode : UnicodeTables) (exact : Bool) :
    List Char → List ArrowField → Prop
  | none {gap : List Char} (white : White gap) : IsFields unicode exact gap []
  | last {nameText name typeText text : List Char} {dataType : ArrowType}
      (name_padded : Padded nameText name) (isName : IsName unicode name)
      (type_padded : Padded typeText text) (isType : IsType unicode exact text dataType) :
      IsFields unicode exact (nameText ++ ':' :: typeText)
        [.mk (String.ofList name) dataType true]
  | more {nameText name typeText text rest : List Char} {dataType : ArrowType}
      {fields : List ArrowField}
      (name_padded : Padded nameText name) (isName : IsName unicode name)
      (type_padded : Padded typeText text) (isType : IsType unicode exact text dataType)
      (isFields : IsFields unicode exact rest fields) :
      IsFields unicode exact (nameText ++ ':' :: (typeText ++ ',' :: rest))
        (.mk (String.ofList name) dataType true :: fields)

end

variable {unicode : UnicodeTables}

theorem Fits.loosen {exact : Bool} {bound value : Nat} (narrow : bound ≤ 2 ^ 64)
    (fits : Fits exact bound value) : Fits false bound value := by
  unfold Fits at fits ⊢
  split at fits
  · exact Nat.lt_of_lt_of_le fits narrow
  · exact fits

mutual

/-- Numbers in range are numbers of 64 bits. -/
theorem IsType.loosen {text : List Char} {dataType : ArrowType}
    (isType : IsType unicode true text dataType) : IsType unicode false text dataType := by
  cases isType with
  | plain head => exact .plain head
  | resolution white => exact .resolution white
  | list white padded isType => exact .list white padded isType.loosen
  | largeList white padded isType => exact .largeList white padded isType.loosen
  | struct white isFields => exact .struct white isFields.loosen
  | map white key_padded value_padded key_isType value_isType =>
      exact .map white key_padded value_padded key_isType.loosen value_isType.loosen
  | decimal128 white precision_padded scale_padded precision_eq scale_eq precision_fits
      scale_fits =>
      exact .decimal128 white precision_padded scale_padded precision_eq scale_eq
        (precision_fits.loosen (by decide)) (scale_fits.loosen (by decide))
  | fixedSizeBinary white padded number_eq fits =>
      exact .fixedSizeBinary white padded number_eq (fits.loosen (by decide))

theorem IsFields.loosen {text : List Char} {fields : List ArrowField}
    (isFields : IsFields unicode true text fields) : IsFields unicode false text fields := by
  cases isFields with
  | none white => exact .none white
  | last name_padded isName type_padded isType =>
      exact .last name_padded isName type_padded isType.loosen
  | more name_padded isName type_padded isType isFields =>
      exact .more name_padded isName type_padded isType.loosen isFields.loosen

end

/-- A type ends where the text goes on: no word goes on, and no resolution follows a timestamp. -/
def Ends (unicode : UnicodeTables) (text rest : List Char) : Prop :=
  ((∀ c ∈ text.getLast?, unicode.continuesName c = true) →
      ∀ c ∈ rest.head?, unicode.continuesName c = false) ∧
    (text = "timestamp".toList → ∀ c ∈ (TypeParser.skipWs rest).head?, c ≠ '[')

namespace TypeParser

/-! ## White space and single characters -/

theorem skipWs_append {gap : List Char} (white : White gap) (rest : List Char) :
    skipWs (gap ++ rest) = skipWs rest :=
  List.dropWhile_append_of_pos white

theorem skipWs_cons {c : Char} (visible : isWhitespace c = false) (rest : List Char) :
    skipWs (c :: rest) = c :: rest :=
  List.dropWhile_cons_of_neg (by rw [visible]; exact Bool.false_ne_true)

/-- What is skipped is white. -/
theorem exists_skipWs (input : List Char) :
    ∃ gap, White gap ∧ input = gap ++ skipWs input := by
  refine ⟨input.takeWhile isWhitespace, ?_, List.takeWhile_append_dropWhile.symm⟩
  intro c member
  exact List.mem_takeWhile_imp member

/-- White space is skipped up to a character that is none. -/
theorem visible_of_skipWs {input rest : List Char} {c : Char} (skipped : skipWs input = c :: rest) :
    isWhitespace c = false := by
  have head : (c :: rest).head? = some c := rfl
  have first := List.head?_dropWhile_not isWhitespace input
  rw [skipWs] at skipped
  rw [skipped] at first
  simpa using first

theorem skipWs_skipWs (input : List Char) : skipWs (skipWs input) = skipWs input := by
  cases skipped : skipWs input with
  | nil => rfl
  | cons c rest => exact skipWs_cons (visible_of_skipWs skipped) rest

theorem expect_of_skipWs {c : Char} {input rest : List Char} (skipped : skipWs input = c :: rest) :
    expect c input = some rest := by
  simp [expect, skipped]

/-- The character that is expected comes after white space. -/
theorem expect_eq_some {c : Char} {input rest : List Char} (found : expect c input = some rest) :
    ∃ gap, White gap ∧ input = gap ++ c :: rest := by
  obtain ⟨gap, white, input_eq⟩ := exists_skipWs input
  unfold expect at found
  split at found
  · next first others skipped =>
      split at found
      · next same =>
          obtain rfl := Option.some.inj found
          exact ⟨gap, white, by rw [← same, ← skipped]; exact input_eq⟩
      · cases found
  · cases found

/-! ## Names and numbers -/

theorem continuesName_of_startsName {c : Char} (starts : unicode.startsName c = true) :
    unicode.continuesName c = true := by
  rw [UnicodeTables.startsName, Bool.or_eq_true] at starts
  rw [UnicodeTables.continuesName]
  rcases starts with alphabetic | underscore
  · rw [alphabetic]
    rfl
  · rw [underscore, Bool.or_true]

/-- White space does not go on with a name. -/
theorem not_continuesName_of_whitespace (unicode : UnicodeTables) {c : Char}
    (white : isWhitespace c = true) :
    unicode.continuesName c = false := by
  by_contra continues
  rw [Bool.not_eq_false, UnicodeTables.continuesName, Bool.or_eq_true, Bool.or_eq_true] at continues
  have visible : isWhitespace c = false := by
    rcases continues with (alphabetic | numeric) | underscore
    · exact unicode.not_whitespace c (.inl alphabetic)
    · exact unicode.not_whitespace c (.inr numeric)
    · rw [of_decide_eq_true underscore]
      rfl
  rw [white] at visible
  cases visible

/-- The punctuation of types does not go on with a name, and is not white. -/
theorem punctuation {c : Char} (ascii : c.toNat < 128)
    (plain : (c.isAlpha || c.isDigit || c = '_') = false) :
    unicode.continuesName c = false := by
  rw [UnicodeTables.continuesName, unicode.ascii_alphabetic c ascii,
    unicode.ascii_numeric c ascii]
  exact plain

theorem visible_of_startsName {c : Char} (starts : unicode.startsName c = true) :
    isWhitespace c = false := by
  by_contra white
  rw [Bool.not_eq_false] at white
  have stops := not_continuesName_of_whitespace unicode white
  rw [continuesName_of_startsName starts] at stops
  cases stops

theorem continuesName_of_isName {name : List Char} (isName : IsName unicode name) :
    ∀ c ∈ name, unicode.continuesName c = true := by
  obtain ⟨first, others, rfl, starts, continues⟩ := isName
  intro c member
  rcases List.mem_cons.mp member with rfl | later
  · exact continuesName_of_startsName starts
  · exact continues c later

/-- A name is read up to a character that does not go on with it. -/
theorem parseFieldName_append {gap name rest : List Char} (white : White gap)
    (isName : IsName unicode name) (stops : ∀ c ∈ rest.head?, unicode.continuesName c = false) :
    parseFieldName unicode (gap ++ (name ++ rest)) = some (name, rest) := by
  have continues := continuesName_of_isName isName
  obtain ⟨first, others, rfl, starts, -⟩ := isName
  have taken : ((first :: others) ++ rest).takeWhile unicode.continuesName = first :: others ∧
      ((first :: others) ++ rest).dropWhile unicode.continuesName = rest := by
    rw [List.takeWhile_append_of_pos continues, List.dropWhile_append_of_pos continues]
    cases rest with
    | nil => simp
    | cons c rest =>
        have stopped := stops c rfl
        simp [stopped]
  rw [parseFieldName, skipWs_append white, List.cons_append,
    skipWs_cons (visible_of_startsName starts)]
  rw [List.cons_append] at taken
  simp only [starts, if_true, taken.1, taken.2]

theorem parseFieldName_eq_some {input name rest : List Char}
    (found : parseFieldName unicode input = some (name, rest)) :
    ∃ gap, White gap ∧ input = gap ++ (name ++ rest) ∧ IsName unicode name ∧
      ∀ c ∈ rest.head?, unicode.continuesName c = false := by
  obtain ⟨gap, white, input_eq⟩ := exists_skipWs input
  unfold parseFieldName at found
  split at found
  · cases found
  · next first others skipped =>
      split at found
      · next starts =>
          obtain ⟨rfl, rfl⟩ := Prod.mk.inj (Option.some.inj found)
          refine ⟨gap, white, ?_, ?_, ?_⟩
          · rw [List.takeWhile_append_dropWhile, ← skipped]
            exact input_eq
          · rw [List.takeWhile_cons_of_pos (continuesName_of_startsName starts)]
            exact ⟨first, _, rfl, starts, fun c member => List.mem_takeWhile_imp member⟩
          · intro c head
            have stopped := List.head?_dropWhile_not unicode.continuesName (first :: others)
            rw [Option.mem_def.mp head] at stopped
            simpa using stopped
      · cases found

theorem visible_of_isDigit {c : Char} (digit : c.isDigit = true) : isWhitespace c = false := by
  have range : 48 ≤ c.toNat ∧ c.toNat ≤ 57 := by
    rw [Char.isDigit, Bool.and_eq_true, decide_eq_true_eq, decide_eq_true_eq] at digit
    exact ⟨UInt32.le_iff_toNat_le.mp digit.1, UInt32.le_iff_toNat_le.mp digit.2⟩
  simp only [isWhitespace, Bool.or_eq_false_iff, Bool.and_eq_false_iff, decide_eq_false_iff_not]
  omega

/-- Digits are read up to a character that is none. -/
theorem parseUsize_append (rest : List Char) {text number : List Char} {value : Nat} {c : Char}
    (padded : Padded text number) (number_eq : parseDigits number = some value)
    (fits : value < 2 ^ 64) (stops : c.isDigit = false) (visible : isWhitespace c = false) :
    ∃ behind, parseUsize (text ++ c :: rest) = some (value, behind) ∧
      skipWs behind = c :: rest := by
  obtain ⟨before, after, white, white_after, rfl⟩ := padded
  have digits : number ≠ [] ∧ ∀ digit ∈ number, digit.isDigit = true := by
    rw [parseDigits] at number_eq
    split at number_eq
    · cases number_eq
    · next all =>
        rw [Bool.not_eq_true, Bool.or_eq_false_iff, Bool.not_eq_false'] at all
        exact ⟨List.isEmpty_eq_false_iff.mp all.1, List.all_eq_true.mp all.2⟩
  obtain ⟨nonempty, digits⟩ := digits
  have first_visible :
      skipWs (number ++ (after ++ c :: rest)) = number ++ (after ++ c :: rest) := by
    cases number with
    | nil => exact absurd rfl nonempty
    | cons first others =>
        exact skipWs_cons (visible_of_isDigit (digits first List.mem_cons_self)) _
  have stopped : (after ++ c :: rest).takeWhile Char.isDigit = [] ∧
      (after ++ c :: rest).dropWhile Char.isDigit = after ++ c :: rest := by
    cases after with
    | nil => simp [stops]
    | cons space spaces =>
        have no_digit : space.isDigit = false := by
          by_contra digit
          have seen := visible_of_isDigit ((Bool.not_eq_false _).mp digit)
          rw [white_after space List.mem_cons_self] at seen
          cases seen
        simp [no_digit]
  refine ⟨after ++ c :: rest, ?_, ?_⟩
  · rw [List.append_assoc, List.append_assoc, parseUsize, skipWs_append white, first_visible,
      List.takeWhile_append_of_pos digits, List.dropWhile_append_of_pos digits, stopped.1,
      stopped.2, List.append_nil, number_eq]
    exact if_pos fits
  · rw [skipWs_append white_after, skipWs_cons visible]

theorem parseUsize_eq_some {input rest : List Char} {value : Nat}
    (found : parseUsize input = some (value, rest)) :
    ∃ gap number, White gap ∧ input = gap ++ (number ++ rest) ∧ parseDigits number = some value ∧
      value < 2 ^ 64 := by
  obtain ⟨gap, white, input_eq⟩ := exists_skipWs input
  obtain ⟨number, number_eq, found⟩ := Option.bind_eq_some_iff.mp found
  split at found
  · next fits =>
      obtain ⟨rfl, rfl⟩ := Prod.mk.inj (Option.some.inj found)
      refine ⟨gap, _, white, ?_, number_eq, fits⟩
      rw [List.takeWhile_append_dropWhile]
      exact input_eq
  · cases found

/-! ## Words -/

/-- Without a bracket no resolution is read. -/
theorem parseResolution_of_absent {rest : List Char}
    (absent : ∀ c ∈ (skipWs rest).head?, c ≠ '[') : parseResolution rest = some (skipWs rest) := by
  unfold parseResolution
  split
  · next inner skipped =>
      rw [skipped] at absent
      exact absurd rfl (absent '[' rfl)
  · rfl

theorem parseResolution_us {gap : List Char} (white : White gap) (rest : List Char) :
    parseResolution (gap ++ ("[us]".toList ++ rest)) = some rest := by
  have skipped : skipWs (gap ++ ("[us]".toList ++ rest)) = '[' :: 'u' :: 's' :: ']' :: rest := by
    rw [skipWs_append white]
    rfl
  rw [parseResolution, skipped]
  rfl

theorem parseResolution_eq_some {input behind : List Char}
    (found : parseResolution input = some behind) :
    ((∀ c ∈ (skipWs input).head?, c ≠ '[') ∧ behind = skipWs input) ∨
      ∃ gap, White gap ∧ input = gap ++ ("[us]".toList ++ behind) := by
  obtain ⟨gap, white, input_eq⟩ := exists_skipWs input
  unfold parseResolution at found
  split at found
  · next inner skipped =>
      split at found
      · cases found
      · next closing rest dropped =>
          split at found
          · next resolution =>
              obtain rfl := Option.some.inj found
              have closes : closing = ']' := by
                have stopped := List.head?_dropWhile_not (fun c : Char => c ≠ ']') inner
                rw [dropped] at stopped
                simpa using stopped
              have whole : "us".toList ++ closing :: rest = inner := by
                rw [← resolution, ← dropped]
                exact List.takeWhile_append_dropWhile
              refine .inr ⟨gap, white, ?_⟩
              rw [input_eq, skipped, ← whole, closes]
              rfl
          · cases found
  · next absent =>
      obtain rfl := Option.some.inj found
      refine .inl ⟨?_, rfl⟩
      rintro c head rfl
      cases skipped : skipWs input with
      | nil =>
          rw [skipped] at head
          cases head
      | cons first rest =>
          rw [skipped] at head
          obtain rfl := Option.some.inj head
          exact absent rest skipped

/-- A word is read up to where it ends. -/
theorem parseWord_append {gap word rest : List Char} (white : White gap)
    (isName : IsName unicode word) (stops : ∀ c ∈ rest.head?, unicode.continuesName c = false)
    (absent : word = "timestamp".toList → ∀ c ∈ (skipWs rest).head?, c ≠ '[') :
    ∃ behind, parseWord unicode (gap ++ (word ++ rest)) = some (word, behind) ∧
      skipWs behind = skipWs rest := by
  have named := parseFieldName_append white isName stops
  by_cases timestamp : word = "timestamp".toList
  · refine ⟨skipWs rest, ?_, skipWs_skipWs rest⟩
    rw [parseWord, named, Option.bind_eq_bind, Option.bind_some]
    dsimp only
    rw [if_pos timestamp, parseResolution_of_absent (absent timestamp)]
    rfl
  · refine ⟨rest, ?_, rfl⟩
    rw [parseWord, named, Option.bind_eq_bind, Option.bind_some]
    dsimp only
    rw [if_neg timestamp]

/-- What has been read as a word: a word, or a timestamp with its resolution. -/
theorem parseWord_eq_some {input word behind : List Char}
    (found : parseWord unicode input = some (word, behind)) :
    (∃ gap rest, White gap ∧ input = gap ++ (word ++ rest) ∧ IsName unicode word ∧
      (∀ c ∈ rest.head?, unicode.continuesName c = false) ∧
        (word = "timestamp".toList → ∀ c ∈ (skipWs rest).head?, c ≠ '[') ∧
          skipWs behind = skipWs rest) ∨
      word = "timestamp".toList ∧ ∃ gap between, White gap ∧ White between ∧
        input = gap ++ ("timestamp".toList ++ (between ++ ("[us]".toList ++ behind))) := by
  obtain ⟨⟨name, rest⟩, named, resumed⟩ := Option.bind_eq_some_iff.mp found
  obtain ⟨gap, white, rfl, isName, stops⟩ := parseFieldName_eq_some named
  dsimp only at resumed
  split at resumed
  · next timestamp =>
      obtain ⟨after, resolved, same⟩ := Option.bind_eq_some_iff.mp resumed
      obtain ⟨rfl, rfl⟩ := Prod.mk.inj (Option.some.inj same)
      rcases parseResolution_eq_some resolved with ⟨absent, rfl⟩ | ⟨between, white_between, rfl⟩
      · exact .inl ⟨gap, rest, white, rfl, isName, stops, fun _ => absent, skipWs_skipWs rest⟩
      · exact .inr ⟨timestamp, gap, between, white, white_between, by rw [timestamp]⟩
  · next other =>
      obtain ⟨rfl, rfl⟩ := Prod.mk.inj (Option.some.inj resumed)
      exact .inl ⟨gap, rest, white, rfl, isName, stops, fun same => absurd same other, rfl⟩

theorem mem_typeWords_of_typeHead {word : List Char} {head : TypeHead}
    (found : typeHead word = some head) : (String.ofList word, head) ∈ typeWords := by
  obtain ⟨before, after, split, -⟩ := List.lookup_eq_some_iff.mp found
  rw [split]
  exact List.mem_append_right _ List.mem_cons_self

/-- The words of types are names in ASCII. -/
theorem isName_of_typeHead (unicode : UnicodeTables) {word : List Char} {head : TypeHead}
    (found : typeHead word = some head) : IsName unicode word := by
  have ascii : ∀ entry ∈ typeWords, entry.1.toList.head?.any Char.isAlpha = true ∧
      entry.1.toList.all (fun c => decide (c.toNat < 128) &&
        (c.isAlpha || c.isDigit || c = '_')) = true := by
    decide +kernel
  obtain ⟨begins, all⟩ := ascii _ (mem_typeWords_of_typeHead found)
  rw [String.toList_ofList] at begins all
  obtain ⟨first, first_eq, alphabetic⟩ := (Option.any_eq_true _ _).mp begins
  have plain : ∀ c ∈ word, c.toNat < 128 ∧ (c.isAlpha || c.isDigit || c = '_') = true := by
    intro c member
    obtain ⟨small, own⟩ := (Bool.and_eq_true _ _).mp (List.all_eq_true.mp all c member)
    exact ⟨of_decide_eq_true small, own⟩
  cases word with
  | nil => cases first_eq
  | cons c rest =>
      obtain rfl := Option.some.inj first_eq
      refine ⟨c, rest, rfl, ?_, ?_⟩
      · rw [UnicodeTables.startsName, unicode.ascii_alphabetic c (plain c List.mem_cons_self).1,
          alphabetic]
        rfl
      · intro other later
        obtain ⟨small, own⟩ := plain other (List.mem_cons_of_mem c later)
        rw [UnicodeTables.continuesName, unicode.ascii_alphabetic other small,
          unicode.ascii_numeric other small]
        exact own

end TypeParser

end IcefallDB
