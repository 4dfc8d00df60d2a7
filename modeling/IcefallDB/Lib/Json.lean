import Mathlib.Data.List.Sort
import Mathlib.Data.String.Basic

/-!
# JSON values and their text

JSON documents whose numbers are integers or literals with a fraction or an exponent, which are
kept as text.  `render` writes the compact form of a document, without insignificant whitespace;
`parse` is a recursive-descent reader that also accepts whitespace.  `canonicalize` sorts object
entries by key at every level, so that documents which differ in the order of object entries only
have one canonical form.
-/

namespace Json

/-! ## Literals with a fraction or an exponent -/

/-- A character of a number literal. -/
def isNumberChar (char : Char) : Bool :=
  char.isDigit || char = '-' || char = '+' || char = '.' || char = 'e' || char = 'E'

/-- The decimal digits at the start of a text. -/
def takeDigits : List Char → List Char × List Char
  | [] => ([], [])
  | char :: rest =>
      if char.isDigit then
        let (digits, rest) := takeDigits rest
        (char :: digits, rest)
      else ([], char :: rest)

/-- An exponent with nothing after it. -/
def isExponent : List Char → Bool
  | [] => false
  | marker :: rest =>
      let digits := if rest.head? = some '+' ∨ rest.head? = some '-' then rest.tail else rest
      (marker = 'e' || marker = 'E') && digits ≠ [] && digits.all Char.isDigit

/-- A fraction, an exponent or both, with nothing after them. -/
def isFraction : List Char → Bool
  | '.' :: rest =>
      let (digits, rest) := takeDigits rest
      digits ≠ [] && (rest = [] || isExponent rest)
  | text => isExponent text

/-- A number literal with a fraction or an exponent: no leading zero before other digits. -/
def isFloat (text : List Char) : Bool :=
  let (digits, rest) := takeDigits (if text.head? = some '-' then text.tail else text)
  text.all isNumberChar && (digits = ['0'] || digits ≠ [] && digits.head? ≠ some '0') &&
    isFraction rest

/-- The text of a number with a fraction or an exponent. -/
structure FloatText where
  chars : List Char
  isFloat : isFloat chars = true
  deriving DecidableEq

end Json

/-- A JSON document; object entries keep the order in which they are written. -/
inductive Json
  | null
  | bool (value : Bool)
  | num (value : Int)
  | float (literal : Json.FloatText)
  | str (value : String)
  | arr (items : List Json)
  | obj (entries : List (String × Json))

namespace Json

/-! ## Canonical form -/

/-- Order object entries by key; equal keys keep their order. -/
def sortEntries (entries : List (String × Json)) : List (String × Json) :=
  entries.insertionSort fun left right => left.1 ≤ right.1

mutual

/-- Sort object keys at every level, keep array order and leave scalars unchanged. -/
def canonicalize : Json → Json
  | null => null
  | bool value => bool value
  | num value => num value
  | float literal => float literal
  | str value => str value
  | arr items => arr (canonicalizeItems items)
  | obj entries => obj (sortEntries (canonicalizeEntries entries))

/-- Canonicalize every array element. -/
def canonicalizeItems : List Json → List Json
  | [] => []
  | item :: items => canonicalize item :: canonicalizeItems items

/-- Canonicalize every object value. -/
def canonicalizeEntries : List (String × Json) → List (String × Json)
  | [] => []
  | (key, value) :: entries => (key, canonicalize value) :: canonicalizeEntries entries

end

theorem canonicalizeItems_eq_map (items : List Json) :
    canonicalizeItems items = items.map canonicalize := by
  induction items with
  | nil => rfl
  | cons item items ih => simp [canonicalizeItems, ih]

theorem canonicalizeEntries_eq_map (entries : List (String × Json)) :
    canonicalizeEntries entries = entries.map fun entry => (entry.1, canonicalize entry.2) := by
  induction entries with
  | nil => rfl
  | cons entry entries ih => simp [canonicalizeEntries, ih]

/-! ## Compact text -/

/-- A lowercase hexadecimal digit. -/
def hexDigit (digit : Nat) : Char :=
  Nat.digitChar digit

/-- One character inside a string literal, escaped where the format requires it. -/
def escapeChar (char : Char) : List Char :=
  if char = '"' then ['\\', '"']
  else if char = '\\' then ['\\', '\\']
  else if char = '\n' then ['\\', 'n']
  else if char = '\r' then ['\\', 'r']
  else if char = '\t' then ['\\', 't']
  else if char = '\x08' then ['\\', 'b']
  else if char = '\x0c' then ['\\', 'f']
  else if char.toNat < 32 then
    ['\\', 'u', '0', '0', hexDigit (char.toNat / 16), hexDigit (char.toNat % 16)]
  else [char]

/-- A string literal with its quotes. -/
def renderString (text : String) : List Char :=
  '"' :: (text.toList.flatMap escapeChar ++ ['"'])

/-- A decimal integer literal. -/
def renderInt : Int → List Char
  | .ofNat value => Nat.toDigits 10 value
  | .negSucc value => '-' :: Nat.toDigits 10 (value + 1)

mutual

/-- Compact text of a document. -/
def render : Json → List Char
  | null => ['n', 'u', 'l', 'l']
  | bool true => ['t', 'r', 'u', 'e']
  | bool false => ['f', 'a', 'l', 's', 'e']
  | num value => renderInt value
  | float literal => literal.chars
  | str value => renderString value
  | arr items => '[' :: (renderItems items ++ [']'])
  | obj entries => '\x7b' :: (renderEntries entries ++ ['\x7d'])

/-- Array elements separated by commas. -/
def renderItems : List Json → List Char
  | [] => []
  | [item] => render item
  | item :: next :: items => render item ++ ',' :: renderItems (next :: items)

/-- Object entries separated by commas. -/
def renderEntries : List (String × Json) → List Char
  | [] => []
  | [(key, value)] => renderString key ++ ':' :: render value
  | (key, value) :: next :: entries =>
      renderString key ++ ':' :: (render value ++ ',' :: renderEntries (next :: entries))

end

/-! ## Reading text -/

/-- Insignificant whitespace. -/
def isSpace (char : Char) : Bool :=
  char = ' ' || char = '\n' || char = '\t' || char = '\r'

/-- Drop leading whitespace. -/
def skipSpace : List Char → List Char
  | [] => []
  | char :: rest => if isSpace char then skipSpace rest else char :: rest

/-- Value of a hexadecimal digit of either case. -/
def hexValue (char : Char) : Option Nat :=
  if '0' ≤ char ∧ char ≤ '9' then some (char.toNat - '0'.toNat)
  else if 'a' ≤ char ∧ char ≤ 'f' then some (char.toNat - 'a'.toNat + 10)
  else if 'A' ≤ char ∧ char ≤ 'F' then some (char.toNat - 'A'.toNat + 10)
  else none

/-- Four hexadecimal digits of a `\u` escape. -/
def parseHex4 : List Char → Option (Nat × List Char)
  | first :: second :: third :: fourth :: rest => do
      let a ← hexValue first
      let b ← hexValue second
      let c ← hexValue third
      let d ← hexValue fourth
      some (((a * 16 + b) * 16 + c) * 16 + d, rest)
  | _ => none

/-- The character of a simple escape. -/
def simpleEscape (char : Char) : Option Char :=
  if char = '"' then some '"'
  else if char = '\\' then some '\\'
  else if char = '/' then some '/'
  else if char = 'n' then some '\n'
  else if char = 'r' then some '\r'
  else if char = 't' then some '\t'
  else if char = 'b' then some '\x08'
  else if char = 'f' then some '\x0c'
  else none

/-- The character of a `\u` escape, given the text after the `u`; a high surrogate must be
followed by the escape of a low one. -/
def parseUnicode (text : List Char) : Option (Char × List Char) := do
  let (code, rest) ← parseHex4 text
  if code < 0xD800 ∨ 0xE000 ≤ code then some (Char.ofNat code, rest)
  else if code < 0xDC00 then
    match rest with
    | '\\' :: 'u' :: more => do
        let (low, rest) ← parseHex4 more
        if 0xDC00 ≤ low ∧ low < 0xE000 then
          some (Char.ofNat (0x10000 + (code - 0xD800) * 0x400 + (low - 0xDC00)), rest)
        else none
    | _ => none
  else none

/-- The rest of a string literal, after its opening quote. -/
def parseChars : Nat → List Char → Option (List Char × List Char)
  | 0, _ => none
  | _ + 1, [] => none
  | fuel + 1, char :: rest =>
      if char = '"' then some ([], rest)
      else if char = '\\' then
        match rest with
        | [] => none
        | escaped :: rest =>
            if escaped = 'u' then do
              let (decoded, rest) ← parseUnicode rest
              let (chars, rest) ← parseChars fuel rest
              some (decoded :: chars, rest)
            else do
              let decoded ← simpleEscape escaped
              let (chars, rest) ← parseChars fuel rest
              some (decoded :: chars, rest)
      else if char.toNat < 32 then none
      else do
        let (chars, rest) ← parseChars fuel rest
        some (char :: chars, rest)

/-- A string literal without its opening quote. -/
def parseString (text : List Char) : Option (String × List Char) := do
  let (chars, rest) ← parseChars (text.length + 1) text
  some (String.ofList chars, rest)

/-- An unsigned integer literal: no leading zero, no fraction and no exponent. -/
def parseNat (text : List Char) : Option (Nat × List Char) :=
  match takeDigits text with
  | ([], _) => none
  | (digits, rest) =>
      if digits.head? = some '0' ∧ digits.length ≠ 1 then none
      else
        match rest with
        | '.' :: _ => none
        | 'e' :: _ => none
        | 'E' :: _ => none
        | rest => some (Nat.ofDigitChars 10 digits 0, rest)

/-- An integer literal. -/
def parseInt : List Char → Option (Int × List Char)
  | '-' :: rest => do
      let (value, rest) ← parseNat rest
      some (-value, rest)
  | text => do
      let (value, rest) ← parseNat text
      some (value, rest)

/-- A number literal; one without fraction and exponent is an integer. -/
def parseNumber (text : List Char) : Option (Json × List Char) :=
  if isFloat : isFloat (text.takeWhile isNumberChar) = true then
    some (float ⟨_, isFloat⟩, text.dropWhile isNumberChar)
  else do
    let (value, rest) ← parseInt text
    some (num value, rest)

/-- Match a keyword at the start of a text. -/
def parseWord (word : List Char) (value : Json) (text : List Char) :
    Option (Json × List Char) :=
  if word.isPrefixOf text then some (value, text.drop word.length) else none

mutual

/-- A document at the start of a text, after optional whitespace. -/
def parseValue : Nat → List Char → Option (Json × List Char)
  | 0, _ => none
  | fuel + 1, text =>
      match skipSpace text with
      | [] => none
      | 'n' :: rest => parseWord ['u', 'l', 'l'] null rest
      | 't' :: rest => parseWord ['r', 'u', 'e'] (bool true) rest
      | 'f' :: rest => parseWord ['a', 'l', 's', 'e'] (bool false) rest
      | '"' :: rest => do
          let (value, rest) ← parseString rest
          some (str value, rest)
      | '[' :: rest =>
          match skipSpace rest with
          | ']' :: rest => some (arr [], rest)
          | _ => do
              let (items, rest) ← parseItems fuel rest
              some (arr items, rest)
      | '\x7b' :: rest =>
          match skipSpace rest with
          | '\x7d' :: rest => some (obj [], rest)
          | _ => do
              let (entries, rest) ← parseEntries fuel rest
              some (obj entries, rest)
      | text => parseNumber text

/-- Array elements up to the closing bracket. -/
def parseItems : Nat → List Char → Option (List Json × List Char)
  | 0, _ => none
  | fuel + 1, text => do
      let (item, rest) ← parseValue fuel text
      match skipSpace rest with
      | ']' :: rest => some ([item], rest)
      | ',' :: rest => do
          let (items, rest) ← parseItems fuel rest
          some (item :: items, rest)
      | _ => none

/-- Object entries up to the closing brace. -/
def parseEntries : Nat → List Char → Option (List (String × Json) × List Char)
  | 0, _ => none
  | fuel + 1, text =>
      match skipSpace text with
      | '"' :: rest => do
          let (key, rest) ← parseString rest
          match skipSpace rest with
          | ':' :: rest => do
              let (value, rest) ← parseValue fuel rest
              match skipSpace rest with
              | '\x7d' :: rest => some ([(key, value)], rest)
              | ',' :: rest => do
                  let (entries, rest) ← parseEntries fuel rest
                  some ((key, value) :: entries, rest)
              | _ => none
          | _ => none
      | _ => none

end

/-- Read a whole text as one document. -/
def parse (text : List Char) : Option Json := do
  let (value, rest) ← parseValue (text.length + 1) text
  if skipSpace rest = [] then some value else none

end Json
