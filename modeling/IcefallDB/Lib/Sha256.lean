import Mathlib

/-!
# SHA-256

The digest of FIPS 180-4 on byte lists, with 32-bit words kept as natural numbers below `2 ^ 32`,
and the lowercase hexadecimal form of a byte list.
-/

namespace Sha256

/-- Addition of 32-bit words. -/
def add (left right : Nat) : Nat :=
  (left + right) % 2 ^ 32

/-- Right rotation of a 32-bit word. -/
def rotr (word amount : Nat) : Nat :=
  (word >>> amount) ||| ((word <<< (32 - amount)) % 2 ^ 32)

/-- The sixty-four round constants. -/
def roundConstants : List Nat :=
  [0x428a2f98, 0x71374491, 0xb5c0fbcf, 0xe9b5dba5, 0x3956c25b, 0x59f111f1, 0x923f82a4, 0xab1c5ed5,
   0xd807aa98, 0x12835b01, 0x243185be, 0x550c7dc3, 0x72be5d74, 0x80deb1fe, 0x9bdc06a7, 0xc19bf174,
   0xe49b69c1, 0xefbe4786, 0x0fc19dc6, 0x240ca1cc, 0x2de92c6f, 0x4a7484aa, 0x5cb0a9dc, 0x76f988da,
   0x983e5152, 0xa831c66d, 0xb00327c8, 0xbf597fc7, 0xc6e00bf3, 0xd5a79147, 0x06ca6351, 0x14292967,
   0x27b70a85, 0x2e1b2138, 0x4d2c6dfc, 0x53380d13, 0x650a7354, 0x766a0abb, 0x81c2c92e, 0x92722c85,
   0xa2bfe8a1, 0xa81a664b, 0xc24b8b70, 0xc76c51a3, 0xd192e819, 0xd6990624, 0xf40e3585, 0x106aa070,
   0x19a4c116, 0x1e376c08, 0x2748774c, 0x34b0bcb5, 0x391c0cb3, 0x4ed8aa4a, 0x5b9cca4f, 0x682e6ff3,
   0x748f82ee, 0x78a5636f, 0x84c87814, 0x8cc70208, 0x90befffa, 0xa4506ceb, 0xbef9a3f7, 0xc67178f2]

/-- The eight working words. -/
structure Words where
  a : Nat
  b : Nat
  c : Nat
  d : Nat
  e : Nat
  f : Nat
  g : Nat
  h : Nat

/-- The initial hash value. -/
def initial : Words :=
  { a := 0x6a09e667, b := 0xbb67ae85, c := 0x3c6ef372, d := 0xa54ff53a
    e := 0x510e527f, f := 0x9b05688c, g := 0x1f83d9ab, h := 0x5be0cd19 }

/-- One round with its constant and message word. -/
def round (words : Words) (constant word : Nat) : Words :=
  let choose := (words.e &&& words.f) ^^^ ((words.e ^^^ 0xffffffff) &&& words.g)
  let majority := (words.a &&& words.b) ^^^ (words.a &&& words.c) ^^^ (words.b &&& words.c)
  let sumE := rotr words.e 6 ^^^ rotr words.e 11 ^^^ rotr words.e 25
  let sumA := rotr words.a 2 ^^^ rotr words.a 13 ^^^ rotr words.a 22
  let first := add (add (add words.h sumE) (add choose constant)) word
  let second := add sumA majority
  { a := add first second, b := words.a, c := words.b, d := words.c
    e := add words.d first, f := words.e, g := words.f, h := words.g }

/-- Run the rounds over a message schedule whose last sixteen words are kept newest first. -/
def rounds : List Nat → List Nat → List Nat → Words → Words
  | [], _, _, words => words
  | constant :: constants, word :: block, recent, words =>
      rounds constants block (word :: recent) (round words constant word)
  | constant :: constants, [], recent, words =>
      let near := recent.getD 1 0
      let far := recent.getD 14 0
      let sigmaNear := rotr near 17 ^^^ rotr near 19 ^^^ (near >>> 10)
      let sigmaFar := rotr far 7 ^^^ rotr far 18 ^^^ (far >>> 3)
      let word := add (add sigmaNear (recent.getD 6 0)) (add sigmaFar (recent.getD 15 0))
      rounds constants [] (word :: recent) (round words constant word)

/-- Absorb one block of sixteen message words. -/
def compress (words : Words) (block : List Nat) : Words :=
  let result := rounds roundConstants block [] words
  { a := add words.a result.a, b := add words.b result.b
    c := add words.c result.c, d := add words.d result.d
    e := add words.e result.e, f := add words.f result.f
    g := add words.g result.g, h := add words.h result.h }

/-- Big-endian bytes of a number. -/
def bigEndian : Nat → Nat → List Nat
  | 0, _ => []
  | count + 1, value => (value >>> (8 * count)) % 256 :: bigEndian count value

/-- Pad a message with a one bit, zeros and its length in bits. -/
def pad (message : List Nat) : List Nat :=
  let zeros := (119 - message.length % 64) % 64
  message ++ 0x80 :: (List.replicate zeros 0 ++ bigEndian 8 (8 * message.length))

/-- Group bytes into big-endian words. -/
def toWords : List Nat → List Nat
  | first :: second :: third :: fourth :: rest =>
      (((first * 256 + second) * 256 + third) * 256 + fourth) :: toWords rest
  | _ => []

/-- Absorb a padded message, given as words, block by block. -/
def absorb : Nat → List Nat → Words → Words
  | 0, _, words => words
  | blocks + 1, message, words => absorb blocks (message.drop 16) (compress words (message.take 16))

/-- The SHA-256 digest of a byte list. -/
def digest (message : List UInt8) : List UInt8 :=
  let padded := toWords (pad (message.map UInt8.toNat))
  let words := absorb (padded.length / 16) padded initial
  let bytes := [words.a, words.b, words.c, words.d, words.e, words.f, words.g, words.h].flatMap
    (bigEndian 4)
  bytes.map UInt8.ofNat

/-- Lowercase hexadecimal form of a byte list, two digits a byte. -/
def hexEncode (bytes : List UInt8) : List Char :=
  bytes.flatMap fun byte => [Nat.digitChar (byte.toNat / 16), Nat.digitChar (byte.toNat % 16)]

end Sha256
