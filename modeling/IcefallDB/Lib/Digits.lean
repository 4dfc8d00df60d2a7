import Mathlib

/-!
# Numbers in file names

Positional digits, padding with zeros, and reading a number back.
-/

/-- Decimal or hexadecimal digits padded with zeros on the left to a minimal width. -/
def zeroPad (width : Nat) (digits : List Char) : List Char :=
  List.replicate (width - digits.length) '0' ++ digits

/-- Value of a decimal or lowercase hexadecimal digit. -/
def digitValue (digit : Char) : Nat :=
  if digit.toNat < 58 then digit.toNat - 48 else digit.toNat - 87

/-- The number that digits denote in a base. -/
def ofDigits (base : Nat) (digits : List Char) : Nat :=
  digits.foldl (fun value digit => value * base + digitValue digit) 0

theorem digitValue_digitChar {digit : Nat} (small : digit < 16) :
    digitValue digit.digitChar = digit := by
  revert digit
  decide

theorem ofDigits_concat (base : Nat) (digits : List Char) (digit : Char) :
    ofDigits base (digits ++ [digit]) = ofDigits base digits * base + digitValue digit := by
  simp [ofDigits, List.foldl_append]

/-- Leading zeros do not change a number. -/
theorem ofDigits_zeroPad (base width : Nat) (digits : List Char) :
    ofDigits base (zeroPad width digits) = ofDigits base digits := by
  have leading : ∀ count : Nat,
      (List.replicate count '0').foldl
        (fun value digit => value * base + digitValue digit) 0 = 0 := by
    intro count
    induction count with
    | zero => rfl
    | succ count ih => simpa [List.replicate_succ, digitValue] using ih
  rw [zeroPad, ofDigits, List.foldl_append, leading, ofDigits]

/-- Digits in a base up to sixteen denote the number they were written for. -/
theorem ofDigits_toDigits {base : Nat} (large : 1 < base) (small : base ≤ 16) (number : Nat) :
    ofDigits base (Nat.toDigits base number) = number := by
  induction number using Nat.strongRecOn with
  | _ number ih =>
      rw [Nat.toDigits_eq_if large]
      split
      · next single =>
          have value := digitValue_digitChar (Nat.lt_of_lt_of_le single small)
          simpa [ofDigits] using value
      · next several =>
          have shorter : number / base < number :=
            Nat.div_lt_self (by omega) large
          have last : number % base < 16 :=
            Nat.lt_of_lt_of_le (Nat.mod_lt _ (by omega)) small
          rw [ofDigits_concat, ih _ shorter, digitValue_digitChar last]
          exact Nat.div_add_mod' number base

theorem zeroPad_toDigits_injective {base : Nat} (large : 1 < base) (small : base ≤ 16)
    {width left right : Nat}
    (same : zeroPad width (Nat.toDigits base left) = zeroPad width (Nat.toDigits base right)) :
    left = right := by
  have values := congrArg (ofDigits base) same
  rwa [ofDigits_zeroPad, ofDigits_zeroPad, ofDigits_toDigits large small,
    ofDigits_toDigits large small] at values

private theorem underscore_ne_digitChar {digit : Nat} (small : digit < 16) :
    digit.digitChar ≠ '_' := by
  revert digit
  decide

/-- No digit is an underscore. -/
theorem underscore_not_mem_zeroPad {base : Nat} (large : 1 < base) (small : base ≤ 16)
    (width number : Nat) : '_' ∉ zeroPad width (Nat.toDigits base number) := by
  have digits : '_' ∉ Nat.toDigits base number := by
    induction number using Nat.strongRecOn with
    | _ number ih =>
        rw [Nat.toDigits_eq_if large]
        split
        · next single =>
            have other := underscore_ne_digitChar (Nat.lt_of_lt_of_le single small)
            intro member
            exact other (List.mem_singleton.mp member).symm
        · next several =>
            have shorter : number / base < number := Nat.div_lt_self (by omega) large
            have last : number % base < 16 := Nat.lt_of_lt_of_le (Nat.mod_lt _ (by omega)) small
            have other := underscore_ne_digitChar last
            intro member
            rcases List.mem_append.mp member with front | back
            · exact ih _ shorter front
            · exact other (List.mem_singleton.mp back).symm
  intro member
  rcases List.mem_append.mp member with zero | digit
  · exact absurd (List.eq_of_mem_replicate zero) (by decide)
  · exact digits digit

/-! ## Reading a number behind a separator -/

/-- What follows the last occurrence of a separator, if it occurs. -/
def afterLast (separator : List Char) : List Char → Option (List Char)
  | [] => none
  | char :: rest =>
      match afterLast separator rest with
      | some tail => some tail
      | none =>
          if separator.isPrefixOf (char :: rest) then
            some ((char :: rest).drop separator.length)
          else none

theorem afterLast_append_of_some {separator chars tail : List Char}
    (found : afterLast separator chars = some tail) (front : List Char) :
    afterLast separator (front ++ chars) = some tail := by
  induction front with
  | nil => exact found
  | cons char front ih => simp only [List.cons_append, afterLast, ih]

theorem afterLast_eq_none {first : Char} {separator chars : List Char}
    (absent : first ∉ chars) : afterLast (first :: separator) chars = none := by
  induction chars with
  | nil => rfl
  | cons char rest ih =>
      obtain ⟨different, absent⟩ := not_or.mp (mt List.mem_cons.mpr absent)
      have not_here : ((first :: separator).isPrefixOf (char :: rest)) = false := by
        simp [List.isPrefixOf, different]
      simp [afterLast, ih absent, not_here]

/-- A decimal number below `2 ^ 64`, with an optional plus sign. -/
def parseU64 (text : List Char) : Option Nat :=
  let digits :=
    match text with
    | '+' :: rest => rest
    | digits => digits
  if digits.isEmpty || !digits.all Char.isDigit then none
  else
    let value := Nat.ofDigitChars 10 digits 0
    if value < 2 ^ 64 then some value else none

theorem parseU64_toDigits (number : Nat) :
    parseU64 (Nat.toDigits 10 number) = if number < 2 ^ 64 then some number else none := by
  have all_digits : ∀ char ∈ Nat.toDigits 10 number, char.isDigit = true :=
    fun char member => Nat.isDigit_of_mem_toDigits (by decide) (by decide) member
  cases digits_eq : Nat.toDigits 10 number with
  | nil => exact absurd digits_eq Nat.toDigits_ne_nil
  | cons char rest =>
      have no_sign : char ≠ '+' := by
        rintro rfl
        exact absurd (all_digits '+' (by simp [digits_eq])) (by decide)
      have value_eq : Nat.ofDigitChars 10 (char :: rest) 0 = number := by
        rw [← digits_eq]
        exact Nat.ofDigitChars_ten_toDigits
      have digits_all : (char :: rest).all Char.isDigit = true := by
        rw [List.all_eq_true, ← digits_eq]
        exact all_digits
      rw [parseU64]
      · simp only [digits_all, value_eq, List.isEmpty_cons, Bool.not_true, Bool.or_self,
          Bool.false_eq_true, if_false]
      · intro tail same
        exact no_sign (List.cons.inj same).1

/-- The number that decimal digits denote, if there are any and nothing else. -/
def parseDigits (digits : List Char) : Option Nat :=
  if digits.isEmpty || !digits.all Char.isDigit then none
  else some (Nat.ofDigitChars 10 digits 0)

/-- A decimal number of 64 bits with an optional sign. -/
def parseI64 : List Char → Option Int
  | '-' :: digits =>
      (parseDigits digits).bind fun value => if value ≤ 2 ^ 63 then some (-value) else none
  | '+' :: digits =>
      (parseDigits digits).bind fun value => if value < 2 ^ 63 then some (value : Int) else none
  | digits =>
      (parseDigits digits).bind fun value => if value < 2 ^ 63 then some (value : Int) else none

theorem parseDigits_toDigits (number : Nat) :
    parseDigits (Nat.toDigits 10 number) = some number := by
  have all_digits : (Nat.toDigits 10 number).all Char.isDigit = true := by
    rw [List.all_eq_true]
    exact fun char member => Nat.isDigit_of_mem_toDigits (by decide) (by decide) member
  rw [parseDigits, all_digits, List.isEmpty_eq_false_iff.mpr Nat.toDigits_ne_nil,
    Nat.ofDigitChars_ten_toDigits]
  rfl

/-- Digits have no sign. -/
theorem parseI64_toDigits (number : Nat) :
    parseI64 (Nat.toDigits 10 number) = if number < 2 ^ 63 then some (number : Int) else none := by
  have digit : ∀ char ∈ Nat.toDigits 10 number, char.isDigit = true :=
    fun char member => Nat.isDigit_of_mem_toDigits (by decide) (by decide) member
  unfold parseI64
  split
  · next same => exact absurd (digit '-' (same ▸ List.mem_cons_self)) (by decide)
  · next same => exact absurd (digit '+' (same ▸ List.mem_cons_self)) (by decide)
  · rw [parseDigits_toDigits]
    rfl

theorem toList_toString_ofNat (number : Nat) :
    (toString (Int.ofNat number)).toList = Nat.toDigits 10 number :=
  String.toList_ofList

theorem toList_toString_negSucc (number : Nat) :
    (toString (Int.negSucc number)).toList = '-' :: Nat.toDigits 10 (number + 1) := by
  change ("-" ++ Nat.repr (number + 1)).toList = _
  rw [String.toList_append, Nat.repr, @String.toList_ofList (Nat.toDigits 10 (number + 1))]
  rfl

/-- Numbers of 64 bits are read back. -/
theorem parseI64_toString {number : Int} (low : -2 ^ 63 ≤ number) (high : number < 2 ^ 63) :
    parseI64 (toString number).toList = some number := by
  cases number with
  | ofNat number =>
      have small : number < 2 ^ 63 := by
        rw [Int.ofNat_eq_natCast] at high
        omega
      rw [toList_toString_ofNat, parseI64_toDigits, if_pos small]
      rfl
  | negSucc number =>
      have small : number + 1 ≤ 2 ^ 63 := by
        rw [Int.negSucc_eq] at low
        omega
      rw [toList_toString_negSucc, parseI64, parseDigits_toDigits, Option.bind_some,
        if_pos small]
      rfl

/-- A number is less than the power of ten with as many digits as its text has characters. -/
theorem lt_pow_length_toString (number : Int) : number < 10 ^ (toString number).toList.length := by
  cases number with
  | ofNat number =>
      rw [toList_toString_ofNat]
      have less : number < 10 ^ (Nat.toDigits 10 number).length :=
        (Nat.length_toDigits_le_iff (by decide) Nat.length_toDigits_pos).mp (Nat.le_refl _)
      rw [Int.ofNat_eq_natCast]
      exact_mod_cast less
  | negSucc number =>
      exact Int.lt_trans (Int.negSucc_lt_zero number) (Int.pow_pos (by decide))

/-- The text of a number is made of digits and a sign. -/
theorem mem_toString {number : Int} {char : Char} (member : char ∈ (toString number).toList) :
    45 ≤ char.toNat ∧ char.toNat ≤ 57 := by
  have digit : ∀ value : Nat, char ∈ Nat.toDigits 10 value → 45 ≤ char.toNat ∧ char.toNat ≤ 57 := by
    intro value found
    have is_digit := Nat.isDigit_of_mem_toDigits (by decide) (by decide) found
    rw [Char.isDigit, Bool.and_eq_true, decide_eq_true_eq, decide_eq_true_eq] at is_digit
    have low : 48 ≤ char.toNat := is_digit.1
    have high : char.toNat ≤ 57 := is_digit.2
    omega
  cases number with
  | ofNat number =>
      rw [toList_toString_ofNat] at member
      exact digit number member
  | negSucc number =>
      rw [toList_toString_negSucc] at member
      rcases List.mem_cons.mp member with rfl | found
      · decide
      · exact digit (number + 1) found
