/-
This file is how a script reads a number from a text: the white space around it is left
out, nothing is zero, a number may be decimal with a fraction and an exponent or a whole
number in another base, and it is rounded to the double next to it.

A whole number that is not too large is read back from its digits.
-/

import Mathlib.Algebra.Order.Floor.Defs
import Mathlib.Data.Rat.Floor
import Senars.Library.JsNumber
import Senars.Library.Text

namespace Senars.Library

/-! ### Doubles -/

/-- The exponent of the greatest power of two that is not above a positive number. -/
def binaryExponent (value : ℚ) : ℤ :=
  let exponent := (value.num.natAbs.log2 : ℤ) - value.den.log2
  if value < 2 ^ exponent then exponent - 1 else exponent

/-- The whole number next to a number, which is the even one of two. -/
def roundEven (value : ℚ) : ℤ :=
  let below := ⌊value⌋
  if value - below < 1 / 2 then below
  else if 1 / 2 < value - below then below + 1
  else if below % 2 = 0 then below else below + 1

/-- The double next to a number: 53 binary digits from the leading one on, fewer of them below the
least normal number, and an infinity above the greatest one. -/
def toDouble (value : ℚ) : JsNumber :=
  let digit : ℤ := max (binaryExponent |value| - 52) (-1074)
  let rounded : ℚ := roundEven (value / 2 ^ digit) * 2 ^ digit
  if |rounded| < 2 ^ 1024 then .finite rounded else .infinite (value < 0)

theorem roundEven_intCast (value : ℤ) : roundEven value = value := by
  simp [roundEven]

variable {chars : List Char} {value : ℕ}

theorem binaryExponent_natCast_le (small : value < 2 ^ 53) : binaryExponent value ≤ 52 := by
  have log : value.log2 ≤ 52 := by
    rcases Nat.eq_zero_or_pos value with rfl | positive
    · decide
    · exact Nat.lt_succ_iff.mp ((Nat.log2_lt positive.ne').mpr small)
  unfold binaryExponent
  have one : Nat.log2 1 = 0 := by decide
  simp only [Rat.num_natCast, Rat.den_natCast, Int.natAbs_natCast, one]
  split_ifs <;> omega

theorem toDouble_natCast (small : value < 2 ^ 53) : toDouble value = .finite value := by
  have exponent := binaryExponent_natCast_le small
  unfold toDouble
  simp only [Nat.abs_cast]
  generalize chosen : max (binaryExponent (value : ℚ) - 52) (-1074) = digit
  obtain ⟨places, rfl⟩ : ∃ places : ℕ, digit = -(places : ℤ) := by
    refine ⟨(-digit).toNat, ?_⟩
    omega
  have whole : (value : ℚ) / 2 ^ (-(places : ℤ)) = ((value * 2 ^ places : ℕ) : ℤ) := by
    rw [zpow_neg, div_inv_eq_mul]
    push_cast
    rfl
  have back : (((value * 2 ^ places : ℕ) : ℤ) : ℚ) * 2 ^ (-(places : ℤ)) = value := by
    rw [← whole]
    exact div_mul_cancel₀ _ (zpow_ne_zero _ two_ne_zero)
  rw [whole, roundEven_intCast, back, Nat.abs_cast, if_pos]
  calc (value : ℚ) < 2 ^ 53 := by exact_mod_cast small
    _ ≤ 2 ^ 1024 := pow_le_pow_right₀ one_le_two (by decide)

/-! ### Reading -/

/-- Characters without the white space around them. -/
def trimmed (chars : List Char) : List Char :=
  ((chars.dropWhile isTrimmed).reverse.dropWhile isTrimmed).reverse

/-- A whole number in decimal digits, of which there is one at least. -/
def readDigits (chars : List Char) : Option ℕ :=
  if chars ≠ [] ∧ chars.all Char.isDigit then some (Nat.ofDigitChars 10 chars 0) else none

/-- The exponent after the digits of a number, zero where there is none. -/
def readExponent : List Char → Option ℤ
  | [] => some 0
  | mark :: rest =>
    if mark = 'e' ∨ mark = 'E' then
      match rest with
      | '-' :: digits => (readDigits digits).map fun exponent => -(exponent : ℤ)
      | '+' :: digits => (readDigits digits).map Int.ofNat
      | digits => (readDigits digits).map Int.ofNat
    else none

/-- The digits after a point and what follows them, all of it where there is no point. -/
def readFraction : List Char → List Char × List Char
  | '.' :: rest => rest.span Char.isDigit
  | rest => ([], rest)

/-- A decimal number without a sign. -/
def readUnsigned (chars : List Char) : JsNumber :=
  if chars = "Infinity".toList then .infinite false
  else
    let (whole, rest) := chars.span Char.isDigit
    let (fraction, rest) := readFraction rest
    if whole = [] ∧ fraction = [] then .nan
    else match readExponent rest with
      | none => .nan
      | some exponent =>
        toDouble (Nat.ofDigitChars 10 (whole ++ fraction) 0 * 10 ^ (exponent - fraction.length))

/-- The value of a digit in a base of up to sixteen. -/
def digitValue (char : Char) : ℕ :=
  if char.isDigit then char.toNat - '0'.toNat
  else if 'a' ≤ char ∧ char ≤ 'f' then char.toNat - 'a'.toNat + 10
  else if 'A' ≤ char ∧ char ≤ 'F' then char.toNat - 'A'.toNat + 10
  else 16

/-- A whole number in the digits of a base. -/
def readBase (base : ℕ) (chars : List Char) : JsNumber :=
  if chars ≠ [] ∧ chars.all (fun char => digitValue char < base) then
    toDouble (chars.foldl (fun value char => base * value + digitValue char) 0 : ℕ)
  else .nan

/-- The base that a mark after a leading zero stands for. -/
def baseOf (mark : Char) : Option ℕ :=
  if mark = 'x' ∨ mark = 'X' then some 16
  else if mark = 'o' ∨ mark = 'O' then some 8
  else if mark = 'b' ∨ mark = 'B' then some 2
  else none

def readNumber : List Char → JsNumber
  | [] => 0
  | '-' :: rest => -readUnsigned rest
  | '+' :: rest => readUnsigned rest
  | '0' :: mark :: rest =>
    match baseOf mark with
    | some base => readBase base rest
    | none => readUnsigned ('0' :: mark :: rest)
  | chars => readUnsigned chars

/-- `Number(text)`. -/
def numberOf (text : String) : JsNumber := readNumber (trimmed text.toList)

/-! ### Reading a whole number back -/

theorem isTrimmed_of_isDigit {char} (digit : char.isDigit = true) : isTrimmed char = false := by
  simp only [Char.isDigit, Bool.and_eq_true, decide_eq_true_eq, ge_iff_le] at digit
  have low : 48 ≤ char.toNat := digit.1
  have high : char.toNat ≤ 57 := digit.2
  simp only [isTrimmed, List.contains_eq_mem, List.mem_cons, List.not_mem_nil, or_false,
    Bool.or_eq_false_iff, Bool.and_eq_false_iff, decide_eq_false_iff_not]
  omega

theorem dropWhile_isTrimmed (plain : ∀ char ∈ chars, isTrimmed char = false) :
    chars.dropWhile isTrimmed = chars := by
  cases chars with
  | nil => rfl
  | cons first rest =>
    rw [List.dropWhile_cons_of_neg]
    rw [plain first List.mem_cons_self]
    exact Bool.false_ne_true

theorem trimmed_plain (plain : ∀ char ∈ chars, isTrimmed char = false) : trimmed chars = chars := by
  have reversed : ∀ char ∈ chars.reverse, isTrimmed char = false := fun char member =>
    plain char (List.mem_reverse.mp member)
  unfold trimmed
  rw [dropWhile_isTrimmed plain, dropWhile_isTrimmed reversed, List.reverse_reverse]

theorem baseOf_digit {mark} (digit : mark.isDigit = true) : baseOf mark = none := by
  unfold baseOf
  split_ifs with hexadecimal octal binary
  · rcases hexadecimal with rfl | rfl <;> cases digit
  · rcases octal with rfl | rfl <;> cases digit
  · rcases binary with rfl | rfl <;> cases digit
  · rfl

theorem readUnsigned_digits (nonempty : chars ≠ []) (digits : chars.all Char.isDigit = true) :
    readUnsigned chars = toDouble (Nat.ofDigitChars 10 chars 0 : ℕ) := by
  have named : chars ≠ "Infinity".toList := by
    rintro rfl
    cases digits
  have spans : chars.span Char.isDigit = (chars, []) := by
    have each := List.all_eq_true.mp digits
    rw [List.span_eq_takeWhile_dropWhile, List.takeWhile_eq_self_iff.mpr each,
      List.dropWhile_eq_nil_iff.mpr each]
  unfold readUnsigned
  rw [if_neg named, spans]
  simp [readFraction, readExponent, nonempty]

theorem readNumber_digits (nonempty : chars ≠ []) (digits : chars.all Char.isDigit = true) :
    readNumber chars = readUnsigned chars := by
  unfold readNumber
  split
  · contradiction
  · cases digits
  · cases digits
  · next mark rest =>
    simp only [List.all_cons, Bool.and_eq_true] at digits
    rw [baseOf_digit digits.2.1]
  · rfl

theorem numberOf_repr (small : value < 2 ^ 53) : numberOf (Nat.repr value) = .finite value := by
  have digits : (Nat.toDigits 10 value).all Char.isDigit = true := by
    rw [List.all_eq_true]
    intro char member
    exact Nat.isDigit_of_mem_toDigits (by decide) (by decide) member
  have plain : ∀ char ∈ Nat.toDigits 10 value, isTrimmed char = false := fun char member =>
    isTrimmed_of_isDigit (List.all_eq_true.mp digits char member)
  unfold numberOf
  rw [Nat.toList_repr, trimmed_plain plain, readNumber_digits Nat.toDigits_ne_nil digits,
    readUnsigned_digits Nat.toDigits_ne_nil digits, Nat.ofDigitChars_ten_toDigits,
    toDouble_natCast small]

end Senars.Library
