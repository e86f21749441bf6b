/-
This file is how a script writes a number: the fewest decimal digits that are read back as the
number, plainly or with an exponent where the number is very large or very small.

What was read from a text is a double, and a double is read back from what it is written as.
-/

import Mathlib.Algebra.Order.Field.Power
import Mathlib.Data.Int.Log
import Mathlib.Tactic.Linarith
import Senars.Library.NumberText

namespace Senars.Library

/-! ### Doubles are not rounded again -/

theorem zpow_two_pos (exponent : ℤ) : (0 : ℚ) < 2 ^ exponent := zpow_pos two_pos exponent

theorem binaryExponent_spec {value} (positive : 0 < value) :
    2 ^ binaryExponent value ≤ value ∧ value < 2 ^ (binaryExponent value + 1) := by
  have isNum : 0 < value.num := Rat.num_pos.mpr positive
  have numNat : (value.num.natAbs : ℚ) = value.num := by
    rw [Nat.cast_natAbs, abs_of_pos isNum]
  have denPositive : (0 : ℚ) < value.den := Nat.cast_pos.mpr value.den_pos
  have split : value * value.den = value.num.natAbs := by
    rw [numNat, Rat.mul_den_eq_num]
  have numLow : (2 : ℚ) ^ value.num.natAbs.log2 ≤ value.num.natAbs :=
    mod_cast Nat.log2_self_le (by omega)
  have numHigh : (value.num.natAbs : ℚ) < 2 ^ (value.num.natAbs.log2 + 1) :=
    mod_cast Nat.lt_log2_self
  have denLow : (2 : ℚ) ^ value.den.log2 ≤ value.den :=
    mod_cast Nat.log2_self_le value.den_ne_zero
  have denHigh : (value.den : ℚ) < 2 ^ (value.den.log2 + 1) := mod_cast Nat.lt_log2_self
  unfold binaryExponent
  dsimp only
  generalize value.num.natAbs.log2 = numLog at numLow numHigh ⊢
  generalize value.den.log2 = denLog at denLow denHigh ⊢
  have low : (2 : ℚ) ^ ((numLog : ℤ) - denLog - 1) ≤ value := by
    refine le_of_mul_le_mul_right ?_ denPositive
    calc (2 : ℚ) ^ ((numLog : ℤ) - denLog - 1) * value.den
        ≤ 2 ^ ((numLog : ℤ) - denLog - 1) * 2 ^ (denLog + 1) :=
          mul_le_mul_of_nonneg_left denHigh.le (zpow_two_pos _).le
      _ = 2 ^ numLog := by
          rw [← zpow_natCast, ← zpow_natCast, ← zpow_add₀ two_ne_zero]
          push_cast
          ring
      _ ≤ value * value.den := numLow.trans_eq split.symm
  have high : value < (2 : ℚ) ^ ((numLog : ℤ) - denLog + 1) := by
    refine lt_of_mul_lt_mul_right ?_ denPositive.le
    calc value * value.den < 2 ^ (numLog + 1) := split.trans_lt numHigh
      _ = 2 ^ ((numLog : ℤ) - denLog + 1) * 2 ^ denLog := by
          rw [← zpow_natCast, ← zpow_natCast, ← zpow_add₀ two_ne_zero]
          push_cast
          ring
      _ ≤ 2 ^ ((numLog : ℤ) - denLog + 1) * value.den :=
          mul_le_mul_of_nonneg_left denLow (zpow_two_pos _).le
  split
  · next below =>
    rw [sub_add_cancel]
    exact ⟨low, below⟩
  · next above => exact ⟨not_lt.mp above, high⟩

theorem binaryExponent_lt {value} (positive : 0 < value) {exponent} (below : value < 2 ^ exponent) :
    binaryExponent value < exponent :=
  (zpow_lt_zpow_iff_right₀ one_lt_two).mp ((binaryExponent_spec positive).1.trans_lt below)

theorem abs_roundEven_le {value : ℚ} {bound : ℤ} (within : |value| ≤ bound) :
    |roundEven value| ≤ bound := by
  obtain ⟨low, high⟩ := abs_le.mp within
  have floorLow : -bound ≤ ⌊value⌋ := Int.le_floor.mpr (by push_cast; exact low)
  have floorHigh : ⌊value⌋ ≤ bound := by
    have := (Int.floor_le value).trans high
    exact_mod_cast this
  have next : (⌊value⌋ : ℚ) < value → ⌊value⌋ + 1 ≤ bound := by
    intro above
    have := above.trans_le high
    exact_mod_cast this
  rw [abs_le]
  unfold roundEven
  dsimp only
  split_ifs with near far even
  · exact ⟨floorLow, floorHigh⟩
  · exact ⟨by omega, next (by linarith)⟩
  · exact ⟨floorLow, floorHigh⟩
  · exact ⟨by omega, next (by linarith)⟩

theorem toDouble_of_multiple {value : ℚ} {multiple digit : ℤ}
    (multiplies : value = multiple * 2 ^ digit) (small : |value| < 2 ^ 1024)
    (last : max (binaryExponent |value| - 52) (-1074) ≤ digit) :
    toDouble value = .finite value := by
  unfold toDouble
  dsimp only
  generalize max (binaryExponent |value| - 52) (-1074) = lowest at last ⊢
  obtain ⟨places, rfl⟩ : ∃ places : ℕ, digit = lowest + places := by
    refine ⟨(digit - lowest).toNat, ?_⟩
    omega
  have whole : value / 2 ^ lowest = ((multiple * 2 ^ places : ℤ) : ℚ) := by
    rw [multiplies, zpow_add₀ two_ne_zero, zpow_natCast]
    push_cast
    field_simp
  have back : ((multiple * 2 ^ places : ℤ) : ℚ) * 2 ^ lowest = value := by
    rw [← whole, div_mul_cancel₀ _ (zpow_two_pos lowest).ne']
  rw [whole, roundEven_intCast, back, if_pos small]

theorem toDouble_toDouble {value double} (rounds : toDouble value = .finite double) :
    toDouble double = .finite double ∧
      ∃ multiple digit : ℤ, -1074 ≤ digit ∧ double = multiple * 2 ^ digit := by
  unfold toDouble at rounds
  dsimp only at rounds
  generalize chosen : max (binaryExponent |value| - 52) (-1074) = digit at rounds
  have lowest : -1074 ≤ digit := chosen ▸ le_max_right _ _
  split at rounds
  · next small =>
    obtain rfl := JsNumber.finite.inj rounds
    refine ⟨?_, _, digit, lowest, rfl⟩
    have scaled : |value / 2 ^ digit| ≤ ((2 ^ 53 : ℤ) : ℚ) := by
      rw [abs_div, abs_of_pos (zpow_two_pos digit), div_le_iff₀ (zpow_two_pos digit)]
      rcases eq_or_lt_of_le (abs_nonneg value) with zero | positive
      · rw [← zero]
        positivity
      · have exponent : binaryExponent |value| + 1 ≤ 53 + digit := by omega
        calc |value| ≤ 2 ^ (binaryExponent |value| + 1) := (binaryExponent_spec positive).2.le
          _ ≤ 2 ^ (53 + digit) := zpow_le_zpow_right₀ one_le_two exponent
          _ = ((2 ^ 53 : ℤ) : ℚ) * 2 ^ digit := by
              rw [zpow_add₀ two_ne_zero]
              norm_num
    have bounded := abs_roundEven_le scaled
    generalize roundEven (value / 2 ^ digit) = multiple at small bounded ⊢
    have size : |(multiple : ℚ) * 2 ^ digit| = (|multiple| : ℤ) * 2 ^ digit := by
      rw [abs_mul, abs_of_pos (zpow_two_pos digit), Int.cast_abs]
    rcases eq_or_ne multiple 0 with rfl | nonzero
    · rw [Int.cast_zero, zero_mul]
      decide +kernel
    · have positive : 0 < |(multiple : ℚ) * 2 ^ digit| :=
        abs_pos.mpr (mul_ne_zero (Int.cast_ne_zero.mpr nonzero) (zpow_two_pos digit).ne')
      rcases lt_or_eq_of_le bounded with below | full
      · refine toDouble_of_multiple rfl small (max_le ?_ lowest)
        have exponent : binaryExponent |(multiple : ℚ) * 2 ^ digit| < 53 + digit := by
          refine binaryExponent_lt positive ?_
          rw [size, zpow_add₀ two_ne_zero]
          refine mul_lt_mul_of_pos_right ?_ (zpow_two_pos digit)
          exact_mod_cast below
        omega
      · have halved : ∃ half : ℤ, multiple = half * 2 := by
          rcases abs_eq (by norm_num : (0 : ℤ) ≤ 2 ^ 53) |>.mp full with rfl | rfl
          · exact ⟨2 ^ 52, by norm_num⟩
          · exact ⟨-2 ^ 52, by norm_num⟩
        obtain ⟨half, rfl⟩ := halved
        have multiplies : ((half * 2 : ℤ) : ℚ) * 2 ^ digit = half * 2 ^ (digit + 1) := by
          rw [zpow_add_one₀ two_ne_zero]
          push_cast
          ring
        refine toDouble_of_multiple multiplies small (max_le ?_ (by omega))
        have exponent : binaryExponent |((half * 2 : ℤ) : ℚ) * 2 ^ digit| < 54 + digit := by
          refine binaryExponent_lt positive ?_
          rw [size, full, zpow_add₀ two_ne_zero]
          refine mul_lt_mul_of_pos_right ?_ (zpow_two_pos digit)
          norm_num
        omega
  · cases rounds

/-! ### The digits a number is written with -/

/-- A decimal number: its digits, of which the first is behind the point, times a power of ten. -/
structure DecimalDigits where
  digits : ℕ
  exponent : ℤ

namespace DecimalDigits

def chars (decimal : DecimalDigits) : List Char := Nat.toDigits 10 decimal.digits

def value (decimal : DecimalDigits) : ℚ :=
  decimal.digits * 10 ^ (decimal.exponent - decimal.chars.length)

end DecimalDigits

/-- The power of ten a positive number is below, but not below a tenth of. -/
def decimalExponent (value : ℚ) : ℤ := Int.log 10 value + 1

/-- The decimal numbers of some digits next to a positive number, the nearest one first. One that
is a power of ten needs one digit only. -/
def nextDecimals (value : ℚ) (exponent : ℤ) (count : ℕ) : List DecimalDigits :=
  let scaled := value * 10 ^ ((count : ℤ) - exponent)
  let nearest := roundEven scaled
  let other := if nearest = ⌊scaled⌋ then nearest + 1 else ⌊scaled⌋
  [nearest, other].map fun digits =>
    if digits = 10 ^ count then ⟨1, exponent + 1⟩ else ⟨digits.toNat, exponent⟩

/-- The first of the decimal numbers of more and more digits that is read back as a number. -/
def shortestFrom (value : ℚ) (exponent : ℤ) : ℕ → ℕ → DecimalDigits
  | 0, count => ⟨⌊value * 10 ^ ((count : ℤ) - exponent)⌋.toNat, exponent⟩
  | fuel + 1, count =>
    match (nextDecimals value exponent count).find? (toDouble ·.value = .finite value) with
    | some decimal => decimal
    | none => shortestFrom value exponent fuel (count + 1)

/-- The fewest digits that are read back as a positive number. A double is a decimal number of not
more digits than are tried. -/
def shortest (value : ℚ) : DecimalDigits :=
  let exponent := decimalExponent value
  shortestFrom value exponent (1074 + exponent.toNat) 1

/-- How an exponent is written. -/
def exponentChars (exponent : ℤ) : List Char :=
  'e' :: (if exponent < 0 then '-' else '+') :: Nat.toDigits 10 exponent.natAbs

/-- The digits of a decimal number, with the point and an exponent as they are needed. -/
def DecimalDigits.written (decimal : DecimalDigits) : List Char :=
  let digits := decimal.chars
  let exponent := decimal.exponent
  if digits.length ≤ exponent ∧ exponent ≤ 21 then
    digits ++ List.replicate (exponent - digits.length).toNat '0'
  else if 0 < exponent ∧ exponent ≤ 21 then
    digits.take exponent.toNat ++ '.' :: digits.drop exponent.toNat
  else if -6 < exponent ∧ exponent ≤ 0 then
    '0' :: '.' :: (List.replicate (-exponent).toNat '0' ++ digits)
  else
    let mantissa := if digits.length = 1 then digits else digits.take 1 ++ '.' :: digits.drop 1
    mantissa ++ exponentChars (exponent - 1)

/-- `String(number)`. -/
def numberToString : JsNumber → String
  | .nan => "NaN"
  | .infinite negative => if negative then "-Infinity" else "Infinity"
  | .finite value =>
    if value = 0 then "0"
    else if value < 0 then "-" ++ String.ofList (shortest (-value)).written
    else String.ofList (shortest value).written

example : numberToString (.finite (-5 / 4)) = "-1.25" := by decide +kernel

example : numberToString (toDouble (1 / 10 ^ 7)) = "1e-7" := by decide +kernel

/-! ### Reading what is written -/

section

variable {whole fraction rest digits : List Char}

theorem span_digits (isWhole : whole.all Char.isDigit = true)
    (stops : ∀ char ∈ rest.head?, char.isDigit = false) :
    (whole ++ rest).span Char.isDigit = (whole, rest) := by
  have each := List.all_eq_true.mp isWhole
  rw [List.span_eq_takeWhile_dropWhile, List.takeWhile_append_of_pos each,
    List.dropWhile_append_of_pos each]
  cases rest with
  | nil => simp
  | cons first others =>
    have notDigit : ¬ first.isDigit = true := by simp [stops first rfl]
    rw [List.takeWhile_cons_of_neg notDigit, List.dropWhile_cons_of_neg notDigit, List.append_nil]

theorem toDigits_all (number : ℕ) : (Nat.toDigits 10 number).all Char.isDigit = true :=
  List.all_eq_true.mpr fun _ member => Nat.isDigit_of_mem_toDigits (by decide) (by decide) member

theorem readDigits_toDigits (number : ℕ) : readDigits (Nat.toDigits 10 number) = some number := by
  unfold readDigits
  rw [if_pos ⟨Nat.toDigits_ne_nil, toDigits_all number⟩, Nat.ofDigitChars_ten_toDigits]

theorem readExponent_exponentChars (exponent : ℤ) :
    readExponent (exponentChars exponent) = some exponent := by
  unfold exponentChars
  split
  · next negative =>
    rw [readExponent, readDigits_toDigits]
    show some (-(exponent.natAbs : ℤ)) = some exponent
    congr 1
    omega
  · next positive =>
    show (readDigits (Nat.toDigits 10 exponent.natAbs)).map _ = _
    rw [readDigits_toDigits, Option.map_some]
    congr 1
    show (exponent.natAbs : ℤ) = exponent
    omega

section

variable (isWhole : whole.all Char.isDigit = true) (nonempty : whole ≠ [])

include isWhole nonempty

theorem readUnsigned_parts {fractional suffix exponent}
    (stops : ∀ char ∈ (fractional ++ suffix).head?, char.isDigit = false)
    (reads : readFraction (fractional ++ suffix) = (fraction, suffix))
    (ends : readExponent suffix = some exponent) :
    readUnsigned (whole ++ (fractional ++ suffix)) =
      toDouble (Nat.ofDigitChars 10 (whole ++ fraction) 0 *
        10 ^ (exponent - fraction.length)) := by
  have named : whole ++ (fractional ++ suffix) ≠ "Infinity".toList := by
    intro same
    cases whole with
    | nil => exact nonempty rfl
    | cons first others =>
      have isFirst : first = 'I' := (List.cons.inj same).1
      rw [isFirst] at isWhole
      cases isWhole
  unfold readUnsigned
  rw [if_neg named, span_digits isWhole stops]
  dsimp only
  rw [reads]
  rw [if_neg fun both => nonempty both.1, ends]

theorem readUnsigned_plain : readUnsigned whole = toDouble (Nat.ofDigitChars 10 whole 0 : ℕ) :=
  readUnsigned_digits nonempty isWhole

theorem readUnsigned_point (isFraction : fraction.all Char.isDigit = true) {suffix exponent}
    (stops : ∀ char ∈ suffix.head?, char.isDigit = false)
    (ends : readExponent suffix = some exponent) :
    readUnsigned (whole ++ '.' :: (fraction ++ suffix)) =
      toDouble (Nat.ofDigitChars 10 (whole ++ fraction) 0 *
        10 ^ (exponent - fraction.length)) := by
  have reads : readFraction ('.' :: fraction ++ suffix) = (fraction, suffix) :=
    span_digits isFraction stops
  refine readUnsigned_parts isWhole nonempty ?_ reads ends
  intro char isHead
  cases isHead
  rfl

theorem readUnsigned_exponent (exponent : ℤ) :
    readUnsigned (whole ++ exponentChars exponent) =
      toDouble (Nat.ofDigitChars 10 whole 0 * 10 ^ exponent) := by
  have reads : readFraction ([] ++ exponentChars exponent) = ([], exponentChars exponent) := rfl
  have parts := readUnsigned_parts isWhole nonempty ?_ reads (readExponent_exponentChars exponent)
  · rw [List.append_nil, List.length_nil, Nat.cast_zero, sub_zero] at parts
    exact parts
  · intro char isHead
    cases isHead
    rfl

end

end

section

variable {digits : List Char} {number : ℕ} {exponent : ℤ}

theorem readUnsigned_zeros (isDigits : digits.all Char.isDigit = true) (nonempty : digits ≠ [])
    (value : Nat.ofDigitChars 10 digits 0 = number) (long : digits.length ≤ exponent) :
    readUnsigned (digits ++ List.replicate (exponent - digits.length).toNat '0') =
      toDouble (number * 10 ^ (exponent - digits.length)) := by
  obtain ⟨zeros, same⟩ := Int.eq_ofNat_of_zero_le (sub_nonneg.mpr long)
  rw [same]
  have isWhole : (digits ++ List.replicate zeros '0').all Char.isDigit = true := by
    simp [isDigits]
  show readUnsigned (digits ++ List.replicate zeros '0') = _
  rw [readUnsigned_plain isWhole (List.append_ne_nil_of_left_ne_nil nonempty _),
    Nat.ofDigitChars_append, Nat.ofDigitChars_replicate_zero, value, zpow_natCast]
  push_cast
  ring

theorem readUnsigned_between (isDigits : digits.all Char.isDigit = true)
    (value : Nat.ofDigitChars 10 digits 0 = number) {before} (some : 0 < before)
    (inside : before ≤ digits.length) {suffix shift}
    (stops : ∀ char ∈ suffix.head?, char.isDigit = false)
    (ends : readExponent suffix = .some shift) :
    readUnsigned (digits.take before ++ '.' :: (digits.drop before ++ suffix)) =
      toDouble (number * 10 ^ (shift + before - digits.length)) := by
  have each := List.all_eq_true.mp isDigits
  have isWhole : (digits.take before).all Char.isDigit = true :=
    List.all_eq_true.mpr fun char member => each char (List.mem_of_mem_take member)
  have isFraction : (digits.drop before).all Char.isDigit = true :=
    List.all_eq_true.mpr fun char member => each char (List.mem_of_mem_drop member)
  have nonempty : digits.take before ≠ [] := by
    intro empty
    have length := congrArg List.length empty
    rw [List.length_take, List.length_nil] at length
    omega
  rw [readUnsigned_point isWhole nonempty isFraction stops ends, List.take_append_drop, value,
    List.length_drop]
  congr 3
  omega

theorem readUnsigned_behind (isDigits : digits.all Char.isDigit = true)
    (value : Nat.ofDigitChars 10 digits 0 = number) (low : exponent ≤ 0) :
    readUnsigned ('0' :: '.' :: (List.replicate (-exponent).toNat '0' ++ digits)) =
      toDouble (number * 10 ^ (exponent - digits.length)) := by
  obtain ⟨zeros, same⟩ := Int.eq_ofNat_of_zero_le (neg_nonneg.mpr low)
  rw [same]
  have isFraction : (List.replicate zeros '0' ++ digits).all Char.isDigit = true := by
    simp [isDigits]
  have isWhole : ['0'].all Char.isDigit = true := rfl
  have nothing : ∀ char ∈ ([] : List Char).head?, char.isDigit = false := nofun
  have point := readUnsigned_point isWhole (List.cons_ne_nil _ _) isFraction nothing rfl
  have digitValue : Nat.ofDigitChars 10 (['0'] ++ (List.replicate zeros '0' ++ digits)) 0 =
      number := by
    rw [Nat.ofDigitChars_append, Nat.ofDigitChars_append, Nat.ofDigitChars_replicate_zero, ← value]
    rfl
  rw [List.append_nil] at point
  refine point.trans (congrArg toDouble ?_)
  rw [List.length_append, List.length_replicate]
  congr 2
  omega

end

theorem readUnsigned_written (decimal : DecimalDigits) :
    readUnsigned decimal.written = toDouble decimal.value := by
  have isDigits : decimal.chars.all Char.isDigit = true := toDigits_all decimal.digits
  have nonempty : decimal.chars ≠ [] := Nat.toDigits_ne_nil
  have value : Nat.ofDigitChars 10 decimal.chars 0 = decimal.digits :=
    Nat.ofDigitChars_ten_toDigits
  unfold DecimalDigits.written DecimalDigits.value
  dsimp only
  generalize decimal.exponent = exponent
  generalize decimal.chars = digits at isDigits nonempty value ⊢
  have length : 0 < digits.length := List.length_pos_iff.mpr nonempty
  have nothing : ∀ char ∈ ([] : List Char).head?, char.isDigit = false := nofun
  split_ifs with long point behind one
  · exact readUnsigned_zeros isDigits nonempty value long.1
  · obtain ⟨before, rfl⟩ := Int.eq_ofNat_of_zero_le point.1.le
    have inside : before ≤ digits.length := by omega
    have between := readUnsigned_between isDigits value (by omega) inside nothing
      (rfl : readExponent [] = some 0)
    rw [List.append_nil, zero_add] at between
    exact between
  · exact readUnsigned_behind isDigits value behind.2
  · rw [readUnsigned_exponent isDigits nonempty, value, one]
    rfl
  · have stops : ∀ char ∈ (exponentChars (exponent - 1)).head?, char.isDigit = false := by
      intro char isHead
      cases isHead
      rfl
    have between := readUnsigned_between isDigits value one_pos length stops
      (readExponent_exponentChars (exponent - 1))
    rw [Nat.cast_one, sub_add_cancel] at between
    rw [List.append_assoc]
    exact between

/-! ### Doubles are read back -/

/-- A number that a text is read as. -/
def IsDouble : JsNumber → Prop
  | .nan => False
  | .infinite _ => True
  | .finite value => toDouble |value| = .finite |value|

theorem length_toDigits {number count} (some : 0 < count) (low : 10 ^ (count - 1) ≤ number)
    (high : number < 10 ^ count) : (Nat.toDigits 10 number).length = count := by
  have atMost := (Nat.length_toDigits_le_iff (by decide) some).mpr high
  rcases Nat.eq_or_lt_of_le some with rfl | more
  · have positive : 0 < (Nat.toDigits 10 number).length := Nat.length_toDigits_pos
    omega
  · have atLeast := mt (Nat.length_toDigits_le_iff (b := 10) (by decide) (by omega)).mp
      (not_lt.mpr low)
    omega

theorem shortestFrom_succ (value : ℚ) (exponent : ℤ) (fuel count : ℕ) :
    shortestFrom value exponent (fuel + 1) count =
      match (nextDecimals value exponent count).find? (toDouble ·.value = .finite value) with
      | some decimal => decimal
      | none => shortestFrom value exponent fuel (count + 1) := by
  rfl

theorem toDouble_shortestFrom {value} (double : toDouble value = .finite value)
    {exponent fuel count}
    (ends : (⟨⌊value * 10 ^ (((count + fuel : ℕ) : ℤ) - exponent)⌋.toNat, exponent⟩ :
      DecimalDigits).value = value) :
    toDouble (shortestFrom value exponent fuel count).value = .finite value := by
  induction fuel generalizing count with
  | zero =>
    rw [Nat.add_zero] at ends
    have stops : shortestFrom value exponent 0 count =
      ⟨⌊value * 10 ^ ((count : ℤ) - exponent)⌋.toNat, exponent⟩ := rfl
    rw [stops, ends, double]
  | succ fuel ih =>
    rw [shortestFrom_succ]
    split
    · next decimal found => simpa using List.find?_some found
    · next missed =>
      rw [← Nat.add_assoc, Nat.add_right_comm] at ends
      exact ih ends

theorem exists_whole {value : ℚ} {multiple digit : ℤ} (lowest : -1074 ≤ digit)
    (multiplies : value = multiple * 2 ^ digit) {places : ℤ} (enough : 1074 ≤ places) :
    ∃ whole : ℤ, value * 10 ^ places = whole := by
  obtain ⟨tens, rfl⟩ := Int.eq_ofNat_of_zero_le (by omega : 0 ≤ places)
  obtain ⟨twos, same⟩ := Int.eq_ofNat_of_zero_le (by omega : 0 ≤ digit + tens)
  refine ⟨multiple * 2 ^ twos * 5 ^ tens, ?_⟩
  have factors : (10 : ℚ) ^ (tens : ℤ) = 2 ^ (tens : ℤ) * 5 ^ (tens : ℤ) := by
    rw [← mul_zpow]
    norm_num
  push_cast
  rw [multiplies, factors, ← zpow_natCast, ← same, zpow_add₀ two_ne_zero, zpow_natCast 5]
  ring

theorem toDouble_shortest {value} (positive : 0 < value) (double : toDouble value = .finite value) :
    toDouble (shortest value).value = .finite value := by
  obtain ⟨_, multiple, digit, lowest, multiplies⟩ := toDouble_toDouble double
  unfold shortest
  have low := Int.zpow_log_le_self (b := 10) (by decide) positive
  have high := Int.lt_zpow_succ_log_self (b := 10) (by decide) value
  change _ < ((10 : ℕ) : ℚ) ^ decimalExponent value at high
  have below : Int.log 10 value = decimalExponent value - 1 := by
    rw [decimalExponent]
    omega
  rw [below] at low
  generalize decimalExponent value = exponent at low high ⊢
  refine toDouble_shortestFrom double ?_
  generalize counts : 1 + (1074 + exponent.toNat) = count
  obtain ⟨whole, scaled⟩ := exists_whole lowest multiplies
    (show 1074 ≤ (count : ℤ) - exponent by omega)
  rw [scaled, Int.floor_intCast]
  have tens : ∀ power : ℤ, (0 : ℚ) < 10 ^ power := fun power => zpow_pos (by norm_num) power
  obtain ⟨number, rfl⟩ : ∃ number : ℕ, whole = number := by
    refine Int.eq_ofNat_of_zero_le ?_
    have above : (0 : ℚ) < whole := scaled ▸ mul_pos positive (tens _)
    exact_mod_cast above.le
  rw [Int.cast_natCast] at scaled
  have atLeast : 10 ^ (count - 1) ≤ number := by
    have scales := mul_le_mul_of_nonneg_right low (tens ((count : ℤ) - exponent)).le
    rw [scaled, Nat.cast_ofNat, ← zpow_add₀ (by norm_num)] at scales
    have power : exponent - 1 + ((count : ℤ) - exponent) = ((count - 1 : ℕ) : ℤ) := by omega
    rw [power] at scales
    exact_mod_cast scales
  have atMost : number < 10 ^ count := by
    have scales := mul_lt_mul_of_pos_right high (tens ((count : ℤ) - exponent))
    rw [scaled, Nat.cast_ofNat, ← zpow_add₀ (by norm_num), add_sub_cancel] at scales
    exact_mod_cast scales
  unfold DecimalDigits.value DecimalDigits.chars
  rw [Int.toNat_natCast, length_toDigits (by omega) atLeast atMost, ← scaled, mul_assoc,
    ← zpow_add₀ (by norm_num), sub_add_sub_cancel, sub_self, zpow_zero, mul_one]

/-! ### Numbers and texts -/

/-- What is written of a decimal number. -/
def isDecimalChar (char : Char) : Bool := char.isDigit || ['.', 'e', '+', '-'].contains char

theorem written_chars (decimal : DecimalDigits) : decimal.written.all isDecimalChar = true := by
  have isDigits : ∀ number, ∀ char ∈ Nat.toDigits 10 number, isDecimalChar char = true := by
    intro number char member
    rw [isDecimalChar, List.all_eq_true.mp (toDigits_all number) char member, Bool.true_or]
  have own : ∀ char ∈ decimal.chars, isDecimalChar char = true := isDigits decimal.digits
  have signs : ∀ exponent, (exponentChars exponent).all isDecimalChar = true := by
    intro exponent
    unfold exponentChars
    rw [List.all_cons, List.all_cons, List.all_eq_true.mpr (isDigits _)]
    split <;> rfl
  have takes : ∀ count, (decimal.chars.take count).all isDecimalChar = true := fun count =>
    List.all_eq_true.mpr fun char member => own char (List.mem_of_mem_take member)
  have drops : ∀ count, (decimal.chars.drop count).all isDecimalChar = true := fun count =>
    List.all_eq_true.mpr fun char member => own char (List.mem_of_mem_drop member)
  have all := List.all_eq_true.mpr own
  have zero : isDecimalChar '0' = true := rfl
  have point : isDecimalChar '.' = true := rfl
  unfold DecimalDigits.written
  dsimp only
  split_ifs
  all_goals simp [-List.drop_one, all, takes, drops, signs, zero, point]

theorem exists_written_eq_cons (decimal : DecimalDigits) :
    ∃ first rest, decimal.written = first :: rest ∧ first.isDigit = true := by
  have isDigits : decimal.chars.all Char.isDigit = true := toDigits_all decimal.digits
  have nonempty : decimal.chars ≠ [] := Nat.toDigits_ne_nil
  unfold DecimalDigits.written
  dsimp only
  generalize decimal.chars = digits at isDigits nonempty ⊢
  cases digits with
  | nil => exact absurd rfl nonempty
  | cons first rest =>
    rw [List.all_cons, Bool.and_eq_true] at isDigits
    split_ifs with long between behind one
    · exact ⟨first, _, rfl, isDigits.1⟩
    · obtain ⟨before, same⟩ := Nat.exists_eq_succ_of_ne_zero
        (show decimal.exponent.toNat ≠ 0 by omega)
      rw [same]
      exact ⟨first, _, rfl, isDigits.1⟩
    · exact ⟨'0', _, rfl, rfl⟩
    · exact ⟨first, _, rfl, isDigits.1⟩
    · exact ⟨first, _, rfl, isDigits.1⟩

variable {char : Char} {number : JsNumber}

theorem baseOf_decimalChar (decimal : isDecimalChar char = true) : baseOf char = none := by
  rcases (Bool.or_eq_true _ _).mp decimal with digit | mark
  · exact baseOf_digit digit
  · simp only [List.contains_eq_mem, List.mem_cons, List.not_mem_nil, or_false,
      decide_eq_true_eq] at mark
    rcases mark with rfl | rfl | rfl | rfl <;> rfl

theorem isTrimmed_of_isDecimalChar (decimal : isDecimalChar char = true) :
    isTrimmed char = false := by
  rcases (Bool.or_eq_true _ _).mp decimal with digit | mark
  · exact isTrimmed_of_isDigit digit
  · simp only [List.contains_eq_mem, List.mem_cons, List.not_mem_nil, or_false,
      decide_eq_true_eq] at mark
    rcases mark with rfl | rfl | rfl | rfl <;> rfl

/-- What is written of a number. -/
def isNumberChar (char : Char) : Bool := isDecimalChar char || "Infinity".toList.contains char

theorem isTrimmed_of_isNumberChar (written : isNumberChar char = true) :
    isTrimmed char = false := by
  rcases (Bool.or_eq_true _ _).mp written with decimal | named
  · exact isTrimmed_of_isDecimalChar decimal
  · have letters : "Infinity".toList.all (fun char => !isTrimmed char) = true := by decide
    have isLetter : char ∈ "Infinity".toList := List.contains_iff_mem.mp named
    simpa using List.all_eq_true.mp letters char isLetter

theorem numberToString_chars (isNumber : number ≠ .nan) :
    (numberToString number).toList ≠ [] ∧
      ∀ char ∈ (numberToString number).toList, isNumberChar char = true := by
  have written : ∀ decimal : DecimalDigits, decimal.written ≠ [] ∧
      ∀ char ∈ decimal.written, isNumberChar char = true := by
    intro decimal
    obtain ⟨first, rest, starts, _⟩ := exists_written_eq_cons decimal
    refine ⟨starts ▸ List.cons_ne_nil first rest, fun char member => ?_⟩
    rw [isNumberChar, List.all_eq_true.mp (written_chars decimal) char member, Bool.true_or]
  cases number with
  | nan => exact absurd rfl isNumber
  | infinite negative =>
    cases negative
    · exact ⟨by decide, List.all_eq_true.mp (by decide)⟩
    · exact ⟨by decide, List.all_eq_true.mp (by decide)⟩
  | finite value =>
    unfold numberToString
    dsimp only
    split_ifs with zero negative
    · exact ⟨by decide, List.all_eq_true.mp (by decide)⟩
    · rw [String.toList_append]
      refine ⟨List.append_ne_nil_of_left_ne_nil (by decide) _, fun char member => ?_⟩
      rcases List.mem_append.mp member with sign | later
      · rw [List.mem_singleton.mp sign]
        rfl
      · rw [String.toList_ofList] at later
        exact (written _).2 char later
    · rw [String.toList_ofList]
      exact written _

theorem readNumber_written (decimal : DecimalDigits) :
    readNumber decimal.written = toDouble decimal.value := by
  obtain ⟨first, rest, written, isDigit⟩ := exists_written_eq_cons decimal
  have chars := written_chars decimal
  rw [← readUnsigned_written]
  rw [written] at chars ⊢
  unfold readNumber
  split
  · next empty => cases empty
  · next same => cases same; cases isDigit
  · next same => cases same; cases isDigit
  · next mark others same =>
    cases same
    rw [List.all_cons, List.all_cons, Bool.and_eq_true, Bool.and_eq_true] at chars
    rw [baseOf_decimalChar chars.2.1]
  · rfl

theorem numberOf_numberToString (double : IsDouble number) :
    numberOf (numberToString number) = number := by
  have reads : ∀ value : ℚ, 0 < value → toDouble value = .finite value →
      readUnsigned (shortest value).written = .finite value ∧
        readNumber (shortest value).written = .finite value ∧
          ∀ char ∈ (shortest value).written, isTrimmed char = false := by
    intro value positive double
    have shortest := toDouble_shortest positive double
    refine ⟨(readUnsigned_written _).trans shortest, (readNumber_written _).trans shortest, ?_⟩
    exact fun char member =>
      isTrimmed_of_isDecimalChar (List.all_eq_true.mp (written_chars _) char member)
  cases number with
  | nan => exact absurd double id
  | infinite negative => cases negative <;> decide +kernel
  | finite value =>
    change toDouble |value| = .finite |value| at double
    unfold numberToString numberOf
    dsimp only
    split_ifs with zero negative
    · rw [zero]
      decide +kernel
    · rw [abs_of_neg negative] at double
      obtain ⟨unsigned, _, plain⟩ := reads (-value) (neg_pos.mpr negative) double
      have chars : ("-" ++ String.ofList (shortest (-value)).written).toList =
          '-' :: (shortest (-value)).written := by
        simp only [String.toList_append, String.toList_ofList]
        rfl
      rw [chars, trimmed_plain]
      · show -readUnsigned _ = _
        rw [unsigned, JsNumber.finite_neg, neg_neg]
      · intro char member
        rcases List.mem_cons.mp member with rfl | later
        · rfl
        · exact plain char later
    · have positive : 0 < value :=
        lt_of_le_of_ne (not_lt.mp negative) (Ne.symm zero)
      rw [abs_of_pos positive] at double
      obtain ⟨_, signed, plain⟩ := reads value positive double
      rw [String.toList_ofList, trimmed_plain plain, signed]

/-! ### What is read is a double -/

theorem isDouble_toDouble {value} (low : 0 ≤ value) : IsDouble (toDouble value) := by
  cases rounds : toDouble value with
  | nan =>
    unfold toDouble at rounds
    dsimp only at rounds
    split at rounds <;> cases rounds
  | infinite negative => trivial
  | finite double =>
    have nonnegative : 0 ≤ double := by
      unfold toDouble at rounds
      dsimp only at rounds
      split at rounds
      · rw [← JsNumber.finite.inj rounds]
        refine mul_nonneg (Int.cast_nonneg ?_) (zpow_two_pos _).le
        have floor : (0 : ℤ) ≤ ⌊value / 2 ^ max (binaryExponent |value| - 52) (-1074)⌋ :=
          Int.floor_nonneg.mpr (div_nonneg low (zpow_two_pos _).le)
        unfold roundEven
        dsimp only
        split_ifs <;> omega
      · cases rounds
    show toDouble |double| = .finite |double|
    rw [abs_of_nonneg nonnegative]
    exact (toDouble_toDouble rounds).1

theorem IsDouble.neg (double : IsDouble number) : IsDouble (-number) := by
  cases number with
  | nan => exact double
  | infinite negative => trivial
  | finite value =>
    show toDouble |-value| = .finite |-value|
    rw [abs_neg]
    exact double

theorem isDouble_readUnsigned {chars} (isNumber : readUnsigned chars ≠ .nan) :
    IsDouble (readUnsigned chars) := by
  unfold readUnsigned at isNumber ⊢
  split at isNumber
  · next infinity =>
    rw [if_pos infinity]
    trivial
  · next finite =>
    rw [if_neg finite]
    dsimp only at isNumber ⊢
    split at isNumber
    · exact absurd rfl isNumber
    · next digits =>
      rw [if_neg digits]
      split at isNumber
      · exact absurd rfl isNumber
      · exact isDouble_toDouble (mul_nonneg (Nat.cast_nonneg _) (zpow_nonneg (by norm_num) _))

theorem isDouble_readBase {base chars} (isNumber : readBase base chars ≠ .nan) :
    IsDouble (readBase base chars) := by
  unfold readBase at isNumber ⊢
  split at isNumber
  · next digits =>
    rw [if_pos digits]
    exact isDouble_toDouble (Nat.cast_nonneg _)
  · exact absurd rfl isNumber

theorem isDouble_readNumber {chars} (isNumber : readNumber chars ≠ .nan) :
    IsDouble (readNumber chars) := by
  unfold readNumber at isNumber ⊢
  split at isNumber
  · show toDouble |0| = .finite |0|
    decide +kernel
  · refine (isDouble_readUnsigned fun notNumber => isNumber ?_).neg
    rw [notNumber]
    rfl
  · exact isDouble_readUnsigned isNumber
  · next mark rest =>
    cases base : baseOf mark with
    | none =>
      rw [base] at isNumber
      exact isDouble_readUnsigned isNumber
    | some base' =>
      rw [base] at isNumber
      exact isDouble_readBase isNumber
  · exact isDouble_readUnsigned isNumber

theorem isDouble_numberOf {text} (isNumber : numberOf text ≠ .nan) :
    IsDouble (numberOf text) := isDouble_readNumber isNumber

/-! ### Rounding keeps the order -/

theorem floor_le_roundEven (value : ℚ) : ⌊value⌋ ≤ roundEven value := by
  unfold roundEven
  dsimp only
  split_ifs <;> omega

theorem binaryExponent_mono {first second} (positive : 0 < first) (le : first ≤ second) :
    binaryExponent first ≤ binaryExponent second := by
  have above := (binaryExponent_spec (positive.trans_le le)).2
  have below := binaryExponent_lt positive (le.trans_lt above)
  omega

theorem lessEq_toDouble {double value} (isDouble : toDouble double = .finite double)
    (nonneg : 0 ≤ double) (le : double ≤ value) :
    JsNumber.lessEq (.finite double) (toDouble value) = true := by
  have valueNonneg : 0 ≤ value := nonneg.trans le
  unfold toDouble
  dsimp only
  rw [abs_of_nonneg valueNonneg]
  generalize chosen : max (binaryExponent value - 52) (-1074) = digit
  -- a multiple of the last digit between the double and the number
  have between : ∃ multiple : ℤ, double ≤ multiple * 2 ^ digit ∧
      (multiple : ℚ) ≤ value / 2 ^ digit := by
    rcases eq_or_lt_of_le nonneg with rfl | positive
    · refine ⟨0, by simp, ?_⟩
      exact div_nonneg valueNonneg (zpow_two_pos digit).le
    · have exponents := binaryExponent_mono positive le
      by_cases same : max (binaryExponent double - 52) (-1074) = digit
      · unfold toDouble at isDouble
        dsimp only at isDouble
        rw [abs_of_nonneg nonneg, same] at isDouble
        split at isDouble
        · have multiplies := JsNumber.finite.inj isDouble
          refine ⟨_, multiplies.ge, ?_⟩
          rw [le_div_iff₀ (zpow_two_pos digit), multiplies]
          exact le
        · cases isDouble
      · have isDigit : digit = binaryExponent value - 52 := by omega
        refine ⟨2 ^ 52, ?_, ?_⟩
        · calc double ≤ 2 ^ (binaryExponent double + 1) := (binaryExponent_spec positive).2.le
            _ ≤ 2 ^ (52 + digit) := zpow_le_zpow_right₀ one_le_two (by omega)
            _ = ((2 ^ 52 : ℤ) : ℚ) * 2 ^ digit := by
                rw [zpow_add₀ two_ne_zero]
                norm_num
        · rw [le_div_iff₀ (zpow_two_pos digit)]
          calc ((2 ^ 52 : ℤ) : ℚ) * 2 ^ digit = 2 ^ (52 + digit) := by
                rw [zpow_add₀ two_ne_zero]
                norm_num
            _ = 2 ^ binaryExponent value := by
                congr 1
                omega
            _ ≤ value := (binaryExponent_spec (positive.trans_le le)).1
  obtain ⟨multiple, low, high⟩ := between
  split
  · have whole : multiple ≤ roundEven (value / 2 ^ digit) :=
      (Int.le_floor.mpr high).trans (floor_le_roundEven _)
    rw [JsNumber.lessEq_iff, JsNumber.less_finite, decide_eq_false_iff_not, not_lt]
    refine ⟨by simp, by simp, low.trans ?_⟩
    exact mul_le_mul_of_nonneg_right (by exact_mod_cast whole) (zpow_two_pos digit).le
  · have notNegative : decide (value < 0) = false := decide_eq_false (not_lt.mpr valueNonneg)
    rw [notNegative]
    rfl

/-! ### A number in front of a mark -/

theorem notMem_of_all_isDigit {digits : List Char} (isDigits : digits.all Char.isDigit = true)
    (other : char.isDigit = false) : char ∉ digits := by
  intro member
  rw [List.all_eq_true.mp isDigits char member] at other
  cases other

theorem endsAtMark_of_notMem {text} (noDash : '-' ∉ text) (noLetter : 'e' ∉ text) :
    EndsAtMark '-' 'e' text :=
  Or.inl ⟨noDash, fun isLast => noLetter (List.mem_of_getLast? isLast)⟩

theorem endsAtMark_exponent {mantissa} (noDash : '-' ∉ mantissa) (exponent : ℤ) :
    EndsAtMark '-' 'e' (mantissa ++ exponentChars exponent) := by
  have digits := toDigits_all exponent.natAbs
  have dash := notMem_of_all_isDigit digits (show '-'.isDigit = false from rfl)
  have letter := notMem_of_all_isDigit digits (show 'e'.isDigit = false from rfl)
  have nonempty : Nat.toDigits 10 exponent.natAbs ≠ [] := Nat.toDigits_ne_nil
  unfold exponentChars
  generalize Nat.toDigits 10 exponent.natAbs = written at dash letter nonempty
  split_ifs with negative
  · exact Or.inr ⟨mantissa, written, rfl, noDash, dash⟩
  · refine Or.inl ⟨by simp [noDash, dash], fun isLast => letter ?_⟩
    have shape : mantissa ++ 'e' :: '+' :: written = (mantissa ++ ['e', '+']) ++ written := by simp
    rw [shape, List.getLast?_append_of_ne_nil _ nonempty] at isLast
    exact List.mem_of_getLast? isLast

theorem endsAtMark_written (decimal : DecimalDigits) : EndsAtMark '-' 'e' decimal.written := by
  have isDigits : decimal.chars.all Char.isDigit = true := toDigits_all decimal.digits
  have noDash := notMem_of_all_isDigit isDigits (show '-'.isDigit = false from rfl)
  have noLetter := notMem_of_all_isDigit isDigits (show 'e'.isDigit = false from rfl)
  have takes : ∀ {char : Char} (count : ℕ), char ∉ decimal.chars →
      char ∉ decimal.chars.take count :=
    fun count absent member => absent (List.mem_of_mem_take member)
  have drops : ∀ {char : Char} (count : ℕ), char ∉ decimal.chars →
      char ∉ decimal.chars.drop count :=
    fun count absent member => absent (List.mem_of_mem_drop member)
  unfold DecimalDigits.written
  dsimp only
  split_ifs
  · exact endsAtMark_of_notMem (by simp [noDash]) (by simp [noLetter])
  · exact endsAtMark_of_notMem (by simp [takes _ noDash, drops _ noDash])
      (by simp [takes _ noLetter, drops _ noLetter])
  · exact endsAtMark_of_notMem (by simp [noDash]) (by simp [noLetter])
  · exact endsAtMark_exponent noDash _
  · refine endsAtMark_exponent ?_ _
    simpa [-List.drop_one] using ⟨takes 1 noDash, drops 1 noDash⟩

theorem endsAtMark_numberToString (isNumber : number ≠ .nan) (nonneg : number.isNegative = false) :
    EndsAtMark '-' 'e' (numberToString number).toList := by
  cases number with
  | nan => exact absurd rfl isNumber
  | infinite negative =>
    cases negative with
    | false => exact endsAtMark_of_notMem (by decide) (by decide)
    | true => cases nonneg
  | finite value =>
    have notNegative : ¬value < 0 := of_decide_eq_false nonneg
    unfold numberToString
    dsimp only
    split_ifs
    · exact endsAtMark_of_notMem (by decide) (by decide)
    · rw [String.toList_ofList]
      exact endsAtMark_written _

end Senars.Library
