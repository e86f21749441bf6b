/-
This file is about how a script writes whole numbers. Below `10 ^ 21` a whole number
that is a double is written in digits only, and the digits are read back as it; from
`10 ^ 21` on it is written with an exponent.

The digits are the fewest that are read back as the number. For a whole number there
are never more of them than the number has, so no point is written.
-/

import Senars.Library.NumberWriting

namespace Senars.Library

/-! ### How many digits are tried -/

theorem of_mem_nextDecimals {value exponent count} (counts : 1 ≤ count) (positive : 0 < value)
    (below : value < 10 ^ exponent) {decimal}
    (member : decimal ∈ nextDecimals value exponent count) :
    decimal.chars.length ≤ count ∧
      (decimal.exponent = exponent ∨ decimal = ⟨1, exponent + 1⟩) := by
  have tens : ∀ power : ℤ, (0 : ℚ) < 10 ^ power := fun power => zpow_pos (by norm_num) power
  have scaledBelow : value * 10 ^ ((count : ℤ) - exponent) < ((10 ^ count : ℕ) : ℚ) := by
    have scales := mul_lt_mul_of_pos_right below (tens ((count : ℤ) - exponent))
    rw [← zpow_add₀ (by norm_num), add_sub_cancel] at scales
    exact_mod_cast scales
  have floorBelow : ⌊value * 10 ^ ((count : ℤ) - exponent)⌋ < (10 ^ count : ℕ) := by
    rw [Int.floor_lt]
    exact_mod_cast scaledBelow
  have floorLow : 0 ≤ ⌊value * 10 ^ ((count : ℤ) - exponent)⌋ :=
    Int.floor_nonneg.mpr (mul_pos positive (tens _)).le
  -- Both decimals are the floor or one more, so at most a power of ten.
  have written : ∀ digits : ℤ, digits = ⌊value * 10 ^ ((count : ℤ) - exponent)⌋ ∨
      digits = ⌊value * 10 ^ ((count : ℤ) - exponent)⌋ + 1 →
      decimal = (if digits = 10 ^ count then ⟨1, exponent + 1⟩ else ⟨digits.toNat, exponent⟩) →
      decimal.chars.length ≤ count ∧
        (decimal.exponent = exponent ∨ decimal = ⟨1, exponent + 1⟩) := by
    intro digits near same
    split at same
    · subst same
      have one : (Nat.toDigits 10 1).length = 1 := by decide
      exact ⟨le_of_eq_of_le one counts, Or.inr rfl⟩
    · rename_i other
      subst same
      refine ⟨?_, Or.inl rfl⟩
      have power : ((10 ^ count : ℕ) : ℤ) = 10 ^ count := by push_cast; rfl
      have small : digits.toNat < 10 ^ count := by
        have fits : digits < 10 ^ count := by
          rcases near with rfl | rfl
          · exact floorBelow
          · omega
        have asNat : (digits.toNat : ℤ) < (10 ^ count : ℕ) := by
          rw [Int.toNat_of_nonneg (by rcases near with rfl | rfl <;> omega)]
          exact fits
        exact_mod_cast asNat
      exact (Nat.length_toDigits_le_iff (by decide) counts).mpr small
  have rounded : roundEven (value * 10 ^ ((count : ℤ) - exponent)) =
        ⌊value * 10 ^ ((count : ℤ) - exponent)⌋ ∨
      roundEven (value * 10 ^ ((count : ℤ) - exponent)) =
        ⌊value * 10 ^ ((count : ℤ) - exponent)⌋ + 1 := by
    unfold roundEven
    dsimp only
    split_ifs <;> simp
  unfold nextDecimals at member
  simp only [List.map_cons, List.map_nil, List.mem_cons, List.not_mem_nil, or_false] at member
  rcases member with same | same
  · exact written _ rounded same
  · refine written _ ?_ same
    split_ifs with here
    · exact Or.inr (by rw [here])
    · exact Or.inl rfl

variable {value : ℕ}

theorem shortestFrom_whole (double : toDouble (value : ℚ) = .finite value) {exponent}
    (low : 10 ^ (exponent - 1) ≤ value) (below : value < 10 ^ exponent) {fuel count}
    (counts : 1 ≤ count) (within : count ≤ exponent) (enough : exponent < count + fuel) :
    ∃ found : ℕ, 1 ≤ found ∧ found ≤ exponent ∧
      shortestFrom value exponent fuel count ∈ nextDecimals value exponent found := by
  induction fuel generalizing count with
  | zero => omega
  | succ fuel ih =>
    rw [shortestFrom_succ]
    split
    · next decimal found => exact ⟨count, counts, within, List.mem_of_find?_eq_some found⟩
    · next missed =>
      rcases Nat.lt_or_ge count exponent with more | all
      · exact ih (by omega) more (by omega)
      · -- With all of its digits the number is its own nearest decimal.
        obtain rfl : count = exponent := by omega
        have self : (⟨value, count⟩ : DecimalDigits) ∈ nextDecimals value count count := by
          unfold nextDecimals
          dsimp only
          have scaled : (value : ℚ) * 10 ^ ((count : ℤ) - (count : ℤ)) = ((value : ℤ) : ℚ) := by
            rw [sub_self, zpow_zero, mul_one, Int.cast_natCast]
          rw [scaled, roundEven_intCast]
          have other : (value : ℤ) ≠ 10 ^ count := by
            have apart := below.ne
            exact_mod_cast apart
          simp [other]
        have value_self : (⟨value, count⟩ : DecimalDigits).value = value := by
          unfold DecimalDigits.value DecimalDigits.chars
          rw [length_toDigits counts low below, sub_self, zpow_zero, mul_one]
        have unread := List.find?_eq_none.mp missed _ self
        rw [value_self, double] at unread
        simp at unread

theorem shortestFrom_exponent (value : ℚ) (exponent : ℤ) (fuel count : ℕ) :
    exponent ≤ (shortestFrom value exponent fuel count).exponent := by
  induction fuel generalizing count with
  | zero => exact le_rfl
  | succ fuel ih =>
    rw [shortestFrom_succ]
    split
    · next decimal found =>
      have member := List.mem_of_find?_eq_some found
      unfold nextDecimals at member
      simp only [List.map_cons, List.map_nil, List.mem_cons, List.not_mem_nil, or_false] at member
      rcases member with rfl | rfl <;> split_ifs <;> simp
    · exact ih _

/-! ### What is written -/

theorem decimalExponent_natCast (positive : 0 < value) :
    ∃ exponent : ℕ, decimalExponent value = exponent ∧ 1 ≤ exponent ∧
      10 ^ (exponent - 1) ≤ value ∧ value < 10 ^ exponent := by
  refine ⟨Nat.log 10 value + 1, ?_, by omega, ?_, ?_⟩
  · rw [decimalExponent, Int.log_natCast]
    rfl
  · exact Nat.pow_log_le_self 10 positive.ne'
  · exact Nat.lt_pow_succ_log_self (by decide) value

theorem toList_numberToString (positive : 0 < value) :
    (numberToString (.finite value)).toList = (shortest value).written := by
  have apart : (value : ℚ) ≠ 0 := by exact_mod_cast positive.ne'
  have above : ¬ (value : ℚ) < 0 := not_lt.mpr (Nat.cast_nonneg value)
  rw [numberToString]
  simp only [apart, above, if_false, String.toList_ofList]

theorem exists_digit_numberToString (value : ℕ) :
    ∃ first rest, (numberToString (.finite value)).toList = first :: rest ∧
      first.isDigit = true := by
  rcases Nat.eq_zero_or_pos value with rfl | positive
  · exact ⟨'0', [], by decide +kernel, rfl⟩
  · rw [toList_numberToString positive]
    exact exists_written_eq_cons (shortest value)

theorem readDigits_numberToString (double : IsDouble (.finite value)) (small : value < 10 ^ 21) :
    ∃ read : ℕ, readDigits (numberToString (.finite value)).toList = some read ∧
      toDouble read = .finite value := by
  rcases Nat.eq_zero_or_pos value with rfl | positive
  · exact ⟨0, by decide +kernel, by decide +kernel⟩
  have rounds : toDouble (value : ℚ) = .finite value := by
    have whole : toDouble |(value : ℚ)| = .finite |(value : ℚ)| := double
    rwa [Nat.abs_cast] at whole
  obtain ⟨exponent, same, some, low, below⟩ := decimalExponent_natCast positive
  have reads : readUnsigned (shortest value).written = .finite value :=
    (readUnsigned_written _).trans (toDouble_shortest (by exact_mod_cast positive) rounds)
  obtain ⟨found, counts, within, member⟩ := shortestFrom_whole rounds low below le_rfl some
    (show exponent < 1 + (1074 + exponent) by omega)
  have chosen : shortest value = shortestFrom value exponent (1074 + exponent) 1 := by
    rw [shortest, same, Int.toNat_natCast]
  rw [← chosen] at member
  have near := of_mem_nextDecimals counts (by exact_mod_cast positive)
    (by rw [zpow_natCast]; exact_mod_cast below) member
  have short : exponent ≤ 21 := by
    have powers : 10 ^ (exponent - 1) < 10 ^ 21 := low.trans_lt small
    have := (Nat.pow_lt_pow_iff_right (by decide)).mp powers
    omega
  have digits : (shortest value).chars.length ≤ (shortest value).exponent ∧
      (shortest value).exponent ≤ 21 := by
    rcases near with ⟨length, exact | power⟩
    · rw [exact]
      omega
    · rw [power] at length ⊢
      by_contra beyond
      -- One followed by 21 zeros is another number.
      have last : exponent = 21 := by
        dsimp only at beyond
        omega
      have other : toDouble (⟨1, 22⟩ : DecimalDigits).value = .finite (10 ^ 21) := by
        decide +kernel
      have read := toDouble_shortest (by exact_mod_cast positive) rounds
      rw [power, last] at read
      have equal : (value : ℚ) = 10 ^ 21 := JsNumber.finite.inj (read.symm.trans other)
      have : value = 10 ^ 21 := by exact_mod_cast equal
      omega
  have isDigits : (shortest value).written.all Char.isDigit = true := by
    unfold DecimalDigits.written
    rw [if_pos digits]
    simp [DecimalDigits.chars, toDigits_all]
  obtain ⟨first, rest, begins, -⟩ := exists_written_eq_cons (shortest value)
  have nonempty : (shortest value).written ≠ [] := begins ▸ List.cons_ne_nil first rest
  refine ⟨_, ?_, (readUnsigned_digits nonempty isDigits).symm.trans reads⟩
  rw [toList_numberToString positive, readDigits, if_pos ⟨nonempty, isDigits⟩]

theorem plus_mem_numberToString (large : 10 ^ 21 ≤ value) :
    '+' ∈ (numberToString (.finite value)).toList := by
  have positive : 0 < value := by omega
  obtain ⟨exponent, same, -, -, below⟩ := decimalExponent_natCast positive
  have long : 22 ≤ exponent := by
    have powers : 10 ^ 21 < 10 ^ exponent := large.trans_lt below
    exact (Nat.pow_lt_pow_iff_right (by decide)).mp powers
  have atLeast : 22 ≤ (shortest value).exponent := by
    have lower := shortestFrom_exponent value (decimalExponent value)
      (1074 + (decimalExponent value).toNat) 1
    rw [shortest]
    omega
  rw [toList_numberToString positive]
  unfold DecimalDigits.written
  rw [if_neg (by omega), if_neg (by omega), if_neg (by omega)]
  refine List.mem_append_right _ ?_
  rw [exponentChars, if_neg (by omega)]
  exact List.mem_cons_of_mem _ List.mem_cons_self

end Senars.Library
