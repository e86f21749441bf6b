/-
This file is the engine's truth algebra: the truth value, the normalisation every
operation ends in, and the operations the verifier has a table entry for.

An operation computes on script numbers, as the source does, and normalises what
it computed: not a number becomes the unopinionated default, and anything outside
the domain is clamped into it. A truth value is therefore always inside, which
its fields say.
-/

import Mathlib.Tactic.NormNum
import Senars.Library.JsNumber

namespace Senars.Algebra

open Library Library.JsNumber

/-! ### Scalar curves -/

/-- A value brought between two bounds. -/
def clamp (value low high : JsNumber) : JsNumber := JsNumber.max low (JsNumber.min high value)

def clamp01 (value : JsNumber) : JsNumber := JsNumber.max 0 (JsNumber.min 1 value)

/-- A ratio, or zero where the denominator is not positive. -/
def safeRatio (num den : JsNumber) : JsNumber := if less 0 den then num / den else 0

def safeDiv (num den : JsNumber) : JsNumber := clamp01 (safeRatio num den)

/-- `x / (x + 1)`. -/
def softSquash (x : JsNumber) : JsNumber := x / (x + 1)

/-- The weight of a confidence of exactly one. -/
def weightAtCertainty : ℚ := 10000000000

/-- The weight a confidence carries. -/
def confidenceToWeight (c : JsNumber) : JsNumber :=
  if c = 1 then .finite weightAtCertainty else c / (1 - c)

/-- The confidence a weight carries. -/
def weightToConfidence (w : JsNumber) : JsNumber := softSquash w

/-- The confidence the engine never exceeds. -/
def maxConfidence : ℚ := 999 / 1000

/-! ### Truth values -/

/-- A truth value of the engine. -/
structure Truth where
  f : ℚ
  c : ℚ
  f_nonneg : 0 ≤ f
  f_le_one : f ≤ 1
  c_nonneg : 0 ≤ c
  c_le_max : c ≤ maxConfidence

variable {value : JsNumber} {low high : ℚ}

theorem clamp_finite (number : value ≠ .nan) (order : low ≤ high) :
    ∃ clamped, clamp value (.finite low) (.finite high) = .finite clamped ∧
      low ≤ clamped ∧ clamped ≤ high := by
  cases value with
  | nan => exact absurd rfl number
  | infinite negative =>
    cases negative with
    | true => exact ⟨low, by simp [clamp, JsNumber.min, JsNumber.max, less], le_refl low, order⟩
    | false =>
      have inside : clamp (.infinite false) (.finite low) (.finite high) =
          JsNumber.max (.finite low) (.finite high) := by
        simp [clamp, JsNumber.min, less]
      exact ⟨high, by rw [inside, max_finite, sup_eq_right.mpr order], order, le_refl high⟩
  | finite value =>
    refine ⟨low ⊔ (high ⊓ value), by simp [clamp], le_sup_left, ?_⟩
    exact sup_le order inf_le_left

theorem clamp_of_mem {value} (above : low ≤ value) (below : value ≤ high) :
    clamp (.finite value) (.finite low) (.finite high) = .finite value := by
  rw [clamp, min_finite, inf_eq_right.mpr below, max_finite, sup_eq_right.mpr above]

theorem default_ne_nan {fallback} : (if value.isNaN then .finite fallback else value) ≠ .nan := by
  cases value <;> simp [isNaN]

theorem clamp_value_mem (number : value ≠ .nan) (order : low ≤ high) :
    low ≤ (clamp value (.finite low) (.finite high)).value ∧
      (clamp value (.finite low) (.finite high)).value ≤ high := by
  obtain ⟨clamped, equal, inside⟩ := clamp_finite number order
  rw [equal]
  exact inside

theorem maxConfidence_nonneg : 0 ≤ maxConfidence := by norm_num [maxConfidence]

/-- The frequency and the confidence of a number pair, brought into the domain. -/
def normalizeTruth (f c : JsNumber) : Truth where
  f := (clamp (if f.isNaN then .finite (1 / 2) else f) (.finite 0) (.finite 1)).value
  c := (clamp (if c.isNaN then .finite (9 / 10) else c) (.finite 0) (.finite maxConfidence)).value
  f_nonneg := (clamp_value_mem default_ne_nan zero_le_one).1
  f_le_one := (clamp_value_mem default_ne_nan zero_le_one).2
  c_nonneg := (clamp_value_mem default_ne_nan maxConfidence_nonneg).1
  c_le_max := (clamp_value_mem default_ne_nan maxConfidence_nonneg).2

theorem normalizeTruth_f {f} (above : 0 ≤ f) (below : f ≤ 1) (c : JsNumber) :
    (normalizeTruth (.finite f) c).f = f := by
  change (clamp (.finite f) (.finite 0) (.finite 1)).value = f
  rw [clamp_of_mem above below, value]

theorem normalizeTruth_c (f : JsNumber) {c} (above : 0 ≤ c) (below : c ≤ maxConfidence) :
    (normalizeTruth f (.finite c)).c = c := by
  change (clamp (.finite c) (.finite 0) (.finite maxConfidence)).value = c
  rw [clamp_of_mem above below, value]

/-! ### The operations -/

/-- What an operation on two truth values computes with: both frequencies, then both
confidences. -/
abbrev BinaryFn := JsNumber → JsNumber → JsNumber → JsNumber → JsNumber × JsNumber

abbrev UnaryFn := JsNumber → JsNumber → JsNumber × JsNumber

namespace Truth

def binary (fn : BinaryFn) (t1 t2 : Truth) : Truth :=
  let result := fn (.finite t1.f) (.finite t2.f) (.finite t1.c) (.finite t2.c)
  normalizeTruth result.1 result.2

def unary (fn : UnaryFn) (t : Truth) : Truth :=
  let result := fn (.finite t.f) (.finite t.c)
  normalizeTruth result.1 result.2

def negation : Truth → Truth := unary fun f c => (1 - f, c)

def conversion : Truth → Truth := unary fun f c => (f, f * c)

def comparison : Truth → Truth → Truth := binary fun f1 f2 c1 c2 =>
  let fProd := f1 * f2
  (safeDiv fProd (fProd + (1 - f1) * (1 - f2)), c1 * c2)

def analogy : Truth → Truth → Truth := binary fun f1 f2 c1 c2 => (f1 * f2, c1 * c2 * f2)

def resemblance : Truth → Truth → Truth := binary fun f1 f2 c1 c2 => ((f1 + f2) / 2, c1 * c2)

def contraposition : Truth → Truth → Truth := binary fun f1 f2 c1 c2 =>
  let cf := f2 * (1 - f1)
  (safeDiv cf (cf + (1 - f2) * f1), c1 * c2)

def intersection : Truth → Truth → Truth := binary fun f1 f2 c1 c2 => (f1 * f2, c1 * c2)

def union : Truth → Truth → Truth := binary fun f1 f2 c1 c2 =>
  (1 - (1 - f1) * (1 - f2), c1 * c2)

def exemplification : Truth → Truth → Truth := binary fun f1 f2 c1 c2 =>
  (f1 * f2, softSquash c1 * c1 * c2 * f1 * f2)

def sameness : Truth → Truth → Truth := binary fun f1 f2 c1 c2 =>
  (1 - JsNumber.abs (f1 - f2), c1 * c2)

def deduction : Truth → Truth → Truth := binary fun f1 f2 c1 c2 => (f1 * f2, c1 * c2)

def induction : Truth → Truth → Truth := binary fun _ f2 c1 c2 =>
  (f2, softSquash (f2 * c1 * c2))

def abduction : Truth → Truth → Truth := binary fun f1 _ c1 c2 =>
  (f1, softSquash (f1 * c1 * c2))

def detachment : Truth → Truth → Truth := binary fun f1 f2 c1 c2 => (f2, f1 * c1 * c2)

/-- Revision adds the weights of the two confidences. Past the ceiling it weights the
frequencies by the confidences themselves. -/
def revision : Truth → Truth → Truth := binary fun f1 f2 c1 c2 =>
  let w1 := confidenceToWeight c1
  let w2 := confidenceToWeight c2
  let w := w1 + w2
  let newC := weightToConfidence w
  if less (.finite maxConfidence) newC then
    ((f1 * c1 + f2 * c2) / (c1 + c2), .finite maxConfidence)
  else ((f1 * w1 + f2 * w2) / w, newC)

end Truth

end Senars.Algebra
