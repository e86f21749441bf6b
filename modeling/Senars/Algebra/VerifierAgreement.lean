/-
This file compares what the verifier recomputes with what the engine stores.

On premises of the domain nearly every table entry computes rationals inside the
domain, so the engine's normalisation changes nothing and the two agree. The one
exception is the frequency of a revision that saturates: past the ceiling the
engine weights the two frequencies by the confidences, and the verifier goes on
weighting them by the weights. The two means are then different unless the
frequencies or the confidences are equal.
-/

import Mathlib.Tactic.FieldSimp
import Mathlib.Tactic.Linarith
import Mathlib.Tactic.Positivity
import Mathlib.Tactic.Ring
import Senars.Algebra.Verifier

namespace Senars.Algebra

open Library Library.JsNumber

/-! ### The curves on rationals -/

variable {c x : ℚ} {t1 t2 : Truth}

theorem softSquash_finite (nonneg : 0 ≤ x) : softSquash (.finite x) = .finite (x / (x + 1)) := by
  have nonzero : x + 1 ≠ 0 := by linarith
  rw [softSquash, ofNat_eq, finite_add, Nat.cast_one, finite_div nonzero]

theorem squash_nonneg (nonneg : 0 ≤ x) : 0 ≤ x / (x + 1) :=
  div_nonneg nonneg (by linarith)

theorem squash_le_self (nonneg : 0 ≤ x) : x / (x + 1) ≤ x :=
  div_le_self nonneg (by linarith)

theorem safeRatio_finite (num den : ℚ) :
    safeRatio (.finite num) (.finite den) = .finite (if 0 < den then num / den else 0) := by
  rw [safeRatio, ofNat_eq, less_finite, Nat.cast_zero]
  by_cases positive : 0 < den
  · rw [if_pos (decide_eq_true positive), if_pos positive, finite_div positive.ne']
  · rw [if_neg (by simpa using positive), if_neg positive]

theorem ratio_mem {num den : ℚ} (nonneg : 0 ≤ num) (part : num ≤ den) :
    0 ≤ (if 0 < den then num / den else 0) ∧ (if 0 < den then num / den else 0) ≤ 1 := by
  split
  · rename_i positive
    exact ⟨div_nonneg nonneg positive.le, (div_le_one positive).mpr part⟩
  · exact ⟨le_refl 0, zero_le_one⟩

theorem safeDiv_of_part {num den} (nonneg : 0 ≤ num) (part : num ≤ den) :
    safeDiv (.finite num) (.finite den) = safeRatio (.finite num) (.finite den) := by
  obtain ⟨above, below⟩ := ratio_mem nonneg part
  rw [safeDiv, safeRatio_finite]
  exact clamp_of_mem above below

/-- The weight of a confidence below one. -/
def weight (c : ℚ) : ℚ := c / (1 - c)

theorem confidenceToWeight_finite (below : c < 1) :
    confidenceToWeight (.finite c) = .finite (weight c) := by
  have different : (.finite c : JsNumber) ≠ 1 := by
    intro same
    rw [ofNat_eq, JsNumber.finite.injEq] at same
    exact below.ne same
  have nonzero : 1 - c ≠ 0 := by linarith
  rw [confidenceToWeight, if_neg different, ofNat_eq, Nat.cast_one, finite_sub,
    finite_div nonzero, weight]

theorem weight_nonneg (nonneg : 0 ≤ c) (below : c < 1) : 0 ≤ weight c :=
  div_nonneg nonneg (by linarith)

theorem weight_pos (positive : 0 < c) (below : c < 1) : 0 < weight c :=
  div_pos positive (by linarith)

/-! ### The domain -/

theorem Truth.c_lt_one (t : Truth) : t.c < 1 :=
  lt_of_le_of_lt t.c_le_max (by norm_num [maxConfidence])

theorem Truth.c_le_one (t : Truth) : t.c ≤ 1 := t.c_lt_one.le

theorem mul_mem {bound y} (xNonneg : 0 ≤ x) (xBound : x ≤ bound) (yNonneg : 0 ≤ y) (yOne : y ≤ 1) :
    0 ≤ x * y ∧ x * y ≤ bound :=
  ⟨mul_nonneg xNonneg yNonneg, (mul_le_of_le_one_right xNonneg yOne).trans xBound⟩

theorem confidences_mem (t1 t2 : Truth) : 0 ≤ t1.c * t2.c ∧ t1.c * t2.c ≤ maxConfidence :=
  mul_mem t1.c_nonneg t1.c_le_max t2.c_nonneg t2.c_le_one

theorem frequencies_mem (t1 t2 : Truth) : 0 ≤ t1.f * t2.f ∧ t1.f * t2.f ≤ 1 :=
  mul_mem t1.f_nonneg t1.f_le_one t2.f_nonneg t2.f_le_one

/-! ### Agreement -/

/-- A computed pair is exactly what the engine stores. -/
def Agrees (computed : JsNumber × JsNumber) (stored : Truth) : Prop :=
  computed = (.finite stored.f, .finite stored.c)

theorem agrees_normalizeTruth {f} (f_mem : 0 ≤ f ∧ f ≤ 1) (c_mem : 0 ≤ c ∧ c ≤ maxConfidence) :
    Agrees (.finite f, .finite c) (normalizeTruth (.finite f) (.finite c)) := by
  rw [Agrees, normalizeTruth_f f_mem.1 f_mem.2, normalizeTruth_c _ c_mem.1 c_mem.2]

theorem agrees_binary {fn computed f}
    (same : fn (.finite t1.f) (.finite t2.f) (.finite t1.c) (.finite t2.c) = computed)
    (value : computed = (.finite f, .finite c)) (f_mem : 0 ≤ f ∧ f ≤ 1)
    (c_mem : 0 ≤ c ∧ c ≤ maxConfidence) : Agrees computed (Truth.binary fn t1 t2) := by
  rw [Truth.binary, same, value]
  exact agrees_normalizeTruth f_mem c_mem

theorem agrees_unary {fn t f} (value : fn (.finite t.f) (.finite t.c) = (.finite f, .finite c))
    (f_mem : 0 ≤ f ∧ f ≤ 1) (c_mem : 0 ≤ c ∧ c ≤ maxConfidence) :
    Agrees (fn (.finite t.f) (.finite t.c)) (Truth.unary fn t) := by
  rw [Truth.unary, value]
  exact agrees_normalizeTruth f_mem c_mem

theorem verifierUnary_agrees (name : UnaryName) (t : Truth) :
    Agrees (verifierUnary name t) (engineUnary name t) := by
  have complement : 0 ≤ 1 - t.f ∧ 1 - t.f ≤ 1 :=
    ⟨by linarith [t.f_le_one], by linarith [t.f_nonneg]⟩
  have negated : Agrees (unaryTruth .negation (.finite t.f) (.finite t.c)) (Truth.negation t) := by
    refine agrees_unary ?_ complement ⟨t.c_nonneg, t.c_le_max⟩
    rw [unaryTruth, ofNat_eq, finite_sub, Nat.cast_one]
  cases name with
  | negationIntro => exact negated
  | negationElim => exact negated
  | negation => exact negated
  | conversion =>
    have product := mul_mem t.c_nonneg t.c_le_max t.f_nonneg t.f_le_one
    exact agrees_unary rfl ⟨t.f_nonneg, t.f_le_one⟩ (mul_comm t.c t.f ▸ product)

theorem verifierBinary_agrees {name} (other : name ≠ .revision) (t1 t2 : Truth) :
    Agrees (verifierBinary name t1 t2) (engineBinary name t1 t2) := by
  have confidences := confidences_mem t1 t2
  have frequencies := frequencies_mem t1 t2
  have f1Complement : 0 ≤ 1 - t1.f ∧ 1 - t1.f ≤ 1 :=
    ⟨by linarith [t1.f_le_one], by linarith [t1.f_nonneg]⟩
  have f2Complement : 0 ≤ 1 - t2.f ∧ 1 - t2.f ≤ 1 :=
    ⟨by linarith [t2.f_le_one], by linarith [t2.f_nonneg]⟩
  cases name with
  | revision => exact absurd rfl other
  | deduction | intersection => exact agrees_binary rfl rfl frequencies confidences
  | analogy =>
    exact agrees_binary rfl rfl frequencies
      (mul_mem confidences.1 confidences.2 t2.f_nonneg t2.f_le_one)
  | detachment =>
    refine agrees_binary rfl rfl ⟨t2.f_nonneg, t2.f_le_one⟩ ?_
    rw [mul_assoc, mul_comm]
    exact mul_mem confidences.1 confidences.2 t1.f_nonneg t1.f_le_one
  | resemblance =>
    have mean : verifierBinary .resemblance t1 t2 =
        (.finite ((t1.f + t2.f) / 2), .finite (t1.c * t2.c)) := by
      simp [verifierBinary, binaryTruth, finite_div]
    refine agrees_binary rfl mean ?_ confidences
    exact ⟨by linarith [t1.f_nonneg, t2.f_nonneg], by linarith [t1.f_le_one, t2.f_le_one]⟩
  | union =>
    have either : verifierBinary .union t1 t2 =
        (.finite (1 - (1 - t1.f) * (1 - t2.f)), .finite (t1.c * t2.c)) := by
      simp [verifierBinary, binaryTruth]
    have neither := mul_mem f1Complement.1 f1Complement.2 f2Complement.1 f2Complement.2
    refine agrees_binary rfl either ?_ confidences
    exact ⟨by linarith [neither.2], by linarith [neither.1]⟩
  | sameness =>
    have distance : verifierBinary .sameness t1 t2 =
        (.finite (1 - |t1.f - t2.f|), .finite (t1.c * t2.c)) := by
      simp [verifierBinary, binaryTruth]
    have near : |t1.f - t2.f| ≤ 1 := by
      rw [abs_le]
      exact ⟨by linarith [t1.f_nonneg, t2.f_le_one], by linarith [t1.f_le_one, t2.f_nonneg]⟩
    refine agrees_binary rfl distance ?_ confidences
    exact ⟨by linarith, by linarith [abs_nonneg (t1.f - t2.f)]⟩
  | induction =>
    have evidence := mul_mem confidences.1 confidences.2 t2.f_nonneg t2.f_le_one
    rw [mul_comm, ← mul_assoc] at evidence
    have squashed : verifierBinary .induction t1 t2 = (.finite t2.f,
        .finite (t2.f * t1.c * t2.c / (t2.f * t1.c * t2.c + 1))) := by
      simp [verifierBinary, binaryTruth, softSquash_finite evidence.1]
    refine agrees_binary rfl squashed ⟨t2.f_nonneg, t2.f_le_one⟩ ?_
    exact ⟨squash_nonneg evidence.1, (squash_le_self evidence.1).trans evidence.2⟩
  | abduction =>
    have evidence := mul_mem confidences.1 confidences.2 t1.f_nonneg t1.f_le_one
    rw [mul_comm, ← mul_assoc] at evidence
    have squashed : verifierBinary .abduction t1 t2 = (.finite t1.f,
        .finite (t1.f * t1.c * t2.c / (t1.f * t1.c * t2.c + 1))) := by
      simp [verifierBinary, binaryTruth, softSquash_finite evidence.1]
    refine agrees_binary rfl squashed ⟨t1.f_nonneg, t1.f_le_one⟩ ?_
    exact ⟨squash_nonneg evidence.1, (squash_le_self evidence.1).trans evidence.2⟩
  | exemplification =>
    have squashed : verifierBinary .exemplification t1 t2 = (.finite (t1.f * t2.f),
        .finite (t1.c / (t1.c + 1) * t1.c * t2.c * t1.f * t2.f)) := by
      simp [verifierBinary, binaryTruth, softSquash_finite t1.c_nonneg]
    have curve : 0 ≤ t1.c / (t1.c + 1) ∧ t1.c / (t1.c + 1) ≤ maxConfidence :=
      ⟨squash_nonneg t1.c_nonneg, (squash_le_self t1.c_nonneg).trans t1.c_le_max⟩
    have first := mul_mem curve.1 curve.2 t1.c_nonneg t1.c_le_one
    have second := mul_mem first.1 first.2 t2.c_nonneg t2.c_le_one
    have third := mul_mem second.1 second.2 t1.f_nonneg t1.f_le_one
    exact agrees_binary rfl squashed frequencies
      (mul_mem third.1 third.2 t2.f_nonneg t2.f_le_one)
  | comparison =>
    have others : 0 ≤ (1 - t1.f) * (1 - t2.f) := mul_nonneg f1Complement.1 f2Complement.1
    have part : t1.f * t2.f ≤ t1.f * t2.f + (1 - t1.f) * (1 - t2.f) := by linarith
    refine agrees_binary ?_ ?_ (ratio_mem frequencies.1 part) confidences
    · simp [verifierBinary, binaryTruth, safeDiv_of_part frequencies.1 part]
    · simp [verifierBinary, binaryTruth, safeRatio_finite]
  | contraposition =>
    have against : 0 ≤ t2.f * (1 - t1.f) := mul_nonneg t2.f_nonneg f1Complement.1
    have others : 0 ≤ (1 - t2.f) * t1.f := mul_nonneg f2Complement.1 t1.f_nonneg
    have part : t2.f * (1 - t1.f) ≤ t2.f * (1 - t1.f) + (1 - t2.f) * t1.f := by linarith
    refine agrees_binary ?_ ?_ (ratio_mem against part) confidences
    · simp [verifierBinary, binaryTruth, safeDiv_of_part against part]
    · simp [verifierBinary, binaryTruth, safeRatio_finite]

/-! ### Confidence without revision -/

/-- How a truth value comes about: it is a premise, or computed by an entry of a table. -/
inductive Inference where
  | premise (t : Truth)
  | unary (name : UnaryName) (inner : Inference)
  | binary (name : BinaryName) (first second : Inference)

namespace Inference

def truth : Inference → Truth
  | premise t => t
  | unary name inner => engineUnary name inner.truth
  | binary name first second => engineBinary name first.truth second.truth

def premises : Inference → List Truth
  | premise t => [t]
  | unary _ inner => inner.premises
  | binary _ first second => first.premises ++ second.premises

/-- No entry that is used is the revision. -/
def Unrevised : Inference → Prop
  | premise _ => True
  | unary _ inner => inner.Unrevised
  | binary name first second => name ≠ .revision ∧ first.Unrevised ∧ second.Unrevised

end Inference

theorem engineUnary_c_le (name : UnaryName) (t : Truth) : (engineUnary name t).c ≤ t.c := by
  have agrees := congrArg Prod.snd (verifierUnary_agrees name t)
  cases name with
  | conversion =>
    exact (JsNumber.finite.inj agrees).ge.trans (mul_le_of_le_one_left t.c_nonneg t.f_le_one)
  | _ => exact (JsNumber.finite.inj agrees).ge

theorem engineBinary_c_le {name} (other : name ≠ .revision) (t1 t2 : Truth) :
    (engineBinary name t1 t2).c ≤ t1.c * t2.c := by
  have agrees := congrArg Prod.snd (verifierBinary_agrees other t1 t2)
  have product := (confidences_mem t1 t2).1
  -- a frequency among the factors only lowers the product
  have lowered : ∀ t : Truth, t.f * t1.c * t2.c ≤ t1.c * t2.c := fun t => by
    rw [mul_assoc]
    exact mul_le_of_le_one_left product t.f_le_one
  have squashed : ∀ t : Truth, softSquash (.finite (t.f * t1.c * t2.c)) =
      .finite (engineBinary name t1 t2).c → (engineBinary name t1 t2).c ≤ t1.c * t2.c := by
    intro t computed
    have nonneg : 0 ≤ t.f * t1.c * t2.c :=
      mul_nonneg (mul_nonneg t.f_nonneg t1.c_nonneg) t2.c_nonneg
    rw [softSquash_finite nonneg] at computed
    exact (JsNumber.finite.inj computed).ge.trans ((squash_le_self nonneg).trans (lowered t))
  cases name with
  | revision => exact absurd rfl other
  | induction => exact squashed t2 agrees
  | abduction => exact squashed t1 agrees
  | detachment => exact (JsNumber.finite.inj agrees).ge.trans (lowered t1)
  | analogy =>
    exact (JsNumber.finite.inj agrees).ge.trans (mul_le_of_le_one_right product t2.f_le_one)
  | exemplification =>
    have computed : softSquash (.finite t1.c) * .finite t1.c * .finite t2.c * .finite t1.f *
        .finite t2.f = .finite (engineBinary .exemplification t1 t2).c := agrees
    rw [softSquash_finite t1.c_nonneg] at computed
    have curve : t1.c / (t1.c + 1) ≤ 1 := (squash_le_self t1.c_nonneg).trans t1.c_le_one
    refine (JsNumber.finite.inj computed).ge.trans ?_
    have scaled := mul_mem product le_rfl (squash_nonneg t1.c_nonneg) curve
    have third := mul_mem scaled.1 scaled.2 t1.f_nonneg t1.f_le_one
    have fourth := mul_mem third.1 third.2 t2.f_nonneg t2.f_le_one
    calc _ = t1.c * t2.c * (t1.c / (t1.c + 1)) * t1.f * t2.f := by ring
      _ ≤ t1.c * t2.c := fourth.2
  | _ => exact (JsNumber.finite.inj agrees).ge

/-- However premises are combined without a revision, the conclusion is no more confident than all
of them together. -/
theorem truth_c_le_prod (inference : Inference) (unrevised : inference.Unrevised) :
    inference.truth.c ≤ (inference.premises.map (·.c)).prod := by
  induction inference with
  | premise t => simp [Inference.truth, Inference.premises]
  | unary name inner ih => exact (engineUnary_c_le name _).trans (ih unrevised)
  | binary name first second ihFirst ihSecond =>
    obtain ⟨other, firstUnrevised, secondUnrevised⟩ := unrevised
    have bound := mul_le_mul (ihFirst firstUnrevised) (ihSecond secondUnrevised)
      second.truth.c_nonneg (first.truth.c_nonneg.trans (ihFirst firstUnrevised))
    rw [Inference.premises, List.map_append, List.prod_append]
    exact (engineBinary_c_le other _ _).trans bound

theorem truth_c_le_prod_deduction :
    (Truth.deduction (normalizeTruth 1 1) (normalizeTruth 1 0)).c ≤
      ([normalizeTruth 1 1, normalizeTruth 1 0].map (·.c)).prod :=
  truth_c_le_prod (.binary .deduction (.premise _) (.premise _)) ⟨by decide, trivial, trivial⟩

/-! ### Revision -/

/-- The weights of two confidences exceed the weight of the ceiling. -/
def Saturated (t1 t2 : Truth) : Prop := 999 < weight t1.c + weight t2.c

theorem saturated_iff {w} (nonneg : 0 ≤ w) : maxConfidence < w / (w + 1) ↔ 999 < w := by
  rw [maxConfidence, lt_div_iff₀ (by linarith)]
  constructor <;> intro above <;> linarith

theorem weights_nonneg (t1 t2 : Truth) : 0 ≤ weight t1.c + weight t2.c :=
  add_nonneg (weight_nonneg t1.c_nonneg t1.c_lt_one) (weight_nonneg t2.c_nonneg t2.c_lt_one)

theorem mean_mem (t1 t2 : Truth) {first second} (firstNonneg : 0 ≤ first)
    (secondNonneg : 0 ≤ second) (positive : 0 < first + second) :
    0 ≤ (t1.f * first + t2.f * second) / (first + second) ∧
      (t1.f * first + t2.f * second) / (first + second) ≤ 1 := by
  refine ⟨div_nonneg ?_ positive.le, (div_le_one positive).mpr ?_⟩
  · exact add_nonneg (mul_nonneg t1.f_nonneg firstNonneg) (mul_nonneg t2.f_nonneg secondNonneg)
  · exact add_le_add (mul_le_of_le_one_left firstNonneg t1.f_le_one)
      (mul_le_of_le_one_left secondNonneg t2.f_le_one)

theorem verifierBinary_revision (t1 t2 : Truth) :
    verifierBinary .revision t1 t2 =
      (safeRatio (.finite (t1.f * weight t1.c + t2.f * weight t2.c))
        (.finite (weight t1.c + weight t2.c)),
       .finite
        ((weight t1.c + weight t2.c) / (weight t1.c + weight t2.c + 1) ⊓ maxConfidence)) := by
  simp [verifierBinary, binaryTruth, confidenceToWeight_finite t1.c_lt_one,
    confidenceToWeight_finite t2.c_lt_one, weightToConfidence,
    softSquash_finite (weights_nonneg t1 t2), maxConfidence]

theorem revision_saturated (saturated : Saturated t1 t2) :
    Truth.revision t1 t2 =
      normalizeTruth (.finite (t1.f * t1.c + t2.f * t2.c) / .finite (t1.c + t2.c))
        (.finite maxConfidence) := by
  have above := (saturated_iff (weights_nonneg t1 t2)).mpr saturated
  simp [Truth.revision, Truth.binary, confidenceToWeight_finite t1.c_lt_one,
    confidenceToWeight_finite t2.c_lt_one, weightToConfidence,
    softSquash_finite (weights_nonneg t1 t2), above]

theorem revision_unsaturated (unsaturated : ¬ Saturated t1 t2) :
    Truth.revision t1 t2 =
      normalizeTruth (.finite (t1.f * weight t1.c + t2.f * weight t2.c) /
          .finite (weight t1.c + weight t2.c))
        (.finite ((weight t1.c + weight t2.c) / (weight t1.c + weight t2.c + 1))) := by
  have below := mt (saturated_iff (weights_nonneg t1 t2)).mp unsaturated
  simp [Truth.revision, Truth.binary, confidenceToWeight_finite t1.c_lt_one,
    confidenceToWeight_finite t2.c_lt_one, weightToConfidence,
    softSquash_finite (weights_nonneg t1 t2), below]

theorem revision_confidence (t1 t2 : Truth) :
    (verifierBinary .revision t1 t2).2 = .finite (Truth.revision t1 t2).c := by
  have nonneg := weights_nonneg t1 t2
  rw [verifierBinary_revision]
  by_cases saturated : Saturated t1 t2
  · have above := (saturated_iff nonneg).mpr saturated
    rw [revision_saturated saturated, normalizeTruth_c _ maxConfidence_nonneg (le_refl _),
      inf_eq_right.mpr above.le]
  · have below := not_lt.mp (mt (saturated_iff nonneg).mp saturated)
    rw [revision_unsaturated saturated, normalizeTruth_c _ (squash_nonneg nonneg) below,
      inf_eq_left.mpr below]

theorem means_eq_iff (first : 0 < t1.c) (second : 0 < t2.c) :
    (t1.f * weight t1.c + t2.f * weight t2.c) / (weight t1.c + weight t2.c) =
        (t1.f * t1.c + t2.f * t2.c) / (t1.c + t2.c) ↔
      t1.f = t2.f ∨ t1.c = t2.c := by
  have firstBelow : 1 - t1.c ≠ 0 := by linarith [t1.c_lt_one]
  have secondBelow : 1 - t2.c ≠ 0 := by linarith [t2.c_lt_one]
  have weights : weight t1.c + weight t2.c ≠ 0 :=
    (add_pos (weight_pos first t1.c_lt_one) (weight_pos second t2.c_lt_one)).ne'
  have confidences : t1.c + t2.c ≠ 0 := (add_pos first second).ne'
  rw [div_eq_div_iff weights confidences, ← sub_eq_zero]
  have difference : (t1.f * weight t1.c + t2.f * weight t2.c) * (t1.c + t2.c) -
      (t1.f * t1.c + t2.f * t2.c) * (weight t1.c + weight t2.c) =
      (t1.f - t2.f) * (t1.c - t2.c) * (t1.c * t2.c) / ((1 - t1.c) * (1 - t2.c)) := by
    rw [weight, weight]
    field_simp
    ring
  rw [difference, div_eq_zero_iff, or_iff_left (mul_ne_zero firstBelow secondBelow),
    mul_eq_zero, or_iff_left (mul_pos first second).ne', mul_eq_zero, sub_eq_zero, sub_eq_zero]

theorem Saturated.positive (saturated : Saturated t1 t2) : 0 < t1.c ∧ 0 < t2.c := by
  have bound : ∀ t : Truth, weight t.c ≤ 999 := by
    intro t
    rw [weight, div_le_iff₀ (by linarith [t.c_lt_one])]
    have ceiling := t.c_le_max
    rw [maxConfidence] at ceiling
    linarith
  have zero : ∀ t : Truth, ¬ 0 < t.c → weight t.c = 0 := by
    intro t none
    rw [weight, le_antisymm (not_lt.mp none) t.c_nonneg, zero_div]
  rw [Saturated] at saturated
  refine ⟨?_, ?_⟩
  · by_contra none
    linarith [zero t1 none, bound t2]
  · by_contra none
    linarith [zero t2 none, bound t1]

theorem revision_frequency_iff (evidence : 0 < t1.c ∨ 0 < t2.c) :
    (verifierBinary .revision t1 t2).1 = .finite (Truth.revision t1 t2).f ↔
      ¬ (Saturated t1 t2 ∧ t1.f ≠ t2.f ∧ t1.c ≠ t2.c) := by
  have firstNonneg := weight_nonneg t1.c_nonneg t1.c_lt_one
  have secondNonneg := weight_nonneg t2.c_nonneg t2.c_lt_one
  have positive : 0 < weight t1.c + weight t2.c := by
    rcases evidence with first | second
    · exact add_pos_of_pos_of_nonneg (weight_pos first t1.c_lt_one) secondNonneg
    · exact add_pos_of_nonneg_of_pos firstNonneg (weight_pos second t2.c_lt_one)
  have verified : (verifierBinary .revision t1 t2).1 =
      .finite ((t1.f * weight t1.c + t2.f * weight t2.c) / (weight t1.c + weight t2.c)) := by
    rw [verifierBinary_revision, safeRatio_finite, if_pos positive]
  rw [verified, JsNumber.finite.injEq]
  by_cases saturated : Saturated t1 t2
  · obtain ⟨first, second⟩ := saturated.positive
    have mean := mean_mem t1 t2 t1.c_nonneg t2.c_nonneg (add_pos first second)
    rw [revision_saturated saturated, finite_div (add_pos first second).ne',
      normalizeTruth_f mean.1 mean.2, means_eq_iff first second]
    tauto
  · have mean := mean_mem t1 t2 firstNonneg secondNonneg positive
    rw [revision_unsaturated saturated, finite_div positive.ne', normalizeTruth_f mean.1 mean.2]
    exact iff_of_true rfl fun drift => saturated drift.1

/-! ### The two tables -/

/-- The verifier recomputes what the engine stores, for every name and all premises, but for the
frequency of a revision that saturates: that one agrees only where the frequencies or the
confidences of the premises are equal. A revision of no evidence at all has no frequency to
compare. -/
theorem verifier_agrees_engine :
    (∀ (name : UnaryName) (t : Truth), Agrees (verifierUnary name t) (engineUnary name t)) ∧
    (∀ (name : BinaryName) (t1 t2 : Truth),
      (verifierBinary name t1 t2).2 = .finite (engineBinary name t1 t2).c) ∧
    (∀ (name : BinaryName) (t1 t2 : Truth), (name = .revision → 0 < t1.c ∨ 0 < t2.c) →
      ((verifierBinary name t1 t2).1 = .finite (engineBinary name t1 t2).f ↔
        ¬ (name = .revision ∧ Saturated t1 t2 ∧ t1.f ≠ t2.f ∧ t1.c ≠ t2.c))) := by
  refine ⟨verifierUnary_agrees, fun name t1 t2 => ?_, fun name t1 t2 evidence => ?_⟩
  · by_cases revision : name = .revision
    · subst revision
      exact revision_confidence t1 t2
    · rw [verifierBinary_agrees revision t1 t2]
  · by_cases revision : name = .revision
    · subst revision
      simp only [true_and]
      exact revision_frequency_iff (evidence rfl)
    · rw [verifierBinary_agrees revision t1 t2]
      exact iff_of_true rfl fun drift => revision drift.1

/-- The premises of the declared drift. -/
def nearlyCertain : Truth where
  f := 99 / 100
  c := 999 / 1000
  f_nonneg := by norm_num
  f_le_one := by norm_num
  c_nonneg := by norm_num
  c_le_max := le_refl _

def slightlyLessCertain : Truth where
  f := 98 / 100
  c := 998 / 1000
  f_nonneg := by norm_num
  f_le_one := by norm_num
  c_nonneg := by norm_num
  c_le_max := by norm_num [maxConfidence]

/-- Revising a premise with itself past the ceiling keeps the frequency in both tables. -/
theorem verifier_agrees_engine_self_revision :
    (verifierBinary .revision nearlyCertain nearlyCertain).1 =
      .finite (engineBinary .revision nearlyCertain nearlyCertain).f :=
  (verifier_agrees_engine.2.2 .revision nearlyCertain nearlyCertain
    fun _ => Or.inl (by norm_num [nearlyCertain])).mpr fun drift => drift.2.2.1 rfl

/-- The declared drift: a revision that saturates, of premises that differ in both numbers. -/
theorem saturated_revision_drifts :
    ¬ ∀ (name : BinaryName) (t1 t2 : Truth),
      Agrees (verifierBinary name t1 t2) (engineBinary name t1 t2) := by
  intro agrees
  have revised : Agrees (verifierBinary .revision nearlyCertain slightlyLessCertain)
      (Truth.revision nearlyCertain slightlyLessCertain) := agrees .revision _ _
  have evidence : 0 < nearlyCertain.c := by norm_num [nearlyCertain]
  refine (revision_frequency_iff (Or.inl evidence)).mp (congrArg Prod.fst revised) ⟨?_, ?_, ?_⟩
  · norm_num [Saturated, weight, nearlyCertain, slightlyLessCertain]
  · norm_num [nearlyCertain, slightlyLessCertain]
  · norm_num [nearlyCertain, slightlyLessCertain]

end Senars.Algebra
