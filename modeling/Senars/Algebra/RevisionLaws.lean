/-
This file is about the evidence behind a truth value, which is the weight its confidence
carries, and the laws of revision, over truth values with some confidence. Below the ceiling
a truth value is its evidence and the share of it that is positive, revision adds both, and so
it does not matter in which order the evidence arrives. At the ceiling revision means the
frequencies by the confidences, which is still symmetric and between the two, but is no longer
a sum: the law fails where only the last result is past the ceiling.
-/

import Mathlib.Algebra.BigOperators.Group.List.Basic
import Senars.Algebra.VerifierAgreement

namespace Senars.Algebra

open Library Library.JsNumber

/-! ### Evidence -/

deriving instance DecidableEq for Truth

/-- Two truth values are equal to within a tolerance. -/
def isTruthEqual (a b : Truth) (epsilon : ℚ) : Bool :=
  decide (|a.f - b.f| ≤ epsilon) && decide (|a.c - b.c| ≤ epsilon)

/-- The evidence behind a truth value. -/
def Truth.evidence (t : Truth) : ℚ := weight t.c

theorem Truth.evidence_nonneg (t : Truth) : 0 ≤ t.evidence := weight_nonneg t.c_nonneg t.c_lt_one

theorem weight_lt_weight_iff {first second} (firstBelow : first < 1) (secondBelow : second < 1) :
    weight first < weight second ↔ first < second := by
  rw [weight, weight, div_lt_div_iff₀ (by linarith) (by linarith)]
  constructor <;> intro less <;> linarith

theorem weight_maxConfidence : weight maxConfidence = 999 := by
  norm_num [weight, maxConfidence]

theorem weight_zero : weight 0 = 0 := zero_div _

theorem weight_squash {w} (nonneg : 0 ≤ w) : weight (w / (w + 1)) = w := by
  rw [weight]
  field_simp
  ring

theorem evidence_revision (t1 t2 : Truth) :
    (Truth.revision t1 t2).evidence = min (t1.evidence + t2.evidence) 999 := by
  have nonneg := weights_nonneg t1 t2
  by_cases saturated : Saturated t1 t2
  · rw [Truth.evidence, revision_saturated saturated,
      normalizeTruth_c _ maxConfidence_nonneg le_rfl, weight_maxConfidence]
    exact (min_eq_right saturated.le).symm
  · have below := not_lt.mp (mt (saturated_iff nonneg).mp saturated)
    rw [Truth.evidence, revision_unsaturated saturated,
      normalizeTruth_c _ (squash_nonneg nonneg) below, weight_squash nonneg]
    exact (min_eq_left (not_lt.mp saturated)).symm

theorem lt_revision_c_iff (t1 t2 : Truth) :
    t2.c < (Truth.revision t1 t2).c ↔ t1.c ≠ 0 ∧ t2.c ≠ maxConfidence := by
  have some : 0 < t1.evidence ↔ t1.c ≠ 0 := by
    have above := weight_lt_weight_iff zero_lt_one t1.c_lt_one
    rw [weight_zero] at above
    exact above.trans t1.c_nonneg.lt_iff_ne'
  have room : t2.evidence < 999 ↔ t2.c ≠ maxConfidence := by
    rw [Truth.evidence, ← weight_maxConfidence,
      weight_lt_weight_iff t2.c_lt_one (by norm_num [maxConfidence]), t2.c_le_max.lt_iff_ne]
  rw [← weight_lt_weight_iff t2.c_lt_one (Truth.c_lt_one _), ← some, ← room]
  change t2.evidence < (Truth.revision t1 t2).evidence ↔ _
  rw [evidence_revision, lt_min_iff, lt_add_iff_pos_left]

/-! ### Means -/

theorem mean_between {first second firstWeight secondWeight : ℚ} (firstNonneg : 0 ≤ firstWeight)
    (secondNonneg : 0 ≤ secondWeight) (positive : 0 < firstWeight + secondWeight) :
    min first second ≤
        (first * firstWeight + second * secondWeight) / (firstWeight + secondWeight) ∧
      (first * firstWeight + second * secondWeight) / (firstWeight + secondWeight) ≤
        max first second := by
  rw [le_div_iff₀ positive, div_le_iff₀ positive, mul_add, mul_add]
  constructor
  · exact add_le_add (mul_le_mul_of_nonneg_right (min_le_left _ _) firstNonneg)
      (mul_le_mul_of_nonneg_right (min_le_right _ _) secondNonneg)
  · exact add_le_add (mul_le_mul_of_nonneg_right (le_max_left _ _) firstNonneg)
      (mul_le_mul_of_nonneg_right (le_max_right _ _) secondNonneg)

namespace Truth

variable {t1 t2 t3 : Truth}

theorem evidence_pos {t : Truth} (confident : 0 < t.c) : 0 < t.evidence :=
  weight_pos confident t.c_lt_one

/-- The evidence that is positive. -/
def positive (t : Truth) : ℚ := t.f * t.evidence

theorem revision_f_of_saturated (saturated : Saturated t1 t2) :
    (revision t1 t2).f = (t1.f * t1.c + t2.f * t2.c) / (t1.c + t2.c) := by
  obtain ⟨first, second⟩ := saturated.positive
  have mean := mean_mem t1 t2 t1.c_nonneg t2.c_nonneg (add_pos first second)
  rw [revision_saturated saturated, finite_div (add_pos first second).ne',
    normalizeTruth_f mean.1 mean.2]

theorem revision_f_of_unsaturated (first : 0 < t1.c) (unsaturated : ¬ Saturated t1 t2) :
    (revision t1 t2).f = (t1.positive + t2.positive) / (t1.evidence + t2.evidence) := by
  have some : 0 < weight t1.c + weight t2.c :=
    add_pos_of_pos_of_nonneg (evidence_pos first) t2.evidence_nonneg
  have mean := mean_mem t1 t2 (weight_nonneg t1.c_nonneg t1.c_lt_one)
    (weight_nonneg t2.c_nonneg t2.c_lt_one) some
  rw [revision_unsaturated unsaturated, finite_div some.ne', normalizeTruth_f mean.1 mean.2]
  rfl

/-! ### The laws of two truth values -/

theorem saturated_comm : Saturated t1 t2 ↔ Saturated t2 t1 := by
  unfold Saturated
  rw [add_comm]

theorem revision_comm (t1 t2 : Truth) : revision t1 t2 = revision t2 t1 := by
  by_cases saturated : Saturated t1 t2
  · rw [revision_saturated saturated, revision_saturated (saturated_comm.mp saturated),
      add_comm (t1.f * t1.c), add_comm t1.c]
  · rw [revision_unsaturated saturated, revision_unsaturated (mt saturated_comm.mpr saturated),
      add_comm (t1.f * weight t1.c), add_comm (weight t1.c)]

theorem revision_f_between (first : 0 < t1.c) :
    min t1.f t2.f ≤ (revision t1 t2).f ∧ (revision t1 t2).f ≤ max t1.f t2.f := by
  by_cases saturated : Saturated t1 t2
  · rw [revision_f_of_saturated saturated]
    exact mean_between t1.c_nonneg t2.c_nonneg (add_pos_of_pos_of_nonneg first t2.c_nonneg)
  · rw [revision_f_of_unsaturated first saturated]
    exact mean_between t1.evidence_nonneg t2.evidence_nonneg
      (add_pos_of_pos_of_nonneg (evidence_pos first) t2.evidence_nonneg)

theorem evidence_le_ceiling (t : Truth) : t.evidence ≤ 999 := by
  rw [← weight_maxConfidence]
  refine not_lt.mp fun above => ?_
  rw [evidence, weight_lt_weight_iff (by norm_num [maxConfidence]) t.c_lt_one] at above
  exact absurd t.c_le_max (not_le.mpr above)

theorem le_revision_c (t1 t2 : Truth) : t1.c ≤ (revision t1 t2).c := by
  refine not_lt.mp fun lower => ?_
  rw [← weight_lt_weight_iff (c_lt_one _) t1.c_lt_one] at lower
  have more : t1.evidence ≤ (revision t1 t2).evidence := by
    rw [evidence_revision]
    exact le_min (le_add_of_nonneg_right t2.evidence_nonneg) t1.evidence_le_ceiling
  exact absurd more (not_le.mpr lower)

/-! ### Revision as a sum -/

theorem eq_of_evidence (confident : 0 < t1.c) (sameEvidence : t1.evidence = t2.evidence)
    (samePositive : t1.positive = t2.positive) : t1 = t2 := by
  have sameC : t1.c = t2.c := by
    refine le_antisymm (not_lt.mp fun above => ?_) (not_lt.mp fun above => ?_)
    · rw [← weight_lt_weight_iff t2.c_lt_one t1.c_lt_one] at above
      exact absurd sameEvidence above.ne'
    · rw [← weight_lt_weight_iff t1.c_lt_one t2.c_lt_one] at above
      exact absurd sameEvidence above.ne
  have sameF : t1.f = t2.f := by
    unfold positive at samePositive
    rw [← sameEvidence] at samePositive
    exact mul_right_cancel₀ (evidence_pos confident).ne' samePositive
  cases t1
  cases t2
  cases sameC
  cases sameF
  rfl

theorem revision_adds (first : 0 < t1.c) (unsaturated : ¬ Saturated t1 t2) :
    0 < (revision t1 t2).c ∧ (revision t1 t2).evidence = t1.evidence + t2.evidence ∧
      (revision t1 t2).positive = t1.positive + t2.positive := by
  have added : (revision t1 t2).evidence = t1.evidence + t2.evidence := by
    rw [evidence_revision]
    exact min_eq_left (not_lt.mp unsaturated)
  refine ⟨first.trans_le (le_revision_c t1 t2), added, ?_⟩
  have some : t1.evidence + t2.evidence ≠ 0 :=
    (add_pos_of_pos_of_nonneg (evidence_pos first) t2.evidence_nonneg).ne'
  rw [positive, added, revision_f_of_unsaturated first unsaturated, div_mul_cancel₀ _ some]

theorem revision_assoc (first : 0 < t1.c) (second : 0 < t2.c) (firstTwo : ¬ Saturated t1 t2)
    (lastTwo : ¬ Saturated t2 t3) (left : ¬ Saturated (revision t1 t2) t3)
    (right : ¬ Saturated t1 (revision t2 t3)) :
    revision (revision t1 t2) t3 = revision t1 (revision t2 t3) := by
  obtain ⟨confident, firstEvidence, firstPositive⟩ := revision_adds first firstTwo
  obtain ⟨_, lastEvidence, lastPositive⟩ := revision_adds second lastTwo
  obtain ⟨leftConfident, leftEvidence, leftPositive⟩ := revision_adds confident left
  obtain ⟨_, rightEvidence, rightPositive⟩ := revision_adds first right
  refine eq_of_evidence leftConfident ?_ ?_
  · rw [leftEvidence, firstEvidence, rightEvidence, lastEvidence, add_assoc]
  · rw [leftPositive, firstPositive, rightPositive, lastPositive, add_assoc]

/-! ### Evidence that arrives one after the other -/

/-- No revision of a truth value by others, one after the other, is past the ceiling. -/
def NeverSaturated : Truth → List Truth → Prop
  | _, [] => True
  | t, next :: rest => ¬ Saturated t next ∧ NeverSaturated (revision t next) rest

theorem foldl_revision_adds {t others} (confident : 0 < t.c) (never : NeverSaturated t others) :
    0 < (others.foldl revision t).c ∧
      (others.foldl revision t).evidence = ((t :: others).map evidence).sum ∧
      (others.foldl revision t).positive = ((t :: others).map positive).sum := by
  induction others generalizing t with
  | nil => simp [confident]
  | cons next rest ih =>
    obtain ⟨unsaturated, later⟩ := never
    obtain ⟨still, evidenceHere, positiveHere⟩ := revision_adds confident unsaturated
    obtain ⟨atLast, evidenceLater, positiveLater⟩ := ih still later
    refine ⟨atLast, evidenceLater.trans ?_, positiveLater.trans ?_⟩
    · simp only [List.map_cons, List.sum_cons, evidenceHere, add_assoc]
    · simp only [List.map_cons, List.sum_cons, positiveHere, add_assoc]

theorem foldl_revision_perm {first second firstRest secondRest}
    (perm : (first :: firstRest).Perm (second :: secondRest)) (firstConfident : 0 < first.c)
    (secondConfident : 0 < second.c) (firstNever : NeverSaturated first firstRest)
    (secondNever : NeverSaturated second secondRest) :
    firstRest.foldl revision first = secondRest.foldl revision second := by
  obtain ⟨confident, firstEvidence, firstPositive⟩ := foldl_revision_adds firstConfident firstNever
  obtain ⟨_, secondEvidence, secondPositive⟩ := foldl_revision_adds secondConfident secondNever
  refine eq_of_evidence confident ?_ ?_
  · rw [firstEvidence, secondEvidence, (perm.map evidence).sum_eq]
  · rw [firstPositive, secondPositive, (perm.map positive).sum_eq]

/-! ### The result -/

/-- Over truth values with some confidence, revision is symmetric, its frequency is between both and
its confidence is no lower than either; while no confidence is past the ceiling, of what is in
between or of what comes out, it is associative and the order of arrival does not matter. -/
theorem revision_laws :
    (∀ t1 t2 : Truth, 0 < t1.c → 0 < t2.c →
      revision t1 t2 = revision t2 t1 ∧
        min t1.f t2.f ≤ (revision t1 t2).f ∧ (revision t1 t2).f ≤ max t1.f t2.f ∧
        max t1.c t2.c ≤ (revision t1 t2).c) ∧
    (∀ t1 t2 t3 : Truth, 0 < t1.c → 0 < t2.c → 0 < t3.c →
      ¬ Saturated t1 t2 → ¬ Saturated t2 t3 → ¬ Saturated (revision t1 t2) t3 →
        ¬ Saturated t1 (revision t2 t3) →
          revision (revision t1 t2) t3 = revision t1 (revision t2 t3)) ∧
    ∀ (first second : Truth) (firstRest secondRest : List Truth),
      (first :: firstRest).Perm (second :: secondRest) →
        (∀ t ∈ first :: firstRest, 0 < t.c) →
          NeverSaturated first firstRest → NeverSaturated second secondRest →
            firstRest.foldl revision first = secondRest.foldl revision second := by
  refine ⟨?_, ?_, ?_⟩
  · intro t1 t2 first _
    obtain ⟨low, high⟩ : min t1.f t2.f ≤ _ ∧ _ ≤ max t1.f t2.f := revision_f_between first
    refine ⟨revision_comm t1 t2, low, high, max_le (le_revision_c t1 t2) ?_⟩
    rw [revision_comm]
    exact le_revision_c t2 t1
  · intro t1 t2 t3 first second _ firstTwo lastTwo left right
    exact revision_assoc first second firstTwo lastTwo left right
  · intro first second firstRest secondRest perm confident firstNever secondNever
    exact foldl_revision_perm perm (confident first List.mem_cons_self)
      (confident second (perm.mem_iff.mpr List.mem_cons_self)) firstNever secondNever

/-- Two truth values that are past the ceiling only together with a third. -/
def believed : Truth where
  f := 1
  c := 400 / 401
  f_nonneg := zero_le_one
  f_le_one := le_rfl
  c_nonneg := by norm_num
  c_le_max := by norm_num [maxConfidence]

def denied : Truth where
  f := 0
  c := 400 / 401
  f_nonneg := le_rfl
  f_le_one := zero_le_one
  c_nonneg := by norm_num
  c_le_max := by norm_num [maxConfidence]

/-- Where only the last confidence is past the ceiling, the order matters. -/
theorem revision_not_assoc :
    (revision believed denied).c < maxConfidence ∧ (revision denied denied).c < maxConfidence ∧
      revision (revision believed denied) denied ≠ revision believed (revision denied denied) := by
  decide +kernel

end Truth

end Senars.Algebra
