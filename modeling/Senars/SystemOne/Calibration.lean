/-
This file is the isotonic calibrator: labelled points, the fit over the points sorted
by score, and the curve through the fitted values that a score is read off.

The sort is stable, so points of one score are fitted in the order they were given. The
curve is the first value up to the first score, a line between neighbouring scores, and
the last line beyond the last score. The error statistics are left out.
-/

import Senars.Library.Capped
import Senars.Library.JsNumber
import Senars.Library.StableSort
import Senars.SystemOne.PoolAdjacentViolators

namespace Senars.SystemOne

open Library Library.Isotonic

/-! ### The calibrator -/

structure CalibrationPoint where
  predicted : ℚ
  observed : ℚ
  weight : ℚ
  deriving DecidableEq

@[irreducible] def calibrationPointCap : ℕ := 10000

structure IsotonicCalibrator where
  points : List CalibrationPoint
  isotonicMap : Option (List ℚ)
  sortedPredicted : Option (List ℚ)
  fitted : Bool
  deriving DecidableEq

/-- Comparison of rational numbers. -/
def rationalOrder : Comparison ℚ where
  le first second := first ≤ second
  total first second := by simpa using le_total first second
  trans first second third low high := by
    simp only [decide_eq_true_eq] at low high ⊢
    exact low.trans high

/-- Comparison of points by score. -/
def byPredicted : Comparison CalibrationPoint := rationalOrder.comap (·.predicted)

/-- Some label is not the prediction. -/
def hasRealLabels (points : List CalibrationPoint) : Bool :=
  points.any fun point => point.observed != point.predicted

/-- Fit the points, of which there have to be two. -/
def rebuild (calibrator : IsotonicCalibrator) : IsotonicCalibrator :=
  if calibrator.points.length < 2 then
    { calibrator with isotonicMap := none, sortedPredicted := none }
  else
    let sorted := byPredicted.toSorted calibrator.points
    let sortedPredicted := sorted.map (·.predicted)
    { calibrator with
      isotonicMap := some (poolAdjacentViolators sortedPredicted (sorted.map (·.observed))
        (sorted.map (·.weight)))
      sortedPredicted := some sortedPredicted }

def createIsotonicCalibrator (initialPoints : List CalibrationPoint) : IsotonicCalibrator :=
  rebuild ⟨initialPoints, none, none, !initialPoints.isEmpty && hasRealLabels initialPoints⟩

/-- The calibrator with more points, not fitted yet. The oldest points past the cap are dropped. -/
def addPoints (calibrator : IsotonicCalibrator) (newPoints : List CalibrationPoint) :
    IsotonicCalibrator :=
  { calibrator with
    fitted := calibrator.fitted || hasRealLabels newPoints
    points := trimCapped (calibrator.points ++ newPoints) calibrationPointCap }

def update (calibrator : IsotonicCalibrator) (newPoints : List CalibrationPoint) :
    IsotonicCalibrator :=
  rebuild (addPoints calibrator newPoints)

/-- Read a score off fitted values. -/
def readOff (sortedPredicted isotonicMap : List ℚ) (score : ℚ) : ℚ :=
  let idx := (sortedPredicted.findIdx? fun p => score ≤ p).getD (sortedPredicted.length - 1)
  if idx = 0 then isotonicMap[0]?.getD score
  else if isotonicMap.length ≤ idx then isotonicMap[isotonicMap.length - 1]?.getD score
  else
    let p0 := sortedPredicted[idx - 1]?.getD 0
    let p1 := sortedPredicted[idx]?.getD 1
    let v0 := isotonicMap[idx - 1]?.getD 0
    let v1 := isotonicMap[idx]?.getD 1
    if p1 = p0 then v0 else lerp v0 v1 ((score - p0) / (p1 - p0))

def IsotonicCalibrator.calibrate (calibrator : IsotonicCalibrator) (score : ℚ) : ℚ :=
  match calibrator.isotonicMap, calibrator.sortedPredicted with
  | some isotonicMap, some sortedPredicted =>
    if calibrator.points.length < 2 then score else readOff sortedPredicted isotonicMap score
  | _, _ => score

/-! ### The curve -/

/-- The line through two knots, or the value of the first where they have one score. -/
def line (first second : ℚ × ℚ) (score : ℚ) : ℚ :=
  if second.1 = first.1 then first.2
  else lerp first.2 second.2 ((score - first.1) / (second.1 - first.1))

/-- The curve through knots of a score and a value. -/
def curve : List (ℚ × ℚ) → ℚ → ℚ
  | [], score => score
  | [knot], _ => knot.2
  | first :: second :: knots, score =>
    if score ≤ first.1 then first.2
    else if score ≤ second.1 ∨ knots = [] then line first second score
    else curve (second :: knots) score

theorem readOff_cons_cons {first second : ℚ × ℚ} {knots score} (beyond : ¬ score ≤ first.1)
    (further : ¬ score ≤ second.1) (more : knots ≠ []) :
    readOff ((first :: second :: knots).map (·.1)) ((first :: second :: knots).map (·.2)) score =
      readOff ((second :: knots).map (·.1)) ((second :: knots).map (·.2)) score := by
  obtain ⟨third, knots, rfl⟩ := List.exists_cons_of_ne_nil more
  have shorter : (((second :: third :: knots).map (·.1)).findIdx? fun p => decide (score ≤ p)) =
      (((third :: knots).map (·.1)).findIdx? fun p => decide (score ≤ p)).map (· + 1) := by
    rw [List.map_cons, List.findIdx?_cons, if_neg (by simpa using further)]
  have found : (((first :: second :: third :: knots).map (·.1)).findIdx? fun p =>
      decide (score ≤ p)) =
        ((((third :: knots).map (·.1)).findIdx? fun p => decide (score ≤ p)).map (· + 1)).map
          (· + 1) := by
    rw [List.map_cons, List.findIdx?_cons, if_neg (by simpa using beyond), shorter]
  unfold readOff
  rw [found, shorter]
  cases ((third :: knots).map (·.1)).findIdx? fun p => decide (score ≤ p) with
  | none =>
    have inside : knots.length < knots.length + 1 + 1 := by omega
    simp [inside]
  | some index => simp

theorem readOff_eq_curve (knots : List (ℚ × ℚ)) (score : ℚ) :
    readOff (knots.map (·.1)) (knots.map (·.2)) score = curve knots score := by
  induction knots with
  | nil => rfl
  | cons first knots induction =>
    cases knots with
    | nil =>
      by_cases upTo : score ≤ first.1 <;> simp [readOff, curve, List.findIdx?_cons, upTo]
    | cons second knots =>
      rw [curve]
      split_ifs with upTo between
      · simp [readOff, List.findIdx?_cons, upTo]
      · by_cases upToSecond : score ≤ second.1
        · simp [readOff, List.findIdx?_cons, upTo, upToSecond, line]
        · obtain rfl := between.resolve_left upToSecond
          simp [readOff, List.findIdx?_cons, upTo, upToSecond, line]
      · rw [not_or] at between
        rw [readOff_cons_cons upTo between.1 between.2, induction]

/-! ### The line between two knots -/

section Line

variable {first second : ℚ × ℚ} {score later : ℚ}

theorem line_mono (scores : first.1 ≤ second.1) (values : first.2 ≤ second.2)
    (before : score ≤ later) : line first second score ≤ line first second later := by
  unfold line lerp
  split_ifs with tied
  · exact le_rfl
  · have apart : 0 < second.1 - first.1 := sub_pos.mpr (scores.lt_of_ne (Ne.symm tied))
    gcongr

theorem line_first : line first second first.1 = first.2 := by
  unfold line lerp
  split_ifs
  · rfl
  · rw [sub_self, zero_div, mul_zero, add_zero]

theorem line_second (apart : first.1 < second.1) : line first second second.1 = second.2 := by
  unfold line lerp
  rw [if_neg apart.ne', div_self (sub_pos.mpr apart).ne', mul_one, add_sub_cancel]

theorem line_halfway (apart : first.1 < second.1) :
    line first second ((first.1 + second.1) / 2) = (first.2 + second.2) / 2 := by
  unfold line lerp
  have distance : second.1 - first.1 ≠ 0 := (sub_pos.mpr apart).ne'
  have half : ((first.1 + second.1) / 2 - first.1) / (second.1 - first.1) = 1 / 2 := by
    rw [div_eq_iff distance]
    linarith
  rw [if_neg apart.ne', half]
  linarith

theorem line_of_tied (tied : first.1 = second.1) : line first second score = first.2 :=
  if_pos tied.symm

theorem line_of_level (level : first.2 = second.2) : line first second score = first.2 := by
  unfold line lerp
  split_ifs
  · rfl
  · rw [level, sub_self, zero_mul, add_zero]

end Line

/-! ### The curve between its knots -/

/-- Neither the scores nor the values of the knots decrease. -/
def Rising (knots : List (ℚ × ℚ)) : Prop :=
  knots.Pairwise fun first second => first.1 ≤ second.1 ∧ first.2 ≤ second.2

section Curve

variable {before after knots : List (ℚ × ℚ)} {knot first second : ℚ × ℚ} {score : ℚ}

theorem curve_at (belows : ∀ other ∈ before, other.1 < knot.1) :
    curve (before ++ knot :: after) knot.1 = knot.2 := by
  induction before with
  | nil =>
    cases after with
    | nil => rfl
    | cons next after => exact if_pos le_rfl
  | cons first before induction =>
    obtain ⟨firstBelow, belows⟩ := List.forall_mem_cons.mp belows
    cases before with
    | nil =>
      show (if knot.1 ≤ first.1 then _ else if knot.1 ≤ knot.1 ∨ after = [] then _ else _) = _
      rw [if_neg (not_le.mpr firstBelow), if_pos (.inl le_rfl), line_second firstBelow]
    | cons second before =>
      have secondBelow := belows second List.mem_cons_self
      show (if knot.1 ≤ first.1 then _
        else if knot.1 ≤ second.1 ∨ before ++ knot :: after = [] then _ else _) = _
      rw [if_neg (not_le.mpr firstBelow), if_neg]
      · exact induction belows
      · rw [not_or, not_le]
        exact ⟨secondBelow, by simp⟩

theorem curve_past (belows : ∀ other ∈ before, other.1 < score) (past : first.1 < score)
    (upTo : score ≤ second.1 ∨ after = []) :
    curve (before ++ first :: second :: after) score = line first second score := by
  induction before with
  | nil =>
    show (if score ≤ first.1 then _ else if score ≤ second.1 ∨ after = [] then _ else _) = _
    rw [if_neg (not_le.mpr past), if_pos upTo]
  | cons other before induction =>
    obtain ⟨otherBelow, belows⟩ := List.forall_mem_cons.mp belows
    have rest := induction belows
    cases before with
    | nil =>
      show (if score ≤ other.1 then _
        else if score ≤ first.1 ∨ second :: after = [] then _ else _) = _
      rw [if_neg (not_le.mpr otherBelow), if_neg]
      · exact rest
      · rw [not_or, not_le]
        exact ⟨past, by simp⟩
    | cons next before =>
      have nextBelow := belows next List.mem_cons_self
      show (if score ≤ other.1 then _
        else if score ≤ next.1 ∨ before ++ first :: second :: after = [] then _ else _) = _
      rw [if_neg (not_le.mpr otherBelow), if_neg]
      · exact rest
      · rw [not_or, not_le]
        exact ⟨nextBelow, by simp⟩

theorem le_curve (rising : Rising (knot :: knots)) (score : ℚ) :
    knot.2 ≤ curve (knot :: knots) score := by
  induction knots generalizing knot with
  | nil => exact le_rfl
  | cons second knots induction =>
    obtain ⟨aboves, rest⟩ := List.pairwise_cons.mp rising
    obtain ⟨scores, values⟩ := aboves second List.mem_cons_self
    rw [curve]
    split_ifs with upTo
    · exact le_rfl
    · exact line_first.symm.trans_le (line_mono scores values (not_le.mp upTo).le)
    · exact values.trans (induction rest)

theorem curve_mono (rising : Rising knots) {later} (nonempty : knots ≠ [])
    (before : score ≤ later) : curve knots score ≤ curve knots later := by
  induction knots with
  | nil => exact absurd rfl nonempty
  | cons first knots induction =>
    cases knots with
    | nil => exact le_rfl
    | cons second knots =>
      obtain ⟨aboves, rest⟩ := List.pairwise_cons.mp rising
      obtain ⟨scores, values⟩ := aboves second List.mem_cons_self
      by_cases upTo : score ≤ first.1
      · have start : curve (first :: second :: knots) score = first.2 := if_pos upTo
        exact start.trans_le (le_curve rising later)
      · have laterPast : ¬ later ≤ first.1 := fun upToFirst => upTo (before.trans upToFirst)
        rw [curve, curve]
        split_ifs with here there there
        · exact line_mono scores values before
        · -- the score is up to the second knot and the later one past it
          have upToSecond := here.resolve_right fun empty => there (.inr empty)
          refine le_trans ?_ (le_curve rest later)
          by_cases tied : first.1 = second.1
          · exact (line_of_tied tied).trans_le values
          · exact (line_mono scores values upToSecond).trans_eq
              (line_second (scores.lt_of_ne tied))
        · have upToSecond := there.resolve_right fun empty => here (.inr empty)
          exact absurd (.inl (before.trans upToSecond)) here
        · exact induction rest (List.cons_ne_nil second knots)

/-- The last two knots have one score or one value. -/
def EndsLevel (knots : List (ℚ × ℚ)) : Prop :=
  ∀ before first second, knots = before ++ [first, second] →
    first.1 = second.1 ∨ first.2 = second.2

theorem exists_curve_le (rising : Rising (knot :: knots)) (level : EndsLevel (knot :: knots))
    (score : ℚ) : ∃ other ∈ knot :: knots, curve (knot :: knots) score ≤ other.2 := by
  induction knots generalizing knot with
  | nil => exact ⟨knot, List.mem_cons_self, le_rfl⟩
  | cons second knots induction =>
    obtain ⟨aboves, rest⟩ := List.pairwise_cons.mp rising
    obtain ⟨scores, values⟩ := aboves second List.mem_cons_self
    rw [curve]
    split_ifs with upTo between
    · exact ⟨knot, List.mem_cons_self, le_rfl⟩
    · by_cases upToSecond : score ≤ second.1
      · have apart : knot.1 < second.1 := (not_le.mp upTo).trans_le upToSecond
        exact ⟨second, by simp, (line_mono scores values upToSecond).trans_eq (line_second apart)⟩
      · obtain rfl := between.resolve_left upToSecond
        refine ⟨knot, List.mem_cons_self, le_of_eq ?_⟩
        exact (level [] knot second rfl).elim line_of_tied line_of_level
    · obtain ⟨other, isIn, atMost⟩ := induction rest fun before first last cut =>
        level (knot :: before) first last (congrArg _ cut)
      exact ⟨other, List.mem_cons_of_mem _ isIn, atMost⟩

theorem exists_curve_gt (rising : Rising (before ++ [first, second])) (scores : first.1 < second.1)
    (values : first.2 < second.2) (bound : ℚ) :
    ∃ score, bound < curve (before ++ [first, second]) score := by
  have apart := sub_pos.mpr scores
  have rises := sub_pos.mpr values
  -- far enough along the last line
  let steps := max 2 ((bound - first.2) / (second.2 - first.2) + 1)
  have far : (1 : ℚ) < steps := one_lt_two.trans_le (le_max_left _ _)
  refine ⟨first.1 + steps * (second.1 - first.1), ?_⟩
  have past : second.1 < first.1 + steps * (second.1 - first.1) := by
    have more := mul_lt_mul_of_pos_right far apart
    linarith
  have belows : ∀ other ∈ before, other.1 < first.1 + steps * (second.1 - first.1) := by
    intro other isIn
    have inOrder := (List.pairwise_append.mp rising).2.2 other isIn first List.mem_cons_self
    exact inOrder.1.trans_lt (scores.trans past)
  rw [curve_past belows (scores.trans past) (.inr rfl), line, if_neg scores.ne', lerp,
    add_sub_cancel_left, mul_div_cancel_right₀ _ apart.ne']
  have enough : (bound - first.2) / (second.2 - first.2) < steps :=
    (lt_add_one _).trans_le (le_max_right _ _)
  rw [div_lt_iff₀ rises] at enough
  linarith

end Curve

/-! ### What a calibrator reads scores off -/

def CalibrationPoint.observation (point : CalibrationPoint) : Weighted ℚ :=
  ⟨point.observed, point.weight⟩

/-- Points with their fitted values. -/
def fitOf (sorted : List CalibrationPoint) : List (CalibrationPoint × ℚ) :=
  sorted.zip (fittedValues (sorted.map (·.observation)))

/-- The knots of the curve through fitted points. -/
def knotsOf (fitted : List (CalibrationPoint × ℚ)) : List (ℚ × ℚ) :=
  fitted.map fun point => (point.1.predicted, point.2)

/-- A calibrator made with some points and fed others, batch by batch. -/
def fed (initialPoints : List CalibrationPoint) (batches : List (List CalibrationPoint)) :
    IsotonicCalibrator :=
  batches.foldl update (createIsotonicCalibrator initialPoints)

section Feeding

variable {points : List CalibrationPoint}

/-- The weights of the points are positive. -/
def PositiveWeights (points : List CalibrationPoint) : Prop := ∀ point ∈ points, 0 < point.weight

theorem PositiveWeights.positive (weights : PositiveWeights points) :
    Positive (points.map (·.observation)) := by
  intro point isIn
  obtain ⟨other, otherIn, rfl⟩ := List.mem_map.mp isIn
  exact weights other otherIn

theorem length_fittedValues_observations (weights : PositiveWeights points) :
    (fittedValues (points.map (·.observation))).length = points.length := by
  rw [length_fittedValues weights.positive, List.length_map]

theorem map_fst_fitOf (weights : PositiveWeights points) : (fitOf points).map (·.1) = points :=
  List.map_fst_zip (length_fittedValues_observations weights).ge

theorem rebuild_points (calibrator : IsotonicCalibrator) :
    (rebuild calibrator).points = calibrator.points := by
  unfold rebuild
  split <;> rfl

theorem addPoints_points (calibrator : IsotonicCalibrator) (newPoints : List CalibrationPoint) :
    (addPoints calibrator newPoints).points =
      trimCapped (calibrator.points ++ newPoints) calibrationPointCap := rfl

theorem exists_fed (initialPoints : List CalibrationPoint)
    (batches : List (List CalibrationPoint))
    (belowCap : (initialPoints ++ batches.flatten).length ≤ calibrationPointCap) :
    ∃ calibrator, fed initialPoints batches = rebuild calibrator ∧
      calibrator.points = initialPoints ++ batches.flatten := by
  induction batches using List.reverseRecOn with
  | nil => exact ⟨_, rfl, (List.append_nil initialPoints).symm⟩
  | append_singleton batches batch induction =>
    rw [List.flatten_concat, ← List.append_assoc] at belowCap ⊢
    obtain ⟨calibrator, same, has⟩ := induction (le_trans (by simp) belowCap)
    refine ⟨addPoints (fed initialPoints batches) batch, ?_, ?_⟩
    · rw [fed, List.foldl_concat]
      rfl
    · rw [addPoints_points, same, rebuild_points, has, trimCapped_eq_self belowCap]

theorem calibrate_rebuild {calibrator} (weights : PositiveWeights calibrator.points)
    (two : 2 ≤ calibrator.points.length) (score : ℚ) :
    (rebuild calibrator).calibrate score =
      curve (knotsOf (fitOf (byPredicted.toSorted calibrator.points))) score := by
  have sortedWeights : PositiveWeights (byPredicted.toSorted calibrator.points) :=
    fun point isIn => weights point (Comparison.mem_toSorted.mp isIn)
  have length := length_fittedValues_observations sortedWeights
  have scores : (knotsOf (fitOf (byPredicted.toSorted calibrator.points))).map (·.1) =
      (byPredicted.toSorted calibrator.points).map (·.predicted) := by
    have fitted := congrArg (List.map (·.predicted)) (map_fst_fitOf sortedWeights)
    rw [List.map_map] at fitted
    rw [knotsOf, List.map_map]
    exact fitted
  have values : (knotsOf (fitOf (byPredicted.toSorted calibrator.points))).map (·.2) =
      fittedValues ((byPredicted.toSorted calibrator.points).map (·.observation)) := by
    rw [knotsOf, List.map_map]
    exact List.map_snd_zip length.le
  have sameLength : ((byPredicted.toSorted calibrator.points).map (·.predicted)).length =
      ((byPredicted.toSorted calibrator.points).map (·.observation)).length := by simp
  have pooled := poolAdjacentViolators_eq sameLength
  rw [List.map_map, List.map_map] at pooled
  rw [← readOff_eq_curve, scores, values, ← pooled, IsotonicCalibrator.calibrate, rebuild,
    if_neg (not_lt.mpr two)]
  exact if_neg (not_lt.mpr two)

end Feeding

end Senars.SystemOne
