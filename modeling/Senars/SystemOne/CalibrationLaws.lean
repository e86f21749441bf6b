/-
This file says when a calibrator is lawful: it does not decrease, stays between the
observations, and does not depend on the order of the points.

It never decreases. Points of one score are fitted in the order they were given, and
the order that pools least is the one with the smaller observations first. The fit does
not depend on the order exactly where that order pools every score, and the curve stays
within the observations exactly where its last line is level.
-/

import Mathlib.Data.Finset.Dedup
import Mathlib.Data.Finset.Order
import Senars.SystemOne.Calibration

namespace Senars.SystemOne

open Library Library.Isotonic

/-! ### The laws -/

/-- Comparison of points by score, and of those of one score by observation. -/
def byPredictedObserved : Comparison CalibrationPoint where
  le first second := first.predicted < second.predicted ∨
    (first.predicted = second.predicted ∧ first.observed ≤ second.observed)
  total first second := by
    simp only [decide_eq_true_eq]
    obtain below | same | above := lt_trichotomy first.predicted second.predicted
    · exact .inl (.inl below)
    · exact (le_total first.observed second.observed).imp (fun le => .inr ⟨same, le⟩)
        fun le => .inr ⟨same.symm, le⟩
    · exact .inr (.inl above)
  trans first second third := by
    simp only [decide_eq_true_eq]
    rintro (below | ⟨same, low⟩) (further | ⟨again, high⟩)
    · exact .inl (below.trans further)
    · exact .inl (again ▸ below)
    · exact .inl (same ▸ further)
    · exact .inr ⟨same.trans again, low.trans high⟩

/-- The points were given to the calibrator, in this order and these batches. -/
def Gives (points initialPoints : List CalibrationPoint)
    (batches : List (List CalibrationPoint)) : Prop :=
  (initialPoints ++ batches.flatten).Perm points

/-- However the points are given, the calibrator does not decrease, stays between the observations
and is the same. -/
structure Lawful (points : List CalibrationPoint) : Prop where
  monotone : ∀ initialPoints batches, Gives points initialPoints batches →
    ∀ score later, score ≤ later →
      (fed initialPoints batches).calibrate score ≤ (fed initialPoints batches).calibrate later
  within : ∀ initialPoints batches, Gives points initialPoints batches → ∀ score,
    (∃ point ∈ points, point.observed ≤ (fed initialPoints batches).calibrate score) ∧
      ∃ point ∈ points, (fed initialPoints batches).calibrate score ≤ point.observed
  sameOrder : ∀ initialPoints batches otherPoints otherBatches,
    Gives points initialPoints batches → Gives points otherPoints otherBatches → ∀ score,
      (fed initialPoints batches).calibrate score = (fed otherPoints otherBatches).calibrate score

/-- With the smaller observations of a score first, some last points up to any cut inside a score,
or before the last point, have no smaller a mean than some first points after it. -/
def TiesPool (points : List CalibrationPoint) : Prop :=
  ∀ before first second after,
    byPredictedObserved.toSorted points = before ++ first :: second :: after →
    first.predicted = second.predicted ∨ after = [] →
    Poolable ((before ++ [first]).map (·.observation)) ((second :: after).map (·.observation))

/-! ### Fitted points -/

/-- A fitted point as an observation with its value. -/
def observe (fitted : CalibrationPoint × ℚ) : Weighted ℚ × ℚ := (fitted.1.observation, fitted.2)

section Fits

variable {sorted points : List CalibrationPoint}

theorem isFit_fitOf (weights : PositiveWeights sorted) : IsFit ((fitOf sorted).map observe) := by
  have fit := isFit_fittedValues weights.positive
  rw [List.zip_map_left] at fit
  exact fit

theorem map_observe_fst (fitted : List (CalibrationPoint × ℚ)) :
    (fitted.map observe).map (·.1) = (fitted.map (·.1)).map (·.observation) := by
  rw [List.map_map, List.map_map]
  rfl

theorem positive_observe {part whole : List (CalibrationPoint × ℚ)}
    (weights : PositiveWeights (whole.map (·.1))) (among : ∀ point ∈ part, point ∈ whole) :
    Positive ((part.map observe).map (·.1)) := by
  rw [map_observe_fst]
  refine PositiveWeights.positive (List.forall_mem_map.mpr fun point isIn => ?_)
  exact weights point.1 (List.mem_map_of_mem (among point isIn))

theorem rising_knotsOf (weights : PositiveWeights sorted) (inOrder : byPredicted.Sorted sorted) :
    Rising (knotsOf (fitOf sorted)) := by
  have scores : (fitOf sorted).Pairwise fun first second =>
      first.1.predicted ≤ second.1.predicted := by
    have inOrder : sorted.Pairwise fun first second => first.predicted ≤ second.predicted :=
      inOrder.imp fun {_ _} le => of_decide_eq_true le
    rw [← map_fst_fitOf weights, List.pairwise_map] at inOrder
    exact inOrder
  have values := (isFit_fitOf weights).sorted
  rw [List.pairwise_map] at values
  exact List.pairwise_map.mpr (scores.and values)

theorem value_eq_iff_poolable (weights : PositiveWeights sorted) {before after first second}
    (cut : fitOf sorted = before ++ first :: second :: after) :
    first.2 = second.2 ↔
      Poolable (((before ++ [first]).map (·.1)).map (·.observation))
        (((second :: after).map (·.1)).map (·.observation)) := by
  have fit := isFit_fitOf weights
  have positive := weights.positive
  rw [← map_fst_fitOf weights, ← map_observe_fst] at positive
  have observed : (fitOf sorted).map observe =
      (before.map observe ++ [observe first]) ++ observe second :: after.map observe := by
    simp [cut]
  rw [observed] at fit positive
  rw [← map_observe_fst, ← map_observe_fst, List.map_append]
  exact fit.eq_iff_poolable positive

theorem fittedValues_unique (weights : PositiveWeights points) {values}
    (length : values.length = points.length) (fit : IsFit ((points.zip values).map observe)) :
    fittedValues (points.map (·.observation)) = values := by
  have zipped : (points.map (·.observation)).zip values = (points.zip values).map observe :=
    List.zip_map_left
  rw [← zipped] at fit
  have sameLength : values.length = (points.map (·.observation)).length := by
    rw [length, List.length_map]
  exact IsFit.values_unique (length_fittedValues weights.positive) sameLength
    (isFit_fittedValues weights.positive) fit weights.positive

end Fits

/-! ### Another order of the points -/

section Reordering

variable (valueOf : ℚ → ℚ) {least other : List CalibrationPoint}

/-- A point with the value of its score. -/
def valued (point : CalibrationPoint) : Weighted ℚ × ℚ :=
  (point.observation, valueOf point.predicted)

/-- What points are above the values of their scores. -/
def above (points : List CalibrationPoint) : ℚ :=
  (points.map fun point => point.weight * (point.observed - valueOf point.predicted)).sum

theorem residuals_valued (points : List CalibrationPoint) :
    residuals (points.map (valued valueOf)) = above valueOf points := by
  rw [residuals, List.map_map]
  rfl

theorem above_perm {first second} (same : first.Perm second) :
    above valueOf first = above valueOf second := (same.map _).sum_eq

theorem above_filter (points : List CalibrationPoint) (holds : CalibrationPoint → Bool) :
    above valueOf points =
      above valueOf (points.filter holds) + above valueOf (points.filter (!holds ·)) := by
  rw [← above_perm valueOf (List.filter_append_perm holds points), above, List.map_append,
    List.sum_append]
  rfl

theorem map_predicted_eq (leastOrder : byPredicted.Sorted least)
    (otherOrder : byPredicted.Sorted other) (same : other.Perm least) :
    other.map (·.predicted) = least.map (·.predicted) := by
  have sorted {points : List CalibrationPoint} (inOrder : byPredicted.Sorted points) :
      (points.map (·.predicted)).Pairwise (· ≤ ·) :=
    List.pairwise_map.mpr (inOrder.imp fun {_ _} le => of_decide_eq_true le)
  exact (same.map _).eq_of_pairwise' (sorted otherOrder) (sorted leastOrder)

theorem sorted_byPredicted (leastOrder : byPredictedObserved.Sorted least) :
    byPredicted.Sorted least :=
  leastOrder.imp fun {_ _} le => decide_eq_true ((of_decide_eq_true le).elim le_of_lt fun tied =>
    tied.1.le)

theorem above_append (first second : List CalibrationPoint) :
    above valueOf (first ++ second) = above valueOf first + above valueOf second := by
  rw [above, List.map_append, List.sum_append]
  rfl

variable {valueOf}

theorem above_marked (same : other.Perm least) {low high} (holds : CalibrationPoint → Prop)
    [DecidablePred holds] (cut : least = low ++ high) (lows : ∀ point ∈ low, holds point)
    (highs : ∀ point ∈ high, ¬ holds point) :
    above valueOf (other.filter holds) = above valueOf low := by
  have marked : least.filter holds = low := by
    rw [cut, List.filter_append, List.filter_eq_self.mpr (by simpa using lows),
      List.filter_eq_nil_iff.mpr (by simpa using highs), List.append_nil]
  rw [above_perm valueOf (same.filter _), marked]

theorem isFit_reordered (leastOrder : byPredictedObserved.Sorted least)
    (otherOrder : byPredicted.Sorted other) (same : other.Perm least)
    (weights : PositiveWeights least) (fit : IsFit (least.map (valued valueOf))) :
    IsFit (other.map (valued valueOf)) where
  sorted := by
    have values := fit.sorted
    have toValues (points : List CalibrationPoint) :
        (points.map (valued valueOf)).Pairwise (fun first second => first.2 ≤ second.2) ↔
          (points.map (·.predicted)).Pairwise fun first second =>
            valueOf first ≤ valueOf second := by
      rw [List.pairwise_map, List.pairwise_map]
      rfl
    rw [toValues] at values ⊢
    rwa [map_predicted_eq (sorted_byPredicted leastOrder) otherOrder same]
  nonneg before after cut := by
    obtain ⟨first, second, rfl, rfl, rfl⟩ := List.map_eq_append_iff.mp cut
    rw [residuals_valued]
    cases second with
    | nil =>
      have balanced := fit.balanced
      rw [residuals_valued, ← above_perm valueOf same, List.append_nil] at balanced
      exact balanced.ge
    | cons next second =>
      -- of the points of the next score, those below their value come first
      let holds (point : CalibrationPoint) : Prop := point.predicted < next.predicted ∨
        (point.predicted = next.predicted ∧ point.observed < valueOf next.predicted)
      obtain ⟨firstOrder, nextOrder, crossed⟩ := List.pairwise_append.mp otherOrder
      have firsts : ∀ point ∈ first, point.predicted ≤ next.predicted := fun point isIn =>
        of_decide_eq_true (crossed point isIn next List.mem_cons_self)
      have seconds : ∀ point ∈ next :: second, next.predicted ≤ point.predicted :=
        fun point isIn => (List.mem_cons.mp isIn).elim (fun isNext => isNext ▸ le_rfl)
          fun later => of_decide_eq_true ((List.pairwise_cons.mp nextOrder).1 point later)
      obtain ⟨low, high, leastCut, lows, highs⟩ := exists_cut holds (leastOrder.imp
        fun {earlier later} le marked => by
          obtain below | ⟨tied, atMost⟩ := of_decide_eq_true le
          · exact .inl (marked.elim below.trans fun marked => below.trans_eq marked.1)
          · exact marked.imp tied.trans_lt fun marked =>
              ⟨tied.trans marked.1, atMost.trans_lt marked.2⟩)
      have lowAbove : 0 ≤ above valueOf low := by
        rw [← residuals_valued]
        exact fit.nonneg _ (high.map (valued valueOf)) (by rw [leastCut, List.map_append])
      rw [← above_marked same holds leastCut lows highs, List.filter_append, above_append]
        at lowAbove
      have weights : PositiveWeights (first ++ next :: second) := fun point isIn =>
        weights point (same.mem_iff.mp isIn)
      have later : above valueOf ((next :: second).filter (holds ·)) ≤ 0 := by
        refine (List.sum_le_card_nsmul _ 0 fun term termIn => ?_).trans_eq (nsmul_zero _)
        obtain ⟨point, pointIn, rfl⟩ := List.mem_map.mp termIn
        obtain ⟨isIn, marked⟩ := List.mem_filter.mp pointIn
        obtain below | ⟨tied, below⟩ := of_decide_eq_true marked
        · exact absurd below (not_lt.mpr (seconds point isIn))
        · rw [tied]
          exact mul_nonpos_of_nonneg_of_nonpos (weights point (List.mem_append_right _ isIn)).le
            (sub_nonpos.mpr below.le)
      have unmarked : 0 ≤ above valueOf (first.filter fun point => !decide (holds point)) := by
        refine List.sum_nonneg fun term termIn => ?_
        obtain ⟨point, pointIn, rfl⟩ := List.mem_map.mp termIn
        obtain ⟨isIn, marked⟩ := List.mem_filter.mp pointIn
        have marked : ¬ holds point := by simpa using marked
        rw [not_or, not_and] at marked
        have tied := le_antisymm (firsts point isIn) (not_lt.mp marked.1)
        rw [tied]
        exact mul_nonneg (weights point (List.mem_append_left _ isIn)).le
          (sub_nonneg.mpr (not_lt.mp (marked.2 tied)))
      rw [above_filter valueOf first (holds ·)]
      linarith
  tight before after cut rises := by
    obtain ⟨first, second, rfl, rfl, rfl⟩ := List.map_eq_append_iff.mp cut
    rw [residuals_valued]
    cases second with
    | nil =>
      have balanced := fit.balanced
      rwa [residuals_valued, ← above_perm valueOf same, List.append_nil] at balanced
    | cons next second =>
      let holds (point : CalibrationPoint) : Prop := point.predicted < next.predicted
      obtain ⟨_, nextOrder, crossed⟩ := List.pairwise_append.mp otherOrder
      have firsts : ∀ point ∈ first, holds point := fun point isIn =>
        lt_of_le_of_ne (of_decide_eq_true (crossed point isIn next List.mem_cons_self))
          fun tied => absurd (rises _ (List.mem_map_of_mem isIn) _
            (List.mem_map_of_mem List.mem_cons_self)) (by
              show ¬ valueOf point.predicted < valueOf next.predicted
              rw [tied]
              exact lt_irrefl _)
      have seconds : ∀ point ∈ next :: second, ¬ holds point := fun point isIn => not_lt.mpr
        ((List.mem_cons.mp isIn).elim (fun isNext => isNext ▸ le_rfl)
          fun later => of_decide_eq_true ((List.pairwise_cons.mp nextOrder).1 point later))
      obtain ⟨low, high, leastCut, lows, highs⟩ := exists_cut holds
        ((sorted_byPredicted leastOrder).imp fun {_ _} le below =>
          (of_decide_eq_true le : _ ≤ _).trans_lt below)
      have marked : above valueOf ((first ++ next :: second).filter (holds ·)) =
          above valueOf low := above_marked same holds leastCut lows highs
      rw [List.filter_append, List.filter_eq_self.mpr (by simpa using firsts),
        List.filter_eq_nil_iff.mpr (by simpa using seconds), List.append_nil] at marked
      rw [marked, ← residuals_valued]
      refine fit.tight _ (high.map (valued valueOf)) (by rw [leastCut, List.map_append]) ?_
      intro _ lowIn _ highIn
      obtain ⟨point, pointIn, rfl⟩ := List.mem_map.mp lowIn
      obtain ⟨later, laterIn, rfl⟩ := List.mem_map.mp highIn
      have pointOther : point ∈ first ++ next :: second :=
        same.mem_iff.mpr (leastCut ▸ List.mem_append_left _ pointIn)
      have laterOther : later ∈ first ++ next :: second :=
        same.mem_iff.mpr (leastCut ▸ List.mem_append_right _ laterIn)
      have pointFirst := (List.mem_append.mp pointOther).resolve_right fun isIn =>
        seconds point isIn (lows point pointIn)
      have laterSecond := (List.mem_append.mp laterOther).resolve_left fun isIn =>
        highs later laterIn (firsts later isIn)
      exact rises _ (List.mem_map_of_mem pointFirst) _ (List.mem_map_of_mem laterSecond)

end Reordering

/-! ### Scores with one value -/

section Ties

variable {fitted : List (CalibrationPoint × ℚ)} {least other : List CalibrationPoint}

theorem ties_level
    (inOrder : fitted.Pairwise fun first second => first.1.predicted ≤ second.1.predicted)
    (neighbours : ∀ before first second after, fitted = before ++ first :: second :: after →
      first.1.predicted = second.1.predicted → first.2 = second.2) :
    fitted.Pairwise fun first second =>
      first.1.predicted = second.1.predicted → first.2 = second.2 := by
  induction fitted with
  | nil => exact List.Pairwise.nil
  | cons first fitted induction =>
    obtain ⟨firstOrder, rest⟩ := List.pairwise_cons.mp inOrder
    have later := induction rest fun before one two after cut =>
      neighbours (first :: before) one two after (congrArg _ cut)
    refine List.pairwise_cons.mpr ⟨fun point isIn tied => ?_, later⟩
    cases fitted with
    | nil => exact absurd isIn List.not_mem_nil
    | cons second fitted =>
      obtain rfl | isIn := List.mem_cons.mp isIn
      · exact neighbours [] first point fitted rfl tied
      · have below := firstOrder second List.mem_cons_self
        have upTo := (List.pairwise_cons.mp rest).1 point isIn
        have firstTied : first.1.predicted = second.1.predicted :=
          le_antisymm below (tied ▸ upTo)
        exact (neighbours [] first second fitted rfl firstTied).trans
          ((List.pairwise_cons.mp later).1 point isIn (firstTied.symm.trans tied))

/-- The value of the first point of a score. -/
def valueAt (fitted : List (CalibrationPoint × ℚ)) (score : ℚ) : ℚ :=
  ((fitted.find? (·.1.predicted = score)).map (·.2)).getD 0

theorem valueAt_eq (level : fitted.Pairwise fun first second =>
    first.1.predicted = second.1.predicted → first.2 = second.2) {point} (isIn : point ∈ fitted) :
    valueAt fitted point.1.predicted = point.2 := by
  induction fitted with
  | nil => exact absurd isIn List.not_mem_nil
  | cons first fitted induction =>
    obtain ⟨firstLevel, rest⟩ := List.pairwise_cons.mp level
    by_cases tied : first.1.predicted = point.1.predicted
    · rw [valueAt, List.find?_cons_of_pos (by simpa using tied)]
      obtain rfl | isIn := List.mem_cons.mp isIn
      · rfl
      · exact firstLevel point isIn tied
    · have isIn := (List.mem_cons.mp isIn).resolve_left fun same => tied (same ▸ rfl)
      rw [valueAt, List.find?_cons_of_neg (by simpa using tied)]
      exact induction rest isIn

theorem fitOf_eq_map (weights : PositiveWeights least)
    (level : (fitOf least).Pairwise fun first second =>
      first.1.predicted = second.1.predicted → first.2 = second.2) :
    fitOf least = least.map fun point => (point, valueAt (fitOf least) point.predicted) := by
  have read : (fitOf least).map (fun fitted =>
      (fitted.1, valueAt (fitOf least) fitted.1.predicted)) = fitOf least := by
    refine (List.map_congr_left fun point isIn => ?_).trans (List.map_id _)
    rw [valueAt_eq level isIn]
    rfl
  have fromPoints := congrArg (List.map fun point : CalibrationPoint =>
    (point, valueAt (fitOf least) point.predicted)) (map_fst_fitOf weights)
  rw [List.map_map] at fromPoints
  exact read.symm.trans fromPoints

theorem knotsOf_fitOf_eq (leastOrder : byPredictedObserved.Sorted least)
    (otherOrder : byPredicted.Sorted other) (same : other.Perm least)
    (weights : PositiveWeights least)
    (level : (fitOf least).Pairwise fun first second =>
      first.1.predicted = second.1.predicted → first.2 = second.2) :
    knotsOf (fitOf other) = knotsOf (fitOf least) := by
  have leastFit := fitOf_eq_map weights level
  generalize valueAt (fitOf least) = valueOf at leastFit
  have fit := isFit_fitOf weights
  rw [leastFit, List.map_map] at fit
  have otherWeights : PositiveWeights other := fun point isIn =>
    weights point (same.mem_iff.mp isIn)
  have zipped : other.zip (other.map fun point => valueOf point.predicted) =
      other.map fun point => (point, valueOf point.predicted) :=
    List.map_prod_left_eq_zip.symm
  have otherFit : fitOf other = other.map fun point => (point, valueOf point.predicted) := by
    rw [fitOf, fittedValues_unique otherWeights (List.length_map _) ?_, zipped]
    rw [zipped, List.map_map]
    exact isFit_reordered leastOrder otherOrder same weights fit
  have toKnots (points : List CalibrationPoint) :
      knotsOf (points.map fun point => (point, valueOf point.predicted)) =
        (points.map (·.predicted)).map fun score => (score, valueOf score) := by
    rw [knotsOf, List.map_map, List.map_map]
    rfl
  rw [otherFit, leastFit, toKnots, toKnots,
    map_predicted_eq (sorted_byPredicted leastOrder) otherOrder same]

end Ties

/-! ### A calibrator whose scores pool -/

section Lawful

variable {points : List CalibrationPoint}

theorem exists_order (weights : PositiveWeights points) (two : 2 ≤ points.length)
    (belowCap : points.length ≤ calibrationPointCap) {initialPoints batches}
    (gives : Gives points initialPoints batches) :
    ∃ other, byPredicted.Sorted other ∧ other.Perm points ∧
      ∀ score, (fed initialPoints batches).calibrate score =
        curve (knotsOf (fitOf other)) score := by
  obtain ⟨calibrator, same, has⟩ :=
    exists_fed initialPoints batches (gives.length_eq.trans_le belowCap)
  have given : calibrator.points.Perm points := has ▸ gives
  refine ⟨byPredicted.toSorted calibrator.points, Comparison.toSorted_sorted _ _,
    (Comparison.toSorted_perm _ _).trans given, fun score => ?_⟩
  rw [same]
  exact calibrate_rebuild (fun point isIn => weights point (given.mem_iff.mp isIn))
    (given.length_eq.symm ▸ two) score

theorem calibrate_fed_sorted {other} (inOrder : byPredicted.Sorted other)
    (weights : PositiveWeights other) (two : 2 ≤ other.length) (score : ℚ) :
    (fed other []).calibrate score = curve (knotsOf (fitOf other)) score := by
  show (rebuild _).calibrate score = _
  rw [calibrate_rebuild weights two, inOrder.toSorted_eq]

theorem exists_observed (weights : PositiveWeights points) {fitted} (isIn : fitted ∈ fitOf points) :
    (∃ point ∈ points, point.observed ≤ fitted.2) ∧
      ∃ point ∈ points, fitted.2 ≤ point.observed := by
  have positive := weights.positive
  rw [← map_fst_fitOf weights, ← map_observe_fst] at positive
  have among {other : CalibrationPoint × ℚ} (otherIn : other ∈ fitOf points) : other.1 ∈ points :=
    (List.of_mem_zip otherIn).1
  have fit := isFit_fitOf weights
  obtain ⟨_, lowIn, low⟩ := fit.exists_observed_le positive (List.mem_map_of_mem isIn)
  obtain ⟨_, highIn, high⟩ := fit.exists_le_observed positive (List.mem_map_of_mem isIn)
  obtain ⟨lowPoint, lowFitted, rfl⟩ := List.mem_map.mp lowIn
  obtain ⟨highPoint, highFitted, rfl⟩ := List.mem_map.mp highIn
  exact ⟨⟨lowPoint.1, among lowFitted, low⟩, ⟨highPoint.1, among highFitted, high⟩⟩

theorem TiesPool.lawful (pools : TiesPool points) (weights : PositiveWeights points)
    (two : 2 ≤ points.length) (belowCap : points.length ≤ calibrationPointCap) :
    Lawful points := by
  have same := Comparison.toSorted_perm byPredictedObserved points
  have leastOrder := Comparison.toSorted_sorted byPredictedObserved points
  unfold TiesPool at pools
  generalize byPredictedObserved.toSorted points = least at pools same leastOrder
  have leastWeights : PositiveWeights least := fun point isIn =>
    weights point (same.mem_iff.mp isIn)
  have rising := rising_knotsOf leastWeights (sorted_byPredicted leastOrder)
  -- neighbours of one score, and the last two, have one value
  have neighbours : ∀ before first second after, fitOf least = before ++ first :: second :: after →
      first.1.predicted = second.1.predicted ∨ after = [] → first.2 = second.2 := by
    intro before first second after cut tied
    rw [value_eq_iff_poolable leastWeights cut]
    have leastCut := map_fst_fitOf leastWeights
    rw [cut, List.map_append] at leastCut
    have pooled := pools _ _ _ _ leastCut.symm (tied.imp id fun empty => by rw [empty]; rfl)
    rwa [List.map_append, List.map_singleton, List.map_cons]
  have level : (fitOf least).Pairwise fun first second =>
      first.1.predicted = second.1.predicted → first.2 = second.2 := by
    refine ties_level ?_ fun before first second after cut tied =>
      neighbours before first second after cut (.inl tied)
    rw [knotsOf, Rising, List.pairwise_map] at rising
    exact rising.imp fun {_ _} inOrder => inOrder.1
  have reads : ∀ initialPoints batches, Gives points initialPoints batches → ∀ score,
      (fed initialPoints batches).calibrate score = curve (knotsOf (fitOf least)) score := by
    intro initialPoints batches gives score
    obtain ⟨other, otherOrder, otherSame, calibrates⟩ := exists_order weights two belowCap gives
    rw [calibrates, knotsOf_fitOf_eq leastOrder otherOrder (otherSame.trans same.symm)
      leastWeights level]
  have ends : EndsLevel (knotsOf (fitOf least)) := by
    intro before first second cut
    obtain ⟨beforeFitted, _, fittedCut, rfl, lastTwo⟩ := List.map_eq_append_iff.mp cut
    obtain ⟨firstFitted, rest, rfl, rfl, lastOne⟩ := List.map_eq_cons_iff.mp lastTwo
    obtain ⟨secondFitted, _, rfl, rfl, empty⟩ := List.map_eq_cons_iff.mp lastOne
    obtain rfl := List.map_eq_nil_iff.mp empty
    exact .inr (neighbours beforeFitted firstFitted secondFitted [] fittedCut (.inr rfl))
  have nonempty : knotsOf (fitOf least) ≠ [] := by
    intro empty
    have none := congrArg List.length (map_fst_fitOf leastWeights)
    rw [List.map_eq_nil_iff.mp empty, same.length_eq] at none
    exact absurd (none ▸ two) (by decide)
  obtain ⟨knot, knots, cut⟩ := List.exists_cons_of_ne_nil nonempty
  have observed : ∀ other ∈ knot :: knots, (∃ point ∈ points, point.observed ≤ other.2) ∧
      ∃ point ∈ points, other.2 ≤ point.observed := by
    intro other isIn
    rw [← cut] at isIn
    obtain ⟨fitted, fittedIn, rfl⟩ := List.mem_map.mp isIn
    obtain ⟨⟨low, lowIn, lows⟩, high, highIn, highs⟩ := exists_observed leastWeights fittedIn
    exact ⟨⟨low, same.mem_iff.mp lowIn, lows⟩, high, same.mem_iff.mp highIn, highs⟩
  refine ⟨fun initialPoints batches gives score later before => ?_,
    fun initialPoints batches gives score => ?_,
    fun initialPoints batches otherPoints otherBatches gives otherGives score => ?_⟩
  · rw [reads _ _ gives, reads _ _ gives]
    exact curve_mono rising nonempty before
  · rw [reads _ _ gives, cut]
    rw [cut] at rising ends
    obtain ⟨⟨low, lowIn, lows⟩, _⟩ := observed knot List.mem_cons_self
    obtain ⟨other, otherIn, atMost⟩ := exists_curve_le rising ends score
    obtain ⟨_, high, highIn, highs⟩ := observed other otherIn
    exact ⟨⟨low, lowIn, lows.trans (le_curve rising score)⟩, high, highIn, atMost.trans highs⟩
  · rw [reads _ _ gives, reads _ _ otherGives]

end Lawful

/-! ### The points of one score, the other way round -/

/-- Points sorted by score, cut at those of one score. -/
structure Around (score : ℚ) (low tied high : List CalibrationPoint) : Prop where
  lowOrder : byPredicted.Sorted low
  highOrder : byPredicted.Sorted high
  lows : ∀ point ∈ low, point.predicted < score
  ties : ∀ point ∈ tied, point.predicted = score
  highs : ∀ point ∈ high, score < point.predicted

section Around

variable {score : ℚ} {points low tied high : List CalibrationPoint}

theorem Around.reverse (around : Around score low tied high) :
    Around score low tied.reverse high where
  __ := around
  ties point isIn := around.ties point (List.mem_reverse.mp isIn)

theorem Around.sorted (around : Around score low tied high) :
    byPredicted.Sorted (low ++ (tied ++ high)) := by
  have tiedOrder : byPredicted.Sorted tied := List.pairwise_of_forall_mem_list
    fun first firstIn second secondIn =>
      decide_eq_true ((around.ties first firstIn).trans (around.ties second secondIn).symm).le
  refine List.pairwise_append.mpr ⟨around.lowOrder, List.pairwise_append.mpr ⟨tiedOrder,
    around.highOrder, fun first firstIn second secondIn => decide_eq_true ?_⟩,
    fun first firstIn second secondIn => decide_eq_true ?_⟩
  · exact (around.ties first firstIn).trans_le (around.highs second secondIn).le
  · refine (around.lows first firstIn).le.trans ?_
    obtain isTied | isHigh := List.mem_append.mp secondIn
    · exact (around.ties second isTied).ge
    · exact (around.highs second isHigh).le

/-- The fit of points, cut where they are. -/
structure FitAround (score : ℚ) (lowFit tiedFit highFit : List (CalibrationPoint × ℚ)) : Prop where
  around : Around score (lowFit.map (·.1)) (tiedFit.map (·.1)) (highFit.map (·.1))
  weights : PositiveWeights ((lowFit ++ (tiedFit ++ highFit)).map (·.1))
  isFit : fitOf ((lowFit ++ (tiedFit ++ highFit)).map (·.1)) = lowFit ++ (tiedFit ++ highFit)

theorem Around.exists_fitAround (around : Around score low tied high)
    (weights : PositiveWeights (low ++ (tied ++ high))) :
    ∃ lowFit tiedFit highFit, lowFit.map (·.1) = low ∧ tiedFit.map (·.1) = tied ∧
      highFit.map (·.1) = high ∧ FitAround score lowFit tiedFit highFit := by
  obtain ⟨lowFit, restFit, cut, rfl, restIs⟩ := List.map_eq_append_iff.mp (map_fst_fitOf weights)
  obtain ⟨tiedFit, highFit, rfl, rfl, rfl⟩ := List.map_eq_append_iff.mp restIs
  refine ⟨lowFit, tiedFit, highFit, rfl, rfl, rfl, around, ?_, ?_⟩
  · rwa [List.map_append, List.map_append]
  · rwa [List.map_append, List.map_append]

variable {lowFit tiedFit highFit : List (CalibrationPoint × ℚ)}

theorem FitAround.fit (fitted : FitAround score lowFit tiedFit highFit) :
    IsFit (lowFit.map observe ++ (tiedFit.map observe ++ highFit.map observe)) := by
  have fit := isFit_fitOf fitted.weights
  rwa [fitted.isFit, List.map_append, List.map_append] at fit

theorem FitAround.sorted (fitted : FitAround score lowFit tiedFit highFit) :
    (lowFit ++ (tiedFit ++ highFit)).Pairwise fun first second => first.2 ≤ second.2 := by
  have sorted := fitted.fit.sorted
  rw [← List.map_append, ← List.map_append, List.pairwise_map] at sorted
  exact sorted

theorem FitAround.lows (fitted : FitAround score lowFit tiedFit highFit) :
    ∀ knot ∈ knotsOf lowFit, knot.1 < score := by
  intro _ isIn
  obtain ⟨point, pointIn, rfl⟩ := List.mem_map.mp isIn
  exact fitted.around.lows point.1 (List.mem_map_of_mem pointIn)

variable {point next : CalibrationPoint × ℚ}

theorem FitAround.tie (fitted : FitAround score lowFit tiedFit highFit) (isIn : point ∈ tiedFit) :
    point.1.predicted = score :=
  fitted.around.ties point.1 (List.mem_map_of_mem isIn)

theorem FitAround.mem_tied (fitted : FitAround score lowFit tiedFit highFit)
    (isIn : point ∈ lowFit ++ (tiedFit ++ highFit)) (tied : point.1.predicted = score) :
    point ∈ tiedFit := by
  obtain isLow | isTied | isHigh := by simpa using isIn
  · exact absurd tied (fitted.around.lows point.1 (List.mem_map_of_mem isLow)).ne
  · exact isTied
  · exact absurd tied (fitted.around.highs point.1 (List.mem_map_of_mem isHigh)).ne'

theorem FitAround.curve_score {first} (fitted : FitAround score lowFit (first :: tiedFit) highFit) :
    curve (knotsOf (lowFit ++ (first :: tiedFit ++ highFit))) score = first.2 := by
  have firstTied := fitted.tie List.mem_cons_self
  rw [knotsOf, List.map_append, List.cons_append]
  have lows := fitted.lows
  rw [← firstTied] at lows ⊢
  exact (curve_at lows : curve (_ ++ (first.1.predicted, first.2) :: _) _ = _)

theorem FitAround.curve_between {last between}
    (fitted : FitAround score lowFit (tiedFit ++ [last]) (next :: highFit))
    (past : score < between) (upTo : between ≤ next.1.predicted) :
    curve (knotsOf (lowFit ++ ((tiedFit ++ [last]) ++ next :: highFit))) between =
      line (score, last.2) (next.1.predicted, next.2) between := by
  have lastTied := fitted.tie (List.mem_append_right _ List.mem_cons_self)
  have cut : knotsOf (lowFit ++ ((tiedFit ++ [last]) ++ next :: highFit)) =
      knotsOf (lowFit ++ tiedFit) ++ (score, last.2) :: (next.1.predicted, next.2) ::
        knotsOf highFit := by
    simp [knotsOf, lastTied]
  rw [cut]
  refine curve_past (fun knot isIn => ?_) past (.inl upTo)
  rw [knotsOf, List.map_append] at isIn
  obtain isLow | isTied := List.mem_append.mp isIn
  · exact (fitted.lows knot isLow).trans past
  · obtain ⟨point, pointIn, rfl⟩ := List.mem_map.mp isTied
    exact (fitted.tie (List.mem_append_left _ pointIn)).trans_lt past

theorem FitAround.curve_next (fitted : FitAround score lowFit tiedFit (next :: highFit)) :
    curve (knotsOf (lowFit ++ (tiedFit ++ next :: highFit))) next.1.predicted = next.2 := by
  have past : score < next.1.predicted := fitted.around.highs next.1 (by simp)
  have cut : knotsOf (lowFit ++ (tiedFit ++ next :: highFit)) =
      knotsOf (lowFit ++ tiedFit) ++ (next.1.predicted, next.2) :: knotsOf highFit := by
    simp [knotsOf]
  rw [cut]
  refine (curve_at fun knot isIn => ?_ : curve (_ ++ (next.1.predicted, next.2) :: _) _ = _)
  rw [knotsOf, List.map_append] at isIn
  obtain isLow | isTied := List.mem_append.mp isIn
  · exact (fitted.lows knot isLow).trans past
  · obtain ⟨point, pointIn, rfl⟩ := List.mem_map.mp isTied
    exact (fitted.tie pointIn).trans_lt past

theorem FitAround.level (fitted : FitAround score lowFit tiedFit highFit)
    (falling : tiedFit.Pairwise fun first second => second.1.observed ≤ first.1.observed) :
    tiedFit.Pairwise fun first second => first.2 = second.2 := by
  have tiedOrder : tiedFit.Pairwise fun first second => first.1.predicted ≤ second.1.predicted :=
    List.pairwise_of_forall_mem_list fun first firstIn second secondIn =>
      ((fitted.tie firstIn).trans (fitted.tie secondIn).symm).le
  have level := ties_level tiedOrder fun before first second after cut _ => by
    have whole : lowFit ++ (tiedFit ++ highFit) =
        (lowFit ++ before) ++ first :: second :: (after ++ highFit) := by simp [cut]
    rw [value_eq_iff_poolable fitted.weights (fitted.isFit.trans whole)]
    have observed : second.1.observed ≤ first.1.observed := by
      rw [cut] at falling
      exact (List.pairwise_cons.mp (List.pairwise_append.mp falling).2.1).1 second
        List.mem_cons_self
    have weight {point : CalibrationPoint × ℚ} (isIn : point ∈ tiedFit) : 0 < point.1.weight :=
      fitted.weights point.1 (List.mem_map_of_mem
        (List.mem_append_right _ (List.mem_append_left _ isIn)))
    refine ⟨((lowFit ++ before).map (·.1)).map (·.observation), [first.1.observation],
      [second.1.observation], _, by rw [List.map_append, List.map_append]; rfl, rfl, by simp,
      by simp, ?_⟩
    rw [mean_singleton (weight (cut ▸ by simp)), mean_singleton (weight (cut ▸ by simp))]
    exact observed
  exact level.imp_of_mem fun firstIn secondIn same =>
    same ((fitted.tie firstIn).trans (fitted.tie secondIn).symm)

variable {lowOther tiedOther highOther : List (CalibrationPoint × ℚ)}

theorem FitAround.last_eq {last lastOther nextOther}
    (fitted : FitAround score lowFit (tiedFit ++ [last]) (next :: highFit))
    (other : FitAround score lowOther (tiedOther ++ [lastOther]) (nextOther :: highOther))
    (nextSame : nextOther.1 = next.1)
    (same : curve (knotsOf (lowOther ++ ((tiedOther ++ [lastOther]) ++ nextOther :: highOther))) =
      curve (knotsOf (lowFit ++ ((tiedFit ++ [last]) ++ next :: highFit)))) :
    last.2 = lastOther.2 := by
  have apart : score < next.1.predicted := fitted.around.highs next.1 (by simp)
  have atNext := congrFun same next.1.predicted
  rw [fitted.curve_next, ← nextSame, other.curve_next] at atNext
  have halfway := congrFun same ((score + next.1.predicted) / 2)
  rw [fitted.curve_between (left_lt_add_div_two.mpr apart) (add_div_two_lt_right.mpr apart).le,
    other.curve_between (left_lt_add_div_two.mpr apart)
      (nextSame ▸ (add_div_two_lt_right.mpr apart).le), nextSame, atNext,
    line_halfway apart, line_halfway apart] at halfway
  linarith

theorem FitAround.le_of_ends (fitted : FitAround score lowFit tiedFit [])
    (other : FitAround score lowOther tiedOther [])
    (lowSame : lowOther.map (·.1) = lowFit.map (·.1))
    (tiedSame : (tiedOther.map (·.1)).Perm (tiedFit.map (·.1))) {level}
    (otherLevel : ∀ point ∈ tiedOther, point.2 = level)
    (levels : ∀ point ∈ tiedFit, level ≤ point.2) (isIn : point ∈ tiedFit) : point.2 ≤ level := by
  by_contra passes
  rw [not_le] at passes
  have lowSorted := (List.pairwise_append.mp fitted.sorted).1
  obtain ⟨restFit, levelFit, rfl, belows, notBelows⟩ := exists_cut
    (fun fitted : CalibrationPoint × ℚ => fitted.2 < level)
    (lowSorted.imp fun {_ _} inOrder below => inOrder.trans_lt below)
  rw [List.map_append] at lowSame
  obtain ⟨restOther, levelOther, rfl, restSame, levelSame⟩ := List.map_eq_append_iff.mp lowSame
  have above := IsFit.deviation_pos
    (by simpa using fitted.fit : IsFit (restFit.map observe ++ (levelFit ++ tiedFit).map observe))
    (positive_observe fitted.weights (by simp +contextual)) (List.forall_mem_map.mpr belows)
    (List.forall_mem_map.mpr fun point isIn => (List.mem_append.mp isIn).elim
      (fun isLevel => not_lt.mp (notBelows point isLevel)) (levels point))
    ⟨observe point, List.mem_map_of_mem (List.mem_append_right _ isIn), passes⟩
  -- in the other order, the points from there on do not pass the level
  have notAbove := IsFit.deviation_nonpos
    (by simpa using other.fit :
      IsFit (restOther.map observe ++ (levelOther ++ tiedOther).map observe))
    (positive_observe other.weights (by simp +contextual))
    (List.forall_mem_map.mpr fun point isAfter => (List.mem_append.mp isAfter).elim
      (fun isLevel => ?_) fun isTied => (otherLevel point isTied).le)
  · have same : (((levelOther ++ tiedOther).map observe).map (·.1)).Perm
        (((levelFit ++ tiedFit).map observe).map (·.1)) := by
      rw [map_observe_fst, map_observe_fst]
      refine List.Perm.map _ ?_
      rw [List.map_append, List.map_append, levelSame]
      exact tiedSame.append_left _
    exact absurd ((same.map _).sum_eq.symm.trans_le notAbove) (not_le.mpr above)
  · obtain ⟨first, firstIn, _⟩ := List.mem_map.mp (tiedSame.mem_iff.mpr (List.mem_map_of_mem isIn))
    rw [← otherLevel first firstIn]
    exact (List.pairwise_append.mp other.sorted).2.2 _ (List.mem_append_right _ isLevel) first
      (List.mem_append_left _ firstIn)

theorem FitAround.le_first {first} (fitted : FitAround score lowFit (first :: tiedFit) highFit)
    (other : FitAround score lowOther tiedOther highOther)
    (lowSame : lowOther.map (·.1) = lowFit.map (·.1))
    (tiedSame : tiedOther.map (·.1) = ((first :: tiedFit).map (·.1)).reverse)
    (highSame : highOther.map (·.1) = highFit.map (·.1))
    (rising : ((first :: tiedFit).map (·.1)).Pairwise fun one two => one.observed ≤ two.observed)
    (same : curve (knotsOf (lowOther ++ (tiedOther ++ highOther))) =
      curve (knotsOf (lowFit ++ (first :: tiedFit ++ highFit)))) (isIn : point ∈ first :: tiedFit) :
    point.2 ≤ first.2 := by
  have falling : tiedOther.Pairwise fun one two => two.1.observed ≤ one.1.observed := by
    rw [← List.pairwise_reverse, ← tiedSame, List.pairwise_map] at rising
    exact rising
  have otherSome : tiedOther ≠ [] := by
    rintro rfl
    simp at tiedSame
  -- turned round, the points have the value of the first one here
  have otherLevel : ∀ fitted ∈ tiedOther, fitted.2 = first.2 := by
    have level := other.level falling
    obtain ⟨firstOther, restOther, rfl⟩ := List.exists_cons_of_ne_nil otherSome
    have firstSame := congrFun same score
    rw [fitted.curve_score, other.curve_score] at firstSame
    exact List.forall_mem_cons.mpr ⟨firstSame, fun later laterIn =>
      ((List.pairwise_cons.mp level).1 later laterIn).symm.trans firstSame⟩
  have tiedSorted := (List.pairwise_append.mp (List.pairwise_append.mp fitted.sorted).2.1).1
  cases highFit with
  | nil =>
    obtain rfl : highOther = [] := List.map_eq_nil_iff.mp highSame
    refine fitted.le_of_ends other lowSame (tiedSame ▸ List.reverse_perm _) otherLevel ?_ isIn
    exact List.forall_mem_cons.mpr ⟨le_rfl, (List.pairwise_cons.mp tiedSorted).1⟩
  | cons next highFit =>
    obtain ⟨nextOther, highOther, rfl, nextSame, _⟩ := List.map_eq_cons_iff.mp highSame
    obtain ⟨init, last, cut⟩ : ∃ init last, first :: tiedFit = init ++ [last] :=
      ⟨_, _, (List.dropLast_append_getLast (List.cons_ne_nil first tiedFit)).symm⟩
    obtain ⟨initOther, lastOther, rfl⟩ : ∃ init last, tiedOther = init ++ [last] :=
      ⟨_, _, (List.dropLast_append_getLast otherSome).symm⟩
    rw [cut] at fitted tiedSorted same isIn
    have lastLevel := (fitted.last_eq other nextSame same).trans (otherLevel lastOther (by simp))
    rw [← lastLevel]
    obtain isInit | isLast := List.mem_append.mp isIn
    · exact (List.pairwise_append.mp tiedSorted).2.2 point isInit last List.mem_cons_self
    · rw [List.mem_singleton.mp isLast]

theorem FitAround.eq_of_same (fitted : FitAround score lowFit tiedFit highFit)
    (other : FitAround score lowOther tiedOther highOther)
    (lowSame : lowOther.map (·.1) = lowFit.map (·.1))
    (tiedSame : tiedOther.map (·.1) = (tiedFit.map (·.1)).reverse)
    (highSame : highOther.map (·.1) = highFit.map (·.1))
    (rising : (tiedFit.map (·.1)).Pairwise fun one two => one.observed ≤ two.observed)
    (same : curve (knotsOf (lowOther ++ (tiedOther ++ highOther))) =
      curve (knotsOf (lowFit ++ (tiedFit ++ highFit)))) {one two} (oneIn : one ∈ tiedFit)
    (twoIn : two ∈ tiedFit) : one.2 = two.2 := by
  cases tiedFit with
  | nil => exact absurd oneIn List.not_mem_nil
  | cons first tiedFit =>
    have tiedSorted := (List.pairwise_append.mp (List.pairwise_append.mp fitted.sorted).2.1).1
    have firstValue {point : CalibrationPoint × ℚ} (isIn : point ∈ first :: tiedFit) :
        point.2 = first.2 :=
      le_antisymm (fitted.le_first other lowSame tiedSame highSame rising same isIn)
        ((List.mem_cons.mp isIn).elim (fun isFirst => isFirst ▸ le_rfl)
          ((List.pairwise_cons.mp tiedSorted).1 point))
    exact (firstValue oneIn).trans (firstValue twoIn).symm

end Around

/-! ### A lawful calibrator -/

section Converse

variable {points least other : List CalibrationPoint}

theorem gives_of_perm (same : least.Perm points) : Gives points least [] := by
  rwa [Gives, List.flatten_nil, List.append_nil]

section

variable (lawful : Lawful points) (weights : PositiveWeights points) (two : 2 ≤ points.length)

include lawful weights two

theorem Lawful.curve_eq (leastOrder : byPredicted.Sorted least)
    (otherOrder : byPredicted.Sorted other) (same : least.Perm points)
    (otherSame : other.Perm points) :
    curve (knotsOf (fitOf other)) = curve (knotsOf (fitOf least)) := by
  funext score
  have reads {sorted : List CalibrationPoint} (inOrder : byPredicted.Sorted sorted)
      (same : sorted.Perm points) :
      (fed sorted []).calibrate score = curve (knotsOf (fitOf sorted)) score :=
    calibrate_fed_sorted inOrder (fun point isIn => weights point (same.mem_iff.mp isIn))
      (same.length_eq ▸ two) score
  rw [← reads leastOrder same, ← reads otherOrder otherSame]
  exact lawful.sameOrder _ _ _ _ (gives_of_perm otherSame) (gives_of_perm same) score

theorem Lawful.ends (inOrder : byPredicted.Sorted least) (same : least.Perm points)
    {before first second} (cut : fitOf least = before ++ [first, second])
    (apart : first.1.predicted < second.1.predicted) : first.2 = second.2 := by
  have leastWeights : PositiveWeights least := fun point isIn =>
    weights point (same.mem_iff.mp isIn)
  have rising := rising_knotsOf leastWeights inOrder
  have knots : knotsOf (fitOf least) = knotsOf before ++
      [(first.1.predicted, first.2), (second.1.predicted, second.2)] := by
    rw [cut, knotsOf, List.map_append]
    rfl
  rw [knots] at rising
  have values := (List.pairwise_cons.mp (List.pairwise_append.mp rising).2.1).1 _
    List.mem_cons_self
  refine le_antisymm values.2 (not_lt.mp fun rises => ?_)
  obtain ⟨bound, bounds⟩ := (points.map (·.observed)).toFinset.exists_le
  obtain ⟨score, passes⟩ := exists_curve_gt rising apart rises bound
  obtain ⟨_, point, isIn, atMost⟩ := lawful.within least [] (gives_of_perm same) score
  rw [calibrate_fed_sorted inOrder leastWeights (same.length_eq ▸ two), knots] at atMost
  have within := bounds point.observed (List.mem_toFinset.mpr (List.mem_map_of_mem isIn))
  exact absurd (atMost.trans within) (not_le.mpr passes)

theorem Lawful.value_eq (inOrder : byPredictedObserved.Sorted least) (same : least.Perm points)
    {first second} (firstIn : first ∈ fitOf least) (secondIn : second ∈ fitOf least)
    (tied : first.1.predicted = second.1.predicted) : first.2 = second.2 := by
  have scoreOrder : least.Pairwise fun one two => one.predicted ≤ two.predicted :=
    (sorted_byPredicted inOrder).imp fun {_ _} le => of_decide_eq_true le
  obtain ⟨low, rest, rfl, lows, notLows⟩ := exists_cut
    (fun point : CalibrationPoint => point.predicted < first.1.predicted)
    (scoreOrder.imp fun {_ _} le below => le.trans_lt below)
  obtain ⟨tiedPoints, high, rfl, ties, highs⟩ := exists_cut
    (fun point : CalibrationPoint => point.predicted ≤ first.1.predicted)
    ((List.pairwise_append.mp scoreOrder).2.1.imp fun {_ _} le atMost => le.trans atMost)
  obtain ⟨lowOrder, restOrder, _⟩ := List.pairwise_append.mp inOrder
  obtain ⟨tiedOrder, highOrder, _⟩ := List.pairwise_append.mp restOrder
  have around : Around first.1.predicted low tiedPoints high :=
    { lowOrder := sorted_byPredicted lowOrder
      highOrder := sorted_byPredicted highOrder
      lows := lows
      ties := fun point isIn => le_antisymm (ties point isIn)
        (not_lt.mp (notLows point (List.mem_append_left _ isIn)))
      highs := fun point isIn => not_le.mp (highs point isIn) }
  have weightsOf {sorted : List CalibrationPoint} (same : sorted.Perm points) :
      PositiveWeights sorted := fun point isIn => weights point (same.mem_iff.mp isIn)
  have otherSame : (low ++ (tiedPoints.reverse ++ high)).Perm points :=
    (((List.reverse_perm _).append_right _).append_left _).trans same
  have curves := lawful.curve_eq weights two around.sorted around.reverse.sorted same otherSame
  obtain ⟨lowFit, tiedFit, highFit, rfl, rfl, rfl, fitted⟩ :=
    around.exists_fitAround (weightsOf same)
  obtain ⟨lowOther, tiedOther, highOther, lowSame, tiedSame, highSame, other⟩ :=
    around.reverse.exists_fitAround (weightsOf otherSame)
  have whole := fitted.isFit
  rw [List.map_append, List.map_append] at whole
  have otherWhole := other.isFit
  rw [List.map_append, List.map_append, lowSame, tiedSame, highSame] at otherWhole
  rw [whole, otherWhole] at curves
  rw [whole] at firstIn secondIn
  have observations : (tiedFit.map (·.1)).Pairwise fun one two => one.observed ≤ two.observed :=
    tiedOrder.imp_of_mem fun {one two} oneIn twoIn le => by
      have sameScore := (around.ties one oneIn).trans (around.ties two twoIn).symm
      exact (of_decide_eq_true le).elim (fun below => absurd sameScore below.ne) And.right
  have firstTied := fitted.mem_tied firstIn rfl
  have secondTied := fitted.mem_tied secondIn tied.symm
  exact fitted.eq_of_same other lowSame tiedSame highSame observations curves firstTied secondTied

theorem Lawful.tiesPool : TiesPool points := by
  have same := Comparison.toSorted_perm byPredictedObserved points
  have leastOrder := Comparison.toSorted_sorted byPredictedObserved points
  unfold TiesPool
  generalize byPredictedObserved.toSorted points = least at same leastOrder
  have leastWeights : PositiveWeights least := fun point isIn =>
    weights point (same.mem_iff.mp isIn)
  intro before first second after cut pools
  have fitted := map_fst_fitOf leastWeights
  rw [cut] at fitted
  obtain ⟨beforeFit, restFit, whole, rfl, restIs⟩ := List.map_eq_append_iff.mp fitted
  obtain ⟨firstFit, laterFit, rfl, rfl, laterIs⟩ := List.map_eq_cons_iff.mp restIs
  obtain ⟨secondFit, afterFit, rfl, rfl, rfl⟩ := List.map_eq_cons_iff.mp laterIs
  rw [← cut] at whole
  have pooled := value_eq_iff_poolable leastWeights whole
  rw [List.map_append, List.map_singleton, List.map_cons] at pooled
  rw [← pooled]
  by_cases tied : firstFit.1.predicted = secondFit.1.predicted
  · exact lawful.value_eq weights two leastOrder same (by simp [whole]) (by simp [whole]) tied
  · obtain rfl := List.map_eq_nil_iff.mp (pools.resolve_left tied)
    have inOrder := sorted_byPredicted leastOrder
    refine lawful.ends weights two inOrder same whole (lt_of_le_of_ne ?_ tied)
    rw [cut] at inOrder
    exact of_decide_eq_true ((List.pairwise_cons.mp (List.pairwise_append.mp inOrder).2.1).1 _
      List.mem_cons_self)

end

end Converse

/-- A calibrator of points is lawful exactly where every score, and the last two points, pool. -/
theorem calibrate_lawful_iff (points : List CalibrationPoint) (two : 2 ≤ points.length)
    (belowCap : points.length ≤ calibrationPointCap) (weights : PositiveWeights points) :
    Lawful points ↔ TiesPool points :=
  ⟨fun lawful => lawful.tiesPool weights two, fun pools => pools.lawful weights two belowCap⟩

theorem calibrate_lawful_crossed : Lawful [⟨0, 1, 1⟩, ⟨1, 0, 1⟩] := by
  refine (calibrate_lawful_iff _ (by decide) (by unfold calibrationPointCap; decide)
    (by unfold PositiveWeights; decide +kernel)).mpr fun before first second after cut _ => ?_
  have sorted : byPredictedObserved.toSorted [⟨0, 1, 1⟩, ⟨1, 0, 1⟩] =
      [⟨0, 1, 1⟩, ⟨1, 0, 1⟩] := by decide +kernel
  rw [sorted] at cut
  obtain rfl : before = [] := List.eq_nil_of_length_eq_zero (by
    have length := congrArg List.length cut
    simp only [List.length_append, List.length_cons, List.length_nil] at length
    omega)
  rw [List.nil_append, List.cons_eq_cons, List.cons_eq_cons] at cut
  obtain ⟨rfl, rfl, rfl⟩ := cut
  exact ⟨[], [⟨1, 1⟩], [⟨0, 1⟩], [], rfl, rfl, by simp, by simp, by decide +kernel⟩

/-- Rising points pass the largest observation beyond their last score. Points of one score give
one curve or another. -/
theorem calibrate_unlawful :
    ¬ (∀ points : List CalibrationPoint, 2 ≤ points.length →
      points.length ≤ calibrationPointCap → PositiveWeights points → Lawful points) ∧
      ¬ Lawful [⟨0, 0, 1⟩, ⟨1, 1, 1⟩] ∧ ¬ Lawful [⟨0, 0, 1⟩, ⟨0, 1, 1⟩, ⟨1, 1, 1⟩] := by
  have beyond : ¬ Lawful [⟨0, 0, 1⟩, ⟨1, 1, 1⟩] := fun lawful => by
    obtain ⟨_, within⟩ := lawful.within [⟨0, 0, 1⟩, ⟨1, 1, 1⟩] [] (List.Perm.refl _) 2
    have passes : ¬ ∃ point ∈ ([⟨0, 0, 1⟩, ⟨1, 1, 1⟩] : List CalibrationPoint),
        (fed [⟨0, 0, 1⟩, ⟨1, 1, 1⟩] []).calibrate 2 ≤ point.observed := by decide +kernel
    exact passes within
  refine ⟨fun all => beyond (all _ (by decide) (by unfold calibrationPointCap; decide)
    (by unfold PositiveWeights; decide +kernel)), beyond, fun lawful => ?_⟩
  have same := lawful.sameOrder [⟨0, 0, 1⟩, ⟨0, 1, 1⟩, ⟨1, 1, 1⟩] []
    [⟨0, 1, 1⟩, ⟨0, 0, 1⟩, ⟨1, 1, 1⟩] [] (List.Perm.refl _) (List.Perm.swap _ _ _) 0
  have other : (fed [⟨0, 0, 1⟩, ⟨0, 1, 1⟩, ⟨1, 1, 1⟩] []).calibrate 0 ≠
      (fed [⟨0, 1, 1⟩, ⟨0, 0, 1⟩, ⟨1, 1, 1⟩] []).calibrate 0 := by decide +kernel
  exact other same

end Senars.SystemOne
