/-
This file is the theory of fitting a non-decreasing list of values to weighted
observations.

The residual of a point is its weight times what its observation is above its value.
A non-decreasing list of values is a fit when the residuals of the first points never
add up below zero, and add up to zero wherever the values rise. Summation by parts
turns this into the two facts that matter: no non-decreasing list is closer to the
observations, and no other is as close.

A stretch of points that share a value is a pool. Two neighbouring pools whose values
are out of order make one, and pools whose values are in order make a fit.
-/

import Mathlib.Algebra.BigOperators.Group.List.Basic
import Mathlib.Algebra.Order.BigOperators.Group.List
import Mathlib.Algebra.Order.Field.Basic
import Mathlib.Data.List.Induction
import Mathlib.Tactic.Linarith
import Mathlib.Tactic.Ring

namespace Senars.Library.Isotonic

variable {Scalar : Type}

/-- An observation and how much it counts. -/
structure Weighted (Scalar : Type) where
  observed : Scalar
  weight : Scalar
  deriving DecidableEq

variable [Field Scalar]

/-- What the observations are above one value, all together. -/
def deviation (value : Scalar) (points : List (Weighted Scalar)) : Scalar :=
  (points.map fun point => point.weight * (point.observed - value)).sum

def totalWeight (points : List (Weighted Scalar)) : Scalar := (points.map (·.weight)).sum

/-- The weighted mean of the observations. -/
def mean (points : List (Weighted Scalar)) : Scalar :=
  (points.map fun point => point.weight * point.observed).sum / totalWeight points

/-- What the observations are above their values, all together. -/
def residuals (points : List (Weighted Scalar × Scalar)) : Scalar :=
  (points.map fun point => point.1.weight * (point.1.observed - point.2)).sum

/-- The weighted squares of what the observations are away from their values. -/
def loss (points : List (Weighted Scalar × Scalar)) : Scalar :=
  (points.map fun point => point.1.weight * (point.1.observed - point.2) ^ 2).sum

section Sums

variable (value : Scalar) (first second : List (Weighted Scalar))

theorem deviation_append :
    deviation value (first ++ second) = deviation value first + deviation value second := by
  rw [deviation, List.map_append, List.sum_append]
  rfl

theorem residuals_append (first second : List (Weighted Scalar × Scalar)) :
    residuals (first ++ second) = residuals first + residuals second := by
  rw [residuals, List.map_append, List.sum_append]
  rfl

@[simp] theorem residuals_nil : residuals ([] : List (Weighted Scalar × Scalar)) = 0 := rfl

theorem residuals_singleton (point : Weighted Scalar × Scalar) :
    residuals [point] = point.1.weight * (point.1.observed - point.2) := by
  simp [residuals]

theorem totalWeight_append :
    totalWeight (first ++ second) = totalWeight first + totalWeight second := by
  rw [totalWeight, List.map_append, List.sum_append]
  rfl

theorem deviation_shift (other : Scalar) (points : List (Weighted Scalar)) :
    deviation value points = deviation other points + (other - value) * totalWeight points := by
  induction points with
  | nil => simp [deviation, totalWeight]
  | cons point points induction =>
    simp only [deviation, totalWeight, List.map_cons, List.sum_cons] at induction ⊢
    rw [induction]
    ring

theorem deviation_eq (points : List (Weighted Scalar)) :
    deviation value points =
      (points.map fun point => point.weight * point.observed).sum -
        value * totalWeight points := by
  rw [deviation_shift value 0, deviation]
  simp only [sub_zero, zero_sub, neg_mul]
  exact (sub_eq_add_neg _ _).symm

theorem deviation_eq_neg (points : List (Weighted Scalar)) :
    deviation value points =
      -(points.map fun point => point.weight * (value - point.observed)).sum := by
  induction points with
  | nil => simp [deviation]
  | cons point points induction =>
    simp only [deviation, List.map_cons, List.sum_cons] at induction ⊢
    rw [induction]
    ring

theorem residuals_of_value {points} (same : ∀ point ∈ points, point.2 = value) :
    residuals points = deviation value (points.map (·.1)) := by
  rw [deviation, List.map_map]
  exact congrArg List.sum (List.map_congr_left fun point isIn => by
    rw [same point isIn]
    rfl)

end Sums

/-! ### Rivals -/

/-- Points, their values and the values of a rival. -/
abbrev Rivals (Scalar : Type) := List ((Weighted Scalar × Scalar) × Scalar)

/-- The residuals weighted with the rival's values. -/
def weighted (rivals : Rivals Scalar) : Scalar :=
  (rivals.map fun rival =>
    rival.1.1.weight * (rival.1.1.observed - rival.1.2) * rival.2).sum

/-- The weighted squares of what the rival's values are away from the values. -/
def distance (rivals : Rivals Scalar) : Scalar :=
  (rivals.map fun rival => rival.1.1.weight * (rival.2 - rival.1.2) ^ 2).sum

/-- The points with the rival's values. -/
def rivalPoints (rivals : Rivals Scalar) : List (Weighted Scalar × Scalar) :=
  rivals.map fun rival => (rival.1.1, rival.2)

theorem weighted_append (first second : Rivals Scalar) :
    weighted (first ++ second) = weighted first + weighted second := by
  rw [weighted, List.map_append, List.sum_append]
  rfl

omit [Field Scalar] in
theorem rivalPoints_zip {points : List (Weighted Scalar)} {values}
    (sameLength : values.length = points.length) (rival : List Scalar) :
    rivalPoints ((points.zip values).zip rival) = points.zip rival := by
  induction points generalizing values rival with
  | nil => rfl
  | cons point points induction =>
    obtain ⟨value, values, rfl⟩ := List.exists_cons_of_length_eq_add_one sameLength
    cases rival with
    | nil => rfl
    | cons other rival => exact congrArg _ (induction (Nat.succ.inj sameLength) rival)

/-- A list of points with its own values as the rival's. -/
def own (points : List (Weighted Scalar × Scalar)) : Rivals Scalar :=
  points.map fun point => (point, point.2)

omit [Field Scalar] in
theorem own_append (first second : List (Weighted Scalar × Scalar)) :
    own (first ++ second) = own first ++ own second := List.map_append

theorem weighted_own_singleton (point : Weighted Scalar × Scalar) :
    weighted (own [point]) = residuals [point] * point.2 := by
  simp [weighted, own, residuals]

theorem loss_rivalPoints (rivals : Rivals Scalar) :
    loss (rivalPoints rivals) = loss (rivals.map (·.1)) -
      2 * (weighted rivals - weighted (own (rivals.map (·.1)))) + distance rivals := by
  induction rivals with
  | nil => simp [loss, rivalPoints, weighted, own, distance]
  | cons rival rivals induction =>
    simp only [loss, rivalPoints, weighted, own, distance, List.map_cons, List.sum_cons]
      at induction ⊢
    rw [induction]
    ring

variable [LinearOrder Scalar]

/-! ### Pools and fits -/

/-- Every observation counts. -/
def Positive (points : List (Weighted Scalar)) : Prop := ∀ point ∈ points, 0 < point.weight

/-- Points of one value: the first ones are above it, and all are as much above as below. -/
structure IsPool (points : List (Weighted Scalar)) (value : Scalar) : Prop where
  nonneg : ∀ before after, points = before ++ after → 0 ≤ deviation value before
  balanced : deviation value points = 0

/-- The values do not decrease, and the residuals add up as they do for the closest values. -/
structure IsFit (points : List (Weighted Scalar × Scalar)) : Prop where
  sorted : points.Pairwise fun first second => first.2 ≤ second.2
  nonneg : ∀ before after, points = before ++ after → 0 ≤ residuals before
  tight : ∀ before after, points = before ++ after →
    (∀ first ∈ before, ∀ second ∈ after, first.2 < second.2) → residuals before = 0

section Basics

variable {points first second : List (Weighted Scalar)}

theorem Positive.left (positive : Positive (first ++ second)) : Positive first :=
  fun point isIn => positive point (List.mem_append_left _ isIn)

theorem Positive.right (positive : Positive (first ++ second)) : Positive second :=
  fun point isIn => positive point (List.mem_append_right _ isIn)

theorem mean_singleton {point : Weighted Scalar} (positive : 0 < point.weight) :
    mean [point] = point.observed := by
  rw [mean, totalWeight, List.map_singleton, List.sum_singleton, List.map_singleton,
    List.sum_singleton, mul_div_cancel_left₀ _ positive.ne']

theorem isPool_singleton (point : Weighted Scalar) : IsPool [point] point.observed where
  nonneg before after cut := by
    cases before with
    | nil => exact le_rfl
    | cons first before =>
      obtain ⟨rfl, empty⟩ := List.cons.inj cut
      obtain ⟨rfl, _⟩ := List.append_eq_nil_iff.mp empty.symm
      simp [deviation]
  balanced := by simp [deviation]

theorem IsFit.balanced {points : List (Weighted Scalar × Scalar)} (fit : IsFit points) :
    residuals points = 0 :=
  fit.tight points [] (List.append_nil points).symm nofun

theorem isFit_nil : IsFit ([] : List (Weighted Scalar × Scalar)) where
  sorted := List.Pairwise.nil
  nonneg before after cut := by
    obtain ⟨rfl, _⟩ := List.append_eq_nil_iff.mp cut.symm
    exact le_rfl
  tight before after cut _ := by
    obtain ⟨rfl, _⟩ := List.append_eq_nil_iff.mp cut.symm
    rfl

theorem IsPool.isFit {value} (pool : IsPool points value) :
    IsFit (points.map (·, value)) where
  sorted := List.pairwise_map.mpr (List.pairwise_of_forall fun _ _ => le_rfl)
  nonneg before after cut := by
    obtain ⟨first, second, rfl, rfl, rfl⟩ := List.map_eq_append_iff.mp cut
    rw [residuals_of_value value (by simp)]
    simpa [Function.comp_def] using pool.nonneg first second rfl
  tight before after cut rises := by
    obtain ⟨first, second, rfl, rfl, rfl⟩ := List.map_eq_append_iff.mp cut
    cases first with
    | nil => rfl
    | cons point first =>
      cases second with
      | nil =>
        rw [residuals_of_value value (by simp)]
        simpa [Function.comp_def] using pool.balanced
      | cons other second =>
        exact absurd (rises (point, value) (by simp) (other, value) (by simp)) (lt_irrefl value)

theorem IsFit.append {first second : List (Weighted Scalar × Scalar)} (firstFit : IsFit first)
    (secondFit : IsFit second) (inOrder : ∀ low ∈ first, ∀ high ∈ second, low.2 ≤ high.2) :
    IsFit (first ++ second) where
  sorted := List.pairwise_append.mpr ⟨firstFit.sorted, secondFit.sorted, inOrder⟩
  nonneg before after cut := by
    obtain ⟨rest, rfl, rfl⟩ | ⟨rest, rfl, rfl⟩ := List.append_eq_append_iff.mp cut
    · rw [residuals_append, firstFit.balanced, zero_add]
      exact secondFit.nonneg _ _ rfl
    · exact firstFit.nonneg _ _ rfl
  tight before after cut rises := by
    obtain ⟨rest, rfl, rfl⟩ | ⟨rest, rfl, rfl⟩ := List.append_eq_append_iff.mp cut
    · rw [residuals_append, firstFit.balanced, zero_add]
      exact secondFit.tight _ _ rfl fun low lowIn high highIn =>
        rises low (List.mem_append_right _ lowIn) high highIn
    · exact firstFit.tight _ _ rfl fun low lowIn high highIn =>
        rises low lowIn high (List.mem_append_left _ highIn)

end Basics

theorem IsFit.weighted_own_before {points} (fit : IsFit points) {before after}
    {next : Weighted Scalar × Scalar} (cut : points = before ++ next :: after) :
    weighted (own before) = residuals before * next.2 := by
  induction before using List.reverseRecOn generalizing next after with
  | nil => simp [weighted, own]
  | append_singleton before last induction =>
    have earlier := induction (cut.trans (List.append_assoc before [last] _))
    have inOrder : ∀ first ∈ before, first.2 ≤ last.2 := by
      have sorted := fit.sorted
      rw [cut, List.pairwise_append, List.pairwise_append] at sorted
      exact fun first isIn => sorted.1.2.2 first isIn last (List.mem_singleton.mpr rfl)
    have sorted := fit.sorted
    rw [cut, List.pairwise_append] at sorted
    obtain ⟨_, later, rises⟩ := sorted
    have lastNext : last.2 ≤ next.2 :=
      rises last (List.mem_append_right _ (List.mem_singleton.mpr rfl)) next List.mem_cons_self
    rw [own_append, weighted_append, earlier, weighted_own_singleton, residuals_append, ← add_mul]
    obtain same | rise := lastNext.eq_or_lt
    · rw [same]
    · -- the values rise here, so nothing is carried over
      have nothing : residuals (before ++ [last]) = 0 := by
        refine fit.tight _ _ cut fun low lowIn high highIn => ?_
        have atMost : low.2 ≤ last.2 :=
          (List.mem_append.mp lowIn).elim (inOrder low)
            fun isLast => (List.mem_singleton.mp isLast) ▸ le_rfl
        have atLeast : next.2 ≤ high.2 :=
          (List.mem_cons.mp highIn).elim (fun isNext => isNext ▸ le_rfl)
            ((List.pairwise_cons.mp later).1 high)
        exact atMost.trans_lt (rise.trans_le atLeast)
      rw [residuals_append] at nothing
      rw [nothing, zero_mul, zero_mul]

theorem IsFit.weighted_own {points : List (Weighted Scalar × Scalar)} (fit : IsFit points) :
    weighted (own points) = 0 := by
  induction points using List.reverseRecOn with
  | nil => rfl
  | append_singleton before last _ =>
    have balanced := fit.balanced
    rw [residuals_append] at balanced
    rw [own_append, weighted_append, fit.weighted_own_before rfl, weighted_own_singleton,
      ← add_mul, balanced, zero_mul]

variable [IsStrictOrderedRing Scalar]

/-! ### Weights and means -/

section Means

variable {value : Scalar} {points : List (Weighted Scalar)}

theorem totalWeight_nonneg (positive : Positive points) : 0 ≤ totalWeight points :=
  List.sum_nonneg fun weight isIn => by
    obtain ⟨point, pointIn, rfl⟩ := List.mem_map.mp isIn
    exact (positive point pointIn).le

theorem totalWeight_pos (positive : Positive points) (nonempty : points ≠ []) :
    0 < totalWeight points := by
  cases points with
  | nil => exact absurd rfl nonempty
  | cons point points =>
    have rest : 0 ≤ totalWeight points :=
      totalWeight_nonneg fun other isIn => positive other (List.mem_cons_of_mem _ isIn)
    calc 0 < point.weight := positive point List.mem_cons_self
      _ ≤ point.weight + totalWeight points := le_add_of_nonneg_right rest

theorem le_mean_iff (positive : Positive points) (nonempty : points ≠ []) :
    value ≤ mean points ↔ 0 ≤ deviation value points := by
  rw [mean, le_div_iff₀ (totalWeight_pos positive nonempty), deviation_eq, sub_nonneg]

theorem mean_le_iff (positive : Positive points) (nonempty : points ≠ []) :
    mean points ≤ value ↔ deviation value points ≤ 0 := by
  rw [mean, div_le_iff₀ (totalWeight_pos positive nonempty), deviation_eq, sub_nonpos]

end Means

theorem IsPool.append {first second} {high low value : Scalar} (firstPool : IsPool first high)
    (secondPool : IsPool second low) (positive : Positive (first ++ second))
    (atMost : value ≤ high) (atLeast : low ≤ value)
    (balanced : deviation value (first ++ second) = 0) : IsPool (first ++ second) value where
  nonneg before after cut := by
    obtain ⟨rest, rfl, rfl⟩ | ⟨rest, rfl, rfl⟩ := List.append_eq_append_iff.mp cut
    · -- the cut is in the second pool, and what is left of it is below a higher value
      have weighs := totalWeight_nonneg positive.right.right
      have above := secondPool.nonneg _ _ rfl
      have more := mul_nonneg (sub_nonneg.mpr atLeast) weighs
      have left := secondPool.balanced
      rw [deviation_append] at left
      rw [← List.append_assoc, deviation_append, deviation_shift value low after] at balanced
      linarith
    · -- the cut is in the first, whose points are above a lower value all the more
      have weighs := totalWeight_nonneg positive.left.left
      have above := firstPool.nonneg _ _ rfl
      have more := mul_nonneg (sub_nonneg.mpr atMost) weighs
      rw [deviation_shift value high]
      exact add_nonneg above more
  balanced := balanced

/-! ### No non-decreasing list is closer -/

variable {rivals : Rivals Scalar}

theorem carry_weighted_le (carry low : Scalar)
    (nonneg : ∀ before after, rivals = before ++ after → 0 ≤ carry + residuals (before.map (·.1)))
    (balanced : carry + residuals (rivals.map (·.1)) = 0)
    (sorted : rivals.Pairwise fun first second => first.2 ≤ second.2)
    (above : ∀ rival ∈ rivals, low ≤ rival.2) : carry * low + weighted rivals ≤ 0 := by
  induction rivals generalizing carry low with
  | nil =>
    have none : carry = 0 := by simpa using balanced
    simp [none, weighted]
  | cons rival rivals induction =>
    obtain ⟨later, sorted⟩ := List.pairwise_cons.mp sorted
    have carries : 0 ≤ carry := by simpa using nonneg [] _ rfl
    have step (points : Rivals Scalar) : carry + residuals ((rival :: points).map (·.1)) =
        carry + residuals [rival.1] + residuals (points.map (·.1)) := by
      rw [List.map_cons, ← List.singleton_append, residuals_append, add_assoc]
    have rest := induction (carry + residuals [rival.1]) rival.2
      (fun before after cut => step before ▸ nonneg (rival :: before) after (congrArg _ cut))
      (step rivals ▸ balanced) sorted later
    have raised : carry * low ≤ carry * rival.2 :=
      mul_le_mul_of_nonneg_left (above rival List.mem_cons_self) carries
    have head : weighted (rival :: rivals) = residuals [rival.1] * rival.2 + weighted rivals := by
      rw [← List.singleton_append, residuals_singleton]
      simp [weighted]
    linarith

theorem IsFit.loss_add_distance_le (rivals : Rivals Scalar) (fit : IsFit (rivals.map (·.1)))
    (sorted : rivals.Pairwise fun first second => first.2 ≤ second.2) :
    loss (rivals.map (·.1)) + distance rivals ≤ loss (rivalPoints rivals) := by
  have gains : weighted rivals ≤ 0 := by
    cases rivals with
    | nil => exact le_rfl
    | cons rival rivals =>
      have low : ∀ other ∈ rival :: rivals, rival.2 ≤ other.2 := fun other isIn =>
        (List.mem_cons.mp isIn).elim (fun same => same ▸ le_rfl)
          ((List.pairwise_cons.mp sorted).1 other)
      have carried := carry_weighted_le 0 rival.2
        (fun before after cut => ?_) ?_ sorted low
      · rwa [zero_mul, zero_add] at carried
      · rw [zero_add]
        exact fit.nonneg _ (after.map (·.1)) (by rw [cut, List.map_append])
      · rw [zero_add]
        exact fit.balanced
  rw [loss_rivalPoints, fit.weighted_own]
  linarith

theorem distance_nonneg (positive : Positive (rivals.map (·.1.1))) : 0 ≤ distance rivals := by
  refine List.sum_nonneg fun term isIn => ?_
  obtain ⟨rival, rivalIn, rfl⟩ := List.mem_map.mp isIn
  exact mul_nonneg (positive _ (List.mem_map_of_mem rivalIn)).le (sq_nonneg _)

theorem IsFit.loss_le (rivals : Rivals Scalar) (fit : IsFit (rivals.map (·.1)))
    (positive : Positive (rivals.map (·.1.1)))
    (sorted : rivals.Pairwise fun first second => first.2 ≤ second.2) :
    loss (rivals.map (·.1)) ≤ loss (rivalPoints rivals) :=
  (le_add_of_nonneg_right (distance_nonneg positive)).trans (fit.loss_add_distance_le rivals sorted)

theorem eq_of_distance_nonpos (positive : Positive (rivals.map (·.1.1)))
    (none : distance rivals ≤ 0) {rival} (isIn : rival ∈ rivals) : rival.2 = rival.1.2 := by
  have terms : ∀ term ∈ rivals.map fun rival =>
      rival.1.1.weight * (rival.2 - rival.1.2) ^ 2, 0 ≤ term := by
    intro term termIn
    obtain ⟨other, otherIn, rfl⟩ := List.mem_map.mp termIn
    exact mul_nonneg (positive _ (List.mem_map_of_mem otherIn)).le (sq_nonneg _)
  have zero : rival.1.1.weight * (rival.2 - rival.1.2) ^ 2 = 0 :=
    List.all_zero_of_le_zero_le_of_sum_eq_zero terms
      (le_antisymm none (distance_nonneg positive)) (List.mem_map_of_mem isIn)
  have square := (mul_eq_zero.mp zero).resolve_left (positive _ (List.mem_map_of_mem isIn)).ne'
  exact sub_eq_zero.mp (pow_eq_zero_iff two_ne_zero |>.mp square)

theorem IsFit.distance_nonpos (fit : IsFit (rivals.map (·.1)))
    (rivalFit : IsFit (rivalPoints rivals)) : distance rivals ≤ 0 := by
  -- the values are rivals of the rival's, at the same distance
  let swapped : Rivals Scalar := rivals.map fun rival => ((rival.1.1, rival.2), rival.1.2)
  have points : swapped.map (·.1) = rivalPoints rivals := by
    simp [swapped, rivalPoints, Function.comp_def]
  have values : rivalPoints swapped = rivals.map (·.1) := by
    simp [swapped, rivalPoints, Function.comp_def]
  have apart : distance swapped = distance rivals := by
    simp only [swapped, distance, List.map_map, Function.comp_def]
    exact congrArg List.sum (List.map_congr_left fun rival _ => by ring)
  have rivalSorted := rivalFit.sorted
  have sorted := fit.sorted
  rw [rivalPoints, List.pairwise_map] at rivalSorted
  rw [List.pairwise_map] at sorted
  have sorted : swapped.Pairwise fun first second => first.2 ≤ second.2 :=
    List.pairwise_map.mpr sorted
  have there := fit.loss_add_distance_le rivals rivalSorted
  have back := IsFit.loss_add_distance_le swapped (points ▸ rivalFit) sorted
  rw [points, values] at back
  linarith

section Values

variable {points : List (Weighted Scalar)} {values others : List Scalar}

omit [Field Scalar] [LinearOrder Scalar] [IsStrictOrderedRing Scalar] in
theorem map_fst_rivals (length : values.length = points.length)
    (otherLength : others.length = points.length) :
    ((points.zip values).zip others).map (·.1) = points.zip values :=
  List.map_fst_zip (by simp [length, otherLength])

omit [IsStrictOrderedRing Scalar] in
theorem Positive.zipped (positive : Positive points) :
    Positive (((points.zip values).zip others).map (·.1.1)) := by
  intro point isIn
  obtain ⟨_, rivalIn, rfl⟩ := List.mem_map.mp isIn
  exact positive _ (List.of_mem_zip (List.of_mem_zip rivalIn).1).1

theorem eq_of_values_distance_nonpos (length : values.length = points.length)
    (otherLength : others.length = points.length) (positive : Positive points)
    (none : distance ((points.zip values).zip others) ≤ 0) : values = others := by
  refine List.ext_getElem (length.trans otherLength.symm) fun index inside otherInside => ?_
  have bound : index < ((points.zip values).zip others).length := by
    simp [length, otherLength ▸ otherInside, otherInside]
  have same := eq_of_distance_nonpos positive.zipped none (List.getElem_mem bound)
  simpa using same.symm

theorem IsFit.values_unique {points} {values others : List Scalar}
    (length : values.length = points.length) (otherLength : others.length = points.length)
    (fit : IsFit (points.zip values)) (otherFit : IsFit (points.zip others))
    (positive : Positive points) : values = others :=
  eq_of_values_distance_nonpos length otherLength positive <|
    IsFit.distance_nonpos ((map_fst_rivals length otherLength).symm ▸ fit)
      (rivalPoints_zip length others ▸ otherFit)

/-- No other values that do not decrease come as close. -/
theorem IsFit.eq_of_loss_le (length : values.length = points.length)
    (otherLength : others.length = points.length) (fit : IsFit (points.zip values))
    (positive : Positive points) (sorted : others.Pairwise (· ≤ ·))
    (least : loss (points.zip others) ≤ loss (points.zip values)) : values = others := by
  have zipped : (points.zip values).length = others.length := by simp [length, otherLength]
  have inOrder : ((points.zip values).zip others).Pairwise fun first second =>
      first.2 ≤ second.2 := List.pairwise_map.mp ((List.map_snd_zip zipped.ge).symm ▸ sorted)
  have nearer := IsFit.loss_add_distance_le _
    ((map_fst_rivals length otherLength).symm ▸ fit) inOrder
  rw [map_fst_rivals length otherLength, rivalPoints_zip length others] at nearer
  exact eq_of_values_distance_nonpos length otherLength positive (by linarith)

end Values

/-! ### Levels -/

theorem exists_cut {Value : Type} (holds : Value → Prop) {values : List Value}
    (ends : values.Pairwise fun first second => holds second → holds first) :
    ∃ low high, values = low ++ high ∧ (∀ value ∈ low, holds value) ∧
      ∀ value ∈ high, ¬ holds value := by
  induction values with
  | nil => exact ⟨[], [], rfl, nofun, nofun⟩
  | cons value values induction =>
    obtain ⟨first, others⟩ := List.pairwise_cons.mp ends
    by_cases here : holds value
    · obtain ⟨low, high, rfl, lows, highs⟩ := induction others
      exact ⟨value :: low, high, rfl, List.forall_mem_cons.mpr ⟨here, lows⟩, highs⟩
    · refine ⟨[], value :: values, rfl, nofun, List.forall_mem_cons.mpr ⟨here, ?_⟩⟩
      exact fun other isIn holds => here (first other isIn holds)

section Levels

variable {points before after : List (Weighted Scalar × Scalar)}
  {first second : Weighted Scalar × Scalar} {level : Scalar}

theorem deviation_le_residuals (positive : Positive (points.map (·.1)))
    (below : ∀ point ∈ points, point.2 ≤ level) :
    deviation level (points.map (·.1)) ≤ residuals points := by
  rw [deviation, List.map_map]
  refine List.sum_le_sum fun point isIn => ?_
  exact mul_le_mul_of_nonneg_left (sub_le_sub_left (below point isIn) _)
    (positive _ (List.mem_map_of_mem isIn)).le

theorem residuals_le_deviation (positive : Positive (points.map (·.1)))
    (above : ∀ point ∈ points, level ≤ point.2) :
    residuals points ≤ deviation level (points.map (·.1)) := by
  rw [deviation, List.map_map]
  refine List.sum_le_sum fun point isIn => ?_
  exact mul_le_mul_of_nonneg_left (sub_le_sub_left (above point isIn) _)
    (positive _ (List.mem_map_of_mem isIn)).le

theorem IsFit.residuals_after (fit : IsFit (before ++ after)) : residuals after ≤ 0 := by
  have balanced := fit.balanced
  rw [residuals_append] at balanced
  have above := fit.nonneg before after rfl
  linarith

theorem IsFit.deviation_pos (fit : IsFit (before ++ after)) (positive : Positive (after.map (·.1)))
    (lows : ∀ point ∈ before, point.2 < level) (highs : ∀ point ∈ after, level ≤ point.2)
    (passes : ∃ point ∈ after, level < point.2) : 0 < deviation level (after.map (·.1)) := by
  have begins : residuals before = 0 := fit.tight before after rfl fun low lowIn high highIn =>
    (lows low lowIn).trans_le (highs high highIn)
  have ends : residuals after = 0 := by
    have balanced := fit.balanced
    rwa [residuals_append, begins, zero_add] at balanced
  obtain ⟨point, isIn, passes⟩ := passes
  rw [← ends, deviation, List.map_map]
  refine List.sum_lt_sum _ _ (fun other otherIn => ?_) ⟨point, isIn, ?_⟩
  · exact mul_le_mul_of_nonneg_left (sub_le_sub_left (highs other otherIn) _)
      (positive _ (List.mem_map_of_mem otherIn)).le
  · exact mul_lt_mul_of_pos_left (sub_lt_sub_left passes _)
      (positive _ (List.mem_map_of_mem isIn))

theorem IsFit.deviation_nonpos (fit : IsFit (before ++ after))
    (positive : Positive (after.map (·.1))) (highs : ∀ point ∈ after, point.2 ≤ level) :
    deviation level (after.map (·.1)) ≤ 0 :=
  (deviation_le_residuals positive highs).trans fit.residuals_after

/-- Some last points before the cut have no smaller a mean than some first points after it. -/
def Poolable (before after : List (Weighted Scalar)) : Prop :=
  ∃ rest last next more, before = rest ++ last ∧ after = next ++ more ∧ last ≠ [] ∧ next ≠ [] ∧
    mean next ≤ mean last

theorem IsFit.mean_le (level : Scalar) (rest : List (Weighted Scalar × Scalar)) {last}
    (fit : IsFit ((rest ++ last) ++ after)) (balanced : residuals (rest ++ last) = 0)
    (positive : Positive (last.map (·.1))) (nonempty : last ≠ [])
    (below : ∀ point ∈ last, point.2 ≤ level) : mean (last.map (·.1)) ≤ level := by
  rw [mean_le_iff positive (by simpa using nonempty)]
  have above := fit.nonneg rest (last ++ after) (List.append_assoc rest last after)
  have deviates := deviation_le_residuals positive below
  rw [residuals_append] at balanced
  linarith

theorem IsFit.le_mean (level : Scalar) {next} (more : List (Weighted Scalar × Scalar))
    (fit : IsFit (before ++ (next ++ more))) (balanced : residuals before = 0)
    (positive : Positive (next.map (·.1))) (nonempty : next ≠ [])
    (above : ∀ point ∈ next, level ≤ point.2) : level ≤ mean (next.map (·.1)) := by
  rw [le_mean_iff positive (by simpa using nonempty)]
  have atLeast := fit.nonneg (before ++ next) more (List.append_assoc before next more).symm
  have deviates := residuals_le_deviation positive above
  rw [residuals_append] at atLeast
  linarith

theorem IsFit.poolable {rest last next more} (fit : IsFit ((rest ++ last) ++ (next ++ more)))
    (positive : Positive ((rest ++ last ++ (next ++ more)).map (·.1))) (lastSome : last ≠ [])
    (nextSome : next ≠ []) (lastLevel : ∀ point ∈ last, point.2 = level)
    (nextLevel : ∀ point ∈ next, point.2 = level) (belows : ∀ point ∈ rest, point.2 < level)
    (aboves : ∀ point ∈ more, level < point.2) :
    Poolable ((rest ++ last).map (·.1)) ((next ++ more).map (·.1)) := by
  refine ⟨rest.map (·.1), last.map (·.1), next.map (·.1), more.map (·.1), List.map_append,
    List.map_append, by simpa using lastSome, by simpa using nextSome, ?_⟩
  rw [List.map_append, List.map_append, List.map_append] at positive
  -- the level begins and ends balanced, so it is above before the cut and below after it
  have begins : residuals rest = 0 := by
    refine fit.tight rest (last ++ (next ++ more)) (List.append_assoc rest last _) ?_
    intro low lowIn high highIn
    refine (belows low lowIn).trans_le ?_
    obtain isLast | isNext | isMore := by simpa using highIn
    · exact (lastLevel high isLast).ge
    · exact (nextLevel high isNext).ge
    · exact (aboves high isMore).le
  have ends : residuals (rest ++ last ++ next) = 0 := by
    refine fit.tight (rest ++ last ++ next) more (List.append_assoc _ next more).symm ?_
    intro low lowIn high highIn
    refine lt_of_le_of_lt ?_ (aboves high highIn)
    obtain isRest | isLast | isNext := by simpa using lowIn
    · exact (belows low isRest).le
    · exact (lastLevel low isLast).le
    · exact (nextLevel low isNext).le
  have above := fit.nonneg (rest ++ last) (next ++ more) rfl
  rw [residuals_append, begins, zero_add] at above
  rw [residuals_append, residuals_append, begins] at ends
  have lastMean : level ≤ mean (last.map (·.1)) := by
    rw [le_mean_iff positive.left.right (by simpa using lastSome),
      ← residuals_of_value level lastLevel]
    exact above
  have nextMean : mean (next.map (·.1)) ≤ level := by
    rw [mean_le_iff positive.right.left (by simpa using nextSome),
      ← residuals_of_value level nextLevel]
    linarith
  exact nextMean.trans lastMean

theorem IsFit.eq_iff_poolable (fit : IsFit ((before ++ [first]) ++ second :: after))
    (positive : Positive (((before ++ [first]) ++ second :: after).map (·.1))) :
    first.2 = second.2 ↔
      Poolable ((before ++ [first]).map (·.1)) ((second :: after).map (·.1)) := by
  obtain ⟨lowSorted, highSorted, crossed⟩ := List.pairwise_append.mp fit.sorted
  have lows : ∀ point ∈ before ++ [first], point.2 ≤ first.2 := fun point isIn =>
    (List.mem_append.mp isIn).elim
      (fun isIn => (List.pairwise_append.mp lowSorted).2.2 point isIn first
        (List.mem_singleton.mpr rfl))
      fun same => (List.mem_singleton.mp same) ▸ le_rfl
  have highs : ∀ point ∈ second :: after, second.2 ≤ point.2 := fun point isIn =>
    (List.mem_cons.mp isIn).elim (fun same => same ▸ le_rfl)
      ((List.pairwise_cons.mp highSorted).1 point)
  refine ⟨fun same => ?_, fun poolable => ?_⟩
  · obtain ⟨rest, last, lowCut, belows, levels⟩ := exists_cut (fun point => point.2 < first.2)
      (lowSorted.imp fun {_ _} inOrder below => inOrder.trans_lt below)
    obtain ⟨next, more, highCut, nextLevels, aboves⟩ := exists_cut (fun point => point.2 ≤ first.2)
      (highSorted.imp fun {_ _} inOrder below => inOrder.trans below)
    rw [lowCut] at lows
    rw [highCut] at highs
    have firstIn : first ∈ last := by
      have isIn : first ∈ rest ++ last := lowCut ▸ List.mem_append_right _ List.mem_cons_self
      exact (List.mem_append.mp isIn).resolve_left fun isRest =>
        absurd (belows first isRest) (lt_irrefl _)
    have secondIn : second ∈ next := by
      have isIn : second ∈ next ++ more := highCut ▸ List.mem_cons_self
      exact (List.mem_append.mp isIn).resolve_right fun isMore =>
        absurd same.ge (aboves second isMore)
    rw [lowCut, highCut] at fit positive ⊢
    refine fit.poolable positive (List.ne_nil_of_mem firstIn) (List.ne_nil_of_mem secondIn)
      (fun point isIn => ?_) (fun point isIn => ?_) belows fun point isIn =>
        not_le.mp (aboves point isIn)
    · exact le_antisymm (lows point (List.mem_append_right _ isIn)) (not_lt.mp (levels point isIn))
    · exact le_antisymm (nextLevels point isIn)
        (same.trans_le (highs point (List.mem_append_left _ isIn)))
  · obtain ⟨_, _, _, _, lowCut, highCut, lastSome, nextSome, means⟩ := poolable
    obtain ⟨rest, last, lowSplit, rfl, rfl⟩ := List.map_eq_append_iff.mp lowCut
    obtain ⟨next, more, highSplit, rfl, rfl⟩ := List.map_eq_append_iff.mp highCut
    rw [lowSplit, highSplit] at fit positive
    rw [lowSplit] at lows
    rw [highSplit] at highs
    rw [List.map_append, List.map_append, List.map_append] at positive
    refine le_antisymm (crossed first (List.mem_append_right _ List.mem_cons_self) second
      List.mem_cons_self) (not_lt.mp fun rises => ?_)
    have balanced : residuals (rest ++ last) = 0 :=
      fit.tight _ _ rfl fun low lowIn high highIn =>
        (lows low lowIn).trans_lt (rises.trans_le (highs high highIn))
    have lastMean := fit.mean_le first.2 rest balanced positive.left.right (by simpa using lastSome)
      fun point isIn => lows point (List.mem_append_right _ isIn)
    have nextMean := fit.le_mean second.2 more balanced positive.right.left
      (by simpa using nextSome) fun point isIn => highs point (List.mem_append_left _ isIn)
    exact absurd means (not_le.mpr (lastMean.trans_lt (rises.trans_le nextMean)))

theorem IsFit.exists_le_observed (fit : IsFit points) (positive : Positive (points.map (·.1)))
    {point} (isIn : point ∈ points) : ∃ other ∈ points, point.2 ≤ other.1.observed := by
  by_contra none
  push Not at none
  obtain ⟨low, high, rfl, lows, highs⟩ := exists_cut (fun other => other.2 < point.2)
    (fit.sorted.imp fun {_ _} inOrder below => inOrder.trans_lt below)
  have among : point ∈ high := (List.mem_append.mp isIn).resolve_left fun isLow =>
    absurd (lows point isLow) (lt_irrefl _)
  have balanced : residuals low = 0 := fit.tight low high rfl fun first firstIn second secondIn =>
    (lows first firstIn).trans_le (not_lt.mp (highs second secondIn))
  rw [List.map_append] at positive
  have reaches : point.2 ≤ mean (high.map (·.1)) :=
    IsFit.le_mean point.2 [] (by rwa [List.append_nil]) balanced positive.right
      (List.ne_nil_of_mem among) fun other otherIn => not_lt.mp (highs other otherIn)
  rw [le_mean_iff positive.right (by simpa using List.ne_nil_of_mem among)] at reaches
  refine absurd reaches (not_le.mpr ?_)
  rw [deviation_eq_neg, neg_lt_zero]
  refine List.sum_pos _ (fun term termIn => ?_) (by simpa using List.ne_nil_of_mem among)
  obtain ⟨_, pointIn, rfl⟩ := List.mem_map.mp termIn
  obtain ⟨other, otherIn, rfl⟩ := List.mem_map.mp pointIn
  exact mul_pos (positive.right _ pointIn)
    (sub_pos.mpr (none other (List.mem_append_right _ otherIn)))

theorem IsFit.exists_observed_le (fit : IsFit points) (positive : Positive (points.map (·.1)))
    {point} (isIn : point ∈ points) : ∃ other ∈ points, other.1.observed ≤ point.2 := by
  by_contra none
  push Not at none
  obtain ⟨low, high, rfl, lows, highs⟩ := exists_cut (fun other => other.2 ≤ point.2)
    (fit.sorted.imp fun {_ _} inOrder below => inOrder.trans below)
  have among : point ∈ low := (List.mem_append.mp isIn).resolve_right fun isHigh =>
    absurd le_rfl (highs point isHigh)
  have balanced : residuals low = 0 := fit.tight low high rfl fun first firstIn second secondIn =>
    (lows first firstIn).trans_lt (not_le.mp (highs second secondIn))
  rw [List.map_append] at positive
  have reaches : mean (low.map (·.1)) ≤ point.2 :=
    IsFit.mean_le point.2 [] fit balanced positive.left (List.ne_nil_of_mem among) lows
  rw [mean_le_iff positive.left (by simpa using List.ne_nil_of_mem among)] at reaches
  refine absurd reaches (not_le.mpr ?_)
  refine List.sum_pos _ (fun term termIn => ?_) (by simpa using List.ne_nil_of_mem among)
  obtain ⟨_, pointIn, rfl⟩ := List.mem_map.mp termIn
  obtain ⟨other, otherIn, rfl⟩ := List.mem_map.mp pointIn
  exact mul_pos (positive.left _ pointIn)
    (sub_pos.mpr (none other (List.mem_append_left _ otherIn)))

end Levels

end Senars.Library.Isotonic
