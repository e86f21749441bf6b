/-
This file is the fit of the calibrator: pooling adjacent violators over exact
rationals.

Each observation is pushed as a block of its own, and while the last two blocks are
out of order they are merged at their weighted mean. Every block is a pool of the
observations it covers, so the blocks, which are in order, make a fit.
-/

import Mathlib.Algebra.Order.Field.Rat
import Senars.Library.Isotonic

namespace Senars.SystemOne

open Library.Isotonic

/-! ### The blocks -/

structure PavBlock where
  start : ℕ
  stop : ℕ
  value : ℚ
  weight : ℚ
  deriving DecidableEq

/-- Two neighbouring blocks as one. -/
def PavBlock.merge (b1 b2 : PavBlock) : PavBlock where
  start := b1.start
  stop := b2.stop
  value := (b1.value * b1.weight + b2.value * b2.weight) / (b1.weight + b2.weight)
  weight := b1.weight + b2.weight

/-- Merge the last block with the one before while they are out of order. The last is first. -/
def settle (last : PavBlock) : List PavBlock → List PavBlock
  | [] => [last]
  | before :: blocks =>
    if before.value ≤ last.value then last :: before :: blocks
    else settle (before.merge last) blocks

/-- The blocks of the observations from an index on, over those there are. -/
def pushBlocks (blocks : List PavBlock) (index : ℕ) : List (Weighted ℚ) → List PavBlock
  | [] => blocks
  | point :: points =>
    pushBlocks (settle ⟨index, index, point.observed, point.weight⟩ blocks) (index + 1) points

/-- `result[i] = block.value` for `i` from an index on. -/
def fillFrom (value : ℚ) (index : ℕ) : ℕ → List ℚ → List ℚ
  | 0, result => result
  | count + 1, result => fillFrom value (index + 1) count (result.set index value)

/-- The values of the blocks, over the places they cover. -/
def fillBlocks (blocks : List PavBlock) (result : List ℚ) : List ℚ :=
  blocks.foldl (fun result block =>
    fillFrom block.value block.start (block.stop + 1 - block.start) result) result

/-- The fitted values of the observations. The blocks cover every place of the result. -/
def fittedValues (points : List (Weighted ℚ)) : List ℚ :=
  fillBlocks (pushBlocks [] 0 points).reverse (List.replicate points.length 0)

/-- A fitted value for each prediction, where a missing observation is zero and a missing weight
is one. -/
def poolAdjacentViolators (predicted observed weights : List ℚ) : List ℚ :=
  fittedValues ((List.range predicted.length).map fun i =>
    ⟨observed[i]?.getD 0, weights[i]?.getD 1⟩)

/-! ### Blocks are pools -/

/-- A block covers these observations, with so many before it. -/
structure Covers (earlier : ℕ) (segment : List (Weighted ℚ)) (block : PavBlock) : Prop where
  nonempty : segment ≠ []
  start : block.start = earlier
  stop : block.stop + 1 = earlier + segment.length
  weight : block.weight = totalWeight segment
  pool : IsPool segment block.value

/-- The blocks, of which the last is first, cover the observations one after the other. -/
inductive Pooled : List (Weighted ℚ) → List PavBlock → Prop where
  | nil : Pooled [] []
  | cons {earlier segment : List (Weighted ℚ)} {block : PavBlock} {blocks : List PavBlock}
      (rest : Pooled earlier blocks) (covers : Covers earlier.length segment block) :
      Pooled (earlier ++ segment) (block :: blocks)

/-- The values of the blocks do not decrease, read from the end. -/
def InOrder (blocks : List PavBlock) : Prop :=
  blocks.Pairwise fun later earlier => earlier.value ≤ later.value

theorem covers_singleton (index : ℕ) (point : Weighted ℚ) :
    Covers index [point] ⟨index, index, point.observed, point.weight⟩ where
  nonempty := List.cons_ne_nil point []
  start := rfl
  stop := rfl
  weight := by simp [totalWeight]
  pool := isPool_singleton point

theorem Covers.merge {earlier first second b1 b2} (firstCovers : Covers earlier first b1)
    (secondCovers : Covers (earlier + first.length) second b2)
    (positive : Positive (first ++ second)) (violates : b2.value < b1.value) :
    Covers earlier (first ++ second) (b1.merge b2) where
  nonempty := List.append_ne_nil_of_left_ne_nil firstCovers.nonempty second
  start := firstCovers.start
  stop := by
    rw [List.length_append, ← add_assoc]
    exact secondCovers.stop
  weight := by
    rw [totalWeight_append, ← firstCovers.weight, ← secondCovers.weight]
    rfl
  pool := by
    have firstWeight : 0 < b1.weight := by
      rw [firstCovers.weight]
      exact totalWeight_pos positive.left firstCovers.nonempty
    have secondWeight : 0 < b2.weight := by
      rw [secondCovers.weight]
      exact totalWeight_pos positive.right secondCovers.nonempty
    have weighs : 0 < b1.weight + b2.weight := add_pos firstWeight secondWeight
    have value : (b1.merge b2).value * (b1.weight + b2.weight) =
        b1.value * b1.weight + b2.value * b2.weight :=
      div_mul_cancel₀ _ weighs.ne'
    refine firstCovers.pool.append secondCovers.pool positive ?_ ?_ ?_
    · refine le_of_mul_le_mul_right ?_ weighs
      have lower := mul_le_mul_of_nonneg_right violates.le secondWeight.le
      linarith
    · refine le_of_mul_le_mul_right ?_ weighs
      have higher := mul_le_mul_of_nonneg_right violates.le firstWeight.le
      linarith
    · rw [deviation_append, deviation_shift _ b1.value first, deviation_shift _ b2.value second,
        firstCovers.pool.balanced, secondCovers.pool.balanced, ← firstCovers.weight,
        ← secondCovers.weight]
      linarith

theorem Pooled.settle {earlier segment last blocks} (pooled : Pooled earlier blocks)
    (covers : Covers earlier.length segment last) (positive : Positive (earlier ++ segment)) :
    Pooled (earlier ++ segment) (settle last blocks) := by
  induction pooled generalizing segment last with
  | nil => exact .cons .nil covers
  | @cons earlier middle before blocks rest beforeCovers induction =>
    rw [SystemOne.settle]
    split
    · exact .cons (.cons rest beforeCovers) covers
    · rename_i violates
      rw [List.append_assoc] at positive ⊢
      rw [List.length_append] at covers
      exact induction (beforeCovers.merge covers positive.right (not_le.mp violates)) positive

theorem InOrder.settle {blocks} (inOrder : InOrder blocks) (last : PavBlock) :
    InOrder (settle last blocks) := by
  induction blocks generalizing last with
  | nil => exact List.pairwise_singleton _ last
  | cons before blocks induction =>
    obtain ⟨below, rest⟩ := List.pairwise_cons.mp inOrder
    rw [SystemOne.settle]
    split
    · rename_i atLeast
      refine List.pairwise_cons.mpr ⟨fun earlier isIn => ?_, inOrder⟩
      exact (List.mem_cons.mp isIn).elim (fun same => same ▸ atLeast)
        fun isIn => (below earlier isIn).trans atLeast
    · exact induction rest _

theorem pooled_pushBlocks {earlier points blocks} (pooled : Pooled earlier blocks)
    (inOrder : InOrder blocks) (positive : Positive (earlier ++ points)) :
    Pooled (earlier ++ points) (pushBlocks blocks earlier.length points) ∧
      InOrder (pushBlocks blocks earlier.length points) := by
  induction points generalizing earlier blocks with
  | nil =>
    rw [List.append_nil]
    exact ⟨pooled, inOrder⟩
  | cons point points induction =>
    rw [List.append_cons] at positive ⊢
    have pushed := induction (pooled.settle (covers_singleton _ point) positive.left)
      (inOrder.settle _) positive
    rwa [List.length_append] at pushed

/-! ### The values are a fit -/

/-- The values of the blocks, each as often as it covers an observation. -/
def spread : List PavBlock → List ℚ
  | [] => []
  | block :: blocks => spread blocks ++ List.replicate (block.stop + 1 - block.start) block.value

theorem fillFrom_append (value : ℚ) (before middle after : List ℚ) :
    fillFrom value before.length middle.length (before ++ middle ++ after) =
      before ++ List.replicate middle.length value ++ after := by
  induction middle generalizing before with
  | nil => simp [fillFrom]
  | cons first middle induction =>
    have next := induction (before ++ [value])
    rw [List.length_cons, fillFrom]
    simpa [List.replicate_succ] using next

theorem Covers.length_eq {earlier segment block} (covers : Covers earlier segment block) :
    block.stop + 1 - block.start = segment.length := by
  rw [covers.start, covers.stop, Nat.add_sub_cancel_left]

theorem Pooled.length_spread {points blocks} (pooled : Pooled points blocks) :
    (spread blocks).length = points.length := by
  induction pooled with
  | nil => rfl
  | cons rest covers induction =>
    rw [spread, List.length_append, List.length_append, induction, List.length_replicate,
      covers.length_eq]

theorem Pooled.fillBlocks {points blocks} (pooled : Pooled points blocks) (after : List ℚ) :
    fillBlocks blocks.reverse (List.replicate points.length 0 ++ after) =
      spread blocks ++ after := by
  induction pooled generalizing after with
  | nil => rfl
  | @cons earlier segment block blocks rest covers induction =>
    have filled := induction (List.replicate segment.length 0 ++ after)
    unfold SystemOne.fillBlocks at filled ⊢
    rw [List.length_append, List.replicate_add, List.append_assoc, List.reverse_cons,
      List.foldl_append, filled, List.foldl_cons, List.foldl_nil, spread, covers.length_eq,
      covers.start, ← rest.length_spread, ← List.append_assoc]
    have place :=
      fillFrom_append block.value (spread blocks) (List.replicate segment.length 0) after
    rwa [List.length_replicate] at place

theorem Pooled.isFit {points blocks} (pooled : Pooled points blocks) (inOrder : InOrder blocks) :
    IsFit (points.zip (spread blocks)) ∧
      ∀ point ∈ points.zip (spread blocks), ∃ block ∈ blocks, point.2 = block.value := by
  induction pooled with
  | nil => exact ⟨isFit_nil, nofun⟩
  | @cons earlier segment block blocks rest covers induction =>
    obtain ⟨below, others⟩ := List.pairwise_cons.mp inOrder
    obtain ⟨fit, valued⟩ := induction others
    have zipped : (earlier ++ segment).zip (spread (block :: blocks)) =
        earlier.zip (spread blocks) ++ segment.map (·, block.value) := by
      rw [spread, List.zip_append rest.length_spread.symm, covers.length_eq, ← List.map_const',
        ← List.map_prod_left_eq_zip]
    rw [zipped]
    refine ⟨fit.append covers.pool.isFit fun low lowIn high highIn => ?_, fun point isIn => ?_⟩
    · obtain ⟨other, otherIn, same⟩ := valued low lowIn
      obtain ⟨_, _, rfl⟩ := List.mem_map.mp highIn
      exact same ▸ below other otherIn
    · obtain isIn | isIn := List.mem_append.mp isIn
      · obtain ⟨other, otherIn, same⟩ := valued point isIn
        exact ⟨other, List.mem_cons_of_mem _ otherIn, same⟩
      · obtain ⟨_, _, rfl⟩ := List.mem_map.mp isIn
        exact ⟨block, List.mem_cons_self, rfl⟩

section Fitted

variable {points : List (Weighted ℚ)}

theorem fittedValues_eq_spread (positive : Positive points) :
    ∃ blocks, Pooled points blocks ∧ InOrder blocks ∧ fittedValues points = spread blocks := by
  obtain ⟨pooled, inOrder⟩ := pooled_pushBlocks .nil List.Pairwise.nil positive
  refine ⟨_, pooled, inOrder, ?_⟩
  have filled := pooled.fillBlocks []
  rwa [List.append_nil, List.append_nil] at filled

theorem length_fittedValues (positive : Positive points) :
    (fittedValues points).length = points.length := by
  obtain ⟨blocks, pooled, _, same⟩ := fittedValues_eq_spread positive
  rw [same, pooled.length_spread]

theorem isFit_fittedValues (positive : Positive points) :
    IsFit (points.zip (fittedValues points)) := by
  obtain ⟨blocks, pooled, inOrder, same⟩ := fittedValues_eq_spread positive
  rw [same]
  exact (pooled.isFit inOrder).1

theorem poolAdjacentViolators_eq {predicted} (sameLength : predicted.length = points.length) :
    poolAdjacentViolators predicted (points.map (·.observed)) (points.map (·.weight)) =
      fittedValues points := by
  have read : ((List.range predicted.length).map fun i : ℕ =>
      (⟨(points.map (·.observed))[i]?.getD 0, (points.map (·.weight))[i]?.getD 1⟩ : Weighted ℚ)) =
        points := by
    refine List.ext_getElem (by simp [sameLength]) fun i _ inside => ?_
    simp [inside]
  rw [poolAdjacentViolators, read]

/-- The values are as many as the observations and do not decrease, and no non-decreasing list of
as many has a smaller weighted sum of squares. -/
structure IsIsotonicRegression (points : List (Weighted ℚ)) (values : List ℚ) : Prop where
  length_eq : values.length = points.length
  sorted : values.Pairwise (· ≤ ·)
  least : ∀ rival : List ℚ, rival.length = points.length → rival.Pairwise (· ≤ ·) →
    loss (points.zip values) ≤ loss (points.zip rival)

theorem isIsotonicRegression_of_isFit {values} (positive : Positive points)
    (length : values.length = points.length) (fit : IsFit (points.zip values)) :
    IsIsotonicRegression points values where
  length_eq := length
  sorted := by
    have sorted := List.pairwise_map.mpr fit.sorted
    rwa [List.map_snd_zip length.le] at sorted
  least rival rivalLength rivalSorted := by
    have zipped : (points.zip values).length = rival.length := by simp [length, rivalLength]
    have fitted := map_fst_rivals length rivalLength
    have sorted : ((points.zip values).zip rival).Pairwise fun first second => first.2 ≤ second.2 :=
      List.pairwise_map.mp ((List.map_snd_zip zipped.ge).symm ▸ rivalSorted)
    have least := IsFit.loss_le _ (fitted.symm ▸ fit) positive.zipped sorted
    rwa [fitted, rivalPoints_zip length rival] at least

/-- Pooling adjacent violators is exact isotonic regression. -/
theorem poolAdjacentViolators_isotonic (predicted : List ℚ) (points : List (Weighted ℚ))
    (sameLength : predicted.length = points.length) (positive : Positive points) :
    IsIsotonicRegression points
      (poolAdjacentViolators predicted (points.map (·.observed)) (points.map (·.weight))) := by
  rw [poolAdjacentViolators_eq sameLength]
  exact isIsotonicRegression_of_isFit positive (length_fittedValues positive)
    (isFit_fittedValues positive)

/-- Two observations out of order are pooled. -/
theorem poolAdjacentViolators_isotonic_violation :
    IsIsotonicRegression [⟨1, 1⟩, ⟨0, 3⟩] [1 / 4, 1 / 4] := by
  have isotonic := poolAdjacentViolators_isotonic [0, 1] [⟨1, 1⟩, ⟨0, 3⟩] rfl
    (by simp [Positive])
  have values : poolAdjacentViolators [0, 1] ([⟨1, 1⟩, ⟨0, 3⟩].map fun point : Weighted ℚ =>
      point.observed) ([⟨1, 1⟩, ⟨0, 3⟩].map fun point : Weighted ℚ => point.weight) =
        [1 / 4, 1 / 4] := by
    decide +kernel
  rwa [values] at isotonic

theorem eq_fittedValues {values} (positive : Positive points)
    (isotonic : IsIsotonicRegression points values) : fittedValues points = values := by
  have fit := isFit_fittedValues positive
  have length := length_fittedValues positive
  have fitted := isIsotonicRegression_of_isFit positive length fit
  exact fit.eq_of_loss_le length isotonic.length_eq positive isotonic.sorted
    (isotonic.least _ fitted.length_eq fitted.sorted)

/-- Only what is pooled is an isotonic regression. -/
theorem isIsotonicRegression_iff (predicted : List ℚ) (points : List (Weighted ℚ))
    (sameLength : predicted.length = points.length) (positive : Positive points)
    (values : List ℚ) : IsIsotonicRegression points values ↔
      values = poolAdjacentViolators predicted (points.map (·.observed))
        (points.map (·.weight)) := by
  rw [poolAdjacentViolators_eq sameLength]
  constructor
  · exact fun isotonic => (eq_fittedValues positive isotonic).symm
  · rintro rfl
    exact isIsotonicRegression_of_isFit positive (length_fittedValues positive)
      (isFit_fittedValues positive)

theorem isIsotonicRegression_iff_violation :
    IsIsotonicRegression [⟨1, 1⟩, ⟨0, 3⟩] [1 / 4, 1 / 4] ↔
      [1 / 4, 1 / 4] = poolAdjacentViolators [0, 1] [1, 0] [1, 3] :=
  isIsotonicRegression_iff [0, 1] [⟨1, 1⟩, ⟨0, 3⟩] rfl (by simp [Positive]) [1 / 4, 1 / 4]

theorem loss_observed (points : List (Weighted ℚ)) :
    loss (points.zip (points.map (·.observed))) = 0 := by
  induction points with
  | nil => rfl
  | cons point points ih =>
    unfold loss at ih ⊢
    simp [ih]

theorem loss_nonneg (positive : Positive points) (values : List ℚ) :
    0 ≤ loss (points.zip values) := by
  refine List.sum_nonneg fun term isIn => ?_
  obtain ⟨pair, pairIn, rfl⟩ := List.mem_map.mp isIn
  exact mul_nonneg (positive _ (List.of_mem_zip pairIn).1).le (sq_nonneg _)

theorem fittedValues_of_sorted (positive : Positive points)
    (sorted : (points.map (·.observed)).Pairwise (· ≤ ·)) :
    fittedValues points = points.map (·.observed) :=
  eq_fittedValues positive
    { length_eq := List.length_map _
      sorted
      least := fun rival _ _ => (loss_observed points).le.trans (loss_nonneg positive rival) }

/-- Fitting what was fitted changes nothing, and the fitted values are above the observations as
much as they are below them. -/
theorem poolAdjacentViolators_refit (predicted : List ℚ) (points : List (Weighted ℚ))
    (sameLength : predicted.length = points.length) (positive : Positive points) :
    let weights := points.map (·.weight)
    let fitted := poolAdjacentViolators predicted (points.map (·.observed)) weights
    poolAdjacentViolators predicted fitted weights = fitted ∧
      residuals (points.zip fitted) = 0 := by
  dsimp only
  rw [poolAdjacentViolators_eq sameLength]
  refine ⟨?_, (isFit_fittedValues positive).balanced⟩
  have length := length_fittedValues positive
  let refit : List (Weighted ℚ) :=
    (points.zip (fittedValues points)).map fun pair => ⟨pair.2, pair.1.weight⟩
  have observed : refit.map (·.observed) = fittedValues points := by
    rw [List.map_map]
    exact List.map_snd_zip length.le
  have weights : refit.map (·.weight) = points.map (·.weight) := by
    have first := congrArg (List.map (·.weight)) (List.map_fst_zip length.ge)
    rwa [List.map_map] at first ⊢
  have refitPositive : Positive refit := by
    intro point isIn
    obtain ⟨pair, pairIn, rfl⟩ := List.mem_map.mp isIn
    exact positive pair.1 (List.of_mem_zip pairIn).1
  have sorted : (refit.map (·.observed)).Pairwise (· ≤ ·) := by
    rw [observed]
    exact (isIsotonicRegression_of_isFit positive length (isFit_fittedValues positive)).sorted
  have refitLength : predicted.length = refit.length := by
    simp [refit, length, sameLength]
  rw [← observed, ← weights, poolAdjacentViolators_eq refitLength]
  exact fittedValues_of_sorted refitPositive sorted

theorem poolAdjacentViolators_refit_violation :
    poolAdjacentViolators [0, 1] (poolAdjacentViolators [0, 1] [1, 0] [1, 3]) [1, 3] =
      poolAdjacentViolators [0, 1] [1, 0] [1, 3] :=
  (poolAdjacentViolators_refit [0, 1] [⟨1, 1⟩, ⟨0, 3⟩] rfl (by simp [Positive])).1

end Fitted

end Senars.SystemOne
