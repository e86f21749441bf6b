/-
This file is about trees of partial sums over a list of weights, kept in one list: the
node at a place covers as many weights up to that place as its lowest binary digit says.
A rebuilt tree holds the sum of what each node covers, adding at a place leaves the nodes
before it alone, and the search down the tree finds the place a plain scan finds.
-/

import Mathlib.Algebra.BigOperators.Group.Finset.Basic
import Mathlib.Algebra.BigOperators.Intervals
import Mathlib.Algebra.Order.BigOperators.Group.List
import Mathlib.Algebra.Order.Group.Defs
import Mathlib.Algebra.Order.Ring.Nat
import Mathlib.Data.List.GetD
import Mathlib.Data.Nat.Factorization.Basic
import Mathlib.Tactic.Abel
import Mathlib.Tactic.Ring

namespace Senars.Library

/-! ### Binary digits -/

/-- The lowest binary digit of a number that is one, found by as many halvings at most. -/
def lowBitFrom : ℕ → ℕ → ℕ
  | 0, _ => 0
  | steps + 1, i => if i % 2 = 1 then 1 else 2 * lowBitFrom steps (i / 2)

/-- `i & -i`. -/
def lowBit (i : ℕ) : ℕ := lowBitFrom i i

theorem lowBitFrom_eq {steps exponent half} (enough : exponent < steps) :
    lowBitFrom steps (2 ^ exponent * (2 * half + 1)) = 2 ^ exponent := by
  induction exponent generalizing steps with
  | zero =>
    obtain ⟨fewer, rfl⟩ := Nat.exists_eq_add_of_lt enough
    rw [lowBitFrom, if_pos (by omega), pow_zero]
  | succ exponent ih =>
    obtain ⟨fewer, rfl⟩ := Nat.exists_eq_add_of_lt (Nat.zero_lt_of_lt enough)
    have doubled : 2 ^ (exponent + 1) * (2 * half + 1) =
        2 * (2 ^ exponent * (2 * half + 1)) := by ring
    rw [doubled, lowBitFrom, if_neg (by omega), Nat.mul_div_cancel_left _ two_pos,
      ih (by omega), pow_succ']

theorem lowBit_eq (exponent half : ℕ) :
    lowBit (2 ^ exponent * (2 * half + 1)) = 2 ^ exponent := by
  refine lowBitFrom_eq ?_
  calc exponent < 2 ^ exponent := Nat.lt_two_pow_self
    _ ≤ 2 ^ exponent * (2 * half + 1) := Nat.le_mul_of_pos_right _ (by omega)

theorem exists_lowBit {i} (positive : 0 < i) :
    ∃ exponent half, i = 2 ^ exponent * (2 * half + 1) ∧ lowBit i = 2 ^ exponent := by
  obtain ⟨exponent, odd, ⟨half, rfl⟩, rfl⟩ := Nat.exists_eq_two_pow_mul_odd positive.ne'
  exact ⟨exponent, half, rfl, lowBit_eq exponent half⟩

theorem lowBit_pos {i} (positive : 0 < i) : 0 < lowBit i := by
  obtain ⟨exponent, _, _, low⟩ := exists_lowBit positive
  rw [low]
  exact Nat.two_pow_pos exponent

/-- The greatest power of two that is not above a number, found by as many doublings at most. -/
def highestBitFrom (n : ℕ) : ℕ → ℕ → ℕ
  | 0, mask => mask
  | steps + 1, mask => if mask * 2 ≤ n then highestBitFrom n steps (mask * 2) else mask

def highestBit (n : ℕ) : ℕ := highestBitFrom n n 1

theorem highestBitFrom_eq {n steps exponent} (enough : n < 2 ^ (exponent + steps + 1)) :
    ∃ last, highestBitFrom n steps (2 ^ exponent) = 2 ^ last ∧ n < 2 ^ (last + 1) ∧
      last ≤ exponent + steps := by
  induction steps generalizing exponent with
  | zero => exact ⟨exponent, rfl, enough, le_rfl⟩
  | succ steps ih =>
    rw [highestBitFrom]
    split
    · rw [← pow_succ]
      have more : n < 2 ^ (exponent + 1 + steps + 1) := by rwa [add_right_comm exponent 1 steps]
      obtain ⟨last, found, above, bounded⟩ := ih more
      exact ⟨last, found, above, by omega⟩
    · next above =>
      exact ⟨exponent, rfl, not_le.mp above, by omega⟩

theorem exists_highestBit (n : ℕ) :
    ∃ last, highestBit n = 2 ^ last ∧ n < 2 ^ (last + 1) ∧ last ≤ n := by
  have enough : n < 2 ^ (0 + n + 1) :=
    Nat.lt_two_pow_self.trans (Nat.pow_lt_pow_right one_lt_two (by omega))
  obtain ⟨last, found, above, bounded⟩ := highestBitFrom_eq enough
  exact ⟨last, found, above, by omega⟩

/-! ### Trees -/

section

variable {Weight : Type} [AddCommGroup Weight]

/-- The node at a place of a tree. -/
def node (tree : List Weight) (i : ℕ) : Weight := tree.getD i 0

/-- Add to a place and to all places that cover it. -/
def raiseFrom (delta : Weight) : ℕ → ℕ → List Weight → List Weight
  | 0, _, tree => tree
  | steps + 1, i, tree =>
    if i < tree.length then
      raiseFrom delta steps (i + lowBit i) (tree.set i (node tree i + delta))
    else tree

/-- Add to the weight at an index, which is counted from zero. -/
def addAt (tree : List Weight) (index : ℕ) (delta : Weight) : List Weight :=
  raiseFrom delta tree.length (index + 1) tree

/-- Add a node to the one next above it, among as many as are in use. -/
def passOn (count : ℕ) (tree : List Weight) (i : ℕ) : List Weight :=
  let parent := i + lowBit i
  if parent ≤ count then tree.set parent (node tree parent + node tree i) else tree

/-- A tree of a size with each weight at its own place alone. -/
def leaves (size : ℕ) (weights : List Weight) : List Weight :=
  0 :: weights ++ List.replicate (size - 1 - weights.length) 0

/-- The tree of a size over weights. -/
def rebuild (size : ℕ) (weights : List Weight) : List Weight :=
  (List.range' 1 weights.length).foldl (passOn weights.length) (leaves size weights)

/-- The sum of the first weights. -/
def prefixSum (weights : List Weight) (count : ℕ) : Weight := (weights.take count).sum

/-- The sum of the weights a node stands for. -/
def covered (weights : List Weight) (i : ℕ) : Weight :=
  prefixSum weights i - prefixSum weights (i - lowBit i)

/-! ### Prefix sums -/

@[simp] theorem prefixSum_zero (weights : List Weight) : prefixSum weights 0 = 0 := rfl

theorem prefixSum_succ (weights : List Weight) (count : ℕ) :
    prefixSum weights (count + 1) = prefixSum weights count + weights.getD count 0 := by
  unfold prefixSum
  rcases Nat.lt_or_ge count weights.length with inside | outside
  · rw [List.take_succ_eq_append_getElem inside, List.sum_append, List.sum_singleton,
      List.getD_eq_getElem _ _ inside]
  · rw [List.take_of_length_le outside, List.take_of_length_le (by omega),
      List.getD_eq_default _ _ outside, add_zero]

theorem prefixSum_length (weights : List Weight) :
    prefixSum weights weights.length = weights.sum := by
  rw [prefixSum, List.take_length]

variable {i below : ℕ} {weights tree : List Weight}

theorem prefixSum_append (more : List Weight) {count} (inside : count ≤ weights.length) :
    prefixSum (weights ++ more) count = prefixSum weights count := by
  rw [prefixSum, prefixSum, List.take_append_of_le_length inside]

theorem covered_append (more : List Weight) (inside : i ≤ weights.length) :
    covered (weights ++ more) i = covered weights i := by
  rw [covered, covered, prefixSum_append more inside,
    prefixSum_append more ((Nat.sub_le _ _).trans inside)]

/-! ### Adding -/

theorem length_raiseFrom (delta : Weight) (steps i : ℕ) (tree : List Weight) :
    (raiseFrom delta steps i tree).length = tree.length := by
  induction steps generalizing i tree with
  | zero => rfl
  | succ steps ih =>
    rw [raiseFrom]
    split
    · rw [ih, List.length_set]
    · rfl

theorem length_addAt (tree : List Weight) (index : ℕ) (delta : Weight) :
    (addAt tree index delta).length = tree.length := length_raiseFrom _ _ _ _

theorem node_set_of_ne {j} (other : i ≠ j) (value : Weight) :
    node (tree.set i value) j = node tree j := by
  rw [node, node, List.getD_eq_getElem?_getD, List.getD_eq_getElem?_getD,
    List.getElem?_set_ne other]

theorem node_set_self (inside : i < tree.length) (value : Weight) :
    node (tree.set i value) i = value := by
  rw [node, List.getD_eq_getElem?_getD, List.getElem?_set_self inside, Option.getD_some]

theorem node_raiseFrom {delta steps j} (before : j < i) :
    node (raiseFrom delta steps i tree) j = node tree j := by
  induction steps generalizing i tree with
  | zero => rfl
  | succ steps ih =>
    rw [raiseFrom]
    split
    · rw [ih (by omega), node_set_of_ne (by omega)]
    · rfl

theorem node_addAt {index j} (delta : Weight) (before : j ≤ index) :
    node (addAt tree index delta) j = node tree j :=
  node_raiseFrom (Nat.lt_succ_of_le before)

/-! ### Rebuilding -/

/-- The nodes that pass on to a node. -/
def children (below i : ℕ) : Finset ℕ :=
  (Finset.range below).filter fun child => 0 < child ∧ child + lowBit child = i

theorem children_eq {exponent half} :
    children (2 ^ exponent * (2 * half + 1)) (2 ^ exponent * (2 * half + 1)) =
      (Finset.range exponent).image fun digit => 2 ^ exponent * (2 * half + 1) - 2 ^ digit := by
  ext child
  simp only [children, Finset.mem_filter, Finset.mem_range, Finset.mem_image]
  constructor
  · rintro ⟨_, positive, passes⟩
    obtain ⟨digit, other, shape, low⟩ := exists_lowBit positive
    refine ⟨digit, ?_, by omega⟩
    by_contra above
    obtain ⟨more, rfl⟩ := Nat.exists_eq_add_of_le (not_lt.mp above)
    have even : 2 ^ exponent * (2 * half + 1) = 2 ^ exponent * (2 * (2 ^ more * (other + 1))) := by
      rw [← passes, low]
      nth_rewrite 1 [shape]
      ring
    have halves := Nat.eq_of_mul_eq_mul_left (Nat.two_pow_pos exponent) even
    omega
  · rintro ⟨digit, below, rfl⟩
    obtain ⟨more, rfl⟩ := Nat.exists_eq_add_of_lt below
    have shape : 2 ^ (digit + more + 1) * (2 * half + 1) =
        2 ^ digit * (2 * (2 ^ more * (2 * half + 1) - 1) + 1) + 2 ^ digit := by
      have room : 1 ≤ 2 ^ more * (2 * half + 1) :=
        Nat.mul_pos (Nat.two_pow_pos more) (by omega)
      obtain ⟨rest, rest_eq⟩ := Nat.exists_eq_add_of_le' room
      rw [rest_eq]
      calc 2 ^ (digit + more + 1) * (2 * half + 1)
          = 2 ^ digit * (2 * (2 ^ more * (2 * half + 1))) := by ring
        _ = 2 ^ digit * (2 * rest + 1) + 2 ^ digit := by rw [rest_eq]; ring
    have positive := Nat.two_pow_pos digit
    rw [shape, Nat.add_sub_cancel, lowBit_eq]
    exact ⟨by omega, Nat.mul_pos positive (by omega), rfl⟩

theorem covered_eq (weights : List Weight) (positive : 0 < i) :
    covered weights i =
      weights.getD (i - 1) 0 + ∑ child ∈ children i i, covered weights child := by
  obtain ⟨exponent, half, shape, low⟩ := exists_lowBit positive
  have distinct : Set.InjOn (fun digit => 2 ^ exponent * (2 * half + 1) - 2 ^ digit)
      (Finset.range exponent : Set ℕ) := by
    intro first inFirst second inSecond same
    have secondBelow : 2 ^ second < 2 ^ exponent :=
      Nat.pow_lt_pow_right one_lt_two (Finset.mem_range.mp inSecond)
    have fits : 2 ^ exponent ≤ 2 ^ exponent * (2 * half + 1) :=
      Nat.le_mul_of_pos_right _ (by omega)
    have powers : 2 ^ first = 2 ^ second := by
      simp only at same
      omega
    exact Nat.pow_right_injective le_rfl powers
  have each : ∀ digit ∈ Finset.range exponent,
      covered weights (2 ^ exponent * (2 * half + 1) - 2 ^ digit) =
        prefixSum weights (2 ^ exponent * (2 * half + 1) - 2 ^ digit) -
          prefixSum weights (2 ^ exponent * (2 * half + 1) - 2 ^ (digit + 1)) := by
    intro digit below
    have member : 2 ^ exponent * (2 * half + 1) - 2 ^ digit ∈
        children (2 ^ exponent * (2 * half + 1)) (2 ^ exponent * (2 * half + 1)) := by
      rw [children_eq]
      exact Finset.mem_image_of_mem _ below
    have passes := (Finset.mem_filter.mp member).2.2
    rw [covered]
    congr 2
    omega
  rw [shape, children_eq, Finset.sum_image distinct, Finset.sum_congr rfl each,
    Finset.sum_range_sub', pow_zero, covered, ← shape, low]
  have last := prefixSum_succ weights (i - 1)
  rw [Nat.sub_add_cancel positive] at last
  rw [last]
  abel

theorem mem_children {child} :
    child ∈ children below i ↔ child < below ∧ 0 < child ∧ child + lowBit child = i := by
  rw [children, Finset.mem_filter, Finset.mem_range]

theorem children_of_le (reaches : i ≤ below) : children below i = children i i := by
  ext child
  rw [mem_children, mem_children]
  constructor
  · rintro ⟨_, positive, passes⟩
    have := lowBit_pos positive
    exact ⟨by omega, positive, passes⟩
  · rintro ⟨before, rest⟩
    exact ⟨by omega, rest⟩

theorem sum_children_succ (weights : List Weight) (positive : 0 < below) :
    ∑ child ∈ children (below + 1) i, covered weights child =
      ∑ child ∈ children below i, covered weights child +
        if below + lowBit below = i then covered weights below else 0 := by
  have notMember : below ∉ children below i := by
    rw [mem_children]
    omega
  split
  · next passes =>
    have extended : children (below + 1) i = insert below (children below i) := by
      ext child
      rw [Finset.mem_insert, mem_children, mem_children]
      constructor
      · rintro ⟨before, rest⟩
        rcases Nat.lt_succ_iff_lt_or_eq.mp before with earlier | rfl
        · exact .inr ⟨earlier, rest⟩
        · exact .inl rfl
      · rintro (rfl | ⟨before, rest⟩)
        · exact ⟨by omega, positive, passes⟩
        · exact ⟨by omega, rest⟩
    rw [extended, Finset.sum_insert notMember, add_comm]
  · next other =>
    have same : children (below + 1) i = children below i := by
      ext child
      rw [mem_children, mem_children]
      constructor
      · rintro ⟨before, some, passes⟩
        rcases Nat.lt_succ_iff_lt_or_eq.mp before with earlier | rfl
        · exact ⟨earlier, some, passes⟩
        · exact absurd passes other
      · rintro ⟨before, rest⟩
        exact ⟨by omega, rest⟩
    rw [same, add_zero]

theorem length_leaves {size} (fits : weights.length < size) :
    (leaves size weights).length = size := by
  rw [leaves, List.length_append, List.length_cons, List.length_replicate]
  omega

theorem node_leaves {size} (inside : i < weights.length) :
    node (leaves size weights) (i + 1) = weights.getD i 0 := by
  rw [node, leaves, List.cons_append, List.getD_cons_succ, List.getD_append _ _ _ _ inside]

theorem passOn_eq (count : ℕ) (tree : List Weight) (i : ℕ) :
    passOn count tree i = if i + lowBit i ≤ count then
      tree.set (i + lowBit i) (node tree (i + lowBit i) + node tree i) else tree := rfl

theorem length_passOn (count : ℕ) (tree : List Weight) (i : ℕ) :
    (passOn count tree i).length = tree.length := by
  rw [passOn_eq]
  split
  · exact List.length_set
  · rfl

/-- Each node in use holds its own weight and what the nodes before a place have passed on. -/
def Passed (weights tree : List Weight) (below : ℕ) : Prop :=
  weights.length < tree.length ∧ ∀ i, 0 < i → i ≤ weights.length →
    node tree i = weights.getD (i - 1) 0 + ∑ child ∈ children below i, covered weights child

theorem Passed.passOn {weights tree : List Weight} {below} (passed : Passed weights tree below)
    (positive : 0 < below) (inside : below ≤ weights.length) :
    Passed weights (passOn weights.length tree below) (below + 1) := by
  obtain ⟨fits, holds⟩ := passed
  have whole : node tree below = covered weights below := by
    rw [holds below positive inside, covered_eq weights positive]
  refine ⟨by rwa [length_passOn], fun i some within => ?_⟩
  rw [sum_children_succ weights positive, ← add_assoc, ← holds i some within]
  rw [passOn_eq]
  by_cases passes : below + lowBit below = i
  · rw [if_pos (by omega), if_pos passes, passes, node_set_self (by omega), whole]
  · rw [if_neg passes, add_zero]
    split
    · rw [node_set_of_ne passes]
    · rfl

theorem passed_foldl {count} (inside : count ≤ weights.length) (passed : Passed weights tree 1) :
    Passed weights ((List.range' 1 count).foldl (passOn weights.length) tree) (count + 1) := by
  induction count with
  | zero => exact passed
  | succ count ih =>
    rw [List.range'_1_concat, List.foldl_append, Nat.add_comm 1 count]
    exact (ih (by omega)).passOn (by omega) inside

theorem passed_leaves {size} (fits : weights.length < size) :
    Passed weights (leaves size weights) 1 := by
  refine ⟨by rwa [length_leaves fits], fun i some within => ?_⟩
  have none : children 1 i = ∅ := by
    ext child
    rw [mem_children]
    exact iff_of_false (by omega) (Finset.notMem_empty child)
  obtain ⟨before, rfl⟩ := Nat.exists_eq_add_of_le' some
  rw [none, Finset.sum_empty, add_zero, node_leaves within, Nat.add_sub_cancel]

theorem passed_rebuild {size} (fits : weights.length < size) :
    Passed weights (rebuild size weights) (weights.length + 1) :=
  passed_foldl le_rfl (passed_leaves fits)

theorem node_rebuild {size} (fits : weights.length < size) (positive : 0 < i)
    (inside : i ≤ weights.length) : node (rebuild size weights) i = covered weights i := by
  rw [(passed_rebuild fits).2 i positive inside, children_of_le (by omega),
    ← covered_eq weights positive]

theorem length_rebuild {size} (fits : weights.length < size) :
    (rebuild size weights).length = size := by
  have keeps : ∀ (places : List ℕ) (tree : List Weight),
      (places.foldl (passOn weights.length) tree).length = tree.length := by
    intro places
    induction places with
    | nil => exact fun _ => rfl
    | cons place rest ih =>
      intro tree
      rw [List.foldl_cons, ih, length_passOn]
  rw [rebuild, keeps, length_leaves fits]

end

/-! ### Searching -/

section

variable {Weight : Type} [AddCommGroup Weight] [LinearOrder Weight] [IsOrderedAddMonoid Weight]

/-- The search down a tree by halved steps, which takes a step where the node it leads to is in use
and less than what remains. -/
def descend (tree : List Weight) (length : ℕ) : ℕ → ℕ → ℕ → Weight → ℕ
  | 0, _, idx, _ => idx
  | steps + 1, step, idx, remaining =>
    if step = 0 then idx
    else if idx + step < length ∧ node tree (idx + step) < remaining then
      descend tree length steps (step / 2) (idx + step) (remaining - node tree (idx + step))
    else descend tree length steps (step / 2) idx remaining

/-- The index whose prefix sum reaches a target, by halved steps. -/
def findByPrefixSum (tree : List Weight) (target : Weight) (length : ℕ) : ℕ :=
  descend tree length (length + 2) (highestBit length) 0 target

/-- An index is the first whose prefix sum, itself included, reaches a target. -/
structure Reaches (weights : List Weight) (target : Weight) (idx : ℕ) : Prop where
  inside : idx < weights.length
  reaches : target ≤ prefixSum weights (idx + 1)
  first : ∀ earlier < idx, prefixSum weights (earlier + 1) < target

variable {weights tree : List Weight} {target : Weight}

theorem prefixSum_mono (nonnegative : ∀ weight ∈ weights, 0 ≤ weight) :
    Monotone (prefixSum weights) := by
  refine monotone_nat_of_le_succ fun count => ?_
  rw [prefixSum_succ]
  refine le_add_of_nonneg_right ?_
  rcases Nat.lt_or_ge count weights.length with inside | outside
  · rw [List.getD_eq_getElem _ _ inside]
    exact nonnegative _ (List.getElem_mem inside)
  · rw [List.getD_eq_default _ _ outside]

/-- A node holds the sum of what it covers, or nothing is left from where it begins to cover. -/
def Faithful (weights tree : List Weight) (i : ℕ) : Prop :=
  node tree i = covered weights i ∨ weights.sum ≤ prefixSum weights (i - lowBit i)

/-- Where the search stands: it is below the target, and twice the step takes it to the target or
out of the list. -/
structure Between (weights : List Weight) (target : Weight) (idx width : ℕ) : Prop where
  inside : idx < weights.length
  below : idx = 0 ∨ prefixSum weights idx < target
  above : ∀ later, idx + width ≤ later → later < weights.length →
    target ≤ prefixSum weights later

theorem Between.reaches {weights} {target : Weight} {idx} (between : Between weights target idx 1)
    (nonnegative : ∀ weight ∈ weights, 0 ≤ weight) (total : target ≤ weights.sum) :
    Reaches weights target idx where
  inside := between.inside
  reaches := by
    rcases Nat.lt_or_ge (idx + 1) weights.length with inside | outside
    · exact between.above _ le_rfl inside
    · have last : idx + 1 = weights.length := by
        have := between.inside
        omega
      rwa [last, prefixSum_length]
  first := by
    intro earlier before
    rcases between.below with rfl | below
    · omega
    · exact lt_of_le_of_lt (prefixSum_mono nonnegative (by omega)) below

theorem Between.halve {exponent idx} (between : Between weights target idx (2 ^ (exponent + 1)))
    (multiple : 2 ^ (exponent + 1) ∣ idx) (nonnegative : ∀ weight ∈ weights, 0 ≤ weight)
    (least : 0 ≤ target) (total : target < weights.sum)
    (faithful : ∀ i, 0 < i → i < weights.length → Faithful weights tree i) (steps : ℕ) :
    ∃ further, descend tree weights.length (steps + 1) (2 ^ exponent) idx
          (target - prefixSum weights idx) =
        descend tree weights.length steps (2 ^ exponent / 2) further
          (target - prefixSum weights further) ∧
      2 ^ exponent ∣ further ∧ Between weights target further (2 ^ exponent) := by
  have positive := Nat.two_pow_pos exponent
  obtain ⟨half, shape⟩ := multiple
  have low : lowBit (idx + 2 ^ exponent) = 2 ^ exponent := by
    have odd : idx + 2 ^ exponent = 2 ^ exponent * (2 * half + 1) := by rw [shape]; ring
    rw [odd, lowBit_eq]
  have divides : 2 ^ exponent ∣ idx := ⟨2 * half, by rw [shape]; ring⟩
  have stays : (idx + 2 ^ exponent < weights.length →
      target ≤ prefixSum weights (idx + 2 ^ exponent)) →
      Between weights target idx (2 ^ exponent) := by
    intro reached
    refine ⟨between.inside, between.below, fun later after inside => ?_⟩
    exact (reached (by omega)).trans (prefixSum_mono nonnegative after)
  have covers : idx + 2 ^ exponent < weights.length →
      node tree (idx + 2 ^ exponent) =
        prefixSum weights (idx + 2 ^ exponent) - prefixSum weights idx := by
    intro inside
    have ahead := faithful _ (Nat.add_pos_right idx positive) inside
    rw [Faithful, covered, low, Nat.add_sub_cancel] at ahead
    refine ahead.resolve_right (not_le.mpr ?_)
    rcases between.below with rfl | below
    · exact least.trans_lt total
    · exact below.trans total
  rw [descend, if_neg positive.ne']
  split
  · next taken =>
    obtain ⟨inside, less⟩ := taken
    rw [covers inside] at less ⊢
    refine ⟨idx + 2 ^ exponent, by rw [sub_sub_sub_cancel_right], dvd_add divides dvd_rfl,
      inside, .inr ((sub_lt_sub_iff_right _).mp less), fun later after within => ?_⟩
    exact between.above later (by rw [pow_succ]; omega) within
  · next notTaken =>
    refine ⟨idx, rfl, divides, stays fun inside => ?_⟩
    rw [not_and, not_lt] at notTaken
    have reached := notTaken inside
    rw [covers inside] at reached
    exact (sub_le_sub_iff_right _).mp reached

section

variable (nonnegative : ∀ weight ∈ weights, 0 ≤ weight) (least : 0 ≤ target)
  (total : target < weights.sum)
  (faithful : ∀ i, 0 < i → i < weights.length → Faithful weights tree i)

include nonnegative least total faithful

theorem descend_reaches {steps exponent idx} (enough : exponent + 1 < steps)
    (multiple : 2 ^ (exponent + 1) ∣ idx)
    (between : Between weights target idx (2 ^ (exponent + 1))) :
    Reaches weights target
      (descend tree weights.length steps (2 ^ exponent) idx
        (target - prefixSum weights idx)) := by
  induction exponent generalizing steps idx with
  | zero =>
    obtain ⟨fewer, rfl⟩ := Nat.exists_eq_add_of_lt enough
    obtain ⟨further, same, _, closer⟩ :=
      between.halve multiple nonnegative least total faithful (0 + 1 + fewer)
    rw [same, Nat.add_right_comm, descend]
    exact closer.reaches nonnegative total.le
  | succ exponent ih =>
    obtain ⟨fewer, rfl⟩ := Nat.exists_eq_add_of_lt enough
    obtain ⟨further, same, divides, closer⟩ :=
      between.halve multiple nonnegative least total faithful (exponent + 1 + 1 + fewer)
    rw [same, pow_succ, Nat.mul_div_cancel _ two_pos]
    exact ih (by omega) divides closer

theorem findByPrefixSum_reaches :
    Reaches weights target (findByPrefixSum tree target weights.length) := by
  have some : 0 < weights.length := by
    rcases weights with _ | ⟨first, rest⟩
    · exact absurd (least.trans_lt total) (lt_irrefl _)
    · exact Nat.succ_pos _
  obtain ⟨last, highest, wide, bounded⟩ := exists_highestBit weights.length
  have starts : Between weights target 0 (2 ^ (last + 1)) :=
    ⟨some, .inl rfl, fun later after within => by omega⟩
  have found := descend_reaches nonnegative least total faithful
    (Nat.lt_succ_of_le (Nat.succ_le_succ bounded)) (dvd_zero _) starts
  rwa [prefixSum_zero, sub_zero, ← highest] at found

end

end

end Senars.Library
