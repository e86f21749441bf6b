/-
This file is about spawning children without asking for anything. Of cycles, memory operations and
calls a child is allotted a share, and something is left for its parent. Of the depth it is allotted
all that is left, which is charged to the parent like the rest.

A parent that has a dimension with nothing left is exhausted, so the first child a thread spawns
exhausts it, but where the depth is no finite number.
-/

import Mathlib.Algebra.Order.Field.Basic
import Senars.Threads.Termination

namespace Senars.Threads

open Library Library.JsNumber Control

/-! ### One dimension -/

theorem sub_add_finite {ceiling consumed : JsNumber} {left}
    (isLeft : ceiling - consumed = .finite left) (share : ℚ) :
    ceiling - (consumed + .finite share) = .finite (left - share) := by
  cases ceiling with
  | nan => cases consumed <;> cases isLeft
  | infinite negative =>
    cases consumed with
    | nan => cases isLeft
    | infinite below => cases negative <;> cases below <;> cases isLeft
    | finite value => cases isLeft
  | finite most =>
    cases consumed with
    | nan => cases isLeft
    | infinite below => cases isLeft
    | finite value =>
      rw [finite_sub] at isLeft
      cases isLeft
      rw [finite_add, finite_sub, sub_add_eq_sub_sub]

theorem sub_add_infinite {ceiling consumed : JsNumber}
    (isLeft : ceiling - consumed = .infinite false) :
    ceiling - (consumed + .infinite false) = .nan := by
  cases ceiling with
  | nan => cases consumed <;> cases isLeft
  | infinite negative =>
    cases negative <;> cases consumed with
    | nan => cases isLeft
    | infinite below => cases below <;> first | rfl | cases isLeft
    | finite value => first | rfl | cases isLeft
  | finite most =>
    cases consumed with
    | nan => cases isLeft
    | infinite below => cases below <;> first | rfl | cases isLeft
    | finite value => cases isLeft

/-! ### One child -/

namespace CognitiveThread

/-- The parent, once it has spawned a child that asks for nothing. -/
def spawnDefault (parent : CognitiveThread) (childId : String) : CognitiveThread :=
  (parent.spawn childId fun _ => none).1

/-- The parent, once it has spawned children that ask for nothing, one after the other. -/
def spawnDefaults (parent : CognitiveThread) (childIds : List String) : CognitiveThread :=
  childIds.foldl spawnDefault parent

/-- What the next child is allotted. -/
def defaultShare (parent : CognitiveThread) : BudgetResource → JsNumber :=
  parent.budget.resolveAllocation (fun _ => none) (shareOf (parent.children.length + 2))

/-- Two or more are left of each dimension but the depth. -/
def HasTwo (thread : CognitiveThread) : Prop :=
  ∀ resource, resource ≠ .depth → lessEq 2 (thread.budget.remaining resource) = true

/-- The depth that is left is no finite number. -/
def UnlimitedDepth (thread : CognitiveThread) : Prop :=
  ∀ left, thread.budget.remaining .depth ≠ .finite left

section

variable {parent : CognitiveThread} (childId : String)

theorem spawnDefault_budget : (parent.spawnDefault childId).budget =
    { parent.budget with consumed := parent.budget.consumedAfter parent.defaultShare } :=
  BudgetSlice.chargeAllocation_eq fun _ => BudgetSlice.affords_resolveAllocation

theorem spawnDefault_remaining (resource : BudgetResource) :
    (parent.spawnDefault childId).budget.remaining resource =
      if less 0 (parent.defaultShare resource) then
        parent.budget.ceiling resource -
          (parent.budget.consumed resource + parent.defaultShare resource)
      else parent.budget.remaining resource := by
  rw [spawnDefault_budget]
  show _ - BudgetSlice.consumedAfter _ _ _ = _
  rw [BudgetSlice.consumedAfter]
  split
  · rfl
  · rfl

theorem remainingOf_infinite {budget : BudgetSlice} {resource}
    (isLeft : budget.remaining resource = .infinite false) :
    budget.remainingOf resource = .infinite false := by
  rw [BudgetSlice.remainingOf, isLeft]
  rfl

theorem defaultShare_leaves {resource} (additive : resource ≠ .depth)
    (two : lessEq 2 (parent.budget.remaining resource) = true) :
    lessEq ((parent.spawnDefault childId).budget.remaining resource) 0 = false := by
  have shares : (0 : ℚ) < (parent.children.length + 2 : ℕ) := by positivity
  have share : parent.defaultShare resource =
      JsNumber.min (perPart (parent.budget.remainingOf resource) (parent.children.length + 2) 0)
        (parent.budget.remainingOf resource) := by
    cases resource with
    | depth => exact absurd rfl additive
    | cycles => rfl
    | memoryOps => rfl
    | llmCalls => rfl
  rw [spawnDefault_remaining]
  cases isLeft : parent.budget.remaining resource with
  | nan =>
    rw [isLeft] at two
    cases two
  | infinite negative =>
    rw [isLeft] at two
    cases negative with
    | true => cases two
    | false =>
      have whole : parent.defaultShare resource = .infinite false := by
        have quotient : (.infinite false : JsNumber) / .finite (parent.children.length + 2 : ℕ) =
            .infinite false := by
          have notNegative : decide (((parent.children.length + 2 : ℕ) : ℚ) < 0) = false :=
            decide_eq_false (not_lt.mpr shares.le)
          show JsNumber.infinite (false != decide (_ < 0)) = _
          rw [notNegative]
          rfl
        rw [share, remainingOf_infinite isLeft, perPart, quotient]
        rfl
      rw [whole, sub_add_infinite isLeft]
      rfl
  | finite left =>
    rw [isLeft, ofNat_eq, lessEq_finite, decide_eq_true_eq] at two
    have atLeast : (2 : ℚ) ≤ left := by exact_mod_cast two
    have positive : 0 < left := zero_lt_two.trans_le atLeast
    have isShare : parent.defaultShare resource = .finite
        (((0 : ℚ) ⊔ (left / (parent.children.length + 2 : ℕ)).floor) ⊓ left) := by
      rw [share, remainingOf_finite isLeft positive.le, perPart, finite_div shares.ne',
        JsNumber.floor, ofNat_eq, max_finite, min_finite, Nat.cast_zero]
    have part : ((0 : ℚ) ⊔ (left / (parent.children.length + 2 : ℕ)).floor) < left := by
      refine sup_lt_iff.mpr ⟨positive, (Rat.floor_le _).trans_lt ?_⟩
      have several : (1 : ℚ) < (parent.children.length + 2 : ℕ) := by
        exact_mod_cast Nat.lt_add_left _ Nat.one_lt_two
      exact div_lt_self positive several
    rw [isShare, sub_add_finite isLeft, inf_eq_left.mpr part.le]
    split
    · rw [ofNat_eq, lessEq_finite]
      exact decide_eq_false (not_le.mpr (sub_pos.mpr part))
    · rw [ofNat_eq, lessEq_finite]
      exact decide_eq_false (not_le.mpr positive)

theorem defaultShare_depth : parent.defaultShare .depth =
    JsNumber.min (parent.budget.remainingOf .depth) (parent.budget.remainingOf .depth) := rfl

theorem spawnDefault_depth {left} (isLeft : parent.budget.remaining .depth = .finite left)
    (positive : 0 < left) : (parent.spawnDefault childId).budget.remaining .depth = 0 := by
  have all : parent.defaultShare .depth = .finite left := by
    rw [defaultShare_depth, remainingOf_finite isLeft positive.le, min_finite, inf_idem]
  have charged : less 0 (JsNumber.finite left) = true := by
    exact decide_eq_true positive
  rw [spawnDefault_remaining, all, if_pos charged, sub_add_finite isLeft, sub_self]
  rfl

theorem UnlimitedDepth.spawnDefault (unlimited : parent.UnlimitedDepth)
    (some_depth : lessEq (parent.budget.remaining .depth) 0 = false) :
    (parent.spawnDefault childId).budget.remaining .depth = .nan := by
  rw [spawnDefault_remaining, defaultShare_depth]
  cases isLeft : parent.budget.remaining .depth with
  | nan =>
    rw [BudgetSlice.remainingOf, isLeft]
    rfl
  | infinite negative =>
    rw [isLeft] at some_depth
    cases negative with
    | true => cases some_depth
    | false =>
      rw [remainingOf_infinite isLeft]
      exact sub_add_infinite isLeft
  | finite left => exact absurd isLeft (unlimited left)

end

end CognitiveThread

/-! ### Exhaustion -/

section

open CognitiveThread

variable {parent : CognitiveThread} {now : ℕ} {aborted : Bool}

theorem isExhausted_eq_false_iff {budget : BudgetSlice} :
    budget.isExhausted now aborted = false ↔
      (∀ resource, lessEq (budget.remaining resource) 0 = false) ∧
        budget.terminationReason = none ∧
          budget.wallclockDeadlineMs.any (fun deadline => deadline ≠ 0 && deadline < now) = false ∧
            aborted = false := by
  have all : allResources.any (fun resource => lessEq (budget.remaining resource) 0) = false ↔
      ∀ resource, lessEq (budget.remaining resource) 0 = false := by
    rw [List.any_eq_false]
    refine ⟨fun none resource => eq_false_of_ne_true (none resource ?_),
      fun none resource _ => by rw [none resource]; exact Bool.false_ne_true⟩
    cases resource <;> decide
  rw [BudgetSlice.isExhausted, Bool.or_eq_false_iff, Bool.or_eq_false_iff, Bool.or_eq_false_iff,
    all, Option.isSome_eq_false_iff, Option.isNone_iff_eq_none]
  tauto

theorem isExhausted_spawnDefault (childId : String)
    (alive : parent.budget.isExhausted now aborted = false) :
    (parent.spawnDefault childId).budget.isExhausted now aborted = false ↔
      ∀ resource, lessEq ((parent.spawnDefault childId).budget.remaining resource) 0 = false := by
  obtain ⟨_, others⟩ := isExhausted_eq_false_iff.mp alive
  rw [isExhausted_eq_false_iff]
  refine ⟨And.left, fun some_left => ⟨some_left, ?_⟩⟩
  rw [spawnDefault_budget]
  exact others

theorem spawnDefault_survives_iff (childId : String)
    (alive : parent.budget.isExhausted now aborted = false) (two : parent.HasTwo) :
    (parent.spawnDefault childId).budget.isExhausted now aborted = false ↔
      parent.UnlimitedDepth := by
  have some_depth := (isExhausted_eq_false_iff.mp alive).1 .depth
  rw [isExhausted_spawnDefault childId alive]
  constructor
  · intro some_left left isLeft
    have positive : 0 < left := by
      rw [isLeft, ofNat_eq, lessEq_finite, decide_eq_false_iff_not] at some_depth
      exact not_le.mp some_depth
    have none := some_left .depth
    rw [spawnDefault_depth childId isLeft positive] at none
    cases none
  · intro unlimited resource
    by_cases additive : resource = .depth
    · rw [additive, unlimited.spawnDefault childId some_depth]
      rfl
    · exact defaultShare_leaves childId additive (two resource additive)

theorem spawnDefaults_no_depth {childIds} (none : parent.budget.remaining .depth = 0) :
    (parent.spawnDefaults childIds).budget.remaining .depth = 0 := by
  induction childIds generalizing parent with
  | nil => exact none
  | cons childId rest ih =>
    refine ih ?_
    have nothing : parent.defaultShare .depth = 0 := by
      rw [defaultShare_depth, BudgetSlice.remainingOf, none]
      rfl
    rw [spawnDefault_remaining, nothing]
    exact none

/-- A thread that is not exhausted, with two or more left of each dimension but the depth, survives
a child that asks for nothing exactly where its depth is no finite number; and so does it survive
any number of them, with as much left before each. -/
theorem default_spawns_survive_iff (alive : parent.budget.isExhausted now aborted = false)
    (two : parent.HasTwo) :
    (∀ childId, (parent.spawnDefault childId).budget.isExhausted now aborted = false ↔
      parent.UnlimitedDepth) ∧
    ∀ childIds, (∀ earlier childId later, childIds = earlier ++ childId :: later →
        (parent.spawnDefaults earlier).HasTwo) →
      ((parent.spawnDefaults childIds).budget.isExhausted now aborted = false ↔
        childIds = [] ∨ parent.UnlimitedDepth) := by
  refine ⟨fun childId => spawnDefault_survives_iff childId alive two, fun childIds enough => ?_⟩
  constructor
  · intro survives
    cases childIds with
    | nil => exact .inl rfl
    | cons childId rest =>
      refine .inr fun left isLeft => ?_
      have some_depth := (isExhausted_eq_false_iff.mp alive).1 .depth
      rw [isLeft, ofNat_eq, lessEq_finite, Nat.cast_zero, decide_eq_false_iff_not] at some_depth
      have none := (isExhausted_eq_false_iff.mp survives).1 .depth
      have first := spawnDefault_depth childId isLeft (not_le.mp some_depth)
      rw [spawnDefaults, List.foldl_cons, ← spawnDefaults, spawnDefaults_no_depth first] at none
      cases none
  · rintro (rfl | unlimited)
    · exact alive
    · clear two
      induction childIds generalizing parent with
      | nil => exact alive
      | cons childId rest inductionHypothesis =>
        have two : parent.HasTwo := enough [] childId rest rfl
        have some_depth := (isExhausted_eq_false_iff.mp alive).1 .depth
        refine inductionHypothesis ((spawnDefault_survives_iff childId alive two).mpr unlimited)
          (fun earlier next later split => ?_) fun left isLeft => ?_
        · exact enough (childId :: earlier) next later (by rw [split, List.cons_append])
        · rw [unlimited.spawnDefault childId some_depth] at isLeft
          cases isLeft

end

/-- A thread with ten of everything, but of the depth. -/
def rootThread (depth : JsNumber) : CognitiveThread :=
  .create "root" { tenOfEach with ceiling := Function.update tenOfEach.ceiling .depth depth }
    (fun _ => none) 50

theorem rootThread_hasTwo (depth : JsNumber) : (rootThread depth).HasTwo := by
  have left : lessEq 2 (10 - 0 - 0) = true := by decide +kernel
  intro resource additive
  cases resource with
  | depth => exact absurd rfl additive
  | cycles => exact left
  | memoryOps => exact left
  | llmCalls => exact left

/-- A thread whose depth has no end survives its first child. -/
theorem default_spawns_survive_iff_endless :
    ((rootThread (.infinite false)).spawnDefault "child").budget.isExhausted 0 false = false := by
  have alive : (rootThread (.infinite false)).budget.isExhausted 0 false = false := by
    decide +kernel
  refine ((default_spawns_survive_iff alive (rootThread_hasTwo _)).1 "child").mpr ?_
  rintro left ⟨⟩

/-- The first child exhausts a thread with ten of everything. -/
theorem first_spawn_exhausts :
    ¬ ∀ (parent : CognitiveThread) (now : ℕ) (aborted : Bool) (childId : String),
      parent.budget.isExhausted now aborted = false → parent.HasTwo →
        (parent.spawnDefault childId).budget.isExhausted now aborted = false := by
  intro survives
  have alive := survives (rootThread 10) 0 false "child" (by decide +kernel)
    (rootThread_hasTwo 10)
  exact absurd alive (by decide +kernel)

end Senars.Threads
