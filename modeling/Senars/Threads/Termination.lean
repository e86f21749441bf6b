/-
This file is about the reason a slice of a budget ended for. A child that is folded in leaves the
reason of its parent alone, and an allocation asks for no more than is left, so it is never refused.

A consumption that is refused writes its own reason over the one that is there. The reason changes
exactly where a consumption is refused for another one.
-/

import Senars.Threads.BudgetTree

namespace Senars.Threads

open Library Library.JsNumber Control

namespace BudgetSlice

/-! ### Allocations -/

theorem lessEq_min_right {first second} (isNumber : JsNumber.min first second ≠ .nan) :
    lessEq (JsNumber.min first second) second = true := by
  unfold JsNumber.min at isNumber ⊢
  split at isNumber
  · exact absurd rfl isNumber
  · next numbers =>
    rw [not_or] at numbers
    rw [if_neg (not_or.mpr numbers)]
    split
    · exact lessEq_refl numbers.2
    · next notAbove => exact lessEq_iff.mpr ⟨numbers.1, numbers.2, eq_false_of_ne_true notAbove⟩

theorem remainingOf_cases (budget : BudgetSlice) (resource : BudgetResource) :
    budget.remainingOf resource = 0 ∨
      budget.remainingOf resource = budget.remaining resource := by
  cases isLeft : budget.remaining resource with
  | nan =>
    rw [remainingOf, isLeft]
    exact .inr rfl
  | infinite negative =>
    rw [remainingOf, isLeft]
    cases negative with
    | true => exact .inl rfl
    | false => exact .inr rfl
  | finite left =>
    rw [remainingOf_eq_sup isLeft]
    exact (max_choice 0 left).imp (congrArg _) (congrArg _)

theorem affords_resolveAllocation {budget : BudgetSlice} {requested fallback resource}
    (positive : less 0 (budget.resolveAllocation requested fallback resource) = true) :
    budget.affords resource (budget.resolveAllocation requested fallback resource) = true := by
  unfold resolveAllocation at positive ⊢
  generalize (requested resource).getD _ = asked at positive ⊢
  have isNumber : JsNumber.min asked (budget.remainingOf resource) ≠ .nan := by
    intro isNan
    rw [isNan] at positive
    cases positive
  have fits := lessEq_min_right isNumber
  rcases remainingOf_cases budget resource with isZero | isLeft
  · rw [isZero] at fits positive
    rw [(lessEq_iff.mp fits).2.2] at positive
    cases positive
  · rw [isLeft] at fits ⊢
    exact fits

/-! ### Folding a child in -/

/-- What a child consumed with what its parent did, of the depth the deeper one. -/
def mergeConsumed (parent child : BudgetResource → JsNumber) : BudgetResource → JsNumber
  | .depth => JsNumber.max (parent .depth) (child .depth)
  | resource => parent resource + child resource

/-- Fold what a child consumed into its parent, and the reason it ended for where the parent has
none. -/
def mergeConsumption (parent child : BudgetSlice) : BudgetSlice :=
  { parent with
    consumed := mergeConsumed parent.consumed child.consumed
    terminationReason :=
      if child.terminationReason.isSome && parent.terminationReason.isNone then
        child.terminationReason
      else parent.terminationReason }

end BudgetSlice

/-! ### Runs of a slice -/

inductive SliceEvent where
  | consume (resource : BudgetResource) (amount : JsNumber)
  | allocate (requested : BudgetAllocation)
      (fallback : (BudgetResource → JsNumber) → BudgetAllocation)
  | mergeConsumption (child : BudgetSlice)

/-- One operation on a slice. -/
def sliceStep : Machine BudgetSlice SliceEvent
  | budget, .consume resource amount => some (budget.consume resource amount).2
  | budget, .allocate requested fallback =>
    some (budget.chargeAllocation (budget.resolveAllocation requested fallback))
  | budget, .mergeConsumption child => some (budget.mergeConsumption child)

/-- Once the one slice has a reason it ended for, the other one has the same. -/
def SameReason (early late : BudgetSlice) : Prop :=
  ∀ reason, early.terminationReason = some reason → late.terminationReason = some reason

/-- What is consumed of a slice that ended fits in what is left, or is refused for the reason the
slice ended for. -/
def RefusedAlike (budget : BudgetSlice) : SliceEvent → Prop
  | .consume resource amount => budget.affords resource amount = true ∨
      ∀ reason, budget.terminationReason = some reason → budget.refusal resource = reason
  | .allocate _ _ => True
  | .mergeConsumption _ => True

theorem refusedAlike_iff {budget next event} (taken : sliceStep budget event = some next) :
    RefusedAlike budget event ↔ SameReason budget next := by
  cases event with
  | consume resource amount =>
    cases taken
    by_cases affords : budget.affords resource amount = true
    · rw [BudgetSlice.consume, if_pos affords]
      exact ⟨fun _ reason isReason => isReason, fun _ => .inl affords⟩
    · rw [BudgetSlice.consume, if_neg affords]
      constructor
      · rintro (fits | alike)
        · exact absurd fits affords
        · exact fun reason isReason => congrArg some (alike reason isReason)
      · exact fun same => .inr fun reason isReason => Option.some.inj (same reason isReason)
  | allocate requested fallback =>
    cases taken
    refine ⟨fun _ reason isReason => ?_, fun _ => trivial⟩
    rw [BudgetSlice.chargeAllocation_eq fun resource => BudgetSlice.affords_resolveAllocation]
    exact isReason
  | mergeConsumption child =>
    cases taken
    refine ⟨fun _ reason isReason => ?_, fun _ => trivial⟩
    simp [BudgetSlice.mergeConsumption, isReason]

/-- In a run of operations on a slice, the reason it ended for never changes once it is set exactly
where what is consumed of it from then on fits or is refused for that reason. -/
theorem reason_set_once_iff {budget last : BudgetSlice} {events : List SliceEvent}
    (run : Run sliceStep budget events last) :
    Run.Meets sliceStep RefusedAlike budget events ↔
      ∀ early late, Run.PassesBoth sliceStep budget events early late → SameReason early late :=
  run.meets_iff_relates (fun _ _ isReason => isReason)
    (fun _ _ _ before after reason isReason => after reason (before reason isReason))
    fun _ _ _ taken => refusedAlike_iff taken

/-- All cycles are consumed, and two more are asked for. -/
def cyclesRunOut : List SliceEvent :=
  [.consume .cycles 10, .consume .cycles 1, .consume .cycles 1]

/-- The slice after some operations. -/
def sliceAfter (events : List SliceEvent) : BudgetSlice :=
  (execute sliceStep tenOfEach events).getD tenOfEach

theorem reason_set_once_iff_cyclesRunOut :
    Run.Meets sliceStep RefusedAlike tenOfEach cyclesRunOut ↔
      ∀ early late, Run.PassesBoth sliceStep tenOfEach cyclesRunOut early late →
        SameReason early late := by
  have run : Run sliceStep tenOfEach cyclesRunOut (sliceAfter cyclesRunOut) := run_of_execute rfl
  exact reason_set_once_iff run

/-- A slice that ended for its cycles ends for backpressure, when more calls are asked for than
are left. -/
theorem reason_written_over :
    ¬ ∀ (budget last : BudgetSlice) (events : List SliceEvent), Run sliceStep budget events last →
      ∀ early late, Run.PassesBoth sliceStep budget events early late →
        SameReason early late := by
  intro always
  have toEarly : Run sliceStep tenOfEach [.consume .cycles 10, .consume .cycles 1]
      (sliceAfter [.consume .cycles 10, .consume .cycles 1]) := run_of_execute rfl
  have toLate : Run sliceStep (sliceAfter [.consume .cycles 10, .consume .cycles 1])
      [.consume .llmCalls 11]
      (sliceAfter [.consume .cycles 10, .consume .cycles 1, .consume .llmCalls 11]) :=
    run_of_execute rfl
  have same := always _ _ _ (toEarly.append toLate) _ _
    ⟨_, _, [], rfl, toEarly, toLate⟩ .cycleBudget (by decide +kernel)
  exact absurd same (by decide +kernel)

end Senars.Threads
