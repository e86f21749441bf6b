/-
This file is what a scope of the control budgets sees of a run of charges and new cycles: its own
account, which is opened from its declared ceiling and which only its own charges and the new
cycles move.

A run over all scopes is, for one scope, a run of that account over the calls that concern it. So
the verdicts on a scope depend on these calls alone, and what is granted in a cycle fits under the
ceiling.
-/

import Senars.Control.Budgets
import Mathlib.Algebra.BigOperators.Group.List.Basic
import Mathlib.Algebra.GroupWithZero.Nat

namespace Senars.Control

/-! ### Runs of charges and new cycles -/

/-- A call to the control budgets. -/
inductive BudgetCall where
  | beginCycle
  | charge (scopeId : BudgetScopeId) (cost : ℕ)
  deriving DecidableEq

/-- A call that is not a charge of another scope. -/
def BudgetCall.concerns (scopeId : BudgetScopeId) : BudgetCall → Bool
  | .beginCycle => true
  | .charge charged _ => decide (charged = scopeId)

namespace ControlBudgets

/-- The budgets over a root budget before any scope is open. -/
def create (root : ReasoningBudget) (overrides : ControlBudgetOverrides) : ControlBudgets :=
  ⟨⟨root, fun _ => none⟩, overrides⟩

def perform (budgets : ControlBudgets) : BudgetCall → ControlBudgets
  | .beginCycle => budgets.beginCycle
  | .charge scopeId cost => (budgets.charge scopeId cost).2

/-- The budgets after some calls. -/
def performAll (budgets : ControlBudgets) (calls : List BudgetCall) : ControlBudgets :=
  calls.foldl perform budgets

/-- The verdicts on the charges of a scope, with their costs. -/
def verdictsOn (scopeId : BudgetScopeId) (budgets : ControlBudgets) :
    List BudgetCall → List (ℕ × Bool)
  | [] => []
  | .beginCycle :: rest => verdictsOn scopeId budgets.beginCycle rest
  | .charge charged cost :: rest =>
    let output := budgets.charge charged cost
    if charged = scopeId then (cost, output.1) :: verdictsOn scopeId output.2 rest
    else verdictsOn scopeId output.2 rest

/-- What the granted charges of a scope cost together. -/
def grantedCost (scopeId : BudgetScopeId) (budgets : ControlBudgets)
    (calls : List BudgetCall) : ℕ :=
  (((budgets.verdictsOn scopeId calls).filter (·.2)).map (·.1)).sum

/-- What a scope has consumed of a resource. One that is not open has consumed nothing. -/
def counter (budgets : ControlBudgets) (scopeId : BudgetScopeId) (resource : BudgetResource) : ℕ :=
  (budgets.gate.scopes scopeId).elim 0 (·.consumed.get resource)

/-! ### The account of a scope -/

/-- The budget of a scope, which is opened from its declared ceiling where it is not open. -/
def account (budgets : ControlBudgets) (scopeId : BudgetScopeId) : ReasoningBudget :=
  (budgets.gate.scopes scopeId).getD (scopeBudget scopeId budgets.gate.budget budgets.overrides)

theorem openScope_scopes (budgets : ControlBudgets) (scopeId : BudgetScopeId) :
    (budgets.openScope scopeId).gate.scopes scopeId = some (budgets.account scopeId) := by
  unfold openScope account
  split
  · next scope found => rw [found, Option.getD_some]
  · next found =>
    rw [found]
    exact KernelBudgetGate.store_scopes_self _ _ _

variable {scopeId other : BudgetScopeId}

theorem openScope_scopes_of_ne (different : other ≠ scopeId) (budgets : ControlBudgets) :
    (budgets.openScope scopeId).gate.scopes other = budgets.gate.scopes other := by
  unfold openScope
  split
  · rfl
  · exact KernelBudgetGate.store_scopes_of_ne different _

@[simp] theorem openScope_budget (budgets : ControlBudgets) (scopeId : BudgetScopeId) :
    (budgets.openScope scopeId).gate.budget = budgets.gate.budget := by
  unfold openScope
  split <;> rfl

@[simp] theorem openScope_overrides (budgets : ControlBudgets) (scopeId : BudgetScopeId) :
    (budgets.openScope scopeId).overrides = budgets.overrides := by
  unfold openScope
  split <;> rfl

theorem charge_eq (budgets : ControlBudgets) (scopeId : BudgetScopeId) (cost : ℕ) :
    budgets.charge scopeId cost =
      let decided := KernelBudgetGate.decideOn (budgets.account scopeId)
        (scopeSpec scopeId).consumedKey cost
      (decided.1, ⟨(budgets.openScope scopeId).gate.store scopeId decided.2,
        budgets.overrides⟩) := by
  simp only [charge, KernelBudgetGate.check, KernelBudgetGate.resolveBudget, openScope_scopes,
    Option.getD_some, specOf_scopeSpec, openScope_overrides]

@[simp] theorem charge_budget (budgets : ControlBudgets) (scopeId : BudgetScopeId) (cost : ℕ) :
    (budgets.charge scopeId cost).2.gate.budget = budgets.gate.budget := by
  exact openScope_budget budgets scopeId

@[simp] theorem charge_overrides (budgets : ControlBudgets) (scopeId : BudgetScopeId) (cost : ℕ) :
    (budgets.charge scopeId cost).2.overrides = budgets.overrides := by
  rw [charge_eq]

theorem charge_scopes_of_ne (different : other ≠ scopeId) (budgets : ControlBudgets) (cost : ℕ) :
    (budgets.charge scopeId cost).2.gate.scopes other = budgets.gate.scopes other := by
  exact (KernelBudgetGate.store_scopes_of_ne different _).trans
    (openScope_scopes_of_ne different budgets)

theorem charge_account (budgets : ControlBudgets) (scopeId : BudgetScopeId) (cost : ℕ) :
    (budgets.charge scopeId cost).2.account scopeId =
      (KernelBudgetGate.decideOn (budgets.account scopeId)
        (scopeSpec scopeId).consumedKey cost).2 := by
  rw [charge_eq]
  simp only [account, KernelBudgetGate.store_scopes_self, Option.getD_some]

theorem charge_account_of_ne (different : other ≠ scopeId) (budgets : ControlBudgets) (cost : ℕ) :
    (budgets.charge scopeId cost).2.account other = budgets.account other := by
  simp only [account, charge_scopes_of_ne different, charge_budget, charge_overrides]

/-! ### A new cycle -/

theorem renew_eq (budgets : ControlBudgets) (scopeId : BudgetScopeId) :
    budgets.renew scopeId =
      ⟨(budgets.openScope scopeId).gate.store scopeId (freshBudget (budgets.account scopeId)),
        budgets.overrides⟩ := by
  simp only [renew, KernelBudgetGate.resetConsumption, openScope_scopes, openScope_overrides]

theorem renew_account (budgets : ControlBudgets) (scopeId other : BudgetScopeId) :
    (budgets.renew scopeId).account other =
      if other = scopeId then freshBudget (budgets.account other) else budgets.account other := by
  rw [renew_eq]
  split
  · next same =>
    subst same
    simp only [account, KernelBudgetGate.store_scopes_self, Option.getD_some]
  · next different =>
    simp only [account, KernelBudgetGate.store_scopes_of_ne different,
      openScope_scopes_of_ne different]
    exact congrArg _ (congrArg (scopeBudget other · budgets.overrides)
      (openScope_budget budgets scopeId))

theorem freshBudget_freshBudget (budget : ReasoningBudget) :
    freshBudget (freshBudget budget) = freshBudget budget := rfl

theorem foldl_renew_account (scopeIds : List BudgetScopeId) (budgets : ControlBudgets)
    (scopeId : BudgetScopeId) :
    (scopeIds.foldl renew budgets).account scopeId =
      if scopeId ∈ scopeIds then freshBudget (budgets.account scopeId)
      else budgets.account scopeId := by
  induction scopeIds generalizing budgets with
  | nil => rfl
  | cons first rest ih =>
    rw [List.foldl_cons, ih, renew_account]
    by_cases same : scopeId = first
    · subst same
      simp only [if_true, freshBudget_freshBudget, ite_self, List.mem_cons_self]
    · simp only [same, if_false, List.mem_cons, false_or]

theorem beginCycle_account (budgets : ControlBudgets) (scopeId : BudgetScopeId) :
    budgets.beginCycle.account scopeId = freshBudget (budgets.account scopeId) := by
  rw [beginCycle, foldl_renew_account, if_pos]
  cases scopeId <;> decide

/-! ### One scope sees a run of its account -/

end ControlBudgets

namespace ScopeAccount

/-- What a call does to the account of a scope it concerns, and the verdict on a charge. -/
def act (resource : BudgetResource) (account : ReasoningBudget) :
    BudgetCall → List (ℕ × Bool) × ReasoningBudget
  | .beginCycle => ([], freshBudget account)
  | .charge _ cost =>
    let decided := KernelBudgetGate.decideOn account resource cost
    ([(cost, decided.1)], decided.2)

/-- The verdicts on an account, told by the calls that concern it. -/
def verdicts (resource : BudgetResource) (account : ReasoningBudget) :
    List BudgetCall → List (ℕ × Bool)
  | [] => []
  | call :: rest =>
    (act resource account call).1 ++ verdicts resource (act resource account call).2 rest

/-- An account that keeps a ceiling, under which what is consumed fits. -/
structure Within (resource : BudgetResource) (limit : ℕ) (account : ReasoningBudget) : Prop where
  ceiling : budgetLimit account resource = limit
  fits : account.consumed.get resource ≤ limit

/-- What is granted of some verdicts. -/
def granted (verdicts : List (ℕ × Bool)) : ℕ := ((verdicts.filter (·.2)).map (·.1)).sum

theorem granted_append (first second : List (ℕ × Bool)) :
    granted (first ++ second) = granted first + granted second := by
  simp only [granted, List.filter_append, List.map_append, List.sum_append]

variable {resource : BudgetResource}

theorem act_charge {limit account} (within : Within resource limit account)
    (scopeId : BudgetScopeId) (cost : ℕ) :
    Within resource limit (act resource account (.charge scopeId cost)).2 ∧
      (act resource account (.charge scopeId cost)).2.consumed.get resource =
        account.consumed.get resource +
          granted (act resource account (.charge scopeId cost)).1 := by
  by_cases affords : budgetAffords account resource cost = true
  · have room : (cost : ℤ) ≤ budgetLimit account resource - account.consumed.get resource :=
      of_decide_eq_true affords
    have consumes : (act resource account (.charge scopeId cost)).2.consumed.get resource =
        account.consumed.get resource + cost := by
      simp only [act, KernelBudgetGate.decideOn, if_pos affords, chargeBudget,
        ControlBudgets.add_get_self]
    have grants : granted (act resource account (.charge scopeId cost)).1 = cost := by
      simp [act, KernelBudgetGate.decideOn, affords, granted]
    refine ⟨⟨?_, ?_⟩, by rw [consumes, grants]⟩
    · simp only [act, KernelBudgetGate.decideOn, if_pos affords,
        ControlBudgets.budgetLimit_charge, ControlBudgets.budgetLimit_reason, within.ceiling]
    · rw [consumes]
      rw [within.ceiling] at room
      omega
  · have keeps : (act resource account (.charge scopeId cost)).2 =
        { account with terminationReason := some (budgetRefusal account resource) } := by
      simp only [act, KernelBudgetGate.decideOn, if_neg affords]
    have grants : granted (act resource account (.charge scopeId cost)).1 = 0 := by
      simp [act, KernelBudgetGate.decideOn, affords, granted]
    rw [keeps, grants]
    exact ⟨⟨(ControlBudgets.budgetLimit_reason _ _ _).trans within.ceiling, within.fits⟩, rfl⟩

theorem act_beginCycle {limit account} (within : Within resource limit account) :
    Within resource limit (act resource account .beginCycle).2 := by
  refine ⟨(ControlBudgets.budgetLimit_fresh _ _).trans within.ceiling, ?_⟩
  simp only [act, freshBudget, ControlBudgets.zeroConsumed_get, Nat.zero_le]

theorem granted_le {limit account} (within : Within resource limit account) {calls}
    (charges : .beginCycle ∉ calls) :
    account.consumed.get resource + granted (verdicts resource account calls) ≤ limit := by
  induction calls generalizing account with
  | nil => exact within.fits
  | cons call rest ih =>
    cases call with
    | beginCycle => exact absurd List.mem_cons_self charges
    | charge scopeId cost =>
      obtain ⟨still, moves⟩ := act_charge within scopeId cost
      have later := ih still fun member => charges (List.mem_cons_of_mem _ member)
      rw [verdicts, granted_append]
      omega

end ScopeAccount

namespace ControlBudgets

open ScopeAccount

theorem verdictsOn_eq (scopeId : BudgetScopeId) (budgets : ControlBudgets)
    (calls : List BudgetCall) :
    budgets.verdictsOn scopeId calls =
      verdicts (scopeSpec scopeId).consumedKey (budgets.account scopeId)
        (calls.filter (·.concerns scopeId)) := by
  induction calls generalizing budgets with
  | nil => rfl
  | cons call rest ih =>
    cases call with
    | beginCycle =>
      rw [verdictsOn, ih, beginCycle_account]
      rfl
    | charge charged cost =>
      by_cases same : charged = scopeId
      · subst same
        have kept : (BudgetCall.charge charged cost).concerns charged = true := decide_eq_true rfl
        rw [List.filter_cons_of_pos kept, verdictsOn, if_pos rfl, ih,
          charge_account, charge_eq]
        rfl
      · have skipped : (BudgetCall.charge charged cost).concerns scopeId = false :=
          decide_eq_false same
        rw [List.filter_cons_of_neg (by simp [skipped]), verdictsOn, if_neg same,
          ih, charge_account_of_ne (Ne.symm same)]

/-! ### Ceilings that are kept -/

theorem budgetLimit_withLimit (budget : ReasoningBudget) (limit : ℕ) (resource : BudgetResource) :
    budgetLimit (withLimit budget limit resource) resource = limit := by
  cases resource <;> rfl

/-- Every account keeps the ceiling its scope declares. -/
def Declared (budgets : ControlBudgets) : Prop :=
  ∀ scopeId, Within (scopeSpec scopeId).consumedKey (scopeLimit scopeId budgets.overrides)
    (budgets.account scopeId)

theorem create_declared (root : ReasoningBudget) (overrides : ControlBudgetOverrides) :
    (create root overrides).Declared := by
  intro scopeId
  refine ⟨(budgetLimit_fresh _ _).trans (budgetLimit_withLimit _ _ _), ?_⟩
  simp only [account, create, Option.getD_none, scopeBudget, freshBudget, zeroConsumed_get,
    Nat.zero_le]

theorem foldl_renew_overrides (scopeIds : List BudgetScopeId) (budgets : ControlBudgets) :
    (scopeIds.foldl renew budgets).overrides = budgets.overrides := by
  induction scopeIds generalizing budgets with
  | nil => rfl
  | cons first rest ih => rw [List.foldl_cons, ih, renew_eq]

theorem perform_overrides (budgets : ControlBudgets) (call : BudgetCall) :
    (budgets.perform call).overrides = budgets.overrides := by
  cases call with
  | beginCycle => exact foldl_renew_overrides _ budgets
  | charge scopeId cost => exact charge_overrides budgets scopeId cost

variable {budgets : ControlBudgets}

theorem perform_declared (declared : budgets.Declared) (call : BudgetCall) :
    (budgets.perform call).Declared := by
  intro scopeId
  rw [perform_overrides]
  cases call with
  | beginCycle =>
    rw [perform, beginCycle_account]
    exact act_beginCycle (declared scopeId)
  | charge charged cost =>
    by_cases same : scopeId = charged
    · subst same
      rw [perform, charge_account]
      exact (act_charge (declared scopeId) scopeId cost).1
    · rw [perform, charge_account_of_ne same]
      exact declared scopeId

theorem performAll_declared (declared : budgets.Declared) (calls : List BudgetCall) :
    (budgets.performAll calls).Declared :=
  List.foldlRecOn calls perform declared fun _ kept call _ => perform_declared kept call

theorem performAll_overrides (budgets : ControlBudgets) (calls : List BudgetCall) :
    (budgets.performAll calls).overrides = budgets.overrides := by
  induction calls generalizing budgets with
  | nil => rfl
  | cons call rest ih =>
    exact (ih (budgets.perform call)).trans (perform_overrides budgets call)

theorem counter_eq (budgets : ControlBudgets) (scopeId : BudgetScopeId)
    (resource : BudgetResource) :
    budgets.counter scopeId resource = (budgets.account scopeId).consumed.get resource := by
  unfold counter account
  cases budgets.gate.scopes scopeId with
  | none => exact (zeroConsumed_get resource).symm
  | some scope => rfl

theorem counter_of_refused {scopeId cost} (refused : (budgets.charge scopeId cost).1 = false)
    (other : BudgetScopeId) (resource : BudgetResource) :
    (budgets.charge scopeId cost).2.counter other resource = budgets.counter other resource := by
  rw [counter_eq, counter_eq]
  by_cases same : other = scopeId
  · subst same
    have tight :
        ¬ budgetAffords (budgets.account other) (scopeSpec other).consumedKey cost = true := by
      intro affords
      rw [charge_eq] at refused
      simp [KernelBudgetGate.decideOn, affords] at refused
    rw [charge_account, KernelBudgetGate.decideOn, if_neg tight]
  · rw [charge_account_of_ne same]

/-- The root budget a kernel starts from. -/
def narBudget : ReasoningBudget := ⟨1000, 100, 10000, 50, none, zeroConsumed⟩

/-- Some charges of the work of control, and of another scope between them. -/
def controlCharges : List BudgetCall :=
  [.charge .controlWork 9, .charge .premises 3, .charge .controlWork 9, .charge .controlWork 7]

end ControlBudgets

end Senars.Control
