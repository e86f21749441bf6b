/-
This file is the declared control budgets: the table of scopes, the gate that
accounts what each scope spends, and the port a component charges through.

A charge is granted when its cost fits in what is left of the one dimension its
scope spends, and only then is it counted. A refusal is written on the budget it
was refused on. A limit a configuration gives is checked when its scope is opened,
and a limit that is not positive where it must be makes the opening throw; so the
limits of a port are the ones that pass.
-/

import Mathlib.Data.List.Basic

namespace Senars.Control

/-! ### Budgets -/

/-- The four dimensions of a budget. -/
inductive BudgetResource where
  | cycles | depth | memoryOps | llmCalls
  deriving DecidableEq

inductive TerminationReason where
  | cycleBudget | depthBudget | memoryBudget | llmBudget
  | deadline | backpressure | aborted | completed
  deriving DecidableEq

structure ConsumedBudget where
  cycles : Nat
  depth : Nat
  memoryOps : Nat
  llmCalls : Nat
  deriving DecidableEq

structure ReasoningBudget where
  maxCycles : Nat
  maxDepth : Nat
  maxMemoryOps : Nat
  maxLMCalls : Nat
  terminationReason : Option TerminationReason
  consumed : ConsumedBudget
  deriving DecidableEq

def zeroConsumed : ConsumedBudget := ⟨0, 0, 0, 0⟩

def ConsumedBudget.get (consumed : ConsumedBudget) : BudgetResource → Nat
  | .cycles => consumed.cycles
  | .depth => consumed.depth
  | .memoryOps => consumed.memoryOps
  | .llmCalls => consumed.llmCalls

def ConsumedBudget.add (consumed : ConsumedBudget) (amount : Nat) :
    BudgetResource → ConsumedBudget
  | .cycles => { consumed with cycles := consumed.cycles + amount }
  | .depth => { consumed with depth := consumed.depth + amount }
  | .memoryOps => { consumed with memoryOps := consumed.memoryOps + amount }
  | .llmCalls => { consumed with llmCalls := consumed.llmCalls + amount }

/-- The reason a spent dimension is refused with. -/
def BudgetResource.reason : BudgetResource → TerminationReason
  | .cycles => .cycleBudget
  | .depth => .depthBudget
  | .memoryOps => .memoryBudget
  | .llmCalls => .llmBudget

/-- The ceiling of one dimension. -/
def budgetLimit (budget : ReasoningBudget) : BudgetResource → Nat
  | .cycles => budget.maxCycles
  | .depth => budget.maxDepth
  | .memoryOps => budget.maxMemoryOps
  | .llmCalls => budget.maxLMCalls

/-- The budget with another ceiling in one dimension. -/
def withLimit (budget : ReasoningBudget) (limit : Nat) : BudgetResource → ReasoningBudget
  | .cycles => { budget with maxCycles := limit }
  | .depth => { budget with maxDepth := limit }
  | .memoryOps => { budget with maxMemoryOps := limit }
  | .llmCalls => { budget with maxLMCalls := limit }

/-- The same ceilings, nothing spent. -/
def freshBudget (budget : ReasoningBudget) : ReasoningBudget :=
  { budget with consumed := zeroConsumed, terminationReason := none }

def budgetRemaining (budget : ReasoningBudget) (resource : BudgetResource) : Int :=
  budgetLimit budget resource - budget.consumed.get resource

def budgetAffords (budget : ReasoningBudget) (resource : BudgetResource) (amount : Nat) : Bool :=
  (amount : Int) ≤ budgetRemaining budget resource

def budgetRefusal (budget : ReasoningBudget) (resource : BudgetResource) : TerminationReason :=
  if budgetRemaining budget resource ≤ 0 then resource.reason else .backpressure

def chargeBudget (budget : ReasoningBudget) (resource : BudgetResource) (amount : Nat) :
    ReasoningBudget :=
  { budget with consumed := budget.consumed.add amount resource }

/-! ### Scopes -/

inductive BudgetScopeId where
  | derivations | premises | candidateDerivations | proposalApplication | controlWork
  | decisionDerivations
  deriving DecidableEq

inductive BudgetOperation where
  | nalStep | lmCall | memoryOp | derivationDepth | systemoneJudgment
  | derivation | premiseSelection | candidateDerivation | proposalApplication | controlWork
  | decisionDerivation
  deriving DecidableEq

/-- One row of the scope table. -/
structure BudgetScopeSpec where
  operation : BudgetOperation
  consumedKey : BudgetResource
  defaultLimit : Nat

/-- The scope table. -/
def scopeSpec : BudgetScopeId → BudgetScopeSpec
  | .derivations => ⟨.derivation, .cycles, 100⟩
  | .premises => ⟨.premiseSelection, .cycles, 64⟩
  | .candidateDerivations => ⟨.candidateDerivation, .cycles, 16384⟩
  | .proposalApplication => ⟨.proposalApplication, .memoryOps, 64⟩
  | .controlWork => ⟨.controlWork, .cycles, 16⟩
  | .decisionDerivations => ⟨.decisionDerivation, .llmCalls, 8⟩

def budgetScopeIds : List BudgetScopeId :=
  [.derivations, .premises, .candidateDerivations, .proposalApplication, .controlWork,
    .decisionDerivations]

/-- What an operation spends, and its price. -/
structure OperationSpec where
  resource : BudgetResource
  cost : Nat

def specOf : BudgetOperation → OperationSpec
  | .nalStep => ⟨.cycles, 1⟩
  | .lmCall => ⟨.llmCalls, 10⟩
  | .memoryOp => ⟨.memoryOps, 1⟩
  | .derivationDepth => ⟨.depth, 1⟩
  | .systemoneJudgment => ⟨.llmCalls, 5⟩
  | .derivation => ⟨(scopeSpec .derivations).consumedKey, 1⟩
  | .premiseSelection => ⟨(scopeSpec .premises).consumedKey, 1⟩
  | .candidateDerivation => ⟨(scopeSpec .candidateDerivations).consumedKey, 1⟩
  | .proposalApplication => ⟨(scopeSpec .proposalApplication).consumedKey, 1⟩
  | .controlWork => ⟨(scopeSpec .controlWork).consumedKey, 1⟩
  | .decisionDerivation => ⟨(scopeSpec .decisionDerivations).consumedKey, 1⟩

theorem specOf_scopeSpec (scopeId : BudgetScopeId) :
    (specOf (scopeSpec scopeId).operation).resource = (scopeSpec scopeId).consumedKey := by
  cases scopeId <;> rfl

/-- The limits a configuration gives, which pass the check of a budget. -/
structure ControlBudgetOverrides where
  limit : BudgetScopeId → Option Nat
  positive : ∀ scopeId given, limit scopeId = some given →
    (scopeSpec scopeId).consumedKey = .llmCalls ∨ 0 < given

def scopeLimit (scopeId : BudgetScopeId) (overrides : ControlBudgetOverrides) : Nat :=
  (overrides.limit scopeId).getD (scopeSpec scopeId).defaultLimit

/-- The budget a scope opens with: its own ceiling over the others of the base. -/
def scopeBudget (scopeId : BudgetScopeId) (base : ReasoningBudget)
    (overrides : ControlBudgetOverrides) : ReasoningBudget :=
  freshBudget (withLimit base (scopeLimit scopeId overrides) (scopeSpec scopeId).consumedKey)

/-! ### The gate -/

structure KernelBudgetGate where
  budget : ReasoningBudget
  scopes : BudgetScopeId → Option ReasoningBudget

namespace KernelBudgetGate

/-- The budget of a scope, which is opened over the gate's own where it is not open. -/
def resolveBudget (gate : KernelBudgetGate) (scopeId : BudgetScopeId) : ReasoningBudget :=
  (gate.scopes scopeId).getD (freshBudget gate.budget)

def store (gate : KernelBudgetGate) (scopeId : BudgetScopeId) (budget : ReasoningBudget) :
    KernelBudgetGate :=
  { gate with scopes := Function.update gate.scopes scopeId (some budget) }

/-- Whether an operation is granted, and the budget it was decided on. -/
def decideOn (budget : ReasoningBudget) (resource : BudgetResource) (cost : Nat) :
    Bool × ReasoningBudget :=
  if budgetAffords budget resource cost then
    (true, chargeBudget { budget with terminationReason := none } resource cost)
  else (false, { budget with terminationReason := some (budgetRefusal budget resource) })

/-- `check` of an operation in a scope. -/
def check (gate : KernelBudgetGate) (operation : BudgetOperation) (scopeId : BudgetScopeId)
    (estimatedCost : Nat) : Bool × KernelBudgetGate :=
  let decided := decideOn (gate.resolveBudget scopeId) (specOf operation).resource estimatedCost
  (decided.1, gate.store scopeId decided.2)

def createScope (gate : KernelBudgetGate) (scopeId : BudgetScopeId) (budget : ReasoningBudget) :
    KernelBudgetGate := gate.store scopeId budget

/-- Zero what an open scope has consumed. -/
def resetConsumption (gate : KernelBudgetGate) (scopeId : BudgetScopeId) : KernelBudgetGate :=
  match gate.scopes scopeId with
  | none => gate
  | some scope => gate.store scopeId (freshBudget scope)

@[simp] theorem store_scopes_self (gate : KernelBudgetGate) (scopeId : BudgetScopeId)
    (budget : ReasoningBudget) : (gate.store scopeId budget).scopes scopeId = some budget :=
  Function.update_self _ _ _

theorem store_scopes_of_ne {gate : KernelBudgetGate} {scopeId other} (different : other ≠ scopeId)
    (budget : ReasoningBudget) : (gate.store scopeId budget).scopes other = gate.scopes other :=
  Function.update_of_ne different _ _

end KernelBudgetGate

/-! ### The port -/

structure ControlBudgets where
  gate : KernelBudgetGate
  overrides : ControlBudgetOverrides

namespace ControlBudgets

/-- Open a scope from its declared ceiling, if it is not open. -/
def openScope (budgets : ControlBudgets) (scopeId : BudgetScopeId) : ControlBudgets :=
  match budgets.gate.scopes scopeId with
  | some _ => budgets
  | none => { budgets with
      gate := budgets.gate.createScope scopeId
        (scopeBudget scopeId budgets.gate.budget budgets.overrides) }

/-- Spend some units of a scope. -/
def charge (budgets : ControlBudgets) (scopeId : BudgetScopeId) (cost : Nat) :
    Bool × ControlBudgets :=
  let opened := budgets.openScope scopeId
  let output := opened.gate.check (scopeSpec scopeId).operation scopeId cost
  (output.1, { opened with gate := output.2 })

/-- Open one scope with nothing spent. -/
def renew (budgets : ControlBudgets) (scopeId : BudgetScopeId) : ControlBudgets :=
  let opened := budgets.openScope scopeId
  { opened with gate := opened.gate.resetConsumption scopeId }

def beginCycle (budgets : ControlBudgets) : ControlBudgets := budgetScopeIds.foldl renew budgets

/-- What a summary says about one scope. -/
structure Spend where
  ceiling : Nat
  spent : Nat
  terminationReason : Option TerminationReason
  deriving DecidableEq

/-- The row of an open scope in the summary of what was spent. -/
def spend (budgets : ControlBudgets) (scopeId : BudgetScopeId) : Option Spend :=
  (budgets.gate.scopes scopeId).map fun scope =>
    ⟨budgetLimit scope (scopeSpec scopeId).consumedKey,
      scope.consumed.get (scopeSpec scopeId).consumedKey, scope.terminationReason⟩

end ControlBudgets

/-! ### What a charge and a new cycle do -/

namespace ControlBudgets

variable {scopeId other : BudgetScopeId} {budgets : ControlBudgets} {row : Spend}

theorem exists_of_spend (known : budgets.spend scopeId = some row) :
    ∃ scope, budgets.gate.scopes scopeId = some scope ∧
      row = ⟨budgetLimit scope (scopeSpec scopeId).consumedKey,
        scope.consumed.get (scopeSpec scopeId).consumedKey, scope.terminationReason⟩ := by
  obtain ⟨scope, found, same⟩ := Option.map_eq_some_iff.mp known
  exact ⟨scope, found, same.symm⟩

theorem spend_of_stored {scope} (stored : budgets.gate.scopes scopeId = some scope) :
    budgets.spend scopeId = some ⟨budgetLimit scope (scopeSpec scopeId).consumedKey,
      scope.consumed.get (scopeSpec scopeId).consumedKey, scope.terminationReason⟩ := by
  rw [spend, stored, Option.map_some]

theorem openScope_of_open {scope} (found : budgets.gate.scopes scopeId = some scope) :
    budgets.openScope scopeId = budgets := by
  rw [openScope, found]

@[simp] theorem add_get_self (consumed : ConsumedBudget) (amount : Nat)
    (resource : BudgetResource) :
    (consumed.add amount resource).get resource = consumed.get resource + amount := by
  cases resource <;> rfl

@[simp] theorem zeroConsumed_get (resource : BudgetResource) : zeroConsumed.get resource = 0 := by
  cases resource <;> rfl

@[simp] theorem budgetLimit_charge (budget : ReasoningBudget) (amount : Nat)
    (charged resource : BudgetResource) :
    budgetLimit (chargeBudget budget charged amount) resource = budgetLimit budget resource := by
  cases resource <;> rfl

@[simp] theorem budgetLimit_fresh (budget : ReasoningBudget) (resource : BudgetResource) :
    budgetLimit (freshBudget budget) resource = budgetLimit budget resource := by
  cases resource <;> rfl

theorem budgetLimit_reason (budget : ReasoningBudget) (reason : Option TerminationReason)
    (resource : BudgetResource) :
    budgetLimit { budget with terminationReason := reason } resource =
      budgetLimit budget resource := by
  cases resource <;> rfl

theorem charge_open (known : budgets.spend scopeId = some row) (cost : Nat) :
    (row.spent + cost ≤ row.ceiling ∧ (budgets.charge scopeId cost).1 = true ∧
      (budgets.charge scopeId cost).2.spend scopeId =
        some ⟨row.ceiling, row.spent + cost, none⟩) ∨
    (row.ceiling < row.spent + cost ∧ (budgets.charge scopeId cost).1 = false ∧
      ∃ reason, (budgets.charge scopeId cost).2.spend scopeId =
        some ⟨row.ceiling, row.spent, some reason⟩) := by
  obtain ⟨scope, found, rfl⟩ := exists_of_spend known
  have charged : budgets.charge scopeId cost =
      ((KernelBudgetGate.decideOn scope (scopeSpec scopeId).consumedKey cost).1,
        ⟨budgets.gate.store scopeId
          (KernelBudgetGate.decideOn scope (scopeSpec scopeId).consumedKey cost).2,
          budgets.overrides⟩) := by
    simp only [charge, openScope_of_open found, KernelBudgetGate.check,
      KernelBudgetGate.resolveBudget, found, Option.getD_some, specOf_scopeSpec]
  rw [charged]
  by_cases fits : budgetAffords scope (scopeSpec scopeId).consumedKey cost = true
  · refine .inl ⟨?_, by simp [KernelBudgetGate.decideOn, fits], ?_⟩
    · have room := of_decide_eq_true fits
      simp only [budgetRemaining] at room ⊢
      omega
    · rw [spend_of_stored (KernelBudgetGate.store_scopes_self _ _ _), KernelBudgetGate.decideOn,
        if_pos fits]
      simp only [budgetLimit_charge, budgetLimit_reason]
      simp only [chargeBudget, add_get_self]
  · refine .inr ⟨?_, by simp [KernelBudgetGate.decideOn, fits],
      budgetRefusal scope (scopeSpec scopeId).consumedKey, ?_⟩
    · have tight : ¬ (cost : Int) ≤ budgetRemaining scope (scopeSpec scopeId).consumedKey :=
        fun room => fits (decide_eq_true room)
      simp only [budgetRemaining] at tight ⊢
      omega
    · rw [spend_of_stored (KernelBudgetGate.store_scopes_self _ _ _), KernelBudgetGate.decideOn,
        if_neg fits]
      simp only [budgetLimit_reason]

theorem openScope_spend_of_ne (different : other ≠ scopeId) (budgets : ControlBudgets) :
    (budgets.openScope scopeId).spend other = budgets.spend other := by
  unfold openScope
  split
  · rfl
  · simp only [spend, KernelBudgetGate.createScope,
      KernelBudgetGate.store_scopes_of_ne different]

theorem charge_spend_of_ne (different : other ≠ scopeId) (budgets : ControlBudgets) (cost : Nat) :
    (budgets.charge scopeId cost).2.spend other = budgets.spend other := by
  rw [← openScope_spend_of_ne different budgets]
  simp only [charge, spend, KernelBudgetGate.check, KernelBudgetGate.store_scopes_of_ne different]

theorem renew_spend_of_ne (different : other ≠ scopeId) (budgets : ControlBudgets) :
    (budgets.renew scopeId).spend other = budgets.spend other := by
  rw [← openScope_spend_of_ne different budgets]
  simp only [renew, spend, KernelBudgetGate.resetConsumption]
  split
  · rfl
  · rw [KernelBudgetGate.store_scopes_of_ne different]

theorem openScope_open (budgets : ControlBudgets) (scopeId : BudgetScopeId) :
    ∃ scope, (budgets.openScope scopeId).gate.scopes scopeId = some scope := by
  unfold openScope
  split
  · rename_i scope found
    exact ⟨scope, found⟩
  · exact ⟨_, KernelBudgetGate.store_scopes_self _ _ _⟩

/-- What is left of a scope, which opens where it is not open. -/
def left (budgets : ControlBudgets) (scopeId : BudgetScopeId) : Nat :=
  match (budgets.openScope scopeId).spend scopeId with
  | some row => row.ceiling - row.spent
  | none => 0

theorem left_of_spend (known : budgets.spend scopeId = some row) :
    budgets.left scopeId = row.ceiling - row.spent := by
  obtain ⟨scope, found, _⟩ := exists_of_spend known
  rw [left, openScope_of_open found, known]

theorem charge_one (budgets : ControlBudgets) (scopeId : BudgetScopeId) :
    (budgets.charge scopeId 1).1 = decide (0 < budgets.left scopeId) ∧
      (budgets.charge scopeId 1).2.left scopeId = budgets.left scopeId - 1 := by
  obtain ⟨scope, found⟩ := openScope_open budgets scopeId
  have known := spend_of_stored found
  have opens : (budgets.openScope scopeId).charge scopeId 1 = budgets.charge scopeId 1 := by
    unfold charge
    rw [openScope_of_open found]
  have remains : budgets.left scopeId = (budgets.openScope scopeId).left scopeId := by
    unfold left
    rw [openScope_of_open found]
  rw [remains, left_of_spend known, ← opens]
  rcases charge_open known 1 with ⟨fits, granted, row⟩ | ⟨tight, refused, reason, row⟩
  · rw [granted, left_of_spend row]
    refine ⟨(decide_eq_true ?_).symm, ?_⟩ <;> dsimp only at fits ⊢ <;> omega
  · rw [refused, left_of_spend row]
    refine ⟨(decide_eq_false ?_).symm, ?_⟩ <;> dsimp only at tight ⊢ <;> omega

theorem renew_spend_self (budgets : ControlBudgets) (scopeId : BudgetScopeId) :
    ∃ ceiling, (budgets.renew scopeId).spend scopeId = some ⟨ceiling, 0, none⟩ := by
  obtain ⟨scope, found⟩ := openScope_open budgets scopeId
  have renewed : (budgets.renew scopeId).gate.scopes scopeId = some (freshBudget scope) := by
    simp only [renew, KernelBudgetGate.resetConsumption, found,
      KernelBudgetGate.store_scopes_self]
  rw [spend_of_stored renewed]
  simp [freshBudget]

theorem foldl_renew_spend {scopeIds : List BudgetScopeId} (budgets : ControlBudgets)
    (known : scopeId ∈ scopeIds ∨ ∃ ceiling, budgets.spend scopeId = some ⟨ceiling, 0, none⟩) :
    ∃ ceiling, (scopeIds.foldl renew budgets).spend scopeId = some ⟨ceiling, 0, none⟩ := by
  induction scopeIds generalizing budgets with
  | nil => exact known.resolve_left List.not_mem_nil
  | cons first rest ih =>
    refine ih (budgets.renew first) ?_
    by_cases same : scopeId = first
    · exact .inr (same ▸ renew_spend_self budgets first)
    · rw [renew_spend_of_ne same]
      exact known.imp_left fun member => (List.mem_cons.mp member).resolve_left same

theorem beginCycle_spend (budgets : ControlBudgets) (scopeId : BudgetScopeId) :
    ∃ ceiling, budgets.beginCycle.spend scopeId = some ⟨ceiling, 0, none⟩ :=
  foldl_renew_spend budgets (.inl (by cases scopeId <;> decide))

end ControlBudgets

/-- What a component charges: nothing, or the budgets that were bound. -/
inductive ControlBudgetPort where
  | unbudgeted
  | bound (budgets : ControlBudgets)

namespace ControlBudgetPort

def budgeted : ControlBudgetPort → Bool
  | .unbudgeted => false
  | .bound _ => true

def charge (port : ControlBudgetPort) (scopeId : BudgetScopeId) : Bool × ControlBudgetPort :=
  match port with
  | .unbudgeted => (true, .unbudgeted)
  | .bound budgets =>
    let output := budgets.charge scopeId 1
    (output.1, .bound output.2)

def beginCycle : ControlBudgetPort → ControlBudgetPort
  | .unbudgeted => .unbudgeted
  | .bound budgets => .bound budgets.beginCycle

/-- The summary of what was spent, of one scope. -/
def spend (port : ControlBudgetPort) (scopeId : BudgetScopeId) : Option ControlBudgets.Spend :=
  match port with
  | .unbudgeted => none
  | .bound budgets => budgets.spend scopeId

end ControlBudgetPort

end Senars.Control
