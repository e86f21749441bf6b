/-
This file is about the tree of threads that spawn each other. Whatever they are told to do, in any
order, all of them together never consume more than the ceiling of the root.

What a thread has for itself is what it consumed itself and what it has left. Consuming moves it
from the one to the other, and spawning a child moves what is left to the child, so that the sum
over the tree never changes.
-/

import Mathlib.Algebra.BigOperators.Group.List.Basic
import Mathlib.Algebra.Order.BigOperators.Group.List
import Mathlib.Data.List.Induction
import Mathlib.Tactic.Linarith
import Mathlib.Tactic.Ring
import Senars.Library.Runs
import Senars.Threads.CognitiveThread

namespace Senars.Threads

open Library Library.JsNumber Control

/-! ### The tree -/

/-- An amount of something. -/
abbrev Amount := {number : JsNumber // lessEq 0 number = true}

/-- A thread, and what it consumed itself: what it was charged for its children is left out. -/
structure SpendingThread extends CognitiveThread where
  own : BudgetResource → JsNumber := fun _ => 0

inductive ThreadEvent where
  | spawn (index : ℕ) (childId : String) (allocation : BudgetResource → Option Amount)
  | consume (index : ℕ) (resource : BudgetResource) (amount : Amount)
  | send (index : ℕ) (now : ℕ) (aborted : Bool)
  | run (index : ℕ)

namespace SpendingThread

/-- Count an amount as consumed where it was. -/
def count (spending : SpendingThread) (consumed : Bool) (resource : BudgetResource)
    (amount : JsNumber) : BudgetResource → JsNumber :=
  if consumed then Function.update spending.own resource (spending.own resource + amount)
  else spending.own

def spend (spending : SpendingThread) (resource : BudgetResource) (amount : JsNumber) :
    SpendingThread :=
  let (granted, toCognitiveThread) := spending.consume resource amount
  { toCognitiveThread, own := spending.count granted resource amount }

def receive (spending : SpendingThread) (now : ℕ) (aborted : Bool) : SpendingThread :=
  let (came, toCognitiveThread) := spending.send now aborted
  { toCognitiveThread, own := spending.count (came ≠ .exhausted) .cycles 1 }

end SpendingThread

/-- One call of a thread. A child comes at the end. -/
def threadStep : Machine (List SpendingThread) ThreadEvent
  | threads, .spawn index childId allocation =>
    threads[index]?.map fun spending =>
      let (parent, child) := spending.spawn childId fun resource => (allocation resource).map (·.1)
      threads.set index { spending with toCognitiveThread := parent } ++
        [{ toCognitiveThread := child }]
  | threads, .consume index resource amount =>
    threads[index]?.map fun spending => threads.set index (spending.spend resource amount)
  | threads, .send index now aborted =>
    threads[index]?.map fun spending => threads.set index (spending.receive now aborted)
  | threads, .run index =>
    threads[index]?.map fun spending => threads.set index (spending.spend .cycles 1)

/-! ### One slice -/

/-- A slice with so much consumed and so much left in a dimension. -/
structure Leaves (budget : BudgetSlice) (resource : BudgetResource) (consumed left : ℚ) :
    Prop where
  isConsumed : budget.consumed resource = .finite consumed
  isCeiling : budget.ceiling resource = .finite (consumed + left)
  nonneg : 0 ≤ left

section

variable {budget : BudgetSlice} {resource other : BudgetResource} {consumed left amount : ℚ}

theorem Leaves.remaining (leaves : Leaves budget resource consumed left) :
    budget.remaining resource = .finite left := by
  rw [BudgetSlice.remaining, leaves.isConsumed, leaves.isCeiling, finite_sub, add_sub_cancel_left]

theorem remainingOf_eq_sup (isLeft : budget.remaining resource = .finite left) :
    budget.remainingOf resource = .finite (0 ⊔ left) := by
  have below : JsNumber.min (.infinite false) (.finite left) = .finite left := by
    simp [JsNumber.min, less]
  rw [BudgetSlice.remainingOf, isLeft, below, ofNat_eq, max_finite, Nat.cast_zero]

theorem remainingOf_finite (isLeft : budget.remaining resource = .finite left)
    (nonneg : 0 ≤ left) : budget.remainingOf resource = .finite left := by
  rw [remainingOf_eq_sup isLeft, sup_eq_right.mpr nonneg]

theorem Leaves.remainingOf (leaves : Leaves budget resource consumed left) :
    budget.remainingOf resource = .finite left :=
  remainingOf_finite leaves.remaining leaves.nonneg

theorem lessEq_finite (first second : ℚ) :
    lessEq (.finite first) (.finite second) = decide (first ≤ second) := by
  rw [Bool.eq_iff_iff, lessEq_iff, less_finite, decide_eq_false_iff_not]
  simp

theorem Leaves.affords (leaves : Leaves budget resource consumed left) (fits : amount ≤ left) :
    budget.affords resource (.finite amount) = true := by
  rw [BudgetSlice.affords, leaves.remaining, lessEq_finite, decide_eq_true fits]

theorem Leaves.consume (leaves : Leaves budget resource consumed left) (fits : amount ≤ left) :
    budget.consume resource (.finite amount) = (true, budget.charge resource (.finite amount)) := by
  rw [BudgetSlice.consume, if_pos (leaves.affords fits)]

theorem Leaves.charge (leaves : Leaves budget resource consumed left) (fits : amount ≤ left) :
    Leaves (budget.charge resource (.finite amount)) resource (consumed + amount)
      (left - amount) where
  isConsumed := by
    show Function.update _ _ _ resource = _
    rw [Function.update_self, leaves.isConsumed, finite_add]
  isCeiling := by
    show budget.ceiling resource = _
    rw [leaves.isCeiling]
    ring
  nonneg := sub_nonneg.mpr fits

theorem consume_cases (leaves : Leaves budget resource consumed left) {number}
    (nonneg : lessEq 0 number = true) :
    ((budget.consume resource number).1 = false ∧
        (budget.consume resource number).2.consumed = budget.consumed ∧
        (budget.consume resource number).2.ceiling = budget.ceiling) ∨
      ∃ amount, 0 ≤ amount ∧ amount ≤ left ∧ number = .finite amount := by
  by_cases affords : budget.affords resource number = true
  · rw [BudgetSlice.affords, leaves.remaining] at affords
    cases number with
    | nan => cases nonneg
    | infinite negative =>
      cases negative with
      | true => cases nonneg
      | false => cases affords
    | finite amount =>
      rw [ofNat_eq, lessEq_finite] at nonneg
      rw [lessEq_finite] at affords
      exact .inr ⟨amount, of_decide_eq_true nonneg, of_decide_eq_true affords, rfl⟩
  · rw [BudgetSlice.consume, if_neg affords]
    exact .inl ⟨rfl, rfl, rfl⟩

end

/-! ### One thread -/

/-- A thread that consumed so much itself in a dimension, among all that is consumed, and has so
much left. -/
structure Accounts (spending : SpendingThread) (resource : BudgetResource)
    (own consumed left : ℚ) : Prop where
  isOwn : spending.own resource = .finite own
  leaves : Leaves spending.budget resource consumed left
  nonneg : 0 ≤ own
  among : own ≤ consumed

/-- A thread with accounts in every dimension. -/
def Accounted (spending : SpendingThread) : Prop :=
  ∀ resource, ∃ own consumed left, Accounts spending resource own consumed left

/-- What a thread has for itself in a dimension. -/
def worth (resource : BudgetResource) (spending : SpendingThread) : ℚ :=
  (spending.own resource).value + (spending.budget.remaining resource).value

variable {spending before after : SpendingThread} {resource : BudgetResource} {consumed left : ℚ}

theorem Accounts.worth_eq {own} (accounts : Accounts spending resource own consumed left) :
    worth resource spending = own + left := by
  rw [worth, accounts.isOwn, accounts.leaves.remaining]
  rfl

theorem Accounts.of_same {own} (accounts : Accounts before resource own consumed left)
    (sameOwn : after.own resource = before.own resource)
    (sameConsumed : after.budget.consumed resource = before.budget.consumed resource)
    (sameCeiling : after.budget.ceiling resource = before.budget.ceiling resource) :
    Accounts after resource own consumed left where
  isOwn := sameOwn.trans accounts.isOwn
  leaves :=
    { isConsumed := sameConsumed.trans accounts.leaves.isConsumed
      isCeiling := sameCeiling.trans accounts.leaves.isCeiling
      nonneg := accounts.leaves.nonneg }
  nonneg := accounts.nonneg
  among := accounts.among

/-- A call leaves a thread with accounts, and with as much for itself. -/
structure Preserves (before after : SpendingThread) : Prop where
  accounted : Accounted after
  worth : ∀ resource, worth resource after = worth resource before

theorem preserves_of_accounts (each : ∀ resource, ∃ own consumed left amount, 0 ≤ amount ∧
      Accounts before resource own consumed left ∧
        Accounts after resource (own + amount) (consumed + amount) (left - amount)) :
    Preserves before after where
  accounted resource := by
    obtain ⟨own, consumed, left, amount, _, _, accounts⟩ := each resource
    exact ⟨_, _, _, accounts⟩
  worth resource := by
    obtain ⟨own, consumed, left, amount, _, accounts, accounts'⟩ := each resource
    rw [accounts.worth_eq, accounts'.worth_eq]
    ring

theorem preserves_of_same (accounted : Accounted before) (own : after.own = before.own)
    (consumed : after.budget.consumed = before.budget.consumed)
    (ceiling : after.budget.ceiling = before.budget.ceiling) : Preserves before after := by
  refine preserves_of_accounts fun resource => ?_
  obtain ⟨own', consumed', left, accounts⟩ := accounted resource
  refine ⟨own', consumed', left, 0, le_rfl, accounts, ?_⟩
  rw [add_zero, add_zero, sub_zero]
  exact accounts.of_same (by rw [own]) (by rw [consumed]) (by rw [ceiling])

theorem Preserves.trans {first second third} (early : Preserves first second)
    (late : Preserves second third) : Preserves first third where
  accounted := late.accounted
  worth resource := (late.worth resource).trans (early.worth resource)

theorem spend_preserves (accounted : Accounted spending) (resource : BudgetResource)
    {number : JsNumber} (nonneg : lessEq 0 number = true) :
    Preserves spending (spending.spend resource number) := by
  obtain ⟨own, consumed, left, accounts⟩ := accounted resource
  unfold SpendingThread.spend CognitiveThread.consume
  dsimp only
  rcases consume_cases accounts.leaves nonneg with
    ⟨refused, sameConsumed, sameCeiling⟩ | ⟨amount, isNonneg, fits, rfl⟩
  · refine preserves_of_same accounted ?_ sameConsumed sameCeiling
    rw [refused]
    rfl
  · rw [accounts.leaves.consume fits]
    refine preserves_of_accounts fun other => ?_
    by_cases same : other = resource
    · subst same
      refine ⟨own, consumed, left, amount, isNonneg, accounts, ?_, accounts.leaves.charge fits, ?_,
        ?_⟩
      · show Function.update spending.own other _ other = _
        rw [Function.update_self, accounts.isOwn, finite_add]
      · exact add_nonneg accounts.nonneg isNonneg
      · exact add_le_add_left accounts.among amount
    · obtain ⟨own', consumed', left', accounts'⟩ := accounted other
      refine ⟨own', consumed', left', 0, le_rfl, accounts', ?_⟩
      rw [add_zero, add_zero, sub_zero]
      refine accounts'.of_same ?_ ?_ rfl
      · exact Function.update_of_ne same _ _
      · exact Function.update_of_ne same _ _

theorem receive_preserves (accounted : Accounted spending) (now : ℕ) (aborted : Bool) :
    Preserves spending (spending.receive now aborted) := by
  unfold SpendingThread.receive CognitiveThread.send
  dsimp only
  split
  · exact preserves_of_same accounted rfl rfl rfl
  · have spends := spend_preserves accounted .cycles (show lessEq 0 (1 : JsNumber) = true from rfl)
    unfold SpendingThread.spend at spends
    split
    · next thread refused =>
      rw [refused] at spends
      exact spends
    · next thread granted =>
      rw [granted] at spends
      split
      · exact spends
      · exact spends.trans (preserves_of_same spends.accounted rfl rfl rfl)

/-! ### A child -/

theorem resolveAllocation_spec {budget} (leaves : Leaves budget resource consumed left)
    {requested fallback}
    (isRequest : ∀ number, requested resource = some number → lessEq 0 number = true)
    (isDefault : ∀ number, fallback budget.remainingOf resource = some number →
      lessEq 0 number = true) :
    ∃ share, 0 ≤ share ∧ share ≤ left ∧
      budget.resolveAllocation requested fallback resource = .finite share := by
  unfold BudgetSlice.resolveAllocation
  rw [leaves.remainingOf]
  have nonneg : lessEq 0 ((requested resource).getD
      ((fallback budget.remainingOf resource).getD 0)) = true := by
    cases request : requested resource with
    | some number => exact isRequest number request
    | none =>
      cases share : fallback budget.remainingOf resource with
      | some number => exact isDefault number share
      | none => rfl
  generalize (requested resource).getD ((fallback budget.remainingOf resource).getD 0) = asked
    at nonneg ⊢
  cases asked with
  | nan => cases nonneg
  | infinite negative =>
    cases negative with
    | true => cases nonneg
    | false =>
      refine ⟨left, leaves.nonneg, le_rfl, ?_⟩
      simp [JsNumber.min, less]
  | finite amount =>
    rw [ofNat_eq, lessEq_finite, decide_eq_true_eq] at nonneg
    exact ⟨amount ⊓ left, le_inf nonneg leaves.nonneg, inf_le_right, min_finite amount left⟩

theorem shareOf_nonneg {budget} (leaves : Leaves budget resource consumed left) (shares : ℕ)
    (some_shares : shares ≠ 0) {number}
    (share : CognitiveThread.shareOf shares budget.remainingOf resource = some number) :
    lessEq 0 number = true := by
  have part : lessEq 0 (perPart (budget.remainingOf resource) shares 0) = true := by
    have divided : (shares : ℚ) ≠ 0 := Nat.cast_ne_zero.mpr some_shares
    rw [perPart, leaves.remainingOf, finite_div divided, JsNumber.floor, ofNat_eq, max_finite,
      lessEq_finite, decide_eq_true_eq]
    exact le_sup_left
  cases resource with
  | depth =>
    cases share
    rw [leaves.remainingOf, ofNat_eq, lessEq_finite]
    exact decide_eq_true leaves.nonneg
  | cycles => cases share; exact part
  | memoryOps => cases share; exact part
  | llmCalls => cases share; exact part

/-- Charging one dimension of an allocation. -/
def chargeShare (allocation : BudgetResource → JsNumber) (budget : BudgetSlice)
    (resource : BudgetResource) : BudgetSlice :=
  if less 0 (allocation resource) then (budget.consume resource (allocation resource)).2
  else budget

namespace BudgetSlice

/-- What is consumed once an allocation that fits is charged. -/
def consumedAfter (budget : BudgetSlice) (allocation : BudgetResource → JsNumber)
    (resource : BudgetResource) : JsNumber :=
  if less 0 (allocation resource) then budget.consumed resource + allocation resource
  else budget.consumed resource

theorem chargeShare_eq {budget allocation resource} (fits : less 0 (allocation resource) = true →
      budget.affords resource (allocation resource) = true) :
    chargeShare allocation budget resource =
      { budget with
        consumed := Function.update budget.consumed resource
          (budget.consumedAfter allocation resource) } := by
  unfold chargeShare consumedAfter
  split
  · next positive =>
    rw [BudgetSlice.consume, if_pos (fits positive)]
    rfl
  · rw [Function.update_eq_self]

theorem chargeAllocation_eq {budget : BudgetSlice} {allocation}
    (fits : ∀ resource, less 0 (allocation resource) = true →
      budget.affords resource (allocation resource) = true) :
    budget.chargeAllocation allocation =
      { budget with consumed := budget.consumedAfter allocation } := by
  have charged : ∀ resources : List BudgetResource, resources.Nodup →
      resources.foldl (chargeShare allocation) budget =
        { budget with
          consumed := fun resource =>
            if resource ∈ resources then budget.consumedAfter allocation resource
            else budget.consumed resource } := by
    intro resources distinct
    induction resources using List.reverseRecOn with
    | nil => simp
    | append_singleton resources last ih =>
      obtain ⟨earlier, _, apart⟩ := List.nodup_append.mp distinct
      have absent : last ∉ resources :=
        fun inside => apart last inside last (List.mem_singleton_self last) rfl
      rw [List.foldl_append, List.foldl_cons, List.foldl_nil, ih earlier,
        chargeShare_eq]
      · congr 1
        funext resource
        by_cases same : resource = last
        · subst same
          simp [consumedAfter, absent]
        · simp [same]
      · intro positive
        show lessEq _ (budget.ceiling last - if last ∈ resources then _ else _) = true
        rw [if_neg absent]
        exact fits last positive
  have all := charged allResources (by decide)
  refine all.trans ?_
  congr 1
  funext resource
  rw [if_pos (by cases resource <;> decide)]

end BudgetSlice

theorem Leaves.chargeAllocation {budget allocation} {consumed left share : BudgetResource → ℚ}
    (shares : ∀ resource, 0 ≤ share resource ∧ share resource ≤ left resource ∧
      allocation resource = .finite (share resource))
    (leaves : ∀ resource, Leaves budget resource (consumed resource) (left resource))
    (resource : BudgetResource) :
    Leaves (budget.chargeAllocation allocation) resource (consumed resource + share resource)
      (left resource - share resource) := by
  have charged : budget.chargeAllocation allocation =
      { budget with consumed := budget.consumedAfter allocation } := by
    refine BudgetSlice.chargeAllocation_eq fun resource _ => ?_
    rw [(shares resource).2.2]
    exact (leaves resource).affords (shares resource).2.1
  obtain ⟨nonneg, fits, isShare⟩ := shares resource
  rw [charged]
  refine ⟨?_, ?_, sub_nonneg.mpr fits⟩
  · show budget.consumedAfter allocation resource = _
    rw [BudgetSlice.consumedAfter, isShare, ofNat_eq, less_finite, Nat.cast_zero,
      (leaves resource).isConsumed]
    split
    · rw [finite_add]
    · next notPositive =>
      have isZero : share resource = 0 :=
        le_antisymm (not_lt.mp fun positive => notPositive (decide_eq_true positive)) nonneg
      rw [isZero, add_zero]
  · show budget.ceiling resource = _
    rw [(leaves resource).isCeiling, add_add_sub_cancel]

/-- A child gets from its parent what it has for itself. -/
structure Shares (before after : SpendingThread) (child : SpendingThread) : Prop where
  accounted : Accounted after
  childAccounted : Accounted child
  worth : ∀ resource, worth resource after + worth resource child = worth resource before

theorem spawn_shares (accounted : Accounted spending) (childId : String)
    (allocation : BudgetResource → Option Amount) :
    let (parent, child) := spending.spawn childId fun resource => (allocation resource).map (·.1)
    Shares spending { spending with toCognitiveThread := parent }
      { toCognitiveThread := child } := by
  choose own consumed left accounts using accounted
  have resolved : ∀ resource, ∃ share, 0 ≤ share ∧ share ≤ left resource ∧
      spending.budget.resolveAllocation (fun resource => (allocation resource).map (·.1))
        (CognitiveThread.shareOf (spending.children.length + 2)) resource = .finite share := by
    intro resource
    refine resolveAllocation_spec (accounts resource).leaves (fun number isRequest => ?_)
      fun number isDefault => shareOf_nonneg (accounts resource).leaves _ (by omega) isDefault
    obtain ⟨amount, _, rfl⟩ := Option.map_eq_some_iff.mp isRequest
    exact amount.2
  choose share nonneg fits isShare using resolved
  have charged := Leaves.chargeAllocation
    (fun resource => ⟨nonneg resource, fits resource, isShare resource⟩)
    fun resource => (accounts resource).leaves
  have parentAccounts : ∀ resource, Accounts
      { spending with toCognitiveThread := (spending.spawn childId fun resource =>
        (allocation resource).map (·.1)).1 }
      resource (own resource) (consumed resource + share resource)
      (left resource - share resource) :=
    fun resource => ⟨(accounts resource).isOwn, charged resource, (accounts resource).nonneg,
      (accounts resource).among.trans (le_add_of_nonneg_right (nonneg resource))⟩
  have childAccounts : ∀ resource, Accounts
      { toCognitiveThread := (spending.spawn childId fun resource =>
        (allocation resource).map (·.1)).2 }
      resource 0 0 (share resource) := by
    intro resource
    refine ⟨rfl, ⟨rfl, ?_, nonneg resource⟩, le_rfl, le_rfl⟩
    rw [zero_add]
    exact isShare resource
  refine ⟨fun resource => ⟨_, _, _, parentAccounts resource⟩,
    fun resource => ⟨_, _, _, childAccounts resource⟩, fun resource => ?_⟩
  refine (congrArg₂ (· + ·) (parentAccounts resource).worth_eq
    (childAccounts resource).worth_eq).trans ?_
  rw [(accounts resource).worth_eq]
  ring

/-! ### The whole tree -/

theorem sum_map_set {Value : Type} (measure : Value → ℚ) {values : List Value} {index : ℕ} {value}
    (atIndex : values[index]? = some value) (next : Value) :
    ((values.set index next).map measure).sum =
      (values.map measure).sum - measure value + measure next := by
  induction values generalizing index with
  | nil => cases atIndex
  | cons first rest ih =>
    cases index with
    | zero =>
      cases atIndex
      rw [List.set_cons_zero, List.map_cons, List.map_cons, List.sum_cons, List.sum_cons]
      ring
    | succ index =>
      rw [List.set_cons_succ, List.map_cons, List.map_cons, List.sum_cons, List.sum_cons,
        ih (by simpa using atIndex)]
      ring

/-- All threads have accounts, and together they have for themselves what the root had. -/
structure Balanced (root : BudgetResource → ℚ) (threads : List SpendingThread) : Prop where
  accounted : ∀ spending ∈ threads, Accounted spending
  worth : ∀ resource, (threads.map (worth resource)).sum = root resource

section

variable {root : BudgetResource → ℚ} {threads : List SpendingThread} {index : ℕ}
  {spending after child : SpendingThread}

theorem Balanced.set (balanced : Balanced root threads)
    (atIndex : threads[index]? = some spending) (preserves : Preserves spending after) :
    Balanced root (threads.set index after) where
  accounted other member :=
    (List.mem_or_eq_of_mem_set member).elim (balanced.accounted other)
      fun same => same ▸ preserves.accounted
  worth resource := by
    rw [sum_map_set _ atIndex, preserves.worth, balanced.worth]
    ring

theorem Balanced.spawn (balanced : Balanced root threads)
    (atIndex : threads[index]? = some spending) (shares : Shares spending after child) :
    Balanced root (threads.set index after ++ [child]) where
  accounted other member := by
    rcases List.mem_append.mp member with old | new
    · exact (List.mem_or_eq_of_mem_set old).elim (balanced.accounted other)
        fun same => same ▸ shares.accounted
    · exact List.mem_singleton.mp new ▸ shares.childAccounted
  worth resource := by
    rw [List.map_append, List.sum_append, sum_map_set _ atIndex, List.map_singleton,
      List.sum_singleton, balanced.worth, ← shares.worth]
    ring

theorem Balanced.step {event next} (balanced : Balanced root threads)
    (taken : threadStep threads event = some next) : Balanced root next := by
  cases event with
  | spawn index childId allocation =>
    obtain ⟨spending, atIndex, rfl⟩ := Option.map_eq_some_iff.mp taken
    have accounted := balanced.accounted spending (List.mem_of_getElem? atIndex)
    exact balanced.spawn atIndex (spawn_shares accounted childId allocation)
  | consume index resource amount =>
    obtain ⟨spending, atIndex, rfl⟩ := Option.map_eq_some_iff.mp taken
    have accounted := balanced.accounted spending (List.mem_of_getElem? atIndex)
    exact balanced.set atIndex (spend_preserves accounted resource amount.2)
  | send index now aborted =>
    obtain ⟨spending, atIndex, rfl⟩ := Option.map_eq_some_iff.mp taken
    have accounted := balanced.accounted spending (List.mem_of_getElem? atIndex)
    exact balanced.set atIndex (receive_preserves accounted now aborted)
  | run index =>
    obtain ⟨spending, atIndex, rfl⟩ := Option.map_eq_some_iff.mp taken
    have accounted := balanced.accounted spending (List.mem_of_getElem? atIndex)
    exact balanced.set atIndex (spend_preserves accounted .cycles rfl)

end

/-- What all threads consumed themselves. -/
def totalOwn (resource : BudgetResource) (threads : List SpendingThread) : JsNumber :=
  (threads.map (·.own resource)).foldr (· + ·) 0

/-- The threads consumed no more than there is of a dimension, each for itself and all together. -/
structure Conserved (root : BudgetSlice) (threads : List SpendingThread) : Prop where
  each : ∀ spending ∈ threads, ∀ resource,
    lessEq (spending.own resource) (spending.budget.ceiling resource) = true ∧
      lessEq (spending.budget.consumed resource) (spending.budget.ceiling resource) = true
  together : ∀ resource, lessEq (totalOwn resource threads) (root.ceiling resource) = true

theorem totalOwn_le_worth {threads} (accounted : ∀ spending ∈ threads, Accounted spending)
    (resource : BudgetResource) :
    ∃ total, totalOwn resource threads = .finite total ∧
      total ≤ (threads.map (worth resource)).sum := by
  induction threads with
  | nil => exact ⟨0, rfl, le_rfl⟩
  | cons spending rest ih =>
    obtain ⟨total, isTotal, below⟩ := ih fun other member =>
      accounted other (List.mem_cons_of_mem _ member)
    obtain ⟨own, consumed, left, accounts⟩ := accounted spending List.mem_cons_self resource
    refine ⟨own + total, ?_, ?_⟩
    · rw [← finite_add, ← isTotal, ← accounts.isOwn]
      rfl
    · rw [List.map_cons, List.sum_cons, accounts.worth_eq]
      linarith [accounts.leaves.nonneg]

/-- Ten of everything. -/
def tenOfEach : BudgetSlice where
  id := "root-budget"
  parentId := none
  ceiling _ := 10
  wallclockDeadlineMs := none

/-- A thread spawns a child with three cycles, which receives a message and is told to consume more
than it has, and the thread runs. -/
def childSpends : List ThreadEvent :=
  [.spawn 0 "child" fun _ => some ⟨3, rfl⟩, .send 1 0 false, .consume 1 .cycles ⟨9, rfl⟩, .run 0]

/-- The threads after some calls. -/
def threadsAfter (events : List ThreadEvent) : List SpendingThread :=
  (execute threadStep [{ toCognitiveThread := .create "root" tenOfEach (fun _ => none) 50 }]
    events).getD []

end Senars.Threads
