/-
This file is the cognitive threads and the slices of a budget they spend: a thread consumes of its
slice, and what it allots to a child is charged to it and is the ceiling of the child.

Every amount that is consumed fits in what is left.
-/

import Senars.Control.Budgets
import Senars.Library.Capped
import Senars.Library.JsNumber

namespace Senars.Threads

open Library Library.JsNumber Control

/-! ### Slices -/

/-- Some amount in each dimension, or in some of them. -/
abbrev BudgetAllocation := BudgetResource → Option JsNumber

structure BudgetSlice where
  id : String
  parentId : Option String
  ceiling : BudgetResource → JsNumber
  consumed : BudgetResource → JsNumber := fun _ => 0
  terminationReason : Option TerminationReason := none
  wallclockDeadlineMs : Option ℕ

def allResources : List BudgetResource := [.cycles, .depth, .memoryOps, .llmCalls]

namespace BudgetSlice

/-- What is not consumed in one dimension. -/
def remaining (budget : BudgetSlice) (resource : BudgetResource) : JsNumber :=
  budget.ceiling resource - budget.consumed resource

def affords (budget : BudgetSlice) (resource : BudgetResource) (amount : JsNumber) : Bool :=
  lessEq amount (budget.remaining resource)

def refusal (budget : BudgetSlice) (resource : BudgetResource) : TerminationReason :=
  if lessEq (budget.remaining resource) 0 then resource.reason else .backpressure

def charge (budget : BudgetSlice) (resource : BudgetResource) (amount : JsNumber) : BudgetSlice :=
  { budget with
    consumed := Function.update budget.consumed resource (budget.consumed resource + amount) }

/-- Consume an amount where it fits, or end the slice. -/
def consume (budget : BudgetSlice) (resource : BudgetResource) (amount : JsNumber) :
    Bool × BudgetSlice :=
  if budget.affords resource amount then (true, budget.charge resource amount)
  else (false, { budget with terminationReason := some (budget.refusal resource) })

/-- What is not consumed, or nothing where more is. -/
def remainingOf (budget : BudgetSlice) (resource : BudgetResource) : JsNumber :=
  JsNumber.max 0 (JsNumber.min (.infinite false) (budget.remaining resource))

/-- What is allotted: what is requested, or the default, as far as it remains. -/
def resolveAllocation (budget : BudgetSlice) (requested : BudgetAllocation)
    (fallback : (BudgetResource → JsNumber) → BudgetAllocation) : BudgetResource → JsNumber :=
  let defaults := fallback budget.remainingOf
  fun resource =>
    JsNumber.min ((requested resource).getD ((defaults resource).getD 0))
      (budget.remainingOf resource)

/-- Charge what is allotted, dimension by dimension. -/
def chargeAllocation (budget : BudgetSlice) (allocation : BudgetResource → JsNumber) :
    BudgetSlice :=
  allResources.foldl
    (fun budget resource =>
      if less 0 (allocation resource) then (budget.consume resource (allocation resource)).2
      else budget)
    budget

/-- A slice of a budget. What is not allotted is what remains, and the whole depth. -/
def slice (parent : BudgetSlice) (childId : String) (allocation : BudgetAllocation) :
    BudgetSlice where
  id := childId
  parentId := some parent.id
  ceiling resource :=
    (allocation resource).getD <|
      match resource with
      | .depth => parent.ceiling .depth
      | resource => parent.ceiling resource - parent.consumed resource
  wallclockDeadlineMs := parent.wallclockDeadlineMs

def isExhausted (budget : BudgetSlice) (now : ℕ) (aborted : Bool) : Bool :=
  budget.terminationReason.isSome ||
    allResources.any (fun resource => lessEq (budget.remaining resource) 0) ||
    budget.wallclockDeadlineMs.any (fun deadline => deadline ≠ 0 && deadline < now) || aborted

end BudgetSlice

/-! ### Threads -/

/-- A thread, its slice and its mailbox, of which only the number of messages counts. -/
structure CognitiveThread where
  budget : BudgetSlice
  mailboxCapacity : ℕ
  mailboxSize : ℕ := 0
  children : List String := []

def defaultMailboxCapacity : ℕ := 50

/-- `Math.floor` of a share, and at least a floor. -/
def perPart (whole : JsNumber) (parts : ℕ) (floor : JsNumber) : JsNumber :=
  JsNumber.max floor (JsNumber.floor (whole / .finite parts))

namespace CognitiveThread

/-- A thread with a slice of a budget. -/
def create (id : String) (parentBudget : BudgetSlice) (budgetAllocation : BudgetAllocation)
    (mailboxCapacity : ℕ) : CognitiveThread where
  budget := parentBudget.slice id budgetAllocation
  mailboxCapacity

/-- What a child is allotted where nothing is requested. -/
def shareOf (shares : ℕ) (remaining : BudgetResource → JsNumber) : BudgetAllocation
  | .depth => some (remaining .depth)
  | resource => some (perPart (remaining resource) shares 0)

/-- Spawn a child. What it is allotted is charged to the parent. -/
def spawn (parent : CognitiveThread) (childId : String) (allocation : BudgetAllocation) :
    CognitiveThread × CognitiveThread :=
  let shares := parent.children.length + 2
  let childAllocation := parent.budget.resolveAllocation allocation (shareOf shares)
  let parent := { parent with budget := parent.budget.chargeAllocation childAllocation }
  let child := create childId parent.budget (fun resource => some (childAllocation resource))
    defaultMailboxCapacity
  ({ parent with children := addMember parent.children childId }, child)

def consume (thread : CognitiveThread) (resource : BudgetResource) (amount : JsNumber) :
    Bool × CognitiveThread :=
  let (granted, budget) := thread.budget.consume resource amount
  (granted, { thread with budget })

/-- What came of sending a message. -/
inductive Sent where
  | exhausted
  | mailboxFull
  | sent
  deriving DecidableEq

/-- Send a message to a thread. It costs a cycle, also where the mailbox is full. -/
def send (thread : CognitiveThread) (now : ℕ) (aborted : Bool) : Sent × CognitiveThread :=
  if thread.budget.isExhausted now aborted then (.exhausted, thread)
  else
    match thread.consume .cycles 1 with
    | (false, thread) => (.exhausted, thread)
    | (true, thread) =>
      if thread.mailboxCapacity ≤ thread.mailboxSize then (.mailboxFull, thread)
      else (.sent, { thread with mailboxSize := thread.mailboxSize + 1 })

/-- Begin to run, which costs a cycle where there is one. -/
def run (thread : CognitiveThread) : Bool × CognitiveThread := thread.consume .cycles 1

end CognitiveThread

end Senars.Threads
