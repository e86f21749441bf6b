/-
This file is the task that stands for a belief, and its normalisation: a negated
claim is the claim with its truth negated.

A task has the fields that differ between the tasks a query makes. Its kind, its
occurrence time and the rest of its weight are the same for all of them.
-/

import Senars.Algebra.Truth
import Senars.Terms.Stamp
import Senars.Terms.Symbols

namespace Senars.Query

open Library Terms Senars.Algebra

structure Task where
  term : Term
  truth : Truth
  priority : JsNumber
  stamp : Stamp

/-- What making a task throws. -/
inductive TaskError where
  | term (error : TermError)
  | noFixedPoint (passes : Nat) (term : Term)

/-- One rewrite over a claim. -/
structure TaskReducer where
  id : String
  applies : Task → Bool
  reduce : Task → Except TaskError Task

/-- A negation moves into the truth, unless it negates a negation. -/
def negationIntoTruth : TaskReducer where
  id := "negation-into-truth"
  applies task :=
    task.term.kind? = some .negation &&
      ((getArgs task.term).head?.bind Term.kind?) != some .negation
  reduce task :=
    match getArgs task.term with
    | [] => .error (.term .notATerm)
    | operand :: _ => .ok { task with term := operand, truth := Truth.negation task.truth }

def taskReducers : List TaskReducer := [negationIntoTruth]

/-- One pass over the registry: the task after it, unless nothing rewrote it. -/
def taskPass : List TaskReducer → Task → Except TaskError (Option Task)
  | [], _ => .ok none
  | reducer :: rest, task =>
    if reducer.applies task then do
      let next ← reducer.reduce task
      let later ← taskPass rest next
      .ok (some (later.getD next))
    else taskPass rest task

def maxTaskPasses : Nat := 4

/-- Passes until one rewrites nothing, for a task that was given as `original`. -/
def settleTask (collator : Collator) (original : Term) : Nat → Task → Except TaskError Task
  | 0, _ => .error (.noFixedPoint maxTaskPasses original)
  | remaining + 1, task => do
    match ← taskPass taskReducers task with
    | none => .ok task
    | some next =>
      match canonicalTerm termKey collator next.term with
      | .error error => .error (.term error)
      | .ok term => settleTask collator original remaining { next with term := term }

def canonicalTask (collator : Collator) (task : Task) : Except TaskError Task :=
  settleTask collator task.term maxTaskPasses task

section Canonical

variable {collator : Collator} {task : Task}

theorem settleTask_of_not_applies (original : Term) (remaining : Nat)
    (quiet : negationIntoTruth.applies task = false) :
    settleTask collator original (remaining + 1) task = .ok task := by
  rw [settleTask, taskReducers, taskPass, quiet]
  rfl

theorem canonicalTask_positive (canonical : Canonical termKey collator task.term) :
    ∃ made, canonicalTask collator task = .ok made ∧ made.term.kind? ≠ some .negation ∧
      (made.term = task.term ∨ task.term = .compound .negation [made.term]) := by
  rw [canonicalTask, maxTaskPasses]
  obtain ⟨term, truth, priority, stamp⟩ := task
  by_cases negation : term.kind? = some .negation
  swap
  · refine ⟨_, settleTask_of_not_applies _ _ ?_, negation, .inl rfl⟩
    simp [negationIntoTruth, negation]
  cases term with
  | atom symbol => cases negation
  | compound kind args =>
    obtain rfl : kind = .negation := Option.some.inj negation
    obtain ⟨operand, rfl⟩ := canonical.negation_args
    have operandCanonical := canonical.args operand List.mem_cons_self
    have plain : operand.kind? ≠ some .negation := by
      intro inner
      cases operand with
      | atom symbol => cases inner
      | compound kind args =>
        obtain rfl : kind = .negation := Option.some.inj inner
        cases canonical.settled doubleNegation (by simp [termReducers])
    let made : Task := ⟨operand, Truth.negation truth, priority, stamp⟩
    have quiet : negationIntoTruth.applies made = false := by
      simp [negationIntoTruth, made, plain]
    refine ⟨made, ?_, plain, .inr rfl⟩
    have first : taskPass taskReducers ⟨.compound .negation [operand], truth, priority, stamp⟩ =
        .ok (some made) := by
      simp [taskReducers, taskPass, negationIntoTruth, plain, made, bind, Except.bind]
    rw [settleTask, first]
    simp only [bind, Except.bind]
    rw [show canonicalTerm termKey collator made.term = .ok operand from
      operandCanonical.canonicalTerm_eq]
    exact settleTask_of_not_applies _ _ quiet

theorem canonicalTask_ok (canonical : Canonical termKey collator task.term) :
    ∃ made, canonicalTask collator task = .ok made :=
  (canonicalTask_positive canonical).imp fun _ => And.left

end Canonical

end Senars.Query
