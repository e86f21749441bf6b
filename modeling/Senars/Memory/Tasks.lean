/-
This file is about adding tasks to a concept. A goal or a question goes into its bag. A
belief about a term the concept already has a belief about is not put beside it: it revises
it, unless both have the same truth.
-/

import Senars.Memory.Merge
import Senars.Algebra.RevisionLaws
import Senars.Terms.Stamp
import Senars.Terms.Term

namespace Senars.Memory

open Library Bag Terms Senars.Algebra

/-! ### Tasks -/

structure Budget where
  priority : ℚ
  durability : ℚ := 4 / 5
  quality : ℚ := 9 / 10
  cycles : ℕ := 0
  depth : ℕ := 0
  deriving DecidableEq

/-- What is told of a task when it is added to a concept. -/
structure TaskInput where
  term : Term
  truth : Option Truth
  budget : Budget
  timestamp : Option ℚ := none
  stamp : Stamp
  occurrenceTime : Option ℚ := none
  derived : Option Bool := none
  deriving DecidableEq

/-- A task as a bag has it. -/
structure TaskData extends TaskInput where
  id : String
  priority : ℚ
  deriving DecidableEq

/-- How far apart two truth values of the same belief may be. -/
def truthIdentityEpsilon : ℚ := 1 / 1000000000

/-! ### Adding -/

namespace Concept

/-- Write the attention of a concept whose task was added. -/
def recordAccess (concept : Concept TaskData) : Concept TaskData :=
  { concept with priority := max 0 (min 1 (concept.priority + 1 / 10)) }

/-- The concept with another bag of a kind. -/
def withBag (concept : Concept TaskData) (kind : TaskKind) (bag : PriorityBag TaskData) :
    Concept TaskData :=
  match kind with
  | .belief => { concept with beliefBag := bag }
  | .goal => { concept with goalBag := bag }
  | .question => { concept with questionBag := bag }

/-- Put a task into a bag, and the bag into the concept. -/
def store (concept : Concept TaskData) (kind : TaskKind) (bag : PriorityBag TaskData)
    (item : TaskData) (now : ℚ) : Bool × Concept TaskData :=
  let (added, left) := bag.add TaskData.priority item now
  (added, if added then (concept.withBag kind left).recordAccess else concept.withBag kind left)

/-- The belief about a term, if the concept has one. -/
def findMatchingBelief (concept : Concept TaskData) (term : Term) : Option TaskData :=
  concept.beliefBag.items.find? fun item => decide (termKey item.term = termKey term)

def addBeliefWithRevision (concept : Concept TaskData) (data : TaskInput) (madeId : String)
    (now : ℚ) : Bool × Concept TaskData :=
  match concept.findMatchingBelief data.term with
  | none =>
    concept.store .belief concept.beliefBag
      { data with id := madeId, priority := data.budget.priority } now
  | some existing =>
    match data.truth, existing.truth with
    | some given, some held =>
      -- identical re-input cannot inflate confidence
      if isTruthEqual given held truthIdentityEpsilon then (true, concept.recordAccess)
      else
        concept.store .belief
          (concept.beliefBag.remove TaskData.priority TaskData.id (.inr existing)).2
          { data with
            id := existing.id
            priority := data.budget.priority
            truth := some (Truth.revision given held)
            timestamp := some now } now
    | _, _ => (false, concept)

def addTask (concept : Concept TaskData) (kind : TaskKind) (data : TaskInput) (madeId : String)
    (now : ℚ) : Bool × Concept TaskData :=
  match kind with
  | .belief => concept.addBeliefWithRevision data madeId now
  | kind =>
    concept.store kind (concept.bag kind)
      { data with id := madeId, priority := data.budget.priority } now

end Concept

/-- A concept without tasks, of some sizes. -/
def newConcept (maxBeliefs maxGoals maxQuestions : ℕ) : Concept TaskData where
  beliefBag := { capacity := maxBeliefs }
  goalBag := { capacity := maxGoals }
  questionBag := { capacity := maxQuestions }
  priority := 0

end Senars.Memory
