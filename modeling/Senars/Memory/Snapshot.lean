/-
This file is the dump of a memory, and the memory a dump is loaded into. A dump has a
record for each task, which names the priority of the task's budget, not the one it has in
its bag; loading makes a task of each record and adds it to a new concept.
-/

import Senars.Memory.Store
import Senars.Query.Task
import Senars.Rules.Processor

namespace Senars.Memory

open Library Bag PriorityBag Terms Senars.Algebra

/-! ### Records -/

/-- A task as it crosses a persistence boundary. -/
structure TaskRecord where
  term : String
  truth : Option Truth := none
  /-- The priority of a budget, not a whole one. -/
  budget : Option ℚ := none
  stamp : Option Stamp := none
  occurrenceTime : Option ℚ := none

structure SerializedConcept where
  term : String
  /-- None where it is no number. -/
  priority : Option ℚ
  beliefs : List TaskRecord := []
  goals : List TaskRecord := []
  questions : List TaskRecord := []

structure SerializedMemory where
  version : ℕ
  timestamp : ℚ
  concepts : List SerializedConcept
  totalConcepts : ℕ
  totalTasks : ℕ

def MEMORY_VERSION : ℕ := 1

/-- What a memory is dumped and loaded with: how a term is written and read, and what is made and
read off the clock for a record. -/
structure Surroundings where
  toText : Term → String
  parse : String → Option TermRef
  collator : Collator
  madeStamp : TaskRecord → Stamp
  madeId : TaskRecord → String
  taskTime : TaskRecord → ℚ
  conceptTime : SerializedConcept → ℚ

variable (surroundings : Surroundings)

/-! ### Dumping -/

def serializeTask (item : TaskData) : TaskRecord where
  term := surroundings.toText item.term
  truth := item.truth
  budget := some item.budget.priority
  stamp := some item.stamp
  occurrenceTime := item.occurrenceTime

def serializeBag (bag : PriorityBag TaskData) : List TaskRecord :=
  bag.items.map (serializeTask surroundings)

def serializeConcept (cell : ConceptCell) : SerializedConcept where
  term := surroundings.toText cell.term.term
  priority := some cell.priority
  beliefs := serializeBag surroundings cell.concept.beliefBag
  goals := serializeBag surroundings cell.concept.goalBag
  questions := serializeBag surroundings cell.concept.questionBag

def serialize (memory : Memory) (now : ℚ) : SerializedMemory where
  version := MEMORY_VERSION
  timestamp := now
  concepts := memory.listConcepts.map fun object =>
    serializeConcept surroundings (memory.cell object)
  totalConcepts := memory.listConcepts.length
  totalTasks := memory.totalTasks

/-! ### Loading -/

def createTaskWeight (priority : ℚ) : Budget := { priority }

def NEUTRAL_BUDGET : Budget := createTaskWeight (1 / 2)

/-- A live task. -/
structure LiveTask where
  term : Term
  truth : Truth
  budget : Budget
  stamp : Stamp
  occurrenceTime : ℚ

/-- The live task of a record, none where its term cannot be read. -/
def rehydrateTask (record : TaskRecord) : Except Query.TaskError (Option LiveTask) :=
  match surroundings.parse record.term with
  | none => .ok none
  | some term =>
    let budget := createTaskWeight (record.budget.getD NEUTRAL_BUDGET.priority)
    (Query.canonicalTask surroundings.collator
      { term := term.term
        truth := record.truth.getD Rules.neutralTruth
        priority := .finite budget.priority
        stamp := record.stamp.getD (surroundings.madeStamp record) }).map fun task =>
      some
        { term := task.term
          truth := task.truth
          budget
          stamp := task.stamp
          occurrenceTime := record.occurrenceTime.getD (surroundings.taskTime record) }

/-- Add the tasks of some records to a concept, until making one throws. -/
def restoreBag (kind : TaskKind) : ConceptCell → List TaskRecord → Bool × ConceptCell
  | cell, [] => (true, cell)
  | cell, record :: rest =>
    match rehydrateTask surroundings record with
    | .error _ => (false, cell)
    | .ok none => restoreBag kind cell rest
    | .ok (some task) =>
      let (accepted, concept) := cell.concept.addTask kind
        { term := task.term
          truth := some task.truth
          budget := task.budget
          stamp := task.stamp }
        (surroundings.madeId record) (surroundings.taskTime record)
      restoreBag kind
        { cell with
          concept
          lastAccessedAt := if accepted then surroundings.taskTime record
            else cell.lastAccessedAt }
        rest

/-- Restore the bags of some kinds one after the other. -/
def restoreBags : ConceptCell → List (TaskKind × List TaskRecord) → Bool × ConceptCell
  | cell, [] => (true, cell)
  | cell, (kind, records) :: rest =>
    match restoreBag surroundings kind cell records with
    | (false, left) => (false, left)
    | (true, left) => restoreBags left rest

/-- Restore the tasks of a concept and last, where none of them threw, its attention. -/
def restoreCell (cell : ConceptCell) (serialized : SerializedConcept) : ConceptCell :=
  match restoreBags surroundings cell
    [(.belief, serialized.beliefs), (.goal, serialized.goals),
      (.question, serialized.questions)], serialized.priority with
  | (true, left), some value =>
    { left with concept := { left.concept with priority := max 0 (min 1 value) } }
  | (_, left), _ => left

def restoreConcept (memory : Memory) (serialized : SerializedConcept) : Memory :=
  match surroundings.parse serialized.term with
  | none => memory
  | some term =>
    let (object, left) := memory.addConcept term (surroundings.conceptTime serialized)
    { left with
      cell := Function.update left.cell object
        (restoreCell surroundings (left.cell object) serialized) }

def deserialize (data : SerializedMemory) (memory : Memory) : Except String Memory :=
  if data.version ≠ MEMORY_VERSION then
    .error s!"Unsupported memory version: {data.version}"
  else .ok (data.concepts.foldl (restoreConcept surroundings) memory.clear)

/-! ### Runs -/

/-- What may happen to a memory and its concepts. Of what is done to a concept itself, by its own
operations, its bags' or a merge, the event tells what that leaves of it. -/
inductive StoreEvent where
  | memory (event : MemoryEvent)
  | inside (object : ℕ) (concept : Concept TaskData) (lastAccessedAt : ℚ)

def storeStep : Machine Memory StoreEvent
  | memory, .memory event => memoryStep memory event
  | memory, .inside object concept lastAccessedAt =>
    if object < memory.made then
      some
        { memory with
          cell := Function.update memory.cell object
            ⟨(memory.cell object).term, concept, lastAccessedAt⟩ }
    else none

end Senars.Memory
